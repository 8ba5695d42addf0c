import WasmBinary.Instruction.Decode
import WasmBinary.Proofs.Vector

/-!
# The binary grammar of instructions

Which byte strings stand for which instructions, as the opcode tables define it. An instruction is
its opcode and the immediates that the shape of the opcode prescribes. A block is its opcode, a block
type and nested instructions, closed by `end`; `if` alone may have a second arm behind `else`, and
`try` alone may be closed by `delegate` and a label. Numbers may have any accepted LEB128 form.

The grammar is told without reading anything: `Instruction.Form p bs i` says that the byte string
`bs`, standing at position `p` of the input, is instruction `i`, whose offset therefore is `p`.

* `Instruction.Form`, `Instruction.SequenceForm`, `Expr.Form`: the grammar.
* `Instruction.body`, `Instruction.alternative`: the instructions nested in an instruction.
* `Instruction.SequenceForm.foundIn`: every instruction, nested ones included, stands at its offset.
-/
namespace WasmBinary

open Leb128 (U32Form IsSigned)

/-! ## Opcodes -/

namespace Opcode

/-- The byte in front of the codes of a space. -/
def Space.prefixByte? : Space → Option UInt8
  | core => none
  | misc => some 0xFC
  | simd => some 0xFD
  | atomic => some 0xFE

/-- The first byte of an opcode in the input. -/
def firstByte (o : Opcode) : UInt8 := o.space.prefixByte?.getD (UInt8.ofNat o.code)

/-- A core opcode is its code. Any other is the byte of its space and its code as a number. -/
inductive Form : Bytes → Opcode → Prop
  | core {o : Opcode} (h : o.space = .core) : Form [UInt8.ofNat o.code] o
  | prefixed {o : Opcode} {byte : UInt8} {bs : Bytes} {code : UInt32}
      (h : o.space.prefixByte? = some byte) (hcode : U32Form bs code)
      (code_eq : code.toNat = o.code) : Form (byte :: bs) o

theorem firstByte_of_core {o : Opcode} (h : o.space = .core) : o.firstByte = UInt8.ofNat o.code := by
  simp [firstByte, h, Space.prefixByte?]

theorem Form.exists_cons {bs : Bytes} {o : Opcode} (h : Form bs o) :
    ∃ rest, bs = o.firstByte :: rest := by
  cases h with
  | core h => exact ⟨[], by rw [firstByte_of_core h]⟩
  | prefixed h _ _ => exact ⟨_, by simp [firstByte, h]; rfl⟩

theorem Form.length_pos {bs : Bytes} {o : Opcode} (h : Form bs o) : 0 < bs.length := by
  obtain ⟨rest, rfl⟩ := h.exists_cons
  exact Nat.succ_pos _

end Opcode

/-! ## Immediates and block types -/

/-- Alignment and offset of an access. -/
def MemArg.Form (bs : Bytes) (m : MemArg) : Prop :=
  ∃ bs₁ bs₂, bs = bs₁ ++ bs₂ ∧ U32Form bs₁ m.align ∧ U32Form bs₂ m.offset

/-- The immediates that a shape prescribes. Those of a block belong to `Instruction.Form`. -/
inductive Immediate.Form : Shape → Bytes → Immediate → Prop
  | none : Form .none [] .none
  | index {bs : Bytes} {i : Index} (h : U32Form bs i) : Form .index bs (.index i)
  | indexPair {bs bs' : Bytes} {i j : Index} (h : U32Form bs i) (h' : U32Form bs' j) :
      Form .indexPair (bs ++ bs') (.indexPair i j)
  | branchTable {bs bs' : Bytes} {targets : List Index} {fallback : Index}
      (h : Format.Vector (.fixed U32Form) 0 bs targets) (h' : U32Form bs' fallback) :
      Form .branchTable (bs ++ bs') (.branchTable targets fallback)
  | i32 {bs : Bytes} {v : Int32} (h : IsSigned 32 bs v.toInt) : Form .i32 bs (.i32 v)
  | i64 {bs : Bytes} {v : Int64} (h : IsSigned 64 bs v.toInt) : Form .i64 bs (.i64 v)
  | f32 {bs : Bytes} (h : bs.length = 4) :
      Form .f32 bs (.f32 ⟨UInt32.ofNat (Bytes.ofLittleEndian bs)⟩)
  | f64 {bs : Bytes} (h : bs.length = 8) :
      Form .f64 bs (.f64 ⟨UInt64.ofNat (Bytes.ofLittleEndian bs)⟩)
  | memArg {bs : Bytes} {m : MemArg} (h : MemArg.Form bs m) : Form .memArg bs (.memArg m)
  | memArgLane {bs : Bytes} {m : MemArg} (h : MemArg.Form bs m) (lane : UInt8) :
      Form .memArgLane (bs ++ [lane]) (.memArgLane m lane)
  | lane (lane : UInt8) : Form .lane [lane] (.lane lane)
  | v128 (lanes : Lanes) : Form .v128 lanes.val (.v128 lanes)
  | valueTypes {bs : Bytes} {types : List ValueType}
      (h : Format.Vector (.fixed ValueType.markers.Form) 0 bs types) :
      Form .selectTyped bs (.valueTypes types)
  | refType {bs : Bytes} {type : RefType} (h : RefType.markers.Form bs type) :
      Form .refNull bs (.refType type)
  | reserved (any : UInt8) : Form .reserved [any] .none

/-- The empty type, a value type, or the index of a type as a signed number of 33 bits. -/
inductive BlockType.Form : Bytes → BlockType → Prop
  | empty : Form [0x40] .empty
  | value {bs : Bytes} {type : ValueType} (h : ValueType.markers.Form bs type) :
      Form bs (.value type)
  | typeIndex {bs : Bytes} {index : Index} (h : IsSigned 33 bs index.toNat) :
      Form bs (.typeIndex index)

/-! ## Instructions -/

namespace Instruction

mutual

/-- The instruction that a byte string is at a position. -/
inductive Form : Nat → Bytes → Instruction → Prop
  | plain {p : Nat} {head bs : Bytes} {o : Opcode} {immediate : Immediate}
      (hhead : Opcode.Form head o) (shape_ne : o.shape ≠ .block)
      (himmediate : Immediate.Form o.shape bs immediate) :
      Form p (head ++ bs) (.plain o p immediate)
  | block {p : Nat} {head type bs : Bytes} {o : Opcode} {t : BlockType} {body : Expr}
      (hhead : Opcode.Form head o) (shape_eq : o.shape = .block) (htype : BlockType.Form type t)
      (hbody : SequenceForm (p + head.length + type.length) bs body) :
      Form p (head ++ (type ++ (bs ++ [0x0B]))) (.block o p t body)
  | ifElse {p : Nat} {head type bs bs' : Bytes} {t : BlockType} {body alternative : Expr}
      (hhead : Opcode.Form head .ifBlock) (htype : BlockType.Form type t)
      (hbody : SequenceForm (p + head.length + type.length) bs body)
      (halternative :
        SequenceForm (p + head.length + type.length + bs.length + 1) bs' alternative) :
      Form p (head ++ (type ++ (bs ++ [0x05] ++ (bs' ++ [0x0B])))) (.ifElse p t body alternative)
  | tryDelegate {p : Nat} {head type bs bs' : Bytes} {t : BlockType} {body : Expr} {label : Index}
      (hhead : Opcode.Form head .tryBlock) (htype : BlockType.Form type t)
      (hbody : SequenceForm (p + head.length + type.length) bs body) (hlabel : U32Form bs' label) :
      Form p (head ++ (type ++ (bs ++ 0x18 :: bs'))) (.tryDelegate p t body label)

/-- The instructions that a byte string is at a position, one behind the other. -/
inductive SequenceForm : Nat → Bytes → Expr → Prop
  | nil (p : Nat) : SequenceForm p [] []
  | cons {p : Nat} {bs bs' : Bytes} {i : Instruction} {rest : Expr} (first : Form p bs i)
      (others : SequenceForm (p + bs.length) bs' rest) : SequenceForm p (bs ++ bs') (i :: rest)

end

end Instruction

/-- Instructions and the `end` that closes them. -/
inductive Expr.Form : Nat → Bytes → Expr → Prop
  | closed {p : Nat} {bs : Bytes} {e : Expr} (h : Instruction.SequenceForm p bs e) :
      Form p (bs ++ [0x0B]) e

/-! ## Nested instructions -/

namespace Instruction

/-- The instructions that are nested in an instruction, those of the first arm of an `if`. -/
def body : Instruction → Expr
  | plain .. => []
  | block _ _ _ body | ifElse _ _ body _ | tryDelegate _ _ body _ => body

/-- The instructions of the second arm of an `if`. -/
def alternative : Instruction → Expr
  | ifElse _ _ _ alternative => alternative
  | _ => []

theorem walk_eq (i : Instruction) : walk i = i :: (walkAll i.body ++ walkAll i.alternative) := by
  cases i <;> simp [walk, walkAll, body, alternative]

/-! ## Offsets -/

theorem Form.exists_cons {p : Nat} {bs : Bytes} {i : Instruction} (h : Form p bs i) :
    ∃ rest, bs = i.opcode.firstByte :: rest := by
  cases h with
  | plain hhead _ _ | block hhead _ _ _ | ifElse hhead _ _ _ | tryDelegate hhead _ _ _ =>
    obtain ⟨rest, rfl⟩ := hhead.exists_cons
    exact ⟨_, rfl⟩

theorem Form.offset_eq {p : Nat} {bs : Bytes} {i : Instruction} (h : Form p bs i) :
    i.offset = p := by
  cases h <;> rfl

/-- Bytes of `i` stand at its offset in `bs`, which itself stands at position `p`. -/
def FoundIn (p : Nat) (bs : Bytes) (i : Instruction) : Prop :=
  ∃ front own back, bs = front ++ (own ++ back) ∧ i.offset = p + front.length ∧ Form i.offset own i

namespace FoundIn

variable {p : Nat} {bs : Bytes} {i : Instruction}

theorem append_left (front : Bytes) (h : FoundIn (p + front.length) bs i) :
    FoundIn p (front ++ bs) i := by
  obtain ⟨front', own, back, rfl, hoffset, hform⟩ := h
  refine ⟨front ++ front', own, back, by simp, ?_, hform⟩
  rw [hoffset, List.length_append, Nat.add_assoc]

theorem append_right (back : Bytes) (h : FoundIn p bs i) : FoundIn p (bs ++ back) i := by
  obtain ⟨front, own, back', rfl, hoffset, hform⟩ := h
  exact ⟨front, own, back' ++ back, by simp, hoffset, hform⟩

/-- The byte at the offset of an instruction is the first one of its opcode. -/
theorem firstByte (h : FoundIn p bs i) :
    p ≤ i.offset ∧ bs[i.offset - p]? = some i.opcode.firstByte := by
  obtain ⟨front, own, back, rfl, hoffset, hform⟩ := h
  obtain ⟨rest, rfl⟩ := hform.exists_cons
  refine ⟨by omega, ?_⟩
  rw [List.getElem?_append_right (by omega), show i.offset - p - front.length = 0 by omega]
  rfl

end FoundIn

theorem Form.foundIn_self {p : Nat} {bs : Bytes} {i : Instruction} (h : Form p bs i) :
    FoundIn p bs i := by
  refine ⟨[], bs, [], by simp, by simp [h.offset_eq], ?_⟩
  rw [h.offset_eq]
  exact h

mutual

theorem Form.foundIn : ∀ {p : Nat} {bs : Bytes} {i : Instruction}, Form p bs i →
    ∀ j ∈ walk i, FoundIn p bs j
  | _, _, _, h@(.plain _ _ _) => by
    intro j hj
    simp only [walk, List.mem_singleton] at hj
    subst hj
    exact h.foundIn_self
  | _, _, _, h@(.block _ _ _ hbody) => by
    intro j hj
    simp only [walk, List.mem_cons] at hj
    rcases hj with rfl | hj
    · exact h.foundIn_self
    · exact (((hbody.foundIn j hj).append_right _).append_left _).append_left _
  | _, _, _, h@(.ifElse _ _ hbody halternative) => by
    intro j hj
    simp only [walk, List.mem_cons, List.mem_append] at hj
    rcases hj with rfl | hj | hj
    · exact h.foundIn_self
    · exact ((((hbody.foundIn j hj).append_right _).append_right _).append_left _).append_left _
    · have hj := (halternative.foundIn j hj).append_right [0x0B]
      exact ((FoundIn.append_left (_ ++ [0x05]) (by simpa [Nat.add_assoc] using hj)).append_left
        _).append_left _
  | _, _, _, h@(.tryDelegate _ _ hbody _) => by
    intro j hj
    simp only [walk, List.mem_cons] at hj
    rcases hj with rfl | hj
    · exact h.foundIn_self
    · exact (((hbody.foundIn j hj).append_right _).append_left _).append_left _

/-- Every instruction of a sequence stands at its offset, nested ones included. -/
theorem SequenceForm.foundIn : ∀ {p : Nat} {bs : Bytes} {e : Expr}, SequenceForm p bs e →
    ∀ j ∈ walkAll e, FoundIn p bs j
  | _, _, _, .nil _ => by simp [walkAll]
  | _, _, _, .cons first others => by
    intro j hj
    simp only [walkAll, List.mem_append] at hj
    rcases hj with hj | hj
    · exact (first.foundIn j hj).append_right _
    · exact (others.foundIn j hj).append_left _

end

end Instruction

theorem Expr.Form.foundIn {p : Nat} {bs : Bytes} {e : Expr} (h : Expr.Form p bs e) :
    ∀ i ∈ Instruction.walkAll e, Instruction.FoundIn p bs i := by
  cases h with
  | closed h =>
    intro i hi
    exact (h.foundIn i hi).append_right [0x0B]

end WasmBinary
