import WasmBinary.Proofs.Layout
import WasmBinary.Proofs.Offsets

/-!
# Assembling expressions

Bytes for any expression, with every number in its shortest form. An expression is well-formed if each
opcode has the immediates that its shape prescribes and the lists among them are short enough to be
counted. The bytes stand for the expression: read at any place, it is the same but for the offsets.

* `Immediate.Fits`, `Instruction.WellFormed`: what can be assembled.
* `Opcode.form_assemble`, `Immediate.form_assemble`, `BlockType.form_assemble`: the parts of an
  instruction.
* `Expr.exists_form_assemble`: expressions.
-/
namespace WasmBinary

open Leb128 (encodeUnsigned encodeSigned U32Form u32Form_encodeUnsigned u32Form_encodeUnsigned_of_lt
  isSigned_encodeSigned isSigned_encode_int32 isSigned_encode_int64)

/-! ## Opcodes -/

namespace Opcode

/-- The byte of a core opcode. For others, the byte of the space and the code. -/
def assemble (o : Opcode) : Bytes :=
  match o.space.prefixByte? with
  | none => [UInt8.ofNat o.code]
  | some byte => byte :: encodeUnsigned o.code

theorem code_lt (o : Opcode) : o.code < UInt32.size := by
  have hrows (space : Space) : ∀ row ∈ space.rows, row.code < UInt32.size := by
    cases space <;> decide +kernel
  obtain ⟨row, hrow⟩ := Option.isSome_iff_exists.mp o.listed
  have hfind : o.space.rows.find? (·.code == o.code) = some row := hrow
  have hcode : row.code = o.code := by simpa using List.find?_some hfind
  rw [← hcode]
  exact hrows o.space row (List.mem_of_find?_eq_some hfind)

theorem form_assemble (o : Opcode) : Form o.assemble o := by
  unfold assemble
  split
  · rename_i hnone
    refine .core ?_
    cases hspace : o.space with
    | core => rfl
    | misc | simd | atomic =>
      rw [hspace] at hnone
      cases hnone
  · rename_i byte hbyte
    have hcode := UInt32.toNat_ofNat_of_lt' o.code_lt
    exact .prefixed hbyte (u32Form_encodeUnsigned_of_lt o.code_lt) hcode

end Opcode

/-! ## Immediates and block types -/

namespace Immediate

/-- The immediates that an opcode of a shape can have. -/
inductive Fits : Shape → Immediate → Prop
  | none : Fits .none .none
  | index (i : Index) : Fits .index (.index i)
  | indexPair (i j : Index) : Fits .indexPair (.indexPair i j)
  | branchTable {targets : List Index} (fallback : Index) (h : targets.length < UInt32.size) :
      Fits .branchTable (.branchTable targets fallback)
  | i32 (v : Int32) : Fits .i32 (.i32 v)
  | i64 (v : Int64) : Fits .i64 (.i64 v)
  | f32 (v : Ieee754.F32) : Fits .f32 (.f32 v)
  | f64 (v : Ieee754.F64) : Fits .f64 (.f64 v)
  | memArg (m : MemArg) : Fits .memArg (.memArg m)
  | memArgLane (m : MemArg) (number : UInt8) : Fits .memArgLane (.memArgLane m number)
  | lane (number : UInt8) : Fits .lane (.lane number)
  | v128 (lanes : Lanes) : Fits .v128 (.v128 lanes)
  | valueTypes {types : List ValueType} (h : types.length < UInt32.size) :
      Fits .selectTyped (.valueTypes types)
  | refType (type : RefType) : Fits .refNull (.refType type)
  | reserved : Fits .reserved .none

/-- Alignment and offset of an access. -/
def assembleAccess (m : MemArg) : Bytes :=
  encodeUnsigned m.align.toNat ++ encodeUnsigned m.offset.toNat

def assembleIndices : List Index → Bytes := vectorLayout fun i => encodeUnsigned i.toNat

/-- The bytes behind an opcode. A reserved byte is zero. -/
def assemble : Shape → Immediate → Bytes
  | .reserved, _ => [0x00]
  | _, .none => []
  | _, .index i => encodeUnsigned i.toNat
  | _, .indexPair i j => encodeUnsigned i.toNat ++ encodeUnsigned j.toNat
  | _, .branchTable targets fallback => assembleIndices targets ++ encodeUnsigned fallback.toNat
  | _, .i32 v => encodeSigned v.toInt
  | _, .i64 v => encodeSigned v.toInt
  | _, .f32 v => Bytes.littleEndian 4 v.bits.toNat
  | _, .f64 v => Bytes.littleEndian 8 v.bits.toNat
  | _, .memArg m => assembleAccess m
  | _, .memArgLane m number => assembleAccess m ++ [number]
  | _, .lane number => [number]
  | _, .v128 lanes => lanes.val
  | _, .valueTypes types => vectorLayout (fun t => [t.marker]) types
  | _, .refType type => [type.marker]

theorem form_assembleAccess (m : MemArg) : MemArg.Form (assembleAccess m) m :=
  ⟨_, _, rfl, u32Form_encodeUnsigned m.align, u32Form_encodeUnsigned m.offset⟩

theorem form_assembleIndices {indices : List Index} (h : indices.length < UInt32.size) :
    Format.Vector (.fixed U32Form) 0 (assembleIndices indices) indices :=
  .form_layout h fun i _ => u32Form_encodeUnsigned i

theorem form_assemble {shape : Shape} {i : Immediate} (h : Fits shape i) :
    Form shape (assemble shape i) i := by
  cases h with
  | none => exact .none
  | index i => exact .index (u32Form_encodeUnsigned i)
  | indexPair i j => exact .indexPair (u32Form_encodeUnsigned i) (u32Form_encodeUnsigned j)
  | branchTable fallback h =>
    exact .branchTable (form_assembleIndices h) (u32Form_encodeUnsigned fallback)
  | i32 v => exact .i32 (isSigned_encode_int32 v)
  | i64 v => exact .i64 (isSigned_encode_int64 v)
  | f32 v =>
    have hvalue : Bytes.ofLittleEndian (Bytes.littleEndian 4 v.bits.toNat) = v.bits.toNat :=
      Bytes.ofLittleEndian_littleEndian 4 _ v.bits.toNat_lt
    have hform := Form.f32 (Bytes.length_littleEndian 4 v.bits.toNat)
    rw [hvalue, UInt32.ofNat_toNat] at hform
    exact hform
  | f64 v =>
    have hvalue : Bytes.ofLittleEndian (Bytes.littleEndian 8 v.bits.toNat) = v.bits.toNat :=
      Bytes.ofLittleEndian_littleEndian 8 _ v.bits.toNat_lt
    have hform := Form.f64 (Bytes.length_littleEndian 8 v.bits.toNat)
    rw [hvalue, UInt64.ofNat_toNat] at hform
    exact hform
  | memArg m => exact .memArg (form_assembleAccess m)
  | memArgLane m number => exact .memArgLane (form_assembleAccess m) number
  | lane number => exact .lane number
  | v128 lanes => exact .v128 lanes
  | valueTypes h =>
    exact .valueTypes (.form_layout h fun t _ => ⟨t.marker, rfl, t.find?_marker⟩)
  | refType type => exact .refType ⟨type.marker, rfl, type.find?_marker⟩
  | reserved => exact .reserved 0x00

theorem Fits.shape_ne {shape : Shape} {i : Immediate} (h : Fits shape i) : shape ≠ .block := by
  rintro rfl
  cases h

end Immediate

namespace BlockType

def assemble : BlockType → Bytes
  | empty => [0x40]
  | value type => [type.marker]
  | typeIndex index => encodeSigned index.toNat

theorem form_assemble (t : BlockType) : Form t.assemble t := by
  cases t with
  | empty => exact .empty
  | value type => exact .value ⟨type.marker, rfl, type.find?_marker⟩
  | typeIndex index =>
    have hlt := index.toNat_lt
    exact .typeIndex (isSigned_encodeSigned (by decide) _ (by omega) (by omega))

end BlockType

/-! ## Instructions -/

namespace Instruction

mutual

/-- Opcodes and immediates belong together, in nested instructions too. -/
def WellFormed : Instruction → Prop
  | plain o _ immediate => Immediate.Fits o.shape immediate
  | block o _ _ body => o.shape = .block ∧ WellFormedAll body
  | ifElse _ _ body alternative => WellFormedAll body ∧ WellFormedAll alternative
  | tryDelegate _ _ body _ => WellFormedAll body

def WellFormedAll : List Instruction → Prop
  | [] => True
  | i :: rest => WellFormed i ∧ WellFormedAll rest

end

mutual

/-- The bytes of an instruction and of those nested in it. -/
def assemble : Instruction → Bytes
  | plain o _ immediate => o.assemble ++ Immediate.assemble o.shape immediate
  | block o _ t body => o.assemble ++ (t.assemble ++ (assembleAll body ++ [0x0B]))
  | ifElse _ t body alternative => Opcode.ifBlock.assemble ++
      (t.assemble ++ (assembleAll body ++ [0x05] ++ (assembleAll alternative ++ [0x0B])))
  | tryDelegate _ t body label => Opcode.tryBlock.assemble ++
      (t.assemble ++ (assembleAll body ++ 0x18 :: encodeUnsigned label.toNat))

def assembleAll : List Instruction → Bytes
  | [] => []
  | i :: rest => assemble i ++ assembleAll rest

end

mutual

theorem exists_form_assemble : ∀ i : Instruction, i.WellFormed → ∀ p, ∃ found,
    Form p i.assemble found ∧ found.mapOffsets (fun _ => 0) = i.mapOffsets fun _ => 0
  | plain o _ immediate, h, p =>
    ⟨_, .plain o.form_assemble h.shape_ne (Immediate.form_assemble h), rfl⟩
  | block o _ t body, h, p => by
    obtain ⟨found, hbody, hsame⟩ := exists_form_assembleAll body h.2 _
    refine ⟨_, .block o.form_assemble h.1 t.form_assemble hbody, ?_⟩
    rw [mapOffsets, mapOffsets, hsame]
  | ifElse _ t body alternative, h, p => by
    obtain ⟨found, hbody, hsame⟩ := exists_form_assembleAll body h.1 _
    obtain ⟨other, halternative, hother⟩ := exists_form_assembleAll alternative h.2 _
    refine ⟨_, .ifElse Opcode.ifBlock.form_assemble t.form_assemble hbody halternative, ?_⟩
    rw [mapOffsets, mapOffsets, hsame, hother]
  | tryDelegate _ t body label, h, p => by
    obtain ⟨found, hbody, hsame⟩ := exists_form_assembleAll body h _
    refine ⟨_, .tryDelegate Opcode.tryBlock.form_assemble t.form_assemble hbody
      (u32Form_encodeUnsigned label), ?_⟩
    rw [mapOffsets, mapOffsets, hsame]

theorem exists_form_assembleAll : ∀ e : List Instruction, WellFormedAll e → ∀ p, ∃ found,
    SequenceForm p (assembleAll e) found ∧
      mapOffsetsAll (fun _ => 0) found = mapOffsetsAll (fun _ => 0) e
  | [], _, p => ⟨[], .nil p, rfl⟩
  | i :: rest, h, p => by
    obtain ⟨first, hfirst, hsame⟩ := exists_form_assemble i h.1 p
    obtain ⟨others, hothers, hsames⟩ := exists_form_assembleAll rest h.2 _
    refine ⟨first :: others, .cons hfirst hothers, ?_⟩
    rw [mapOffsetsAll, mapOffsetsAll, hsame, hsames]

end

end Instruction

/-! ## Expressions -/

namespace Expr

def WellFormed (e : Expr) : Prop := Instruction.WellFormedAll e

/-- The instructions and the `end` that closes them. -/
def assemble (e : Expr) : Bytes := Instruction.assembleAll e ++ [0x0B]

/-- The bytes of an expression stand for it, but for the offsets. -/
theorem exists_form_assemble {e : Expr} (h : e.WellFormed) (p : Nat) :
    ∃ found, Form p e.assemble found ∧ found.withoutOffsets = e.withoutOffsets := by
  obtain ⟨found, hfound, hsame⟩ := Instruction.exists_form_assembleAll e h p
  exact ⟨found, .closed hfound, hsame⟩

end Expr

end WasmBinary
