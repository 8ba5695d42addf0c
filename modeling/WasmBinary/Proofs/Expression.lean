import WasmBinary.Proofs.Grammar

/-!
# Reading expressions

The expression reader accepts exactly the byte strings of the grammar.

* `Immediate.recognizes_decode`, `BlockType.recognizes_decode`, `Instruction.Head.recognizes_decode`:
  the parts of an instruction.
* `Instruction.recognizes_sequence`: with a bound of `n`, the reader of sequences accepts those whose
  depth is `n` at most.
* `Expr.recognizes_decode`: a byte string is always long enough to give that room.
* `Expr.decode_iff_standsAt`: what reading at a position of an input gives.
-/
namespace WasmBinary

open Decoder (Recognizes recognizes_byte recognizes_take recognizes_fixedVector recognizes_position)
open Leb128 (U32Form IsSigned recognizes_u32 recognizes_i32 recognizes_i64 recognizes_signed)

/-! ## Immediates -/

theorem MemArg.recognizes_decode : MemArg.decode.Recognizes (.fixed MemArg.Form) := by
  refine (recognizes_u32.bind fun align => recognizes_u32.bind fun offset => .pure _).congr
    fun p bs m => ⟨?_, ?_⟩
  · intro h
    obtain ⟨bs₁, _, align, rfl, halign, bs₂, _, offset, rfl, hoffset, rfl, rfl⟩ := h
    exact ⟨bs₁, bs₂, by simp, halign, hoffset⟩
  · intro h
    obtain ⟨bs₁, bs₂, rfl, halign, hoffset⟩ := h
    exact ⟨bs₁, bs₂, m.align, rfl, halign, bs₂, [], m.offset, by simp, hoffset, rfl, rfl⟩

namespace Immediate

theorem recognizes_unsigned : unsigned.Recognizes (.fixed U32Form) := recognizes_u32.mapError _

theorem recognizes_rawByte : rawByte.Recognizes (.fixed fun bs b => bs = [b]) :=
  recognizes_byte.mapError _

theorem recognizes_rawBytes (n : Nat) :
    (rawBytes n).Recognizes (.fixed fun bs taken => bs = taken.val) :=
  (recognizes_take n).mapError _

theorem recognizes_access : access.Recognizes (.fixed MemArg.Form) :=
  MemArg.recognizes_decode.mapError _

section

variable {shape : Shape} {α β : Type} {d : Decoder ImmediateError α} {d' : Decoder ImmediateError β}
  {F : Bytes → α → Prop} {G : Bytes → β → Prop}

/-- A shape that is one value. -/
theorem recognizes_value {f : α → Immediate} (h : d.Recognizes (.fixed F))
    (form : ∀ {bs a}, F bs a → Form shape bs (f a))
    (exists_value : ∀ {bs i}, Form shape bs i → ∃ a, F bs a ∧ i = f a) :
    Recognizes (do return f (← d)) (.fixed (Form shape)) := by
  refine (h.map f).congr fun p bs i => ⟨?_, exists_value⟩
  intro hform
  obtain ⟨a, ha, rfl⟩ := hform
  exact form ha

/-- A shape that is two values one behind the other. -/
theorem recognizes_pair {f : α → β → Immediate} (h : d.Recognizes (.fixed F))
    (h' : d'.Recognizes (.fixed G))
    (form : ∀ {bs bs' a b}, F bs a → G bs' b → Form shape (bs ++ bs') (f a b))
    (exists_pair : ∀ {bs i}, Form shape bs i →
      ∃ bs₁ bs₂ a b, bs = bs₁ ++ bs₂ ∧ F bs₁ a ∧ G bs₂ b ∧ i = f a b) :
    Recognizes (do let a ← d; return f a (← d')) (.fixed (Form shape)) := by
  refine (h.bind fun a => h'.map (f a)).congr fun p bs i => ⟨?_, ?_⟩
  · intro hform
    obtain ⟨bs₁, bs₂, a, rfl, ha, b, hb, rfl⟩ := hform
    exact form ha hb
  · intro hform
    obtain ⟨bs₁, bs₂, a, b, rfl, ha, hb, rfl⟩ := exists_pair hform
    exact ⟨bs₁, bs₂, a, rfl, ha, b, hb, rfl⟩

/-- A shape that is bytes as they are, of a fixed number. -/
theorem recognizes_raw {n : Nat} {f : { bytes : Bytes // bytes.length = n } → Immediate}
    (form : ∀ bytes, Form shape bytes.val (f bytes))
    (exists_raw : ∀ {bs i}, Form shape bs i → ∃ h : bs.length = n, i = f ⟨bs, h⟩) :
    Recognizes (do return f (← rawBytes n)) (.fixed (Form shape)) := by
  refine recognizes_value (recognizes_rawBytes n) (fun {bs bytes} h => ?_) fun {bs i} h => ?_
  · rw [h]
    exact form bytes
  · obtain ⟨hlength, rfl⟩ := exists_raw h
    exact ⟨⟨bs, hlength⟩, rfl, rfl⟩

end

/-- The immediates of every shape are read from exactly the byte strings that the shape allows. -/
theorem recognizes_decode {shape : Shape} (hshape : shape ≠ .block) :
    (decode shape).Recognizes (.fixed (Form shape)) := by
  cases shape with
  | none =>
    refine (Recognizes.pure _).congr fun p bs i => ⟨?_, ?_⟩
    · intro hform
      obtain ⟨rfl, rfl⟩ := hform
      exact .none
    · intro hform
      cases hform
      exact ⟨rfl, rfl⟩
  | block => exact absurd rfl hshape
  | index =>
    refine recognizes_value recognizes_unsigned .index fun h => ?_
    cases h with
    | index h => exact ⟨_, h, rfl⟩
  | indexPair =>
    refine recognizes_pair recognizes_unsigned recognizes_unsigned .indexPair fun h => ?_
    cases h with
    | indexPair h h' => exact ⟨_, _, _, _, rfl, h, h', rfl⟩
  | branchTable =>
    refine recognizes_pair ((recognizes_fixedVector recognizes_u32).mapError _) recognizes_unsigned
      .branchTable fun h => ?_
    cases h with
    | branchTable h h' => exact ⟨_, _, _, _, rfl, h, h', rfl⟩
  | i32 =>
    refine recognizes_value (recognizes_i32.mapError _) .i32 fun h => ?_
    cases h with
    | i32 h => exact ⟨_, h, rfl⟩
  | i64 =>
    refine recognizes_value (recognizes_i64.mapError _) .i64 fun h => ?_
    cases h with
    | i64 h => exact ⟨_, h, rfl⟩
  | f32 =>
    refine recognizes_raw (fun bytes => .f32 bytes.property) fun h => ?_
    cases h with
    | f32 h => exact ⟨h, rfl⟩
  | f64 =>
    refine recognizes_raw (fun bytes => .f64 bytes.property) fun h => ?_
    cases h with
    | f64 h => exact ⟨h, rfl⟩
  | memArg =>
    refine recognizes_value recognizes_access .memArg fun h => ?_
    cases h with
    | memArg h => exact ⟨_, h, rfl⟩
  | memArgLane =>
    refine recognizes_pair recognizes_access recognizes_rawByte (fun h hlane => hlane ▸ .memArgLane h _)
      fun h => ?_
    cases h with
    | memArgLane h lane => exact ⟨_, _, _, _, rfl, h, rfl, rfl⟩
  | lane =>
    refine recognizes_value recognizes_rawByte (fun hlane => hlane ▸ .lane _) fun h => ?_
    cases h with
    | lane lane => exact ⟨_, rfl, rfl⟩
  | v128 =>
    refine recognizes_raw .v128 fun h => ?_
    cases h with
    | v128 lanes => exact ⟨lanes.property, rfl⟩
  | selectTyped =>
    refine recognizes_value
      ((recognizes_fixedVector (MarkerTable.recognizes_decode _)).mapError _) .valueTypes fun h => ?_
    cases h with
    | valueTypes h => exact ⟨_, h, rfl⟩
  | refNull =>
    refine recognizes_value ((MarkerTable.recognizes_decode _).mapError _) .refType fun h => ?_
    cases h with
    | refType h => exact ⟨_, h, rfl⟩
  | reserved =>
    refine recognizes_value (f := fun _ => Immediate.none) recognizes_rawByte
      (fun hany => hany ▸ .reserved _) fun h => ?_
    cases h with
    | reserved any => exact ⟨any, rfl, rfl⟩

end Immediate

/-! ## Block types -/

theorem MarkerTable.mem_rows_of_find? {α : Type} {t : MarkerTable α} {b : UInt8} {a : α}
    (h : t.find? b = some a) : ∃ label, (b, a, label) ∈ t.rows := by
  simp only [find?, Option.map_eq_some_iff] at h
  obtain ⟨⟨_, label⟩, h, rfl⟩ := h
  obtain ⟨before, after, hrows, -⟩ := List.lookup_eq_some_iff.mp h
  exact ⟨label, by simp [hrows]⟩

theorem ValueType.eq_marker_of_find? {b : UInt8} {type : ValueType}
    (h : ValueType.markers.find? b = some type) : b = type.marker := by
  have hrows : ∀ r ∈ ValueType.markers.rows, r.1 = r.2.1.marker := by decide
  obtain ⟨label, hmem⟩ := MarkerTable.mem_rows_of_find? h
  exact hrows _ hmem

/-- A type index starts with a byte that no other block type has. -/
theorem BlockType.first_of_typeIndex {b : UInt8} {bs : Bytes} {index : Index}
    (h : IsSigned 33 (b :: bs) index.toNat) : b ≠ emptyByte ∧ ValueType.markers.find? b = none := by
  have hb : b.toNat < 64 ∨ 128 ≤ b.toNat := by
    cases h.groups with
    | last hlt =>
      have hspells := h.spells
      rw [UInt8.lt_iff_toNat_lt] at hlt
      rw [Leb128.spelledSigned_singleton, Leb128.signedPayload] at hspells
      have : (0x80 : UInt8).toNat = 128 := rfl
      by_cases hlow : b.toNat % 128 < 64
      · omega
      · rw [if_neg hlow] at hspells
        omega
    | more hle _ => exact .inr (UInt8.le_iff_toNat_le.mp hle)
  constructor
  · rintro rfl
    revert hb
    decide
  · rw [Option.eq_none_iff_forall_ne_some]
    rintro type hfind
    rw [ValueType.eq_marker_of_find? hfind] at hb
    revert hb
    rcases type with _ | _ | _ | _ | _ | (_ | _) <;> decide

namespace BlockType

/-- Reads a block type that is the index of a type. -/
def decodeIndex : Decoder BlockTypeError BlockType := do
  let index ← (Leb128.signed 33).mapError .typeIndex
  if 0 ≤ index then return .typeIndex (UInt32.ofNat index.toNat) else throw (.negative index)

/-- The first byte tells a type index from all other block types. -/
theorem decode_cons (p : Nat) (b : UInt8) (s : Bytes) : decode ⟨p, b :: s⟩ =
    if b = emptyByte then .ok .empty ⟨p + 1, s⟩
    else
      match ValueType.markers.find? b with
      | some type => .ok (.value type) ⟨p + 1, s⟩
      | none => decodeIndex ⟨p, b :: s⟩ := by
  have hindex : decodeIndex ⟨p, b :: s⟩ =
      EStateM.bind ((Leb128.signed 33).mapError .typeIndex) (fun index =>
        if 0 ≤ index then return .typeIndex (UInt32.ofNat index.toNat)
        else throw (.negative index)) ⟨p, b :: s⟩ := rfl
  simp only [decode, hindex, EStateM.bind, Decoder.mapError]
  cases Leb128.signed 33 ⟨p, b :: s⟩ with
  | error cause c => rfl
  | ok index c => by_cases hindex : 0 ≤ index <;> simp only [hindex, if_true, if_false] <;> rfl

theorem recognizes_decodeIndex : decodeIndex.Recognizes
    (.fixed fun bs t => ∃ index : Index, t = .typeIndex index ∧ IsSigned 33 bs index.toNat) := by
  refine Recognizes.congr (((recognizes_signed 33).mapError _).bind fun v =>
    .ite (fun _ => .pure _) fun _ => .throw _) fun p bs t => ⟨?_, ?_⟩
  · intro h
    rcases h with ⟨bs₁, _, v, rfl, hform, ⟨hv, rfl, rfl⟩ | ⟨-, hf⟩⟩
    · have hlt := hform.lt
      have hindex : ((UInt32.ofNat v.toNat).toNat : Int) = v := by
        rw [UInt32.toNat_ofNat', Nat.mod_eq_of_lt (by omega)]
        omega
      refine ⟨_, rfl, ?_⟩
      rw [hindex, List.append_nil]
      exact hform
    · exact hf.elim
  · intro h
    obtain ⟨index, rfl, hform⟩ := h
    exact ⟨bs, [], index.toNat, by simp, hform, .inl ⟨by omega, rfl, by simp⟩⟩

theorem recognizes_decode : decode.Recognizes (.fixed Form) := by
  intro p s t c
  constructor
  · intro h
    cases s with
    | nil => cases h
    | cons b s =>
      rw [decode_cons] at h
      by_cases hb : b = emptyByte
      · rw [if_pos hb] at h
        cases h
        subst hb
        exact ⟨[0x40], s, rfl, rfl, .empty⟩
      · rw [if_neg hb] at h
        cases hfind : ValueType.markers.find? b with
        | some type =>
          rw [hfind] at h
          cases h
          exact ⟨[b], s, rfl, rfl, .value ⟨b, rfl, hfind⟩⟩
        | none =>
          rw [hfind] at h
          obtain ⟨bs, rest, hbs, hc, index, rfl, hform⟩ := (recognizes_decodeIndex ..).mp h
          exact ⟨bs, rest, hbs, hc, .typeIndex hform⟩
  · intro h
    obtain ⟨bs, rest, rfl, rfl, hform⟩ := h
    cases hform with
    | empty => rfl
    | value hmarker =>
      obtain ⟨b, rfl, hfind⟩ := hmarker
      have hb : b ≠ emptyByte := by
        rintro rfl
        have hempty : ValueType.markers.find? emptyByte = none := by decide
        rw [hempty] at hfind
        cases hfind
      change decode ⟨p, b :: rest⟩ = _
      rw [decode_cons, if_neg hb, hfind]
      rfl
    | @typeIndex _ index hindex =>
      have hread := recognizes_decodeIndex.read (p := p) ⟨index, rfl, hindex⟩ rest
      obtain ⟨b, bs, rfl⟩ := List.exists_cons_of_length_pos hindex.groups.length_pos
      obtain ⟨hb, hfind⟩ := first_of_typeIndex hindex
      rw [List.cons_append] at hread ⊢
      rw [decode_cons, if_neg hb, hfind]
      exact hread

end BlockType

/-! ## Opcodes and terminators -/

/-- The bytes that close a sequence of instructions. -/
inductive Terminator.Form : Bytes → Terminator → Prop
  | finish : Form [0x0B] .finish
  | orElse : Form [0x05] .orElse
  | delegate {bs : Bytes} {label : Index} (h : U32Form bs label) :
      Form (0x18 :: bs) (.delegate label)

/-- An opcode, or what closes a sequence. -/
inductive Instruction.Head.Form : Bytes → Head → Prop
  | opcode {bs : Bytes} {o : Opcode} (h : Opcode.Form bs o) : Form bs (.opcode o)
  | terminator {bs : Bytes} {t : Terminator} (h : Terminator.Form bs t) : Form bs (.terminator t)

namespace Opcode

theorem ofPrefixByte?_eq_some_iff {b : UInt8} {space : Space} :
    Space.ofPrefixByte? b = some space ↔ space.prefixByte? = some b := by
  simp only [Space.ofPrefixByte?]
  constructor
  · intro h
    repeat' split at h
    all_goals cases h <;> simp_all [Space.prefixByte?]
  · cases space <;> simp only [Space.prefixByte?, Option.some.injEq, reduceCtorEq,
      false_implies] <;> rintro rfl <;> decide

/-- No core opcode is a byte that closes a block or names a space. -/
theorem coreRows_codes : ∀ r ∈ coreRows, r.code < 256 ∧
    r.code ≠ 0x05 ∧ r.code ≠ 0x0B ∧ r.code ≠ 0x18 ∧ r.code < 0xFC := by
  decide +kernel

theorem code_of_core {o : Opcode} (h : o.space = .core) : o.code < 256 ∧
    o.code ≠ 0x05 ∧ o.code ≠ 0x0B ∧ o.code ≠ 0x18 ∧ o.code < 0xFC := by
  obtain ⟨r, hr⟩ := Option.isSome_iff_exists.mp o.listed
  have hmem := List.mem_of_find?_eq_some hr
  have hcode := List.find?_some hr
  simp only [beq_iff_eq] at hcode
  rw [h] at hmem
  rw [← hcode]
  exact coreRows_codes r hmem

/-- The opcode with a code, in a space that need not list it. -/
theorem recognizes_known {ε α : Type} (space : Space) (code : Nat) (f : Opcode → α) (e : ε) :
    Recognizes
      (match ofCode? space code with
        | some known => return f known
        | none => throw e : Decoder ε α)
      fun _ bs a => bs = [] ∧ ∃ o : Opcode, a = f o ∧ o.space = space ∧ o.code = code := by
  cases h : ofCode? space code with
  | none =>
    refine (Recognizes.throw e).congr fun p bs a => ⟨False.elim, ?_⟩
    intro hform
    obtain ⟨-, o, rfl, rfl, rfl⟩ := hform
    rw [ofCode?_code] at h
    cases h
  | some known =>
    refine (Recognizes.pure _).congr fun p bs a => and_congr_right fun _ => ⟨?_, ?_⟩
    · rintro rfl
      exact ⟨known, rfl, eq_of_ofCode? h⟩
    · intro hform
      obtain ⟨o, rfl, rfl, rfl⟩ := hform
      rw [ofCode?_code] at h
      cases h
      rfl

theorem toNat_eq_code {o : Opcode} (h : o.space = .core) : (UInt8.ofNat o.code).toNat = o.code :=
  UInt8.toNat_ofNat_of_lt' (code_of_core h).1

theorem Space.le_prefixByte {space : Space} {b : UInt8} (h : space.prefixByte? = some b) :
    0xFC ≤ b.toNat := by
  cases space with
  | core => cases h
  | misc | simd | atomic =>
    cases h
    decide

theorem form_cons_iff_of_prefix {b : UInt8} {bs : Bytes} {o : Opcode} {space : Space}
    (h : Space.ofPrefixByte? b = some space) :
    Form (b :: bs) o ↔ ∃ code, U32Form bs code ∧ o.space = space ∧ o.code = code.toNat := by
  rw [ofPrefixByte?_eq_some_iff] at h
  constructor
  · intro hform
    cases hform with
    | core hcore =>
      have := Space.le_prefixByte h
      have := code_of_core hcore
      rw [toNat_eq_code hcore] at *
      omega
    | prefixed hspace hcode heq =>
      refine ⟨_, hcode, ?_, heq.symm⟩
      rw [← ofPrefixByte?_eq_some_iff] at h hspace
      exact Option.some.inj (hspace.symm.trans h)
  · intro hform
    obtain ⟨code, hcode, rfl, heq⟩ := hform
    exact .prefixed h hcode heq.symm

theorem form_cons_iff_of_core {b : UInt8} {bs : Bytes} {o : Opcode}
    (h : Space.ofPrefixByte? b = none) :
    Form (b :: bs) o ↔ bs = [] ∧ o.space = .core ∧ o.code = b.toNat := by
  constructor
  · intro hform
    cases hform with
    | core hcore => exact ⟨rfl, hcore, (toNat_eq_code hcore).symm⟩
    | prefixed hspace _ _ =>
      rw [← ofPrefixByte?_eq_some_iff, h] at hspace
      cases hspace
  · intro hform
    obtain ⟨rfl, hcore, hcode⟩ := hform
    have hb : b = UInt8.ofNat o.code := by simp [hcode]
    rw [hb]
    exact .core hcore

/-- No opcode starts with a byte that closes a sequence. -/
theorem Form.not_closing {b : UInt8} {bs : Bytes} {o : Opcode} (h : Form (b :: bs) o) :
    b ≠ endByte ∧ b ≠ elseByte ∧ b ≠ delegateByte := by
  have hb : b.toNat ≠ 0x0B ∧ b.toNat ≠ 0x05 ∧ b.toNat ≠ 0x18 := by
    cases h with
    | core hcore =>
      have := code_of_core hcore
      rw [toNat_eq_code hcore]
      omega
    | prefixed hspace _ _ =>
      have := Space.le_prefixByte hspace
      omega
  refine ⟨?_, ?_, ?_⟩ <;> rintro rfl <;> revert hb <;> decide

end Opcode

/-- The reader behind a byte that closes no sequence. -/
theorem Instruction.Head.recognizes_opcode (b : UInt8) : Recognizes
    (match Opcode.Space.ofPrefixByte? b with
      | some space => do
        let code ← Leb128.u32.mapError (.code b)
        match Opcode.ofCode? space code.toNat with
        | some known => return .opcode known
        | none => throw (.unknownCode b code)
      | none =>
        match Opcode.ofCode? .core b.toNat with
        | some known => return .opcode known
        | none => throw (.unknownOpcode b) : Decoder InstructionError Head)
    fun _ bs head => ∃ o, head = .opcode o ∧ Opcode.Form (b :: bs) o := by
  cases hspace : Opcode.Space.ofPrefixByte? b with
  | none =>
    refine (Opcode.recognizes_known _ _ _ _).congr fun p bs head => ?_
    simp only [Opcode.form_cons_iff_of_core hspace]
    constructor
    · intro h
      obtain ⟨hbs, o, rfl, ho⟩ := h
      exact ⟨o, rfl, hbs, ho⟩
    · intro h
      obtain ⟨o, rfl, hbs, ho⟩ := h
      exact ⟨hbs, o, rfl, ho⟩
  | some space =>
    refine ((recognizes_u32.mapError _).bind fun code =>
      Opcode.recognizes_known _ _ _ _).congr fun p bs head => ?_
    simp only [Opcode.form_cons_iff_of_prefix hspace]
    constructor
    · intro h
      obtain ⟨bs, _, code, rfl, hcode, rfl, o, rfl, ho⟩ := h
      exact ⟨o, rfl, code, by simpa using hcode, ho⟩
    · intro h
      obtain ⟨o, rfl, code, hcode, ho⟩ := h
      exact ⟨bs, [], code, by simp, hcode, rfl, o, rfl, ho⟩

theorem Instruction.Head.recognizes_decode :
    Head.decode.Recognizes (.fixed Head.Form) := by
  refine ((recognizes_byte.mapError _).bind fun b => .ite (fun _ => .pure _) fun _ =>
    .ite (fun _ => .pure _) fun _ => .ite (fun _ => (recognizes_u32.mapError _).map _) fun _ =>
    recognizes_opcode b).congr fun p bs head => ⟨?_, ?_⟩
  · intro h
    rcases h with ⟨_, bs, b, rfl, rfl, ⟨rfl, rfl, rfl⟩ | ⟨-, ⟨rfl, rfl, rfl⟩ |
      ⟨-, ⟨rfl, label, hlabel, rfl⟩ | ⟨-, o, rfl, ho⟩⟩⟩⟩
    · exact .terminator .finish
    · exact .terminator .orElse
    · exact .terminator (.delegate hlabel)
    · exact .opcode ho
  · intro hform
    cases hform with
    | opcode ho =>
      obtain ⟨bs, rfl⟩ := ho.exists_cons
      obtain ⟨hend, helse, hdelegate⟩ := ho.not_closing
      exact ⟨[_], bs, _, rfl, rfl, .inr ⟨hend, .inr ⟨helse, .inr ⟨hdelegate, _, rfl, ho⟩⟩⟩⟩
    | terminator ht =>
      cases ht with
      | finish => exact ⟨[0x0B], [], 0x0B, rfl, rfl, .inl ⟨rfl, rfl, rfl⟩⟩
      | orElse =>
        exact ⟨[0x05], [], 0x05, rfl, rfl, .inr ⟨by decide, .inl ⟨rfl, rfl, rfl⟩⟩⟩
      | @delegate bs label hlabel =>
        exact ⟨[0x18], bs, 0x18, rfl, rfl, .inr ⟨by decide, .inr ⟨by decide, .inl
          ⟨rfl, label, hlabel, rfl⟩⟩⟩⟩

/-! ## Sequences -/

namespace Instruction

mutual

/-- How deep the calls of `sequence` go that read an instruction behind its opcode. -/
def depth : Instruction → Nat
  | plain .. => 0
  | block _ _ _ body => depthAll body
  | ifElse _ _ body alternative => max (depthAll body) (depthAll alternative)
  | tryDelegate _ _ body _ => depthAll body

/-- How deep the calls of `sequence` go that read a sequence and its terminator. -/
def depthAll : List Instruction → Nat
  | [] => 1
  | i :: rest => max (depth i) (depthAll rest) + 1

end

/-- A sequence of limited depth and what closes it. -/
def ClosedForm (bound p : Nat) (bs : Bytes) (r : Expr × Terminator) : Prop :=
  ∃ bs₁ bs₂, bs = bs₁ ++ bs₂ ∧ SequenceForm p bs₁ r.1 ∧ Terminator.Form bs₂ r.2 ∧
    depthAll r.1 ≤ bound

/-- What may stand behind the opcode of a block at `offset`, when `N` are the nested sequences with
their terminators. -/
inductive BlockForm (N : Format (Expr × Terminator)) (o : Opcode) (offset p : Nat) :
    Bytes → Instruction → Prop
  | finish {type bs : Bytes} {t : BlockType} {body : Expr} (htype : BlockType.Form type t)
      (hbody : N (p + type.length) bs (body, .finish)) :
      BlockForm N o offset p (type ++ bs) (.block o offset t body)
  | orElse {type bs bs' : Bytes} {t : BlockType} {body alternative : Expr} (hif : o = .ifBlock)
      (htype : BlockType.Form type t) (hbody : N (p + type.length) bs (body, .orElse))
      (halternative : N (p + type.length + bs.length) bs' (alternative, .finish)) :
      BlockForm N o offset p (type ++ (bs ++ bs')) (.ifElse offset t body alternative)
  | delegate {type bs : Bytes} {t : BlockType} {body : Expr} {label : Index} (htry : o = .tryBlock)
      (htype : BlockType.Form type t) (hbody : N (p + type.length) bs (body, .delegate label)) :
      BlockForm N o offset p (type ++ bs) (.tryDelegate offset t body label)

/-- What may stand behind an opcode at `offset`. -/
def RestForm (N : Format (Expr × Terminator)) (o : Opcode) (offset : Nat) : Format Instruction :=
  fun p bs i => (o.shape = .block ∧ BlockForm N o offset p bs i) ∨
    (o.shape ≠ .block ∧ ∃ immediate, Immediate.Form o.shape bs immediate ∧
      i = .plain o offset immediate)

section

variable {nested : Decoder InstructionError (Expr × Terminator)} {N : Format (Expr × Terminator)}

/-- The second arm of an `if`. -/
theorem recognizes_alternative (h : nested.Recognizes N) (o : Opcode) (offset : Nat)
    (t : BlockType) (body : Expr) : Recognizes
    (do
      let (alternative, closing) ← nested
      match closing with
      | .finish => return ifElse offset t body alternative
      | .orElse => throw (.unexpectedElse o)
      | .delegate _ => throw (.unexpectedDelegate o) : Decoder InstructionError Instruction)
    fun p bs i => ∃ alternative, N p bs (alternative, .finish) ∧
      i = .ifElse offset t body alternative := by
  refine Recognizes.congr (h.bind (G := fun r _ bs i => r.2 = .finish ∧ bs = [] ∧
    i = .ifElse offset t body r.1) ?_) fun p bs i => ⟨?_, ?_⟩
  · intro r
    obtain ⟨alternative, closing⟩ := r
    cases closing with
    | finish => exact (Recognizes.pure _).congr fun p bs i => by simp
    | orElse => exact (Recognizes.throw _).congr fun p bs i => by simp
    | delegate label => exact (Recognizes.throw _).congr fun p bs i => by simp
  · intro hform
    obtain ⟨bs, _, ⟨alternative, _⟩, rfl, halternative, rfl, rfl, rfl⟩ := hform
    exact ⟨alternative, by simpa using halternative, rfl⟩
  · intro hform
    obtain ⟨alternative, halternative, rfl⟩ := hform
    exact ⟨bs, [], (alternative, .finish), by simp, halternative, rfl, rfl, rfl⟩

/-- The block that a terminator makes of its body, or what is read behind `else`. -/
theorem recognizes_closing (h : nested.Recognizes N) (o : Opcode) (offset : Nat) (t : BlockType)
    (r : Expr × Terminator) : Recognizes
    (match r.2 with
      | .finish => return block o offset t r.1
      | .orElse =>
        if o = .ifBlock then do
          let (alternative, closing) ← nested
          match closing with
          | .finish => return ifElse offset t r.1 alternative
          | .orElse => throw (.unexpectedElse o)
          | .delegate _ => throw (.unexpectedDelegate o)
        else throw (.unexpectedElse o)
      | .delegate label =>
        if o = .tryBlock then return tryDelegate offset t r.1 label
        else throw (.unexpectedDelegate o) : Decoder InstructionError Instruction)
    fun p bs i => (r.2 = .finish ∧ bs = [] ∧ i = .block o offset t r.1) ∨
      (r.2 = .orElse ∧ o = .ifBlock ∧ ∃ alternative, N p bs (alternative, .finish) ∧
        i = .ifElse offset t r.1 alternative) ∨
      (o = .tryBlock ∧ bs = [] ∧ ∃ label, r.2 = .delegate label ∧
        i = .tryDelegate offset t r.1 label) := by
  obtain ⟨body, closing⟩ := r
  cases closing with
  | finish => exact (Recognizes.pure _).congr fun p bs i => by simp
  | orElse =>
    exact (Recognizes.ite (fun _ => recognizes_alternative h o offset t body)
      fun _ => .throw _).congr fun p bs i => by simp
  | delegate label =>
    exact (Recognizes.ite (fun _ => .pure _) fun _ => .throw _).congr fun p bs i => by
      simp [eq_comm]

theorem recognizes_decodeBlock (h : nested.Recognizes N) (o : Opcode) (offset : Nat) :
    (decodeBlock nested o offset).Recognizes (BlockForm N o offset) := by
  refine Recognizes.congr ((BlockType.recognizes_decode.mapError _).bind fun t =>
    h.bind fun r => recognizes_closing h o offset t r) fun p bs i => ⟨?_, ?_⟩
  · intro hform
    rcases hform with ⟨bs, _, t, rfl, ht, bs₁, bs₂, ⟨body, closing⟩, rfl, hbody, ⟨rfl, rfl, rfl⟩ |
      ⟨rfl, rfl, alternative, halternative, rfl⟩ | ⟨rfl, rfl, label, rfl, rfl⟩⟩
    · rw [List.append_nil]
      exact .finish ht hbody
    · exact .orElse rfl ht hbody halternative
    · rw [List.append_nil]
      exact .delegate rfl ht hbody
  · intro hform
    cases hform with
    | @finish type bs t body ht hbody =>
      exact ⟨type, bs, t, rfl, ht, bs, [], (body, .finish), by simp, hbody, .inl ⟨rfl, rfl, rfl⟩⟩
    | @orElse type bs bs' t body alternative hif ht hbody halternative =>
      exact ⟨type, _, t, rfl, ht, bs, bs', (body, .orElse), rfl, hbody,
        .inr (.inl ⟨rfl, hif, alternative, halternative, rfl⟩)⟩
    | @delegate type bs t body label htry ht hbody =>
      exact ⟨type, bs, t, rfl, ht, bs, [], (body, .delegate label), by simp, hbody,
        .inr (.inr ⟨htry, rfl, label, rfl, rfl⟩)⟩

theorem recognizes_decodeRest (h : nested.Recognizes N) (o : Opcode) (offset : Nat) :
    (decodeRest nested o offset).Recognizes (RestForm N o offset) :=
  .ite (fun _ => recognizes_decodeBlock h o offset) fun hshape =>
    ((Immediate.recognizes_decode hshape).mapError _).map _

end

/-- An instruction of limited depth is an opcode and what may stand behind it. -/
theorem form_iff_restForm {bound p : Nat} {bs : Bytes} {i : Instruction} :
    Form p bs i ∧ depth i ≤ bound ↔ ∃ head bs' o, bs = head ++ bs' ∧ Opcode.Form head o ∧
      RestForm (ClosedForm bound) o p (p + head.length) bs' i := by
  constructor
  · intro h
    obtain ⟨hform, hdepth⟩ := h
    cases hform with
    | plain hhead hshape himmediate =>
      exact ⟨_, _, _, rfl, hhead, .inr ⟨hshape, _, himmediate, rfl⟩⟩
    | block hhead hshape htype hbody =>
      exact ⟨_, _, _, rfl, hhead, .inl ⟨hshape, .finish htype
        ⟨_, _, rfl, hbody, .finish, hdepth⟩⟩⟩
    | ifElse hhead htype hbody halternative =>
      simp only [depth, Nat.max_le] at hdepth
      refine ⟨_, _, _, rfl, hhead, .inl ⟨by decide, .orElse rfl htype
        ⟨_, _, rfl, hbody, .orElse, hdepth.1⟩ ⟨_, _, rfl, ?_, .finish, hdepth.2⟩⟩⟩
      simpa [Nat.add_assoc] using halternative
    | tryDelegate hhead htype hbody hlabel =>
      exact ⟨_, _, _, rfl, hhead, .inl ⟨by decide, .delegate rfl htype
        ⟨_, _, rfl, hbody, .delegate hlabel, hdepth⟩⟩⟩
  · intro h
    rcases h with ⟨head, bs', o, rfl, hhead, ⟨hshape, hblock⟩ | ⟨hshape, immediate, himmediate, rfl⟩⟩
    · cases hblock with
      | finish htype hbody =>
        obtain ⟨bs₁, _, rfl, hbody, hclosing, hdepth⟩ := hbody
        cases hclosing
        exact ⟨.block hhead hshape htype hbody, hdepth⟩
      | orElse hif htype hbody halternative =>
        subst hif
        obtain ⟨bs₁, _, rfl, hbody, hclosing, hdepth⟩ := hbody
        cases hclosing
        obtain ⟨bs₂, _, rfl, halternative, hclosing, hdepth'⟩ := halternative
        cases hclosing
        refine ⟨.ifElse hhead htype hbody ?_, Nat.max_le.mpr ⟨hdepth, hdepth'⟩⟩
        simpa [Nat.add_assoc] using halternative
      | delegate htry htype hbody =>
        subst htry
        obtain ⟨bs₁, _, rfl, hbody, hclosing, hdepth⟩ := hbody
        cases hclosing with
        | delegate hlabel => exact ⟨.tryDelegate hhead htype hbody hlabel, hdepth⟩
    · exact ⟨.plain hhead hshape himmediate, Nat.zero_le _⟩

theorem closedForm_zero {p : Nat} {bs : Bytes} {r : Expr × Terminator} :
    ¬ClosedForm 0 p bs r := by
  intro h
  obtain ⟨_, _, -, -, -, hdepth⟩ := h
  cases hr : r.1 <;> simp [hr, depthAll] at hdepth

/-- A closed sequence is its terminator, or an instruction and a closed sequence. -/
theorem closedForm_succ_iff {bound p : Nat} {bs : Bytes} {e : Expr} {t : Terminator} :
    ClosedForm (bound + 1) p bs (e, t) ↔ (e = [] ∧ Terminator.Form bs t) ∨
      ∃ bs₁ bs₂ first rest, bs = bs₁ ++ bs₂ ∧ e = first :: rest ∧
        (Form p bs₁ first ∧ depth first ≤ bound) ∧
        ClosedForm bound (p + bs₁.length) bs₂ (rest, t) := by
  constructor
  · intro h
    obtain ⟨_, bs', rfl, hsequence, hclosing, hdepth⟩ := h
    cases hsequence with
    | nil _ => exact .inl ⟨rfl, hclosing⟩
    | @cons _ bs₁ bs₂ first rest hfirst hrest =>
      simp only [depthAll, Nat.add_le_add_iff_right, Nat.max_le] at hdepth
      exact .inr ⟨bs₁, bs₂ ++ bs', first, rest, List.append_assoc .., rfl, ⟨hfirst, hdepth.1⟩,
        bs₂, bs', rfl, hrest, hclosing, hdepth.2⟩
  · intro h
    rcases h with ⟨rfl, hclosing⟩ | ⟨bs₁, _, first, rest, rfl, rfl, ⟨hfirst, hdepth⟩,
      bs₂, bs', rfl, hrest, hclosing, hdepth'⟩
    · exact ⟨[], bs, rfl, .nil p, hclosing, by simp [depthAll]⟩
    · refine ⟨bs₁ ++ bs₂, bs', (List.append_assoc ..).symm, .cons hfirst hrest, hclosing, ?_⟩
      simp only [depthAll, Nat.add_le_add_iff_right, Nat.max_le]
      exact ⟨hdepth, hdepth'⟩

/-- What a head allows behind it. -/
def HeadRest (bound offset : Nat) (head : Head) : Format (Expr × Terminator) := fun p bs r =>
  match head with
  | .terminator closing => bs = [] ∧ r = ([], closing)
  | .opcode o => ∃ bs₁ bs₂ first rest, bs = bs₁ ++ bs₂ ∧ r.1 = first :: rest ∧
      RestForm (ClosedForm bound) o offset p bs₁ first ∧
      ClosedForm bound (p + bs₁.length) bs₂ (rest, r.2)

theorem recognizes_headRest {bound : Nat} (h : (sequence bound).Recognizes (ClosedForm bound))
    (offset : Nat) (head : Head) : Recognizes
    (match head with
      | .terminator closing => return ([], closing)
      | .opcode opcode => do
        let first ← decodeRest (sequence bound) opcode offset
        let (rest, closing) ← sequence bound
        return (first :: rest, closing) : Decoder InstructionError (Expr × Terminator))
    (HeadRest bound offset head) := by
  cases head with
  | terminator closing => exact .pure _
  | opcode o =>
    refine ((recognizes_decodeRest h o offset).bind fun first =>
      h.bind fun rest => .pure _).congr fun p bs r => ⟨?_, ?_⟩
    · intro hform
      obtain ⟨bs₁, _, first, rfl, hfirst, bs₂, _, ⟨rest, closing⟩, rfl, hrest, rfl, rfl⟩ := hform
      exact ⟨bs₁, bs₂, first, rest, by simp, rfl, hfirst, hrest⟩
    · intro hform
      obtain ⟨bs₁, bs₂, first, rest, rfl, hr, hfirst, hrest⟩ := hform
      exact ⟨bs₁, bs₂, first, rfl, hfirst, bs₂, [], (rest, r.2), by simp, hrest, rfl,
        Prod.ext hr rfl⟩

/-- With a bound of `n`, exactly the closed sequences of depth `n` at most are read. -/
theorem recognizes_sequence (bound : Nat) : (sequence bound).Recognizes (ClosedForm bound) := by
  induction bound with
  | zero =>
    exact (Recognizes.throw _).congr fun p bs r => ⟨False.elim, closedForm_zero⟩
  | succ bound ih =>
    -- `ih` is about both what is nested in the first instruction and what follows it.
    refine Recognizes.congr (recognizes_position.bind fun offset =>
      Head.recognizes_decode.bind (recognizes_headRest ih offset)) fun p bs r => ?_
    obtain ⟨e, t⟩ := r
    simp only [closedForm_succ_iff, form_iff_restForm]
    constructor
    · intro h
      obtain ⟨_, _, offset, rfl, ⟨rfl, rfl⟩, head, bs, o, rfl, ho, hrest⟩ := h
      cases ho with
      | terminator ht =>
        obtain ⟨rfl, hr⟩ := hrest
        cases hr
        exact .inl ⟨rfl, by simpa using ht⟩
      | opcode ho =>
        obtain ⟨bs₁, bs₂, first, rest, rfl, rfl, hfirst, hrest⟩ := hrest
        exact .inr ⟨head ++ bs₁, bs₂, first, rest, by simp, rfl,
          ⟨head, bs₁, _, rfl, ho, by simpa using hfirst⟩, by simpa [Nat.add_assoc] using hrest⟩
    · intro h
      rcases h with ⟨rfl, ht⟩ | ⟨_, bs₂, first, rest, rfl, rfl, ⟨head, bs₁, o, rfl, ho, hfirst⟩, hrest⟩
      · exact ⟨[], bs, p, rfl, ⟨rfl, rfl⟩, bs, [], _, by simp, .terminator ht, rfl, rfl⟩
      · exact ⟨[], _, p, rfl, ⟨rfl, rfl⟩, head, bs₁ ++ bs₂, _, by simp, .opcode ho,
          bs₁, bs₂, first, rest, rfl, rfl, by simpa using hfirst,
          by simpa [Nat.add_assoc] using hrest⟩

/-! ## Expressions -/

mutual

theorem Form.depth_lt : ∀ {p : Nat} {bs : Bytes} {i : Instruction}, Form p bs i →
    depth i < bs.length
  | _, _, _, .plain hhead _ _ => by
    obtain ⟨_, rfl⟩ := hhead.exists_cons
    simp [depth]
  | _, _, _, .block hhead _ _ hbody => by
    obtain ⟨_, rfl⟩ := hhead.exists_cons
    have := hbody.depthAll_le
    simp only [depth, List.length_append, List.length_cons]
    omega
  | _, _, _, .ifElse hhead _ hbody halternative => by
    obtain ⟨_, rfl⟩ := hhead.exists_cons
    have := hbody.depthAll_le
    have := halternative.depthAll_le
    simp only [depth, List.length_append, List.length_cons]
    omega
  | _, _, _, .tryDelegate hhead _ hbody _ => by
    obtain ⟨_, rfl⟩ := hhead.exists_cons
    have := hbody.depthAll_le
    simp only [depth, List.length_append, List.length_cons]
    omega

/-- Every instruction takes a byte, so the number of bytes bounds the depth. -/
theorem SequenceForm.depthAll_le : ∀ {p : Nat} {bs : Bytes} {e : Expr}, SequenceForm p bs e →
    depthAll e ≤ bs.length + 1
  | _, _, _, .nil _ => by simp [depthAll]
  | _, _, _, .cons first others => by
    have := first.depth_lt
    have := others.depthAll_le
    simp only [depthAll, List.length_append]
    omega

end

end Instruction

theorem Expr.recognizes_decode : Expr.decode.Recognizes Expr.Form := by
  intro p s e c
  have hsequence := Instruction.recognizes_sequence (s.length + 1)
  constructor
  · intro h
    simp only [decode] at h
    split at h
    case h_2 e' c' heq =>
      cases h
      obtain ⟨bs, rest, rfl, rfl, bs₁, _, rfl, hbody, hclosing, -⟩ := (hsequence p s _ _).mp heq
      cases hclosing
      exact ⟨_, rest, rfl, rfl, .closed hbody⟩
    all_goals cases h
  · intro h
    obtain ⟨_, rest, rfl, rfl, hform⟩ := h
    cases hform with
    | @closed bs _ hbody =>
      have hdepth : Instruction.depthAll e ≤ (bs ++ [0x0B] ++ rest).length + 1 := by
        have := hbody.depthAll_le
        simp only [List.length_append]
        omega
      have hread := hsequence.read (a := (e, .finish))
        ⟨bs, [0x0B], rfl, hbody, Terminator.Form.finish, hdepth⟩ rest
      simp only [decode, hread]

/-- The `n` bytes of `s` from position `p` on are expression `e`. -/
def Expr.StandsAt (s : Bytes) (p : Nat) (e : Expr) (n : Nat) : Prop :=
  ∃ bs, s.slice? p (p + n) = some bs ∧ Expr.Form p bs e

namespace Expr.StandsAt

variable {s : Bytes} {p n : Nat} {e : Expr}

theorem iff_decode : StandsAt s p e n ↔
    ∃ c, Expr.decode ((Cursor.start s).skip p) = .ok e c ∧ c.position = p + n := by
  have hcursor : (Cursor.start s).skip p = ⟨p, s.drop p⟩ := by simp [Cursor.start, Cursor.skip]
  rw [hcursor]
  constructor
  · intro h
    obtain ⟨bs, hslice, hform⟩ := h
    obtain ⟨front, back, rfl, rfl, hlen⟩ := Bytes.slice?_eq_some_iff.mp hslice
    rw [List.drop_left]
    exact ⟨_, Expr.recognizes_decode.read hform back, hlen⟩
  · intro h
    obtain ⟨c, hdecode, hposition⟩ := h
    obtain ⟨bs, hrest, hc, hform⟩ := Expr.recognizes_decode.consumed hdecode
    have hp : p ≤ s.length := by
      have : 0 < (s.drop p).length := by
        cases hform
        simp only [hrest, List.length_append, List.length_cons]
        omega
      rw [List.length_drop] at this
      omega
    refine ⟨bs, Bytes.slice?_eq_some_iff.mpr ⟨s.take p, c.rest, ?_, ?_, ?_⟩, hform⟩
    · rw [← hrest, List.take_append_drop]
    · exact List.length_take_of_le hp
    · omega

theorem unique {e' : Expr} {n' : Nat} (h : StandsAt s p e n) (h' : StandsAt s p e' n') :
    e = e' ∧ n = n' := by
  obtain ⟨bs, hslice, hform⟩ := h
  obtain ⟨bs', hslice', hform'⟩ := h'
  obtain ⟨front, back, hs, hfront, hlen⟩ := Bytes.slice?_eq_some_iff.mp hslice
  obtain ⟨front', back', hs', hfront', hlen'⟩ := Bytes.slice?_eq_some_iff.mp hslice'
  obtain ⟨-, hrest⟩ := List.append_inj (hs.symm.trans hs') (hfront.trans hfront'.symm)
  obtain ⟨rfl, rfl⟩ := Expr.recognizes_decode.unique hform hform' hrest
  exact ⟨rfl, by omega⟩

/-- Every instruction of the expression stands at its own offset. -/
theorem instruction (h : StandsAt s p e n) {i : Instruction} (hi : i ∈ Instruction.walkAll e) :
    ∃ own, s.slice? i.offset (i.offset + own.length) = some own ∧
      Instruction.Form i.offset own i ∧ p ≤ i.offset ∧ i.offset + own.length ≤ p + n := by
  obtain ⟨bs, hslice, hform⟩ := h
  obtain ⟨front, back, rfl, rfl, hlen⟩ := Bytes.slice?_eq_some_iff.mp hslice
  obtain ⟨front', own, back', rfl, hoffset, hown⟩ := hform.foundIn i hi
  refine ⟨own, Bytes.slice?_eq_some_iff.mpr ⟨front ++ front', back' ++ back, by simp, ?_, rfl⟩,
    hown, by omega, ?_⟩
  · rw [hoffset, List.length_append]
  · simp only [List.length_append] at hlen
    omega

end Expr.StandsAt

/-- Reading an expression at position `p` gives `e` and stops `n` bytes further on exactly if those
bytes are `e` in the grammar. No other expression then stands at `p`, and every instruction of `e`
stands at its own offset, where its first opcode byte is. -/
theorem Expr.decode_iff_standsAt (s : Bytes) (p : Nat) (e : Expr) (n : Nat) :
    ((∃ c, Expr.decode ((Cursor.start s).skip p) = .ok e c ∧ c.position = p + n) ↔
        Expr.StandsAt s p e n) ∧
      (Expr.StandsAt s p e n →
        (∀ e' n', Expr.StandsAt s p e' n' → e' = e ∧ n' = n) ∧
        ∀ i ∈ Instruction.walkAll e, s[i.offset]? = some i.opcode.firstByte ∧
          ∃ own, s.slice? i.offset (i.offset + own.length) = some own ∧
            Instruction.Form i.offset own i ∧ p ≤ i.offset ∧ i.offset + own.length ≤ p + n) := by
  refine ⟨Expr.StandsAt.iff_decode.symm, fun h => ⟨fun e' n' h' => h'.unique h, fun i hi => ?_⟩⟩
  obtain ⟨own, hslice, hown, hrange⟩ := h.instruction hi
  refine ⟨?_, own, hslice, hown, hrange⟩
  obtain ⟨front, back, rfl, hfront, -⟩ := Bytes.slice?_eq_some_iff.mp hslice
  obtain ⟨rest, rfl⟩ := hown.exists_cons
  rw [List.getElem?_append_right (by omega), hfront, Nat.sub_self]
  rfl

end WasmBinary
