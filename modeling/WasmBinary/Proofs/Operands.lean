import WasmBinary.Proofs.FloatText
import WasmBinary.Proofs.Listing
import WasmBinary.Proofs.Mnemonics

/-!
# Operands in a listing

The line of an instruction tells its opcode and what stands behind it: immediates or a block type, and
for some opcodes the name of a function or a global. The name can hold any characters, but the index in
front of it already tells it.

* `Immediate.append_inj`, `BlockType.append_inj`: immediates and block types can be read back.
* `Instruction.Legible`: instructions of which the text shows everything.
* `Module.instructionText_append_inj`: the line of an instruction can be read back.
-/
namespace WasmBinary

open Text

/-! ## Immediates -/

/-- Whether the text shows the immediate in full: it does not tell NaNs apart, nor alignments above
`2 ^ 63`. -/
def Immediate.isLegible : Immediate → Bool
  | .f32 value => !Ieee754.single.isNaN value.bits.toNat
  | .f64 value => !Ieee754.double.isNaN value.bits.toNat
  | .memArg access | .memArgLane access _ => access.align.toNat ≤ 63
  | _ => true

namespace MemArg

/-- The words of the text. -/
def words (m : MemArg) : List String :=
  (if m.offset = 0 then [] else ["offset=" ++ toString m.offset])
    ++ ["align=" ++ toString (1 <<< min m.align.toNat 63)]

theorem toList_text (m : MemArg) : m.text.toList = (spaced m.words).toList := by
  rw [text, words, toList_spaced]
  split <;> simp

theorem isWord_words (m : MemArg) : ∀ w ∈ m.words, IsWord w := by
  have hkeys : IsWord "offset=" ∧ IsWord "align=" := by decide
  intro w hw
  rcases List.mem_append.mp hw with hw | hw
  · split at hw
    · cases hw
    · rw [List.mem_singleton.mp hw]
      exact hkeys.1.append (isWord_toString _)
  · rw [List.mem_singleton.mp hw]
    exact hkeys.2.append (isWord_toString _)

theorem words_inj {m m' : MemArg} (hm : m.align.toNat ≤ 63) (hm' : m'.align.toNat ≤ 63)
    (h : m.words = m'.words) : m = m' := by
  obtain ⟨hoffset, halign⟩ := List.append_inj' h rfl
  have hpower := toString_inj ((String.append_right_inj _).mp (List.singleton_inj.mp halign))
  rw [Nat.one_shiftLeft, Nat.one_shiftLeft, Nat.pow_right_inj (by decide), Nat.min_eq_left hm,
    Nat.min_eq_left hm'] at hpower
  have hvalue : m.offset = m'.offset := by
    split at hoffset <;> split at hoffset <;> rename_i hzero hzero'
    · rw [hzero, hzero']
    · cases hoffset
    · cases hoffset
    · have htext := (String.append_right_inj _).mp (List.singleton_inj.mp hoffset)
      exact UInt32.toNat_inj.mp (toString_inj htext)
  have halign := UInt32.toNat_inj.mp hpower
  cases m
  cases m'
  cases hvalue
  cases halign
  rfl

end MemArg

namespace Immediate

/-- The words of the text. The types of a `select` stand in brackets. -/
def words : Immediate → List String
  | .none | .valueTypes _ => []
  | .index i => [toString i]
  | .indexPair first second => [toString first, toString second]
  | .branchTable targets fallback => (targets ++ [fallback]).map toString
  | .i32 value => [toString value.toInt]
  | .i64 value => [toString value.toInt]
  | .f32 value => [value.text]
  | .f64 value => [value.text]
  | .memArg access => access.words
  | .memArgLane access l => access.words ++ [toString l]
  | .lane l => [toString l]
  | .v128 lanes => "i8x16" :: lanes.val.map fun b => "0x" ++ Hex.lower 2 b.toNat
  | .refType .func => ["func"]
  | .refType .externRef => ["extern"]

/-- The brackets around the types of a `select`. -/
theorem toList_text_valueTypes (types : List ValueType) : (valueTypes types).text.toList =
    " (result".toList ++ ((spaced (types.map ValueType.text)).toList ++ [')']) := by
  rw [text, String.toList_append, String.toList_append, List.append_assoc]
  rfl

theorem toList_text {immediate : Immediate} (h : ∀ types, immediate ≠ valueTypes types) :
    immediate.text.toList = (spaced immediate.words).toList := by
  cases immediate with
  | valueTypes types => exact absurd rfl (h types)
  | memArg access => exact access.toList_text
  | memArgLane access l =>
    rw [text, words, String.toList_append, String.toList_append, access.toList_text]
    simp [toList_spaced]
  | refType type => cases type <;> rfl
  | _ => simp [text, words, toList_spaced]

theorem isWord_words {immediate : Immediate} (h : immediate.isLegible = true) :
    ∀ w ∈ immediate.words, IsWord w := by
  cases immediate with
  | none | valueTypes types => exact fun _ hw => (nomatch hw)
  | index i | lane l => exact List.forall_mem_singleton.mpr (isWord_toString _)
  | indexPair i j =>
    exact List.forall_mem_cons.mpr
      ⟨isWord_toString _, List.forall_mem_singleton.mpr (isWord_toString _)⟩
  | branchTable targets fallback =>
    intro w hw
    obtain ⟨i, -, rfl⟩ := List.mem_map.mp hw
    exact isWord_toString i.toNat
  | i32 value | i64 value => exact List.forall_mem_singleton.mpr (isWord_toString_int _)
  | f32 value | f64 value =>
    rw [isLegible, Bool.not_eq_true'] at h
    exact List.forall_mem_singleton.mpr (Ieee754.Format.isWord_text _ h)
  | memArg access => exact access.isWord_words
  | memArgLane access l =>
    exact List.forall_mem_append.mpr
      ⟨access.isWord_words, List.forall_mem_singleton.mpr (isWord_toString _)⟩
  | v128 lanes =>
    have hmarks : IsWord "i8x16" ∧ IsWord "0x" := by decide
    refine List.forall_mem_cons.mpr ⟨hmarks.1, fun w hw => ?_⟩
    obtain ⟨b, -, rfl⟩ := List.mem_map.mp hw
    exact hmarks.2.append (Hex.lower_two b).1
  | refType type =>
    cases type <;> exact List.forall_mem_singleton.mpr (by decide)

theorem words_inj {shape : Shape} {bs bs' : Bytes} {a b : Immediate} (ha : Form shape bs a)
    (hb : Form shape bs' b) (hla : a.isLegible = true) (hlb : b.isLegible = true)
    (hshape : shape ≠ .selectTyped) (h : a.words = b.words) : a = b := by
  have hindex {i j : UInt32} (h : toString i = toString j) : i = j :=
    UInt32.toNat_inj.mp (toString_inj h)
  have hbyte {i j : UInt8} (h : toString i = toString j) : i = j :=
    UInt8.toNat_inj.mp (toString_inj h)
  cases ha with
  | none | reserved any =>
    cases hb
    rfl
  | index hi =>
    cases hb with
    | index hj => rw [hindex (List.singleton_inj.mp h)]
  | indexPair hi hj =>
    cases hb with
    | indexPair hi' hj' =>
      obtain ⟨hfirst, hsecond⟩ := List.cons.inj h
      rw [hindex hfirst, hindex (List.singleton_inj.mp hsecond)]
  | branchTable htargets hfallback =>
    cases hb with
    | branchTable htargets' hfallback' =>
      have hall := List.map_injective_iff.mpr (fun _ _ => hindex) h
      obtain ⟨rfl, hlast⟩ := List.append_inj' hall rfl
      rw [List.singleton_inj.mp hlast]
  | i32 hv =>
    cases hb with
    | i32 hv' => rw [Int32.toInt_inj.mp (toString_int_inj (List.singleton_inj.mp h))]
  | i64 hv =>
    cases hb with
    | i64 hv' => rw [Int64.toInt_inj.mp (toString_int_inj (List.singleton_inj.mp h))]
  | f32 hv =>
    cases hb with
    | f32 hv' =>
      rw [isLegible, Bool.not_eq_true'] at hla hlb
      rw [Ieee754.F32.text_inj hla hlb (List.singleton_inj.mp h)]
  | f64 hv =>
    cases hb with
    | f64 hv' =>
      rw [isLegible, Bool.not_eq_true'] at hla hlb
      rw [Ieee754.F64.text_inj hla hlb (List.singleton_inj.mp h)]
  | memArg hm =>
    cases hb with
    | memArg hm' => rw [MemArg.words_inj (of_decide_eq_true hla) (of_decide_eq_true hlb) h]
  | memArgLane hm l =>
    cases hb with
    | memArgLane hm' l' =>
      obtain ⟨haccess, hlane⟩ := List.append_inj' h rfl
      rw [MemArg.words_inj (of_decide_eq_true hla) (of_decide_eq_true hlb) haccess,
        hbyte (List.singleton_inj.mp hlane)]
  | lane l =>
    cases hb with
    | lane l' => rw [hbyte (List.singleton_inj.mp h)]
  | v128 lanes =>
    cases hb with
    | v128 lanes' =>
      have hbytes := List.map_injective_iff.mpr (fun b b' h => ?_) (List.cons.inj h).2
      · rw [Subtype.ext hbytes]
      · exact Hex.lower_two_inj ((String.append_right_inj "0x").mp h)
  | valueTypes htypes => exact absurd rfl hshape
  | @refType _ type htype =>
    cases hb with
    | @refType _ type' htype' =>
      cases type <;> cases type'
      · rfl
      · exact absurd (List.singleton_inj.mp h) (by decide)
      · exact absurd (List.singleton_inj.mp h) (by decide)
      · rfl

/-- The immediates of an opcode can be read back. -/
theorem append_inj {shape : Shape} {bs bs' : Bytes} {a b : Immediate} (ha : Form shape bs a)
    (hb : Form shape bs' b) (hla : a.isLegible = true) (hlb : b.isLegible = true)
    {x y : List Char} (hx : EndsWords x) (hy : EndsWords y)
    (h : a.text.toList ++ x = b.text.toList ++ y) : a = b ∧ x = y := by
  by_cases hshape : shape = .selectTyped
  · subst hshape
    cases ha with
    | @valueTypes _ types htypes =>
      cases hb with
      | @valueTypes _ types' htypes' =>
        simp only [toList_text_valueTypes, List.append_assoc, List.append_right_inj] at h
        have hwords (types : List ValueType) : ∀ w ∈ types.map ValueType.text, IsWord w := by
          intro w hw
          obtain ⟨type, -, rfl⟩ := List.mem_map.mp hw
          exact type.isWord_text
        obtain ⟨htexts, hrest⟩ := spaced_append_inj (hwords types) (hwords types')
          (endsWords_cons (by decide) x) (endsWords_cons (by decide) y) h
        rw [List.map_injective_iff.mpr (fun _ _ => ValueType.text_inj) htexts]
        exact ⟨rfl, (List.cons.inj hrest).2⟩
  · have huntyped {bs : Bytes} {a : Immediate} (ha : Form shape bs a) (types : List ValueType) :
        a ≠ valueTypes types := by
      rintro rfl
      cases ha
      exact hshape rfl
    rw [toList_text (huntyped ha), toList_text (huntyped hb)] at h
    obtain ⟨hwords, hxy⟩ := spaced_append_inj (isWord_words hla) (isWord_words hlb) hx hy h
    exact ⟨words_inj ha hb hla hlb hshape hwords, hxy⟩

end Immediate

/-! ## Heads of instructions -/

/-- A block type can be read back. -/
theorem BlockType.append_inj {t t' : BlockType} {x y : List Char}
    (h : t.text.toList ++ '\n' :: x = t'.text.toList ++ '\n' :: y) : t = t' ∧ x = y := by
  have hclose (z : List Char) : EndsWord (')' :: z) := endsWord_cons (by decide) z
  cases t <;> cases t' <;>
    simp only [text, String.toList_append, String.toList_empty, List.append_assoc,
      List.nil_append] at h
  case empty.empty => exact ⟨rfl, (List.cons.inj h).2⟩
  case value.value type type' =>
    obtain ⟨htype, hrest⟩ := type.isWord_text.append_inj type'.isWord_text (hclose _) (hclose _)
      (List.append_cancel_left h)
    rw [ValueType.text_inj htype]
    exact ⟨rfl, (List.cons.inj (List.cons.inj hrest).2).2⟩
  case typeIndex.typeIndex index index' =>
    obtain ⟨hindex, hrest⟩ := (isWord_toString index.toNat).append_inj (isWord_toString index'.toNat)
      (hclose _) (hclose _) (List.append_cancel_left h)
    rw [UInt32.toNat_inj.mp (toString_inj hindex)]
    exact ⟨rfl, (List.cons.inj (List.cons.inj hrest).2).2⟩
  all_goals
    revert h
    simp

theorem BlockType.endsWord_text (t : BlockType) : EndsWord t.text.toList := by
  cases t with
  | empty => exact fun _ hc => (nomatch hc)
  | value type | typeIndex index =>
    rw [text, String.toList_append, String.toList_append]
    exact endsWord_cons (c := ' ') (by decide) _

theorem Immediate.endsWord_text (i : Immediate) : EndsWord i.text.toList := by
  by_cases htypes : ∃ types, i = valueTypes types
  · obtain ⟨types, rfl⟩ := htypes
    rw [toList_text_valueTypes]
    exact endsWord_cons (c := ' ') (by decide) _
  · rw [toList_text fun types h => htypes ⟨types, h⟩]
    exact endsWord_spaced _

/-- What stands behind the mnemonic of an instruction, nested instructions apart. -/
inductive Operands where
  | immediate (immediate : Immediate)
  | block (type : BlockType)

namespace Operands

def text : Operands → String
  | immediate i => i.text
  | block type => type.text

/-- The operands that an opcode of a shape has. -/
inductive Form : Shape → Operands → Prop
  | immediate {shape : Shape} {bs : Bytes} {i : Immediate} (shape_ne : shape ≠ .block)
      (h : Immediate.Form shape bs i) : Form shape (immediate i)
  | block (type : BlockType) : Form .block (block type)

def isLegible : Operands → Bool
  | immediate i => i.isLegible
  | block _ => true

theorem endsWord_text : ∀ operands : Operands, EndsWord operands.text.toList
  | immediate i => i.endsWord_text
  | block type => type.endsWord_text

/-- The index whose name stands behind the text. -/
def index? : Operands → Option Index
  | immediate (.index index) => some index
  | _ => none

end Operands

theorem Immediate.Form.index?_eq_none {shape : Shape} {bs : Bytes} {i : Immediate}
    (h : Form shape bs i) (hshape : shape ≠ .index) :
    (Operands.immediate i).index? = Option.none := by
  cases h with
  | index _ => exact absurd rfl hshape
  | _ => rfl

namespace Instruction

def operands : Instruction → Operands
  | plain _ _ immediate => .immediate immediate
  | block _ _ type _ | ifElse _ type _ _ | tryDelegate _ type _ _ => .block type

theorem text_eq (i : Instruction) : i.text = i.opcode.mnemonic ++ i.operands.text := by
  cases i <;> rfl

theorem index?_eq (i : Instruction) : i.index? = i.operands.index? := by
  cases i with
  | plain o p immediate => cases immediate <;> rfl
  | _ => rfl

/-- An instruction with the operands of its opcode, all of which the text shows in full. -/
structure Legible (i : Instruction) : Prop where
  form : i.operands.Form i.opcode.shape
  isLegible : i.operands.isLegible = true

theorem mem_walk (i : Instruction) : i ∈ i.walk := by
  cases i <;> simp [walk]

theorem legible_body {i : Instruction} (h : ∀ j ∈ i.walk, j.Legible) :
    ∀ j ∈ walkAll i.body, j.Legible := by
  cases i with
  | plain => exact fun _ hj => (nomatch hj)
  | block | tryDelegate => exact fun j hj => h j (.tail _ hj)
  | ifElse => exact fun j hj => h j (.tail _ (List.mem_append_left _ hj))

theorem Form.operands {p : Nat} {bs : Bytes} {i : Instruction} (h : Form p bs i) :
    i.operands.Form i.opcode.shape := by
  cases h with
  | plain _ shape_ne himmediate => exact .immediate shape_ne himmediate
  | @block _ _ _ _ o t _ _ shape_eq _ _ =>
    change Operands.Form o.shape (.block t)
    rw [shape_eq]
    exact .block t
  | ifElse _ _ _ _ => exact .block _
  | tryDelegate _ _ _ _ => exact .block _

end Instruction

/-- Whether a listing shows the body in full. -/
def FunctionBody.isLegible (body : FunctionBody) : Bool :=
  (Instruction.walkAll body.instructions).all (·.operands.isLegible)

namespace Module

/-- The name behind the text of an instruction with an opcode and operands. -/
def reference (m : Module) (o : Opcode) (operands : Operands) : String :=
  match operands.index? with
  | some index =>
    if o = .call ∨ o = .refFunc then " <" ++ m.functionNameAbsolute index.toNat ++ ">"
    else if o = .globalGet ∨ o = .globalSet then " <" ++ m.globalName index ++ ">"
    else ""
  | none => ""

theorem instructionText_eq (m : Module) (i : Instruction) : m.instructionText i =
    i.opcode.mnemonic ++ (i.operands.text ++ m.reference i.opcode i.operands) := by
  rw [instructionText, reference, i.index?_eq]
  cases i.operands.index? with
  | none => simp [i.text_eq]
  | some index =>
    by_cases hcall : i.opcode = .call ∨ i.opcode = .refFunc
    · simp [i.text_eq, hcall, String.append_assoc]
    · by_cases hglobal : i.opcode = .globalGet ∨ i.opcode = .globalSet <;>
        simp [i.text_eq, hcall, hglobal, String.append_assoc]

variable {m m' : Module}

theorem SameDisplayNames.reference (h : m.SameDisplayNames m') (o : Opcode) (operands : Operands) :
    m.reference o operands = m'.reference o operands := by
  rw [Module.reference, Module.reference]
  cases operands.index? with
  | none => rfl
  | some index => simp only [h.functions, h.globals]

theorem endsWord_reference (m : Module) (o : Opcode) (operands : Operands) :
    EndsWord (m.reference o operands).toList := by
  have hname (name : String) : EndsWord (" <" ++ name ++ ">").toList := by
    rw [String.toList_append, String.toList_append]
    exact endsWord_cons (c := ' ') (by decide) _
  have hnone : EndsWord "".toList := fun _ hc => (nomatch hc)
  rw [reference]
  split
  · split
    · exact hname _
    · split
      · exact hname _
      · exact hnone
  · exact hnone

/-- The mnemonic ends in front of the operands. -/
theorem endsWord_rest (m : Module) (o : Opcode) (operands : Operands) (x : List Char) :
    EndsWord (operands.text.toList ++ ((m.reference o operands).toList ++ '\n' :: x)) :=
  operands.endsWord_text.append
    ((m.endsWord_reference o operands).append (endsWords_lineEnd x).endsWord)

theorem reference_of_index?_eq_none (m : Module) (o : Opcode) {operands : Operands}
    (h : operands.index? = none) : m.reference o operands = "" := by
  rw [reference, h]

/-- The operands of an opcode can be read back, with the name behind them. -/
theorem operands_append_inj (hnames : m.SameDisplayNames m') {shape : Shape} (o : Opcode)
    {a b : Operands} (ha : a.Form shape) (hb : b.Form shape) (hla : a.isLegible = true)
    (hlb : b.isLegible = true) {x y : List Char}
    (h : a.text.toList ++ ((m.reference o a).toList ++ '\n' :: x) =
      b.text.toList ++ ((m'.reference o b).toList ++ '\n' :: y)) : a = b ∧ x = y := by
  cases ha with
  | block type =>
    cases hb with
    | immediate shape_ne _ => exact absurd rfl shape_ne
    | block type' =>
      rw [reference_of_index?_eq_none m o rfl, reference_of_index?_eq_none m' o rfl] at h
      obtain ⟨rfl, hxy⟩ := BlockType.append_inj h
      exact ⟨rfl, hxy⟩
  | @immediate _ _ i shape_ne hi =>
    cases hb with
    | block type' => exact absurd rfl shape_ne
    | @immediate _ _ i' _ hi' =>
      by_cases hindex : shape = .index
      · subst hindex
        cases hi with
        | @index _ index _ =>
          cases hi' with
          | @index _ index' _ =>
            simp only [Operands.text, Immediate.text, String.toList_append, List.append_assoc] at h
            obtain ⟨hnumber, hrest⟩ := (isWord_toString index.toNat).append_inj
              (isWord_toString index'.toNat)
              ((m.endsWord_reference o _).append (endsWords_lineEnd x).endsWord)
              ((m'.endsWord_reference o _).append (endsWords_lineEnd y).endsWord)
              (List.append_cancel_left h)
            cases UInt32.toNat_inj.mp (toString_inj hnumber)
            rw [hnames.reference] at hrest
            exact ⟨rfl, (List.cons.inj (List.append_cancel_left hrest)).2⟩
      · rw [reference_of_index?_eq_none m o (hi.index?_eq_none hindex),
          reference_of_index?_eq_none m' o (hi'.index?_eq_none hindex)] at h
        obtain ⟨rfl, hxy⟩ := Immediate.append_inj hi hi' hla hlb (endsWords_lineEnd x)
          (endsWords_lineEnd y) h
        exact ⟨rfl, (List.cons.inj hxy).2⟩

/-- Behind a `select` without types the line ends. -/
theorem rest_ne_of_select {o o' : Opcode} {a b : Operands} (ha : a.Form .none)
    (hb : b.Form .selectTyped) (x y : List Char) :
    a.text.toList ++ ((m.reference o a).toList ++ '\n' :: x) ≠
      b.text.toList ++ ((m'.reference o' b).toList ++ '\n' :: y) := by
  cases ha with
  | immediate _ hi =>
    cases hb with
    | immediate _ hi' =>
      cases hi
      cases hi'
      intro h
      rw [Operands.text, Operands.text, Immediate.toList_text_valueTypes] at h
      exact absurd (List.cons.inj h).1 (by decide)

/-- The head of an instruction can be read back. -/
theorem instructionText_append_inj (hnames : m.SameDisplayNames m') {i i' : Instruction}
    (hi : i.Legible) (hi' : i'.Legible) {x y : List Char}
    (h : (m.instructionText i).toList ++ '\n' :: x = (m'.instructionText i').toList ++ '\n' :: y) :
    i.opcode = i'.opcode ∧ i.operands = i'.operands ∧ x = y := by
  simp only [instructionText_eq, String.toList_append, List.append_assoc] at h
  obtain ⟨hmnemonic, hrest⟩ := i.opcode.isWord_mnemonic.append_inj i'.opcode.isWord_mnemonic
    (m.endsWord_rest _ _ x) (m'.endsWord_rest _ _ y) h
  have hform := hi.form
  have hform' := hi'.form
  rcases Opcode.eq_of_mnemonic hmnemonic with hopcode | ⟨ho, ho'⟩ | ⟨ho, ho'⟩
  · rw [← hopcode] at hrest hform'
    obtain ⟨hoperands, hxy⟩ :=
      operands_append_inj hnames _ hform hform' hi.isLegible hi'.isLegible hrest
    exact ⟨hopcode, hoperands, hxy⟩
  · rw [ho] at hform
    rw [ho'] at hform'
    exact absurd hrest (rest_ne_of_select hform hform' x y)
  · rw [ho] at hform
    rw [ho'] at hform'
    exact absurd hrest.symm (rest_ne_of_select hform' hform y x)

end Module

end WasmBinary
