import WasmBinary.Encoder
import WasmBinary.Proofs.Grammar
import WasmBinary.Proofs.Outcomes
import WasmBinary.Proofs.Writer

/-!
# What the encoder writes

The bytes of everything that the encoder can write, told without writing: a `layout` for each kind
of entity. A layout is meant only for what is encodable, that is, where every expression is a single
constant.

* `Instruction.constant?_eq_some_iff`, `Expr.constant_eq_ok_iff`: what the encoder takes for a
  constant.
* `operandsLength?_eq`, `constExprLength_eq`: the lengths of constants, which are told apart from the writers,
  agree with them.
* `Format.Vector.exists_layout`: the layout of a vector is one of its forms if those of its items are.
* `Encoder.writes_global`, `Encoder.writes_dataSegment`, `Encoder.writes_vectorSection`: the writers
  write these layouts.
* `vectorLength_eq_ok_iff`: the lengths that are computed in advance are theirs.
-/
namespace WasmBinary

open Leb128 (encodeUnsigned encodeSigned length_encodeUnsigned length_encodeSigned
  u32Form_encodeUnsigned_of_lt)
open Writer (Writes writes_put writes_putEach)

/-! ## Constants -/

namespace Constant

def opcode : Constant → Opcode
  | i32 _ => .i32Const
  | i64 _ => .i64Const
  | f32 _ => .f32Const
  | f64 _ => .f64Const
  | globalGet _ => .globalGet
  | refFunc _ => .refFunc
  | refNull _ => .refNull

def immediate : Constant → Immediate
  | i32 value => .i32 value
  | i64 value => .i64 value
  | f32 value => .f32 value
  | f64 value => .f64 value
  | globalGet index => .index index
  | refFunc index => .index index
  | refNull type => .refType type

/-- The instruction at `offset` that gives the constant. -/
def instruction (c : Constant) (offset : Nat) : Instruction := .plain c.opcode offset c.immediate

def immediateLayout : Constant → Bytes
  | i32 value => encodeSigned value.toInt
  | i64 value => encodeSigned value.toInt
  | f32 value => Bytes.littleEndian 4 value.bits.toNat
  | f64 value => Bytes.littleEndian 8 value.bits.toNat
  | globalGet index => encodeUnsigned index.toNat
  | refFunc index => encodeUnsigned index.toNat
  | refNull type => [type.marker]

/-- The bytes of the instruction. -/
def layout (c : Constant) : Bytes := c.opcode.firstByte :: c.immediateLayout

theorem length_layout (c : Constant) : c.layout.length = 1 + c.immediateLayout.length := by
  rw [layout, List.length_cons, Nat.add_comm]

end Constant

/-- Lengths and writers take the same operands for a constant, whatever opcode the operands stand behind, and the
length that is told is the length of what is written. -/
theorem operandsLength?_eq (o : Opcode) (operands : LooseOperands) : operandsLength? o operands =
    (Constant.of? o operands).map fun c => c.immediateLayout.length := by
  cases operands with
  | nested type body alternative label => rfl
  | immediate immediate =>
    cases immediate with
    | i32 value | i64 value =>
      simp only [operandsLength?, Constant.of?]
      split <;> simp [Constant.immediateLayout, length_encodeSigned]
    | f32 value | f64 value | refType type =>
      simp only [operandsLength?, Constant.of?]
      split <;> rfl
    | index i =>
      simp only [operandsLength?, Constant.of?]
      by_cases hglobal : o = .globalGet
      · simp [hglobal, Constant.immediateLayout, length_encodeUnsigned]
      · rw [if_neg hglobal]
        simp only [hglobal, false_or]
        split <;> simp [Constant.immediateLayout, length_encodeUnsigned]
    | _ => rfl

/-- An opcode and operands are a constant if they are those of its instruction. -/
theorem Constant.of?_eq_some_iff {o : Opcode} {operands : LooseOperands} {c : Constant} :
    Constant.of? o operands = some c ↔ o = c.opcode ∧ operands = .immediate c.immediate := by
  constructor
  · intro h
    cases operands with
    | nested type body alternative label => cases h
    | immediate immediate =>
      cases immediate <;> simp only [of?] at h <;> (repeat' split at h) <;> cases h <;>
        exact ⟨by assumption, rfl⟩
  · intro h
    obtain ⟨rfl, rfl⟩ := h
    cases c <;> rfl

theorem Instruction.constant?_eq_some_iff {i : Instruction} {c : Constant} :
    i.constant? = some c ↔ i = c.instruction i.offset := by
  rw [constant?, Constant.of?_eq_some_iff]
  cases i with
  | plain o p immediate =>
    simp only [opcode, looseOperands, offset, Constant.instruction, LooseOperands.immediate.injEq,
      plain.injEq, true_and]
  | block | ifElse | tryDelegate =>
    simp only [looseOperands, Constant.instruction, reduceCtorEq, and_false]

/-- An expression is a constant for the encoder if it is that one instruction. -/
theorem Expr.constant_eq_ok_iff {e : Expr} {c : Constant} :
    e.constant = .ok c ↔ ∃ p, e = [c.instruction p] := by
  constructor
  · intro h
    unfold Expr.constant at h
    split at h
    · rename_i i
      split at h
      · rename_i hc
        cases h
        exact ⟨i.offset, by rw [← Instruction.constant?_eq_some_iff.mp hc]⟩
      · cases h
    · cases h
  · intro h
    obtain ⟨p, rfl⟩ := h
    have hc : (c.instruction p).constant? = some c := Instruction.constant?_eq_some_iff.mpr rfl
    simp only [Expr.constant, hc]

/-! ## Layouts -/

/-- The expression is a single constant. -/
def Expr.Encodable (e : Expr) : Prop := ∃ c p, e = [Constant.instruction c p]

def Global.Encodable (g : Global) : Prop := g.init.Encodable

def DataMode.Encodable (mode : DataMode) : Prop := ∀ offset, mode.offset? = some offset → offset.Encodable

def DataSegment.Encodable (d : DataSegment) : Prop := d.mode.Encodable

theorem DataMode.encodable_of_offset {mode : DataMode} {offset : Expr}
    (heq : mode.offset? = some offset) (h : offset.Encodable) : mode.Encodable := by
  intro offset' heq'
  rw [heq] at heq'
  cases heq'
  exact h

theorem Expr.encodable_iff {e : Expr} : e.Encodable ↔ ∃ c, e.constant = .ok c := by
  simp only [Encodable, constant_eq_ok_iff]

def Expr.layout (e : Expr) : Bytes :=
  match e.constant with
  | .ok c => c.layout ++ [Opcode.endByte]
  | .error _ => []

def Global.layout (g : Global) : Bytes :=
  g.type.value.marker :: g.type.mutability.marker :: g.init.layout

def DataMode.layout (mode : DataMode) : Bytes :=
  encodeUnsigned mode.tag.toNat ++
    match mode with
    | active offset => offset.layout
    | passive => []
    | activeIn memory offset => encodeUnsigned memory.toNat ++ offset.layout

def DataSegment.layout (d : DataSegment) : Bytes :=
  d.mode.layout ++ (encodeUnsigned d.init.length ++ d.init)

/-- A count and the items. -/
def vectorLayout {α : Type} (layout : α → Bytes) (items : List α) : Bytes :=
  encodeUnsigned items.length ++ items.flatMap layout

/-- A payload behind its header. -/
def sectionLayout (kind : SectionKind) (payload : Bytes) : Bytes :=
  kind.id :: (encodeUnsigned payload.length ++ payload)

/-! ## Vectors -/

namespace Format

section

variable {α β : Type} {F : Format α} {layout : α → Bytes} {g : α → β}

/-- Each item is found as one that is the same to `g`, because what is found depends on the place. -/
theorem Elements.exists_layout (items : List α)
    (h : ∀ a ∈ items, ∀ p, ∃ found, F p (layout a) found ∧ g found = g a) :
    ∀ p, ∃ found, Elements F p (items.flatMap layout) found ∧ found.map g = items.map g := by
  induction items with
  | nil => exact fun p => ⟨[], .nil p, rfl⟩
  | cons a rest ih =>
    intro p
    obtain ⟨first, hfirst, hsame⟩ := h a (.head rest) p
    obtain ⟨others, hothers, hsames⟩ := ih (fun b hb => h b (.tail a hb)) (p + (layout a).length)
    rw [List.flatMap_cons]
    exact ⟨first :: others, .cons hfirst hothers, by rw [List.map_cons, List.map_cons, hsame, hsames]⟩

theorem Vector.exists_layout {items : List α} (hcount : items.length < UInt32.size)
    (h : ∀ a ∈ items, ∀ p, ∃ found, F p (layout a) found ∧ g found = g a) (p : Nat) :
    ∃ found, Vector F p (vectorLayout layout items) found ∧ found.map g = items.map g := by
  obtain ⟨found, hfound, hsame⟩ :=
    Elements.exists_layout items h (p + (encodeUnsigned items.length).length)
  have hlength : found.length = items.length := by simpa using congrArg List.length hsame
  refine ⟨found, .mk (u32Form_encodeUnsigned_of_lt hcount) ?_ hfound, hsame⟩
  rw [hlength, UInt32.toNat_ofNat_of_lt' hcount]

end

/-- Items that do not depend on the place are found as they are. -/
theorem Vector.form_layout {α : Type} {G : Bytes → α → Prop} {layout : α → Bytes} {items : List α}
    (hcount : items.length < UInt32.size) (h : ∀ a ∈ items, G (layout a) a) :
    Vector (.fixed G) 0 (vectorLayout layout items) items := by
  obtain ⟨found, hfound, hsame⟩ :=
    exists_layout (g := id) (F := .fixed G) hcount (fun a ha _ => ⟨a, h a ha, rfl⟩) 0
  rw [List.map_id, List.map_id] at hsame
  rwa [hsame] at hfound

theorem ByteVector.form_layout {content : Bytes} (h : content.length < UInt32.size) :
    ByteVector (encodeUnsigned content.length ++ content) content :=
  .mk (u32Form_encodeUnsigned_of_lt h) (UInt32.toNat_ofNat_of_lt' h).symm

end Format

/-! ## Writing -/

namespace Encoder

theorem writes_bytes (bs : Bytes) : Writes .sinkFull (Encoder.bytes bs) bs (.ok ()) :=
  (writes_put bs).mapError fun _ => EncodeError.sinkFull

theorem writes_byte (b : UInt8) : Writes .sinkFull (byte b) [b] (.ok ()) := writes_bytes [b]

theorem writes_leb128 (bs : Bytes) : Writes .sinkFull (leb128 bs) bs (.ok ()) :=
  (writes_putEach bs).mapError fun _ => EncodeError.sinkFull

theorem writes_u32 (n : UInt32) : Writes .sinkFull (u32 n) (encodeUnsigned n.toNat) (.ok ()) :=
  writes_leb128 _

/-- A length that can be stored. -/
theorem writes_length {n : Nat} (h : n < UInt32.size) :
    Writes .sinkFull (u32 (UInt32.ofNat n)) (encodeUnsigned n) (.ok ()) := by
  have hwritten := writes_u32 (UInt32.ofNat n)
  rwa [UInt32.toNat_ofNat_of_lt' h] at hwritten

theorem writes_constant (c : Constant) : Writes .sinkFull (constant c) c.layout (.ok ()) := by
  cases c with
  | i32 value | i64 value => exact (writes_byte _).bind (writes_leb128 _)
  | f32 value | f64 value => exact (writes_byte _).bind (writes_bytes _)
  | globalGet index | refFunc index => exact (writes_byte _).bind (writes_u32 _)
  | refNull type => exact (writes_byte _).bind (writes_byte _)

theorem writes_constExpr {e : Expr} (h : e.Encodable) :
    Writes .sinkFull (constExpr e) e.layout (.ok ()) := by
  obtain ⟨c, hc⟩ := Expr.encodable_iff.mp h
  simp only [Expr.layout, constExpr, hc]
  exact (Writes.ofExcept (.ok c)).bind ((writes_constant c).bind (writes_byte _))

theorem writes_global {g : Global} (h : g.Encodable) :
    Writes .sinkFull (global g) g.layout (.ok ()) :=
  (writes_byte _).bind ((writes_byte _).bind (writes_constExpr h))

theorem writes_dataSegment {d : DataSegment} (h : d.Encodable) (hinit : d.init.length < UInt32.size) :
    Writes .sinkFull (dataSegment d) d.layout (.ok ()) := by
  obtain ⟨mode, init⟩ := d
  have hcount : checkedLength init.length = .ok (UInt32.ofNat init.length) := by
    rw [checkedLength, if_pos hinit]
  have hrest : Writes .sinkFull (do
      u32 (← Writer.ofExcept (checkedLength init.length))
      bytes init : Encoder Unit) (encodeUnsigned init.length ++ init) (.ok ()) := by
    rw [hcount]
    exact (Writes.ofExcept (.ok _)).bind ((writes_length hinit).bind (writes_bytes init))
  cases mode with
  | active offset =>
    have hlayout : DataSegment.layout ⟨.active offset, init⟩ = encodeUnsigned (0 : UInt32).toNat ++
        (offset.layout ++ (encodeUnsigned init.length ++ init)) := List.append_assoc ..
    rw [hlayout]
    exact (writes_u32 0).bind ((writes_constExpr (h offset rfl)).bind hrest)
  | passive =>
    have hlayout : DataSegment.layout ⟨.passive, init⟩ = encodeUnsigned (1 : UInt32).toNat ++
        (encodeUnsigned init.length ++ init) := by
      simp [DataSegment.layout, DataMode.layout, DataMode.tag]
    rw [hlayout]
    exact (writes_u32 1).bind hrest
  | activeIn memory offset =>
    have hlayout : DataSegment.layout ⟨.activeIn memory offset, init⟩ =
        encodeUnsigned (2 : UInt32).toNat ++ (encodeUnsigned memory.toNat ++
          (offset.layout ++ (encodeUnsigned init.length ++ init))) := by
      simp [DataSegment.layout, DataMode.layout, DataMode.tag]
    rw [hlayout]
    exact (writes_u32 2).bind ((writes_u32 memory).bind ((writes_constExpr (h offset rfl)).bind
      hrest))

end Encoder

/-! ## Lengths -/

theorem checkedLength_eq_ok_iff {n : Nat} {size : UInt32} :
    checkedLength n = .ok size ↔ n = size.toNat := by
  unfold checkedLength
  constructor
  · intro h
    split at h
    · rename_i hn
      cases h
      exact (UInt32.toNat_ofNat_of_lt' hn).symm
    · cases h
  · rintro rfl
    rw [if_pos size.toNat_lt]
    simp

/-- The length is told for the expressions that the writer takes for a constant. -/
theorem constExprLength_eq (e : Expr) :
    constExprLength e = (fun c => c.layout.length + 1) <$> e.constant := by
  rcases e with _ | ⟨i, _ | ⟨j, rest⟩⟩
  · rfl
  · simp only [constExprLength, Expr.constant, Instruction.constant?, operandsLength?_eq]
    cases hc : Constant.of? i.opcode i.looseOperands with
    | none => rfl
    | some c =>
      simp only [Option.map_some, ← c.length_layout]
      rfl
  · rfl

theorem constExprLength_eq_ok_iff {e : Expr} {n : Nat} :
    constExprLength e = .ok n ↔ e.Encodable ∧ n = e.layout.length := by
  rw [constExprLength_eq, Except.map_eq_ok, Expr.encodable_iff]
  constructor
  · intro h
    obtain ⟨c, hc, rfl⟩ := h
    exact ⟨⟨c, hc⟩, by simp [Expr.layout, hc]⟩
  · intro h
    obtain ⟨⟨c, hc⟩, rfl⟩ := h
    exact ⟨c, hc, by simp [Expr.layout, hc]⟩

theorem globalLength_eq_ok_iff {g : Global} {n : Nat} :
    globalLength g = .ok n ↔ g.Encodable ∧ n = g.layout.length := by
  simp only [globalLength, Except.bind_eq_ok, constExprLength_eq_ok_iff, Global.Encodable,
    Global.layout, List.length_cons]
  constructor
  · intro h
    obtain ⟨_, ⟨h, rfl⟩, hn⟩ := h
    cases hn
    exact ⟨h, by omega⟩
  · intro h
    obtain ⟨h, rfl⟩ := h
    refine ⟨_, ⟨h, rfl⟩, ?_⟩
    rw [Nat.add_comm]
    rfl

theorem dataSegmentLength_eq_ok_iff {d : DataSegment} {n : Nat} :
    dataSegmentLength d = .ok n ↔
      (d.Encodable ∧ d.init.length < UInt32.size) ∧ n = d.layout.length := by
  obtain ⟨mode, init⟩ := d
  have hrest (k : Nat) : (do
      let length ← checkedLength init.length
      return Leb128.unsignedLength mode.tag.toNat + k + Leb128.unsignedLength length.toNat
        + init.length : Except EncodeError Nat) = .ok n ↔ init.length < UInt32.size ∧
      n = Leb128.unsignedLength mode.tag.toNat + k + Leb128.unsignedLength init.length
        + init.length := by
    simp only [Except.bind_eq_ok, checkedLength_eq_ok_iff]
    constructor
    · intro h
      obtain ⟨length, hlength, hn⟩ := h
      cases hn
      rw [hlength]
      exact ⟨length.toNat_lt, rfl⟩
    · intro h
      obtain ⟨hinit, rfl⟩ := h
      have hlength := UInt32.toNat_ofNat_of_lt' hinit
      exact ⟨_, hlength.symm, by rw [hlength]; rfl⟩
  have hlayout : (DataSegment.layout ⟨mode, init⟩).length =
      mode.layout.length + Leb128.unsignedLength init.length + init.length := by
    simp only [DataSegment.layout, List.length_append, length_encodeUnsigned, Nat.add_assoc]
  rw [hlayout]
  cases mode with
  | active offset =>
    change (constExprLength offset >>= _) = _ ↔ _
    rw [Except.bind_eq_ok]
    simp only [hrest, constExprLength_eq_ok_iff, DataMode.layout, List.length_append,
      length_encodeUnsigned]
    constructor
    · intro h
      obtain ⟨_, ⟨h, rfl⟩, hinit, hn⟩ := h
      exact ⟨⟨DataMode.encodable_of_offset rfl h, hinit⟩, hn⟩
    · intro h
      obtain ⟨⟨h, hinit⟩, hn⟩ := h
      exact ⟨_, ⟨h offset rfl, rfl⟩, hinit, hn⟩
  | passive =>
    refine (hrest 0).trans ?_
    simp only [DataMode.layout, List.append_nil, length_encodeUnsigned, Nat.add_zero]
    constructor
    · intro h
      obtain ⟨hinit, hn⟩ := h
      exact ⟨⟨fun offset hoffset => (nomatch hoffset), hinit⟩, hn⟩
    · intro h
      obtain ⟨⟨-, hinit⟩, hn⟩ := h
      exact ⟨hinit, hn⟩
  | activeIn memory offset =>
    change (((Leb128.unsignedLength memory.toNat + ·) <$> constExprLength offset) >>= _) = _ ↔ _
    rw [Except.bind_eq_ok]
    simp only [hrest, Except.map_eq_ok, constExprLength_eq_ok_iff, DataMode.layout,
      List.length_append, length_encodeUnsigned]
    constructor
    · intro h
      obtain ⟨_, ⟨_, ⟨h, rfl⟩, rfl⟩, hinit, hn⟩ := h
      exact ⟨⟨DataMode.encodable_of_offset rfl h, hinit⟩, hn⟩
    · intro h
      obtain ⟨⟨h, hinit⟩, hn⟩ := h
      exact ⟨_, ⟨_, ⟨h offset rfl, rfl⟩, rfl⟩, hinit, hn⟩

section

variable {α : Type} {itemLength : α → Except EncodeError Nat} {P : α → Prop} {layout : α → Bytes}

theorem itemsLength_eq_ok_iff (h : ∀ a n, itemLength a = .ok n ↔ P a ∧ n = (layout a).length)
    (items : List α) : ∀ n, itemsLength itemLength items = .ok n ↔
      (∀ a ∈ items, P a) ∧ n = (items.flatMap layout).length := by
  induction items with
  | nil => simp [itemsLength, pure, Except.pure, eq_comm]
  | cons a rest ih =>
    intro n
    simp only [itemsLength, Except.bind_eq_ok, h, ih, List.forall_mem_cons, List.flatMap_cons,
      List.length_append]
    constructor
    · intro h
      obtain ⟨_, ⟨ha, rfl⟩, _, ⟨hrest, rfl⟩, hn⟩ := h
      cases hn
      exact ⟨⟨ha, hrest⟩, rfl⟩
    · intro h
      obtain ⟨⟨ha, hrest⟩, rfl⟩ := h
      exact ⟨_, ⟨ha, rfl⟩, _, ⟨hrest, rfl⟩, rfl⟩

theorem vectorLength_eq_ok_iff (h : ∀ a n, itemLength a = .ok n ↔ P a ∧ n = (layout a).length)
    (items : List α) (size : UInt32) : vectorLength itemLength items = .ok size ↔
      items.length < UInt32.size ∧ (∀ a ∈ items, P a) ∧
        (vectorLayout layout items).length = size.toNat := by
  simp only [vectorLength, Except.bind_eq_ok, checkedLength_eq_ok_iff, itemsLength_eq_ok_iff h,
    vectorLayout, List.length_append, length_encodeUnsigned]
  constructor
  · intro h
    obtain ⟨count, hcount, _, ⟨hitems, rfl⟩, hsize⟩ := h
    refine ⟨?_, hitems, ?_⟩
    · rw [hcount]
      exact count.toNat_lt
    · rw [hcount, hsize]
  · intro h
    obtain ⟨hcount, hitems, hsize⟩ := h
    have hn := UInt32.toNat_ofNat_of_lt' hcount
    exact ⟨_, hn.symm, _, ⟨hitems, rfl⟩, by rw [hn, hsize]⟩

/-- A section is written if its length can be told. Otherwise nothing is. -/
theorem Encoder.writes_vectorSection {item : α → Encoder Unit}
    (h : ∀ a n, itemLength a = .ok n ↔ P a ∧ n = (layout a).length)
    (hitem : ∀ a, P a → Writes .sinkFull (item a) (layout a) (.ok ())) (kind : SectionKind)
    (items : List α) :
    (∀ size, vectorLength itemLength items = .ok size →
      Writes .sinkFull (vectorSection kind (vectorLength itemLength) item items)
        (sectionLayout kind (vectorLayout layout items)) (.ok ())) ∧
    ∀ e, vectorLength itemLength items = .error e →
      Writes .sinkFull (vectorSection kind (vectorLength itemLength) item items) [] (.error e) := by
  constructor
  · intro size hsize
    obtain ⟨hcount, hitems, hlength⟩ := (vectorLength_eq_ok_iff h items size).mp hsize
    have hchecked : checkedLength items.length = .ok (UInt32.ofNat items.length) :=
      checkedLength_eq_ok_iff.mpr (UInt32.toNat_ofNat_of_lt' hcount).symm
    have hall : items.forM (fun _ => .ok () : α → Except EncodeError Unit) = .ok () :=
      Writer.forM_eq_ok_iff.mpr fun _ _ => rfl
    have hwritten := Writes.forM (r := fun _ => .ok ()) items
      (fun a ha _ => hitem a (hitems a ha)) nofun
    rw [Writer.takeWhile_of_forM_eq_ok hall, hall] at hwritten
    have hheader := writes_u32 size
    rw [← hlength] at hheader
    have hlayout : sectionLayout kind (vectorLayout layout items) =
        ([kind.id] ++ encodeUnsigned (vectorLayout layout items).length) ++
          (encodeUnsigned items.length ++ items.flatMap layout) := by
      simp [sectionLayout, vectorLayout]
    rw [hlayout]
    simp only [vectorSection, hsize, hchecked]
    exact (Writes.ofExcept (.ok size)).bind (((writes_byte kind.id).bind hheader).bind
      ((Writes.ofExcept (.ok _)).bind ((writes_length hcount).bind hwritten)))
  · intro e he
    simp only [vectorSection, he]
    exact (Writes.ofExcept (.error e)).bindError _

end

end WasmBinary
