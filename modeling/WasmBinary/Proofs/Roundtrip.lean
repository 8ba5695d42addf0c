import WasmBinary.Proofs.Entity
import WasmBinary.Proofs.Assembly

/-!
# Reading back what was written

The layout of an encodable entity is one of its forms, wherever it stands. Its instructions are then
found at that place: `placed p` puts their offsets right for an entity at position `p`.

* `Constant.form_layout`, `Global.form_layout`, `DataSegment.form_layout`: the layouts are forms.
* `exists_read_layout`: vectors of them are read back.
* `section_roundtrip`, `sections_roundtrip`: a written section holds what was to be written, at any
  position in any input.
-/
namespace WasmBinary

open Leb128 (IsUnsigned encodeUnsigned isUnsigned_encodeUnsigned u32Form_encodeUnsigned)
open Writer (Writes)

/-! ## Constants -/

namespace Constant

theorem immediateForm (c : Constant) : Immediate.Form c.opcode.shape c.immediateLayout c.immediate := by
  have hlayout : c.immediateLayout = Immediate.assemble c.opcode.shape c.immediate := by cases c <;> rfl
  have hfits : Immediate.Fits c.opcode.shape c.immediate := by
    cases c with
    | i32 value => exact .i32 value
    | i64 value => exact .i64 value
    | f32 value => exact .f32 value
    | f64 value => exact .f64 value
    | globalGet index | refFunc index => exact .index index
    | refNull type => exact .refType type
  rw [hlayout]
  exact Immediate.form_assemble hfits

theorem space_opcode (c : Constant) : c.opcode.space = .core := by
  cases c <;> rfl

theorem shape_opcode (c : Constant) : c.opcode.shape ≠ .block := by
  cases c <;> simp only [opcode] <;> decide

/-- The layout of a constant is its instruction. -/
theorem form_layout (c : Constant) (p : Nat) : Instruction.Form p c.layout (c.instruction p) := by
  have hhead : Opcode.Form [c.opcode.firstByte] c.opcode := by
    have hcore := Opcode.Form.core c.space_opcode
    rwa [← Opcode.firstByte_of_core c.space_opcode] at hcore
  exact .plain hhead c.shape_opcode c.immediateForm

end Constant

/-! ## Expressions -/

/-- The expression with the offset of an encodable one that stands at `p`. -/
def Expr.placed (p : Nat) (e : Expr) : Expr := e.mapOffsets fun _ => p

theorem Expr.form_layout {e : Expr} (h : e.Encodable) (p : Nat) :
    Expr.Form p e.layout (e.placed p) := by
  obtain ⟨c, q, rfl⟩ := h
  have hc : Expr.constant [c.instruction q] = .ok c := Expr.constant_eq_ok_iff.mpr ⟨q, rfl⟩
  have hsequence : Instruction.SequenceForm p (c.layout ++ []) [c.instruction p] :=
    .cons (c.form_layout p) (.nil _)
  have hform := Expr.Form.closed hsequence
  rw [List.append_nil] at hform
  simp only [Expr.layout, hc]
  exact hform

/-! ## Globals -/

namespace Global

/-- The global with the offset of an encodable one that stands at `p`. -/
def placed (p : Nat) (g : Global) : Global := { g with init := g.init.placed (p + 2) }

theorem withoutOffsets_placed (p : Nat) (g : Global) : (g.placed p).withoutOffsets = g.withoutOffsets :=
  g.withoutOffsets_mapOffsets fun _ => p + 2

theorem form_layout {g : Global} (h : g.Encodable) (p : Nat) :
    Global.Form p g.layout (g.placed p) := by
  refine ⟨[g.type.value.marker, g.type.mutability.marker], g.init.layout, rfl, ?_,
    Expr.form_layout h _⟩
  exact ⟨[_], [_], rfl, ⟨_, rfl, ValueType.find?_marker _⟩, ⟨_, rfl, Mutability.find?_marker _⟩⟩

end Global

/-! ## Data segments -/

/-- Where the offset expression of a mode starts. -/
def DataMode.offsetPlace (p : Nat) : DataMode → Nat
  | activeIn memory _ => p + 1 + (encodeUnsigned memory.toNat).length
  | _ => p + 1

/-- The mode with the offset of an encodable one that stands at `p`. -/
def DataMode.placed (p : Nat) (mode : DataMode) : DataMode :=
  mode.mapOffsets fun _ => mode.offsetPlace p

theorem DataMode.length_encode_tag (mode : DataMode) :
    (encodeUnsigned mode.tag.toNat).length = 1 := by
  cases mode <;> simp [tag, encodeUnsigned]

theorem DataMode.form_layout {mode : DataMode} (h : mode.Encodable) (p : Nat) :
    DataMode.Form p mode.layout (mode.placed p) := by
  have htag := u32Form_encodeUnsigned mode.tag
  have hlength := mode.length_encode_tag
  cases mode with
  | active offset =>
    refine .active htag ?_
    rw [hlength]
    exact Expr.form_layout (h offset rfl) (p + 1)
  | passive =>
    simp only [layout, List.append_nil]
    exact .passive htag
  | activeIn memory offset =>
    refine .activeIn htag (u32Form_encodeUnsigned memory) ?_
    rw [hlength]
    exact Expr.form_layout (h offset rfl) _

namespace DataSegment

/-- The segment with the offset of an encodable one that stands at `p`. -/
def placed (p : Nat) (d : DataSegment) : DataSegment := { d with mode := d.mode.placed p }

theorem withoutOffsets_placed (p : Nat) (d : DataSegment) :
    (d.placed p).withoutOffsets = d.withoutOffsets :=
  d.withoutOffsets_mapOffsets _

theorem form_layout {d : DataSegment} (h : d.Encodable) (hinit : d.init.length < UInt32.size)
    (p : Nat) : DataSegment.Form p d.layout (d.placed p) :=
  ⟨d.mode.layout, _, rfl, DataMode.form_layout h p, .form_layout hinit⟩

end DataSegment

theorem DataSegment.layout_pos (d : DataSegment) : 0 < d.layout.length := by
  have := d.mode.length_encode_tag
  simp only [layout, DataMode.layout, List.length_append]
  omega

/-! ## Sections -/

/-- `write` writes a section of a kind, whose payload reads back as `items` wherever it stands:
`forget` drops what depends on the place, and the instructions are found at their offsets. -/
def SectionRoundtrip {ε α : Type} (kind : SectionKind) (write : Encoder Unit) (d : Decoder ε α)
    (F : Format α) (forget : α → α) (instructions : α → List Instruction) (items : List α) : Prop :=
  ∃ size payload : Bytes, IsUnsigned 32 size payload.length ∧
    (∀ s : Sink, s.Fits (kind.id :: (size ++ payload)).length →
      ∃ s', write s = .ok () s' ∧ s'.bytes = s.bytes ++ kind.id :: (size ++ payload)) ∧
    ∀ front back : Bytes, ∃ found,
      Decoder.vector d ((Cursor.start (front ++ (payload ++ back))).skip front.length) =
        .ok found ⟨front.length + payload.length, back⟩ ∧
      Format.Vector F front.length payload found ∧
      found.map forget = items.map forget ∧
      ∀ a ∈ found, ∀ i ∈ instructions a,
        (front ++ (payload ++ back))[i.offset]? = some i.opcode.firstByte

section

variable {ε α : Type} {itemLength : α → Except EncodeError Nat} {P : α → Prop} {layout : α → Bytes}
  {item : α → Encoder Unit} {d : Decoder ε α} {F : Format α} {place : Nat → α → α} {forget : α → α}
  {instructions : α → List Instruction}

/-- The layout of a vector reads back at any position. -/
theorem exists_read_layout (hd : d.Recognizes F)
    (hform : ∀ a, P a → ∀ p, F p (layout a) (place p a))
    (hforget : ∀ p a, forget (place p a) = forget a) {items : List α} (hitems : ∀ a ∈ items, P a)
    (hcount : items.length < UInt32.size) (p : Nat) (rest : Bytes) :
    ∃ found, Decoder.vector d ⟨p, vectorLayout layout items ++ rest⟩ =
        .ok found ⟨p + (vectorLayout layout items).length, rest⟩ ∧
      Format.Vector F p (vectorLayout layout items) found ∧
      found.map forget = items.map forget := by
  obtain ⟨found, hvector, hsame⟩ := Format.Vector.exists_layout hcount
    (fun a ha p => ⟨place p a, hform a (hitems a ha) p, hforget p a⟩) p
  exact ⟨found, (Decoder.recognizes_vector hd).read hvector rest, hvector, hsame⟩

theorem section_roundtrip (kind : SectionKind)
    (hlength : ∀ a n, itemLength a = .ok n ↔ P a ∧ n = (layout a).length)
    (hitem : ∀ a, P a → Writes .sinkFull (item a) (layout a) (.ok ()))
    (hd : d.Recognizes F) (hform : ∀ a, P a → ∀ p, F p (layout a) (place p a))
    (hforget : ∀ p a, forget (place p a) = forget a)
    (hfound : ∀ p bs a, F p bs a → ∀ i ∈ instructions a, Instruction.FoundIn p bs i)
    (items : List α) (hitems : ∀ a ∈ items, P a) (hcount : items.length < UInt32.size)
    (hsize : (vectorLayout layout items).length < UInt32.size) :
    SectionRoundtrip kind (Encoder.vectorSection kind (vectorLength itemLength) item items) d F
      forget instructions items := by
  have hvector : vectorLength itemLength items = .ok (UInt32.ofNat (vectorLayout layout items).length) :=
    (vectorLength_eq_ok_iff hlength items _).mpr
      ⟨hcount, hitems, (UInt32.toNat_ofNat_of_lt' hsize).symm⟩
  have hwrites := (Encoder.writes_vectorSection hlength hitem kind items).1 _ hvector
  refine ⟨encodeUnsigned (vectorLayout layout items).length, vectorLayout layout items,
    isUnsigned_encodeUnsigned (by decide) _ hsize, ?_, ?_⟩
  · intro s hfits
    obtain ⟨s', hwrite, hafter⟩ := hwrites.enough s hfits
    exact ⟨s', hwrite, hafter.bytes_eq⟩
  · intro front back
    obtain ⟨found, hread, hvector, hsame⟩ :=
      exists_read_layout hd hform hforget hitems hcount front.length back
    have hcursor : (Cursor.start (front ++ (vectorLayout layout items ++ back))).skip front.length =
        ⟨front.length, vectorLayout layout items ++ back⟩ := by simp [Cursor.start, Cursor.skip]
    rw [hcursor]
    refine ⟨found, hread, hvector, hsame, ?_⟩
    intro a ha i hi
    obtain ⟨front', own, back', hbs, hown⟩ := hvector.exists_of_mem ha
    have hi := ((hfound _ _ _ hown i hi).append_right back').append_left front'
    rw [← hbs, ← Nat.zero_add front.length] at hi
    exact ((hi.append_right back).append_left front).firstByte.2

end

theorem length_le_of_mem {α : Type} (layout : α → Bytes) {items : List α} {a : α}
    (ha : a ∈ items) : (layout a).length ≤ (items.flatMap layout).length := by
  induction ha with
  | head rest => simp
  | tail b _ ih =>
    rw [List.flatMap_cons, List.length_append]
    omega

theorem length_le_flatMap {α : Type} (layout : α → Bytes) (h : ∀ a, 0 < (layout a).length)
    (items : List α) : items.length ≤ (items.flatMap layout).length := by
  induction items with
  | nil => exact Nat.zero_le _
  | cons a rest ih =>
    have := h a
    rw [List.flatMap_cons, List.length_append, List.length_cons]
    omega

/-- Sections of globals and of data segments whose expressions are single constants read back. -/
theorem sections_roundtrip :
    (∀ globals : List Global, (∀ g ∈ globals, g.Encodable) →
      (vectorLayout Global.layout globals).length < UInt32.size →
      SectionRoundtrip .global (Encoder.globalSection globals) Global.decode Global.Form
        Global.withoutOffsets Global.instructions globals) ∧
    ∀ datas : List DataSegment, (∀ d ∈ datas, d.Encodable) →
      (vectorLayout DataSegment.layout datas).length < UInt32.size →
      SectionRoundtrip .data (Encoder.dataSection datas) DataSegment.decode DataSegment.Form
        DataSegment.withoutOffsets DataSegment.instructions datas := by
  constructor
  · intro globals hglobals hsize
    have hcount := length_le_flatMap Global.layout (fun g => by simp [Global.layout]) globals
    have hle : globals.length < UInt32.size := by
      rw [vectorLayout, List.length_append] at hsize
      omega
    exact section_roundtrip .global (fun _ _ => globalLength_eq_ok_iff)
      (fun _ => Encoder.writes_global) Global.recognizes_decode (fun _ => Global.form_layout)
      Global.withoutOffsets_placed (fun _ _ _ => Global.Form.foundIn) globals hglobals hle hsize
  · intro datas hdatas hsize
    have hcount := length_le_flatMap DataSegment.layout DataSegment.layout_pos datas
    rw [vectorLayout, List.length_append] at hsize
    have hinit : ∀ d ∈ datas, d.Encodable ∧ d.init.length < UInt32.size := by
      intro d hd
      have hle := length_le_of_mem DataSegment.layout hd
      have hinit : d.init.length ≤ d.layout.length := by
        simp only [DataSegment.layout, List.length_append]
        omega
      exact ⟨hdatas d hd, by omega⟩
    refine section_roundtrip .data (fun _ _ => dataSegmentLength_eq_ok_iff)
      (fun _ h => Encoder.writes_dataSegment h.1 h.2) DataSegment.recognizes_decode
      (fun _ h => DataSegment.form_layout h.1 h.2) DataSegment.withoutOffsets_placed
      (fun _ _ _ => DataSegment.Form.foundIn) datas hinit (by omega) ?_
    rwa [vectorLayout, List.length_append]

/-- A negative number, a signalling NaN and an index of two bytes; and all three modes. -/
theorem sections_roundtrip_mixed :
    SectionRoundtrip .global
        (Encoder.globalSection [⟨⟨.var, .i64⟩, [Constant.instruction (.i64 (-64)) 0]⟩,
          ⟨⟨.const, .f32⟩, [Constant.instruction (.f32 ⟨0x7FA00001⟩) 0]⟩,
          ⟨⟨.const, .ref .func⟩, [Constant.instruction (.refFunc 128) 0]⟩])
        Global.decode Global.Form Global.withoutOffsets Global.instructions
        [⟨⟨.var, .i64⟩, [Constant.instruction (.i64 (-64)) 0]⟩,
          ⟨⟨.const, .f32⟩, [Constant.instruction (.f32 ⟨0x7FA00001⟩) 0]⟩,
          ⟨⟨.const, .ref .func⟩, [Constant.instruction (.refFunc 128) 0]⟩] ∧
      SectionRoundtrip .data
        (Encoder.dataSection [⟨.active [Constant.instruction (.i32 16) 0], [1, 2]⟩, ⟨.passive, []⟩,
          ⟨.activeIn 1 [Constant.instruction (.globalGet 0) 0], [3]⟩])
        DataSegment.decode DataSegment.Form DataSegment.withoutOffsets DataSegment.instructions
        [⟨.active [Constant.instruction (.i32 16) 0], [1, 2]⟩, ⟨.passive, []⟩,
          ⟨.activeIn 1 [Constant.instruction (.globalGet 0) 0], [3]⟩] := by
  have hencodable (c : Constant) : Expr.Encodable [c.instruction 0] := ⟨c, 0, rfl⟩
  refine ⟨sections_roundtrip.1 _ ?_ ?_, sections_roundtrip.2 _ ?_ ?_⟩
  · simp [Global.Encodable, hencodable]
  · decide +kernel
  · simp [DataSegment.Encodable, DataMode.Encodable, DataMode.offset?, hencodable]
  · decide +kernel

end WasmBinary
