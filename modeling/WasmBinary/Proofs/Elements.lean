import WasmBinary.Module.Decode
import WasmBinary.Proofs.Assembly
import WasmBinary.Proofs.Interface

/-!
# The binary grammar of element segments

The three lower bits of the flags say which parts of a segment are stored, and how: bit 0 is clear for an
active segment, which has an offset; bit 1 names the table of an active segment and makes any other one
declarative; bit 2 tells expressions from function indices. A type is stored unless bits 0 and 1 are
clear. A part that is not stored has its default.

* `Element.Form`, `Element.recognizes_decode`: which byte strings stand for which segments.
* `Element.WellFormed`, `Element.layout`: the segments whose parts agree with their flags, and their bytes.
* `Element.exists_form_layout`: these bytes stand for the segment, but for the offsets of instructions.
* `Module.elements_of_layout`: lists of segments.
-/
namespace WasmBinary

open Decoder (Recognizes recognizes_vector recognizes_byte)
open Leb128 (U32Form recognizes_u32 encodeUnsigned u32Form_encodeUnsigned)

/-! ## Parts -/

/-- The mode, if bits 0 and 1 are as given: the table if it is named, and the offset. -/
inductive ElementMode.Form : (bit₀ bit₁ : Bool) → Nat → Bytes → ElementMode → Prop
  | active {p : Nat} {bs : Bytes} {offset : Expr} (hoffset : Expr.Form p bs offset) :
      Form false false p bs (.active 0 offset)
  | activeIn {p : Nat} {bs bs' : Bytes} {table : Index} {offset : Expr} (htable : U32Form bs table)
      (hoffset : Expr.Form (p + bs.length) bs' offset) :
      Form false true p (bs ++ bs') (.active table offset)
  | passive (p : Nat) : Form true false p [] .passive
  | declarative (p : Nat) : Form true true p [] .declarative

/-- The type of the items. If one is stored, bit 2 tells a reference type from a kind. -/
inductive Element.TypeForm : (typed bit₂ : Bool) → Bytes → RefType → Prop
  | implied (bit₂ : Bool) : TypeForm false bit₂ [] .func
  | kind : TypeForm true false [0x00] .func
  | type (t : RefType) : TypeForm true true [t.marker] t

/-- The items, if bit 2 is as given. -/
inductive ElementItems.Form : (bit₂ : Bool) → Nat → Bytes → ElementItems → Prop
  | functions {p : Nat} {bs : Bytes} {indices : List Index}
      (h : Format.Vector (.fixed U32Form) p bs indices) : Form false p bs (.functions indices)
  | expressions {p : Nat} {bs : Bytes} {items : List Expr} (h : Format.Vector Expr.Form p bs items) :
      Form true p bs (.expressions items)

namespace Element

/-- A bit of the flags. -/
def bit (flags : UInt32) (i : Nat) : Bool := flags.toNat.testBit i

/-- Whether a type is stored. -/
def typed (flags : UInt32) : Bool := bit flags 0 || bit flags 1

/-- The flags and then what they say is stored. -/
def Form (p : Nat) (bs : Bytes) (e : Element) : Prop :=
  e.flags ≤ 7 ∧ ∃ flags mode type items, bs = flags ++ (mode ++ (type ++ items)) ∧
    U32Form flags e.flags ∧
    e.mode.Form (bit e.flags 0) (bit e.flags 1) (p + flags.length) mode ∧
    TypeForm (typed e.flags) (bit e.flags 2) type e.type ∧
    e.items.Form (bit e.flags 2) (p + flags.length + mode.length + type.length) items

/-! ## Reading -/

theorem flags_bits {flags : UInt32} (h : flags ≤ 7) :
    isActive flags = !bit flags 0 ∧ hasSecondBit flags = bit flags 1 ∧
      hasExpressions flags = bit flags 2 ∧ hasType flags = typed flags := by
  have hall : ∀ n < 8, isActive (UInt32.ofNat n) = !bit (UInt32.ofNat n) 0 ∧
      hasSecondBit (UInt32.ofNat n) = bit (UInt32.ofNat n) 1 ∧
      hasExpressions (UInt32.ofNat n) = bit (UInt32.ofNat n) 2 ∧
      hasType (UInt32.ofNat n) = typed (UInt32.ofNat n) := by decide
  have hflags := hall flags.toNat (Nat.lt_succ_of_le (UInt32.le_iff_toNat_le.mp h))
  rwa [UInt32.ofNat_toNat] at hflags

variable {flags : UInt32}

theorem recognizes_mode (h : flags ≤ 7) : (decodeMode flags).Recognizes fun p bs mode =>
    ElementMode.Form (bit flags 0) (bit flags 1) p bs mode := by
  obtain ⟨hactive, hsecond, -, -⟩ := flags_bits h
  unfold decodeMode
  rw [hactive, hsecond]
  cases bit flags 0 <;> cases bit flags 1
  · refine ((Recognizes.pure 0).bind fun table =>
      (Expr.recognizes_decode.mapError _).map (ElementMode.active table)).congr fun p bs mode => ⟨?_, ?_⟩
    · rintro ⟨_, bs, table, rfl, ⟨rfl, rfl⟩, offset, hoffset, rfl⟩
      exact .active hoffset
    · intro hform
      cases hform with
      | active hoffset => exact ⟨[], bs, 0, rfl, ⟨rfl, rfl⟩, _, hoffset, rfl⟩
  · refine (((IndexSpace.recognizes_decode _).mapError _).bind fun table =>
      (Expr.recognizes_decode.mapError _).map (ElementMode.active table)).congr fun p bs mode => ⟨?_, ?_⟩
    · rintro ⟨bs, bs', table, rfl, htable, offset, hoffset, rfl⟩
      exact .activeIn htable hoffset
    · intro hform
      cases hform with
      | activeIn htable hoffset => exact ⟨_, _, _, rfl, htable, _, hoffset, rfl⟩
  · refine (Recognizes.pure ElementMode.passive).congr fun p bs mode => ⟨?_, ?_⟩
    · rintro ⟨rfl, rfl⟩
      exact .passive p
    · rintro ⟨⟩
      exact ⟨rfl, rfl⟩
  · refine (Recognizes.pure ElementMode.declarative).congr fun p bs mode => ⟨?_, ?_⟩
    · rintro ⟨rfl, rfl⟩
      exact .declarative p
    · rintro ⟨⟩
      exact ⟨rfl, rfl⟩

theorem recognizes_kind : decodeKind.Recognizes (.fixed fun bs t => bs = [0x00] ∧ t = .func) := by
  refine ((recognizes_byte.mapError _).bind fun kind => .ite (fun _ => .pure _) fun _ => .throw _).congr
    fun p bs t => ⟨?_, ?_⟩
  · rintro ⟨_, _, kind, rfl, rfl, ⟨rfl, rfl, rfl⟩ | ⟨-, hf⟩⟩
    · exact ⟨rfl, rfl⟩
    · exact hf.elim
  · rintro ⟨rfl, rfl⟩
    exact ⟨[0x00], [], 0x00, rfl, rfl, .inl ⟨rfl, rfl, rfl⟩⟩

theorem recognizes_type (h : flags ≤ 7) : (decodeType flags).Recognizes
    (.fixed fun bs t => TypeForm (typed flags) (bit flags 2) bs t) := by
  obtain ⟨-, -, hexpressions, htyped⟩ := flags_bits h
  unfold decodeType
  rw [hexpressions, htyped]
  cases typed flags
  · refine (Recognizes.pure RefType.func).congr fun p bs t => ⟨?_, ?_⟩
    · rintro ⟨rfl, rfl⟩
      exact .implied _
    · rintro ⟨⟩
      exact ⟨rfl, rfl⟩
  cases bit flags 2
  · refine (recognizes_kind.mapError _).congr fun p bs t => ⟨?_, ?_⟩
    · rintro ⟨rfl, rfl⟩
      exact .kind
    · rintro ⟨⟩
      exact ⟨rfl, rfl⟩
  · refine ((MarkerTable.recognizes_decode _).mapError _).congr fun p bs t => ⟨?_, ?_⟩
    · intro ht
      rw [Format.fixed, RefType.form_iff] at ht
      rw [ht]
      exact .type t
    · rintro ⟨⟩
      exact RefType.form_iff.mpr rfl

theorem recognizes_items (h : flags ≤ 7) : (decodeItems flags).Recognizes fun p bs items =>
    ElementItems.Form (bit flags 2) p bs items := by
  obtain ⟨-, -, hexpressions, -⟩ := flags_bits h
  unfold decodeItems
  rw [hexpressions]
  cases bit flags 2
  · refine (((recognizes_vector (IndexSpace.recognizes_decode _)).mapError _).map
      ElementItems.functions).congr fun p bs items => ⟨?_, ?_⟩
    · rintro ⟨indices, hindices, rfl⟩
      exact .functions hindices
    · intro hform
      cases hform with
      | functions hindices => exact ⟨_, hindices, rfl⟩
  · refine (((recognizes_vector Expr.recognizes_decode).mapError _).map
      ElementItems.expressions).congr fun p bs items => ⟨?_, ?_⟩
    · rintro ⟨items, hitems, rfl⟩
      exact .expressions hitems
    · intro hform
      cases hform with
      | expressions hitems => exact ⟨_, hitems, rfl⟩

theorem recognizes_decode : decode.Recognizes Form := by
  refine Recognizes.congr ((recognizes_u32.mapError _).bind fun flags => .ite
    (fun _ => Recognizes.throw (ElementError.unknownFlags flags)) fun h =>
      (recognizes_mode (UInt32.not_lt.mp h)).bind fun mode =>
        (recognizes_type (UInt32.not_lt.mp h)).bind fun type =>
          (recognizes_items (UInt32.not_lt.mp h)).bind fun items => .pure _) fun p bs e => ⟨?_, ?_⟩
  · rintro ⟨bs₀, _, flags, rfl, hflags, ⟨-, hf⟩ | ⟨hle, bs₁, _, mode, rfl, hmode, bs₂, _, type, rfl,
      htype, bs₃, _, items, rfl, hitems, rfl, rfl⟩⟩
    · exact hf.elim
    · exact ⟨UInt32.not_lt.mp hle, bs₀, bs₁, bs₂, bs₃, by simp, hflags, hmode, htype, hitems⟩
  · rintro ⟨hle, bs₀, bs₁, bs₂, bs₃, rfl, hflags, hmode, htype, hitems⟩
    exact ⟨bs₀, _, e.flags, rfl, hflags, .inr ⟨UInt32.not_lt.mpr hle, bs₁, _, e.mode, rfl, hmode, bs₂, _,
      e.type, rfl, htype, bs₃, [], e.items, by simp, hitems, rfl, rfl⟩⟩

end Element

/-! ## Layouts -/

/-- The table, if it is stored, and the offset. -/
def ElementMode.layout (bit₁ : Bool) : ElementMode → Bytes
  | active table offset => (if bit₁ then encodeUnsigned table.toNat else []) ++ offset.assemble
  | passive | declarative => []

/-- The mode is one that bits 0 and 1 allow. -/
def ElementMode.WellFormed (bit₀ bit₁ : Bool) : ElementMode → Prop
  | active table offset => bit₀ = false ∧ (bit₁ = false → table = 0) ∧ offset.WellFormed
  | passive => bit₀ = true ∧ bit₁ = false
  | declarative => bit₀ = true ∧ bit₁ = true

def ElementItems.layout : ElementItems → Bytes
  | functions indices => vectorLayout (fun i => encodeUnsigned i.toNat) indices
  | expressions items => vectorLayout Expr.assemble items

/-- The items are what bit 2 says, and can be counted. -/
def ElementItems.WellFormed (bit₂ : Bool) : ElementItems → Prop
  | functions indices => bit₂ = false ∧ indices.length < UInt32.size
  | expressions items => bit₂ = true ∧ items.length < UInt32.size ∧ ∀ e ∈ items, Expr.WellFormed e

theorem ElementMode.exists_form_layout {bit₀ bit₁ : Bool} {mode : ElementMode}
    (h : mode.WellFormed bit₀ bit₁) (p : Nat) : ∃ found, Form bit₀ bit₁ p (mode.layout bit₁) found ∧
      found.mapOffsets (fun _ => 0) = mode.mapOffsets fun _ => 0 := by
  cases mode with
  | active table offset =>
    obtain ⟨rfl, htable, hoffset⟩ := h
    cases bit₁ with
    | false =>
      obtain rfl := htable rfl
      obtain ⟨found, hfound, hsame⟩ := Expr.exists_form_assemble hoffset p
      exact ⟨_, .active hfound, congrArg (ElementMode.active 0) hsame⟩
    | true =>
      obtain ⟨found, hfound, hsame⟩ := Expr.exists_form_assemble hoffset _
      exact ⟨_, .activeIn (u32Form_encodeUnsigned table) hfound, congrArg (ElementMode.active table) hsame⟩
  | passive =>
    obtain ⟨rfl, rfl⟩ := h
    exact ⟨_, .passive p, rfl⟩
  | declarative =>
    obtain ⟨rfl, rfl⟩ := h
    exact ⟨_, .declarative p, rfl⟩

theorem ElementItems.exists_form_layout {bit₂ : Bool} {items : ElementItems} (h : items.WellFormed bit₂)
    (p : Nat) : ∃ found, Form bit₂ p items.layout found ∧
      found.mapOffsets (fun _ => 0) = items.mapOffsets fun _ => 0 := by
  cases items with
  | functions indices =>
    obtain ⟨rfl, hcount⟩ := h
    have hvector := Format.Vector.form_layout hcount fun i _ => u32Form_encodeUnsigned i
    exact ⟨_, .functions (hvector.move p), rfl⟩
  | expressions items =>
    obtain ⟨rfl, hcount, hitems⟩ := h
    obtain ⟨found, hfound, hsame⟩ := Format.Vector.exists_layout hcount
      (fun e he p => Expr.exists_form_assemble (hitems e he) p) p
    exact ⟨_, .expressions hfound, congrArg ElementItems.expressions hsame⟩

namespace Element

/-- The parts agree with the flags. What is not stored has its default. -/
structure WellFormed (e : Element) : Prop where
  flags_le : e.flags ≤ 7
  mode : e.mode.WellFormed (bit e.flags 0) (bit e.flags 1)
  type : (typed e.flags && bit e.flags 2) = false → e.type = .func
  items : e.items.WellFormed (bit e.flags 2)

/-- The type, or the kind that stands for functions. -/
def typeLayout (flags : UInt32) (t : RefType) : Bytes :=
  if !typed flags then [] else if bit flags 2 then [t.marker] else [0x00]

/-- The bytes of a segment: the flags, and of the rest what they say is stored. -/
def layout (e : Element) : Bytes :=
  encodeUnsigned e.flags.toNat ++ (e.mode.layout (bit e.flags 1) ++
    (typeLayout e.flags e.type ++ e.items.layout))

theorem form_typeLayout {flags : UInt32} {t : RefType}
    (h : (typed flags && bit flags 2) = false → t = .func) :
    TypeForm (typed flags) (bit flags 2) (typeLayout flags t) t := by
  unfold typeLayout
  cases htyped : typed flags with
  | false =>
    obtain rfl := h (by rw [htyped, Bool.false_and])
    exact .implied _
  | true =>
    cases hbit : bit flags 2 with
    | false =>
      obtain rfl := h (by rw [htyped, hbit, Bool.and_false])
      exact .kind
    | true => exact .type t

theorem exists_form_layout {e : Element} (h : e.WellFormed) (p : Nat) :
    ∃ found, Form p e.layout found ∧ found.withoutOffsets = e.withoutOffsets := by
  obtain ⟨flags, mode, type, items⟩ := e
  obtain ⟨hle, hmode, htype, hitems⟩ := h
  obtain ⟨mode', hmode, hsame⟩ := ElementMode.exists_form_layout hmode (p + (encodeUnsigned flags.toNat).length)
  obtain ⟨items', hitems, hsames⟩ := ElementItems.exists_form_layout hitems _
  refine ⟨⟨flags, mode', type, items'⟩, ⟨hle, _, _, _, _, rfl, u32Form_encodeUnsigned flags, hmode,
    form_typeLayout htype, hitems⟩, ?_⟩
  simp only [withoutOffsets, mapOffsets, hsame, hsames]

end Element

/-! ## Sections -/

namespace Module

theorem decodePayload_element (m : Module) (readCode : Bool) :
    m.decodePayload readCode .element = (fun elements => { m with elements }) <$>
      (Decoder.vector Element.decode).mapError .elements := rfl

/-- The bytes of a list of segments, each of which agrees with its flags, are read to their end and no
further, and the module then holds these segments, but for the offsets of instructions. Bytes that are
read as segments at all are such a list: a count, and for each segment its flags and what these say is
stored, with numbers in any accepted form. -/
theorem elements_of_layout (m : Module) (readCode : Bool) (p : Nat) :
    (∀ elements : List Element, elements.length < UInt32.size → (∀ e ∈ elements, e.WellFormed) →
      ∀ rest, ∃ found, m.decodePayload readCode .element ⟨p, vectorLayout Element.layout elements ++ rest⟩ =
          .ok { m with elements := found } ⟨p + (vectorLayout Element.layout elements).length, rest⟩ ∧
        found.map Element.withoutOffsets = elements.map Element.withoutOffsets) ∧
    ∀ s m' c, m.decodePayload readCode .element ⟨p, s⟩ = .ok m' c ↔
      ∃ found bs rest, s = bs ++ rest ∧ c = ⟨p + bs.length, rest⟩ ∧ m' = { m with elements := found } ∧
        Format.Vector Element.Form p bs found := by
  have hread := ((recognizes_vector Element.recognizes_decode).mapError ModuleError.elements).map
    fun elements => { m with elements }
  rw [decodePayload_element]
  refine ⟨fun elements hcount hwell rest => ?_, fun s m' c => ?_⟩
  · obtain ⟨found, hfound, hsame⟩ := Format.Vector.exists_layout hcount
      (fun e he p => Element.exists_form_layout (hwell e he) p) p
    exact ⟨found, hread.read ⟨found, hfound, rfl⟩ rest, hsame⟩
  · rw [hread]
    constructor
    · rintro ⟨bs, rest, hs, hc, found, hfound, hm⟩
      exact ⟨found, bs, rest, hs, hc, hm, hfound⟩
    · rintro ⟨found, bs, rest, hs, hc, hm, hfound⟩
      exact ⟨bs, rest, hs, hc, found, hfound, hm⟩

/-- A block as the offset into a named table, and a declarative segment of one function. -/
theorem elements_of_layout_twoSegments :
    let m : Module := { source := [], version := 1 }
    let offset : Expr := [.block ⟨.core, 0x02, by decide⟩ 0 (.value .i32) [.i32Const 8]]
    let elements : List Element :=
      [⟨6, .active 1 offset, .externRef, .expressions [[.plain .refNull 0 (.refType .externRef)]]⟩,
        ⟨3, .declarative, .func, .functions [128]⟩]
    ∃ found, m.decodePayload true .element
        ⟨0, [2, 6, 1, 0x02, 0x7F, 0x41, 8, 0x0B, 0x0B, 0x6F, 1, 0xD0, 0x6F, 0x0B, 3, 0, 1, 0x80, 0x01,
          0xFF]⟩ = .ok { m with elements := found } ⟨19, [0xFF]⟩ ∧
      found.map Element.withoutOffsets = elements.map Element.withoutOffsets := by
  intro m offset elements
  have hoffset : offset.WellFormed := ⟨⟨rfl, .i32 8, trivial⟩, trivial⟩
  have hitem : Expr.WellFormed [.plain .refNull 0 (.refType .externRef)] := ⟨.refType .externRef, trivial⟩
  have hwell : ∀ e ∈ elements, e.WellFormed := by
    intro e he
    rcases List.mem_pair.mp he with rfl | rfl
    · refine ⟨by decide, ⟨by decide, fun h => absurd h (by decide), hoffset⟩,
        fun h => absurd h (by decide), by decide, by decide, ?_⟩
      simpa using hitem
    · exact ⟨by decide, ⟨by decide, by decide⟩, fun _ => rfl, by decide, by decide⟩
  have hlayout : vectorLayout Element.layout elements =
      [2, 6, 1, 0x02, 0x7F, 0x41, 8, 0x0B, 0x0B, 0x6F, 1, 0xD0, 0x6F, 0x0B, 3, 0, 1, 0x80, 0x01] := by
    decide +kernel
  have hread := (elements_of_layout m true 0).1 elements (by decide) hwell [0xFF]
  rwa [hlayout] at hread

end Module

end WasmBinary
