import Mathlib.Tactic.Choose
import WasmBinary.Module.Decode
import WasmBinary.Proofs.Utf8
import WasmBinary.Proofs.Entity
import WasmBinary.Proofs.Layout

/-!
# The binary grammar of types, imports and exports

What a module asks of its surroundings and offers to them, byte for byte. Names are given as texts, types
and kinds by their markers. Numbers may have any accepted LEB128 form.

* `FuncType.Form`, `Limits.Form`, `TableType.Form`, `ImportItem.Form`, `Import.Form`, `Export.Form`: which
  byte strings stand for which entities. Each comes with `recognizes_decode`, for its reader, and
  `exists_form`, for the entities that have a form.
* `Module.ReadsLists`: what it means that the payload of a section is read as a list.
* `Module.readsLists_interface`: signatures, imports, exports, tables and memories.
-/
namespace WasmBinary

open Decoder (Recognizes recognizes_fixedVector recognizes_byte recognizes_name)
open Leb128 (IsUnsigned U32Form recognizes_u32 encodeUnsigned isUnsigned_encodeUnsigned
  u32Form_encodeUnsigned)

/-! ## Markers -/

namespace MarkerTable

variable {α : Type}

theorem mem_of_find? {t : MarkerTable α} {b : UInt8} {a : α} (h : t.find? b = some a) :
    ∃ label, (b, a, label) ∈ t.rows := by
  obtain ⟨⟨found, label⟩, hrow, rfl⟩ := Option.map_eq_some_iff.mp h
  obtain ⟨front, back, hrows, -⟩ := List.lookup_eq_some_iff.mp hrow
  exact ⟨label, by rw [hrows]; simp⟩

/-- A table that gives each value one marker. -/
theorem form_iff {t : MarkerTable α} {marker : α → UInt8}
    (hrows : ∀ row ∈ t.rows, row.1 = marker row.2.1)
    (hfind : ∀ a, t.find? (marker a) = some a) {bs : Bytes} {a : α} :
    t.Form bs a ↔ bs = [marker a] := by
  constructor
  · rintro ⟨b, rfl, hb⟩
    obtain ⟨label, hrow⟩ := mem_of_find? hb
    exact congrArg (fun b => [b]) (hrows _ hrow)
  · rintro rfl
    exact ⟨_, rfl, hfind a⟩

end MarkerTable

theorem RefType.form_iff {bs : Bytes} {t : RefType} : RefType.markers.Form bs t ↔ bs = [t.marker] :=
  MarkerTable.form_iff (by decide) RefType.find?_marker

theorem ValueType.form_iff {bs : Bytes} {t : ValueType} :
    ValueType.markers.Form bs t ↔ bs = [t.marker] :=
  MarkerTable.form_iff (by decide) ValueType.find?_marker

theorem Mutability.form_iff {bs : Bytes} {m : Mutability} :
    Mutability.markers.Form bs m ↔ bs = [m.marker] :=
  MarkerTable.form_iff (by decide) Mutability.find?_marker

/-- The byte of a kind. -/
def ExternalKind.marker : ExternalKind → UInt8
  | func => 0x00
  | table => 0x01
  | memory => 0x02
  | global => 0x03
  | tag => 0x04

theorem ExternalKind.find?_marker (kind : ExternalKind) :
    ExternalKind.markers.find? kind.marker = some kind := by
  cases kind <;> decide

theorem ExternalKind.form_iff {bs : Bytes} {kind : ExternalKind} :
    ExternalKind.markers.Form bs kind ↔ bs = [kind.marker] :=
  MarkerTable.form_iff (by decide) ExternalKind.find?_marker

theorem GlobalType.form_iff {bs : Bytes} {t : GlobalType} :
    GlobalType.Form bs t ↔ bs = [t.value.marker, t.mutability.marker] := by
  simp [GlobalType.Form, ValueType.form_iff, Mutability.form_iff]

/-! ## Names -/

theorem Format.name_iff {bs : Bytes} {text : String} :
    Format.Name bs text ↔ Format.ByteVector bs (Text.Utf8.encode text) := by
  simp [Format.Name, Text.Utf8.decode_eq_ok_iff]

namespace Format

variable {α : Type} {F : Bytes → α → Prop} {Fits : α → Prop}

/-- A list has a form if it can be counted and its items have one. -/
theorem Vector.exists_form (h : ∀ a, Fits a → ∃ bs, F bs a) {items : List α}
    (hitems : ∀ a ∈ items, Fits a) (hcount : items.length < UInt32.size) :
    ∃ bs, Vector (.fixed F) 0 bs items := by
  choose! layout hlayout using h
  exact ⟨_, .form_layout hcount fun a ha => hlayout a (hitems a ha)⟩

end Format

/-! ## Signatures -/

namespace FuncType

/-- Types of values, each its marker. -/
abbrev TypesForm : Bytes → List ValueType → Prop :=
  Format.Vector (.fixed fun bs t => bs = [t.marker]) 0

/-- The byte of a signature, the parameters and the results. -/
def Form (bs : Bytes) (t : FuncType) : Prop :=
  ∃ bs₁ bs₂, bs = 0x60 :: (bs₁ ++ bs₂) ∧ TypesForm bs₁ t.parameters ∧ TypesForm bs₂ t.results

/-- The types can be counted. -/
def Fits (t : FuncType) : Prop :=
  t.parameters.length < UInt32.size ∧ t.results.length < UInt32.size

theorem recognizes_types : (Decoder.vector ValueType.markers.decode).Recognizes (.fixed TypesForm) :=
  recognizes_fixedVector ((MarkerTable.recognizes_decode _).congr fun _ _ _ => ValueType.form_iff)

theorem recognizes_decode : decode.Recognizes (.fixed Form) := by
  refine ((recognizes_byte.mapError _).bind fun form => .ite
    (fun _ => (recognizes_types.mapError _).bind fun parameters =>
      (recognizes_types.mapError _).bind fun results => .pure _)
    fun _ => .throw _).congr fun p bs t => ⟨?_, ?_⟩
  · rintro ⟨_, _, form, rfl, rfl, ⟨rfl, bs₁, _, parameters, rfl, hparameters, bs₂, _, results, rfl,
      hresults, rfl, rfl⟩ | ⟨-, hf⟩⟩
    · exact ⟨bs₁, bs₂, by simp [form], hparameters, hresults⟩
    · exact hf.elim
  · rintro ⟨bs₁, bs₂, rfl, hparameters, hresults⟩
    exact ⟨[0x60], _, 0x60, rfl, rfl, .inl ⟨rfl, bs₁, bs₂, _, rfl, hparameters, bs₂, [], _, by simp,
      hresults, rfl, rfl⟩⟩

theorem exists_form {t : FuncType} (h : t.Fits) : ∃ bs, Form bs t :=
  ⟨_, vectorLayout (fun t => [t.marker]) _, vectorLayout (fun t => [t.marker]) _, rfl,
    .form_layout h.1 fun _ _ => rfl, .form_layout h.2 fun _ _ => rfl⟩

end FuncType

/-! ## Limits -/

namespace Limits

/-- The byte that tells whether there is a maximum, and whether the storage is shared and addressed by
64-bit numbers. -/
def flagByte (bounded shared index64 : Bool) : UInt8 :=
  (if bounded then 1 else 0) + (if shared then 2 else 0) + if index64 then 4 else 0

theorem flagByte_le (bounded shared index64 : Bool) : flagByte bounded shared index64 ≤ 7 := by
  cases bounded <;> cases shared <;> cases index64 <;> decide

theorem bits_flagByte (bounded shared index64 : Bool) :
    (flagByte bounded shared index64 &&& 1 != 0) = bounded ∧
      (flagByte bounded shared index64 &&& 2 != 0) = shared ∧
      (flagByte bounded shared index64 &&& 4 != 0) = index64 := by
  cases bounded <;> cases shared <;> cases index64 <;> decide

theorem flagByte_bits {flags : UInt8} (h : flags ≤ 7) :
    flagByte (flags &&& 1 != 0) (flags &&& 2 != 0) (flags &&& 4 != 0) = flags := by
  have hall : ∀ n < 8, flagByte (UInt8.ofNat n &&& 1 != 0) (UInt8.ofNat n &&& 2 != 0)
      (UInt8.ofNat n &&& 4 != 0) = UInt8.ofNat n := by decide
  have hflags := hall flags.toNat (Nat.lt_succ_of_le (UInt8.le_iff_toNat_le.mp h))
  rwa [UInt8.ofNat_toNat] at hflags

/-- How many bits a bound may have. -/
def width (index64 : Bool) : Nat := if index64 then 64 else 32

/-- The flags, the minimum, and the maximum if there is one. -/
inductive Form : Bytes → Limits → Prop
  | unbounded {bs : Bytes} {min : UInt64} {shared index64 : Bool}
      (hmin : IsUnsigned (width index64) bs min.toNat) :
      Form (flagByte false shared index64 :: bs) ⟨min, none, shared, index64⟩
  | bounded {bs bs' : Bytes} {min max : UInt64} {shared index64 : Bool}
      (hmin : IsUnsigned (width index64) bs min.toNat)
      (hmax : IsUnsigned (width index64) bs' max.toNat) :
      Form (flagByte true shared index64 :: (bs ++ bs')) ⟨min, some max, shared, index64⟩

/-- The bounds are below `2 ^ 32`, unless the storage is addressed by 64-bit numbers. -/
def Fits (l : Limits) : Prop :=
  l.index64 = false → l.min.toNat < UInt32.size ∧ ∀ max, l.max = some max → max.toNat < UInt32.size

theorem recognizes_bound (index64 : Bool) :
    (bound index64).Recognizes (.fixed fun bs n => IsUnsigned (width index64) bs n.toNat) := by
  cases index64 with
  | true => exact Leb128.recognizes_u64
  | false =>
    refine (recognizes_u32.map _).congr fun p bs n => ⟨?_, ?_⟩
    · rintro ⟨n, h, rfl⟩
      exact h
    · intro h
      have hn : (UInt32.ofNat n.toNat).toNat = n.toNat := UInt32.toNat_ofNat_of_lt' h.lt
      refine ⟨UInt32.ofNat n.toNat, ?_, ?_⟩
      · change IsUnsigned 32 bs _
        rwa [hn]
      · rw [← UInt64.toNat_inj, UInt32.toNat_toUInt64, hn]

theorem recognizes_decode : decode.Recognizes (.fixed Form) := by
  refine Recognizes.congr ((recognizes_byte.mapError _).bind fun flags => .ite
    (fun _ => ((recognizes_bound _).mapError _).bind fun min => .ite
      (fun _ => (((recognizes_bound _).mapError _).map some).bind fun max => .pure _)
      fun _ => (Recognizes.pure none).bind fun max => .pure _)
    fun _ => .throw _) fun p bs l => ⟨?_, ?_⟩
  · rintro ⟨_, _, flags, rfl, rfl, ⟨hflags, bs₁, _, min, rfl, hmin, hmax⟩ | ⟨-, hf⟩⟩
    · have hbyte := flagByte_bits hflags
      rcases hmax with ⟨hbounded, bs₂, _, _, rfl, ⟨max, hmax, rfl⟩, rfl, rfl⟩ |
        ⟨hbounded, _, _, _, rfl, ⟨rfl, rfl⟩, rfl, rfl⟩
      · rw [hbounded] at hbyte
        have hform : Form (flagByte true (flags &&& 2 != 0) _ :: _) _ := .bounded hmin hmax
        rw [hbyte] at hform
        simpa using hform
      · rw [Bool.not_eq_true] at hbounded
        rw [hbounded] at hbyte
        have hform : Form (flagByte false (flags &&& 2 != 0) _ :: _) _ := .unbounded hmin
        rw [hbyte] at hform
        simpa using hform
    · exact hf.elim
  · intro hform
    cases hform with
    | @unbounded bs min shared index64 hmin =>
      obtain ⟨h1, h2, h4⟩ := bits_flagByte false shared index64
      refine ⟨[_], bs, _, rfl, rfl, .inl ⟨flagByte_le .., ?_⟩⟩
      rw [h1, h2, h4]
      exact ⟨bs, [], min, by simp, hmin, .inr ⟨nofun, [], [], none, rfl, ⟨rfl, rfl⟩, rfl, rfl⟩⟩
    | @bounded bs bs' min max shared index64 hmin hmax =>
      obtain ⟨h1, h2, h4⟩ := bits_flagByte true shared index64
      refine ⟨[_], bs ++ bs', _, rfl, rfl, .inl ⟨flagByte_le .., ?_⟩⟩
      rw [h1, h2, h4]
      exact ⟨bs, bs', min, rfl, hmin,
        .inl ⟨rfl, bs', [], some max, by simp, ⟨max, hmax, rfl⟩, rfl, rfl⟩⟩

theorem exists_form {l : Limits} (h : l.Fits) : ∃ bs, Form bs l := by
  obtain ⟨min, max, shared, index64⟩ := l
  have hbound {n : UInt64} (hn : index64 = false → n.toNat < UInt32.size) :
      IsUnsigned (width index64) (encodeUnsigned n.toNat) n.toNat := by
    cases index64 with
    | true => exact isUnsigned_encodeUnsigned (by decide) _ n.toNat_lt
    | false => exact isUnsigned_encodeUnsigned (by decide) _ (hn rfl)
  have hmin := hbound fun hwidth => (h hwidth).1
  cases max with
  | none => exact ⟨_, .unbounded hmin⟩
  | some max => exact ⟨_, .bounded hmin (hbound fun hwidth => (h hwidth).2 max rfl)⟩

end Limits

/-! ## Tables -/

namespace TableType

/-- The type of the entries and their limits. -/
def Form (bs : Bytes) (t : TableType) : Prop :=
  ∃ bs', bs = t.element.marker :: bs' ∧ Limits.Form bs' t.limits

def Fits (t : TableType) : Prop := t.limits.Fits

theorem recognizes_decode : decode.Recognizes (.fixed Form) := by
  refine (((MarkerTable.recognizes_decode _).mapError _).bind fun element =>
    (Limits.recognizes_decode.mapError _).bind fun limits => .pure _).congr fun p bs t => ⟨?_, ?_⟩
  · rintro ⟨bs₁, _, element, rfl, helement, bs₂, _, limits, rfl, hlimits, rfl, rfl⟩
    rw [Format.fixed, RefType.form_iff] at helement
    exact ⟨bs₂, by simp [helement], hlimits⟩
  · rintro ⟨bs', rfl, hlimits⟩
    exact ⟨[_], bs', t.element, rfl, RefType.form_iff.mpr rfl, bs', [], t.limits, by simp, hlimits, rfl,
      rfl⟩

theorem exists_form {t : TableType} (h : t.Fits) : ∃ bs, Form bs t := by
  obtain ⟨bs, hbs⟩ := Limits.exists_form h
  exact ⟨_, bs, rfl, hbs⟩

end TableType

/-! ## Imports -/

/-- The kind of an item and its type. A tag has a byte of its own in front of its type. -/
inductive ImportItem.Form : Bytes → ImportItem → Prop
  | func {bs : Bytes} {type : Index} (h : U32Form bs type) : Form (0x00 :: bs) (.func type)
  | table {bs : Bytes} {type : TableType} (h : TableType.Form bs type) : Form (0x01 :: bs) (.table type)
  | memory {bs : Bytes} {limits : Limits} (h : Limits.Form bs limits) : Form (0x02 :: bs) (.memory limits)
  | global (type : GlobalType) : Form [0x03, type.value.marker, type.mutability.marker] (.global type)
  | tag {bs : Bytes} {type : Index} (h : U32Form bs type) : Form (0x04 :: 0x00 :: bs) (.tag type)

def ImportItem.Fits : ImportItem → Prop
  | table type => type.Fits
  | memory limits => limits.Fits
  | func _ | global _ | tag _ => True

namespace Import

/-- The two names and the item. -/
def Form (bs : Bytes) (i : Import) : Prop :=
  ∃ bs₁ bs₂ bs₃, bs = bs₁ ++ (bs₂ ++ bs₃) ∧ Format.ByteVector bs₁ (Text.Utf8.encode i.module) ∧
    Format.ByteVector bs₂ (Text.Utf8.encode i.name) ∧ ImportItem.Form bs₃ i.item

/-- The bytes of the names can be counted, and the item fits. -/
def Fits (i : Import) : Prop :=
  (Text.Utf8.encode i.module).length < UInt32.size ∧
    (Text.Utf8.encode i.name).length < UInt32.size ∧ i.item.Fits

end Import

/-- What stands behind the kind. -/
theorem ImportItem.recognizes_decode (kind : ExternalKind) :
    (decode kind).Recognizes (.fixed fun bs item => ImportItem.Form (kind.marker :: bs) item) := by
  have hindex := IndexSpace.recognizes_decode .type
  cases kind with
  | func =>
    refine ((hindex.mapError _).map ImportItem.func).congr fun p bs item => ⟨?_, ?_⟩
    · rintro ⟨type, h, rfl⟩
      exact .func h
    · intro h
      cases h with
      | func h => exact ⟨_, h, rfl⟩
  | table =>
    refine ((TableType.recognizes_decode.mapError _).map ImportItem.table).congr
      fun p bs item => ⟨?_, ?_⟩
    · rintro ⟨type, h, rfl⟩
      exact .table h
    · intro h
      cases h with
      | table h => exact ⟨_, h, rfl⟩
  | memory =>
    refine (((Limits.recognizes_decode.mapError _).mapError _).map ImportItem.memory).congr
      fun p bs item => ⟨?_, ?_⟩
    · rintro ⟨limits, h, rfl⟩
      exact .memory h
    · intro h
      cases h with
      | memory h => exact ⟨_, h, rfl⟩
  | global =>
    refine ((GlobalType.recognizes_decode.mapError _).map ImportItem.global).congr
      fun p bs item => ⟨?_, ?_⟩
    · rintro ⟨type, h, rfl⟩
      rw [Format.fixed, GlobalType.form_iff] at h
      rw [h]
      exact .global type
    · intro h
      cases h with
      | global type => exact ⟨type, GlobalType.form_iff.mpr rfl, rfl⟩
  | tag =>
    refine ((recognizes_byte.mapError _).bind fun found => .ite
      (fun _ => (hindex.mapError _).map ImportItem.tag) fun _ => .throw _).congr
      fun p bs item => ⟨?_, ?_⟩
    · rintro ⟨_, bs, found, rfl, rfl, ⟨rfl, type, h, rfl⟩ | ⟨-, hf⟩⟩
      · exact .tag h
      · exact hf.elim
    · intro h
      cases h with
      | tag h => exact ⟨[0x00], _, 0x00, rfl, rfl, .inl ⟨rfl, _, h, rfl⟩⟩

theorem ImportItem.exists_form {item : ImportItem} (h : item.Fits) : ∃ bs, ImportItem.Form bs item := by
  cases item with
  | func type => exact ⟨_, .func (u32Form_encodeUnsigned type)⟩
  | table type =>
    obtain ⟨bs, hbs⟩ := TableType.exists_form h
    exact ⟨_, .table hbs⟩
  | memory limits =>
    obtain ⟨bs, hbs⟩ := Limits.exists_form h
    exact ⟨_, .memory hbs⟩
  | global type => exact ⟨_, .global type⟩
  | tag type => exact ⟨_, .tag (u32Form_encodeUnsigned type)⟩

/-- Every item has a kind. -/
theorem ImportItem.Form.exists_cons {bs : Bytes} {item : ImportItem} (h : ImportItem.Form bs item) :
    ∃ (kind : ExternalKind) (rest : Bytes), bs = kind.marker :: rest := by
  cases h with
  | func _ => exact ⟨.func, _, rfl⟩
  | table _ => exact ⟨.table, _, rfl⟩
  | memory _ => exact ⟨.memory, _, rfl⟩
  | global _ => exact ⟨.global, _, rfl⟩
  | tag _ => exact ⟨.tag, _, rfl⟩

namespace Import

theorem recognizes_decode : decode.Recognizes (.fixed Form) := by
  refine Recognizes.congr ((recognizes_name.mapError _).bind fun module =>
    (recognizes_name.mapError _).bind fun name =>
      ((MarkerTable.recognizes_decode _).mapError _).bind fun kind =>
        (ImportItem.recognizes_decode kind).bind fun item => .pure _) fun p bs i => ⟨?_, ?_⟩
  · rintro ⟨bs₁, _, module, rfl, hmodule, bs₂, _, name, rfl, hname, bs₃, _, kind, rfl, hkind, bs₄, _,
      item, rfl, hitem, rfl, rfl⟩
    rw [Format.fixed, ExternalKind.form_iff] at hkind
    exact ⟨bs₁, bs₂, kind.marker :: bs₄, by simp [hkind], Format.name_iff.mp hmodule,
      Format.name_iff.mp hname, hitem⟩
  · rintro ⟨bs₁, bs₂, bs₃, rfl, hmodule, hname, hitem⟩
    obtain ⟨kind, rest, rfl⟩ := hitem.exists_cons
    exact ⟨bs₁, _, i.module, rfl, Format.name_iff.mpr hmodule, bs₂, _, i.name, rfl,
      Format.name_iff.mpr hname, [_], rest, kind, rfl, ExternalKind.form_iff.mpr rfl, rest, [], i.item,
      by simp, hitem, rfl, rfl⟩

theorem exists_form {i : Import} (h : i.Fits) : ∃ bs, Form bs i := by
  obtain ⟨hmodule, hname, hitem⟩ := h
  have hmodule := Format.ByteVector.form_layout hmodule
  have hname := Format.ByteVector.form_layout hname
  obtain ⟨bs₃, hitem⟩ := ImportItem.exists_form hitem
  exact ⟨_, _, _, bs₃, rfl, hmodule, hname, hitem⟩

end Import

/-! ## Exports -/

namespace Export

/-- The name, the kind and the index. -/
def Form (bs : Bytes) (e : Export) : Prop :=
  ∃ bs₁ bs₂, bs = bs₁ ++ e.kind.marker :: bs₂ ∧ Format.ByteVector bs₁ (Text.Utf8.encode e.name) ∧
    U32Form bs₂ e.index

def Fits (e : Export) : Prop := (Text.Utf8.encode e.name).length < UInt32.size

theorem recognizes_decode : decode.Recognizes (.fixed Form) := by
  refine Recognizes.congr ((recognizes_name.mapError _).bind fun name =>
    ((MarkerTable.recognizes_decode _).mapError _).bind fun kind =>
      (recognizes_u32.mapError _).bind fun index => .pure _) fun p bs e => ⟨?_, ?_⟩
  · rintro ⟨bs₁, _, name, rfl, hname, bs₂, _, kind, rfl, hkind, bs₃, _, index, rfl, hindex, rfl, rfl⟩
    rw [Format.fixed, ExternalKind.form_iff] at hkind
    exact ⟨bs₁, bs₃, by simp [hkind], Format.name_iff.mp hname, hindex⟩
  · rintro ⟨bs₁, bs₂, rfl, hname, hindex⟩
    exact ⟨bs₁, _, e.name, rfl, Format.name_iff.mpr hname, [_], bs₂, e.kind, rfl,
      ExternalKind.form_iff.mpr rfl, bs₂, [], e.index, by simp, hindex, rfl, rfl⟩

theorem exists_form {e : Export} (h : e.Fits) : ∃ bs, Form bs e :=
  ⟨_, _, _, rfl, .form_layout h, u32Form_encodeUnsigned e.index⟩

end Export

/-! ## Sections -/

namespace Module

/-- The payload of a section of this kind is a list of items, and the module then holds the list. A form
of a list is read to its end and no further, wherever it stands. A list has a form if its length can be
stored and its items fit. -/
structure ReadsLists {α : Type} (kind : SectionKind) (hold : Module → List α → Module)
    (F : Bytes → α → Prop) (Fits : α → Prop) : Prop where
  read (m : Module) (readCode : Bool) (p : Nat) {bs : Bytes} {items : List α}
    (h : Format.Vector (.fixed F) 0 bs items) (rest : Bytes) :
    m.decodePayload readCode kind ⟨p, bs ++ rest⟩ = .ok (hold m items) ⟨p + bs.length, rest⟩
  exists_form {items : List α} (hcount : items.length < UInt32.size) (h : ∀ a ∈ items, Fits a) :
    ∃ bs, Format.Vector (.fixed F) 0 bs items

theorem readsLists_of_recognizes {ε α : Type} {kind : SectionKind} {hold : Module → List α → Module}
    {F : Bytes → α → Prop} {Fits : α → Prop} {d : Decoder ε α} {f : VectorError ε → ModuleError}
    (hdecode : ∀ (m : Module) readCode, m.decodePayload readCode kind =
      hold m <$> (Decoder.vector d).mapError f)
    (hd : d.Recognizes (.fixed F)) (hform : ∀ a, Fits a → ∃ bs, F bs a) :
    ReadsLists kind hold F Fits where
  read m readCode p _ _ h rest := by
    rw [hdecode]
    exact Decoder.map_of_ok _ (((recognizes_fixedVector hd).mapError f).read (p := p) h rest)
  exists_form hcount h := Format.Vector.exists_form hform h hcount

/-- The lists of signatures, imports, exports, tables and memories are read back from each of their
forms. -/
theorem readsLists_interface :
    ReadsLists .type (fun m types => { m with types }) FuncType.Form FuncType.Fits ∧
      ReadsLists .importing (fun m imports => { m with imports }) Import.Form Import.Fits ∧
      ReadsLists .exporting (fun m exports => { m with exports }) Export.Form Export.Fits ∧
      ReadsLists .table (fun m tables => { m with tables }) TableType.Form TableType.Fits ∧
      ReadsLists .memory (fun m memories => { m with memories }) Limits.Form Limits.Fits :=
  ⟨readsLists_of_recognizes (fun _ _ => rfl) FuncType.recognizes_decode fun _ => FuncType.exists_form,
    readsLists_of_recognizes (fun _ _ => rfl) Import.recognizes_decode fun _ => Import.exists_form,
    readsLists_of_recognizes (fun _ _ => rfl) Export.recognizes_decode fun _ => Export.exists_form,
    readsLists_of_recognizes (fun _ _ => rfl) TableType.recognizes_decode fun _ => TableType.exists_form,
    readsLists_of_recognizes (fun _ _ => rfl) (Limits.recognizes_decode.mapError _)
      fun _ => Limits.exists_form⟩

/-- A shared memory that is addressed by 64-bit numbers. The count of memories and the minimum take a byte more
than they need, and what stands behind the list is left. -/
theorem readsLists_interface_sharedMemory :
    let m : Module := { source := [], version := 1 }
    let bs : Bytes := [0x81, 0x00, 0x06, 0x83, 0x00]
    Format.Vector (.fixed Limits.Form) 0 bs [⟨3, none, true, true⟩] ∧
      m.decodePayload true .memory ⟨10, bs ++ [0xFF]⟩ =
        .ok { m with memories := [⟨3, none, true, true⟩] } ⟨15, [0xFF]⟩ := by
  intro m bs
  have hcount : U32Form [0x81, 0x00] 1 :=
    ⟨.more (by decide) (.last (by decide)), by decide, rfl, by decide⟩
  have hmin : IsUnsigned (Limits.width true) [0x83, 0x00] (3 : UInt64).toNat :=
    ⟨.more (by decide) (.last (by decide)), by decide, rfl, by decide⟩
  have hmemory : Limits.Form (Limits.flagByte false true true :: [0x83, 0x00]) ⟨3, none, true, true⟩ :=
    .unbounded hmin
  have hmemories : Format.Elements (.fixed Limits.Form) 2 ([0x06, 0x83, 0x00] ++ [])
      [⟨3, none, true, true⟩] := .cons hmemory (.nil _)
  have hlist : Format.Vector (.fixed Limits.Form) 0 bs [⟨3, none, true, true⟩] :=
    .mk hcount rfl hmemories
  obtain ⟨-, -, -, -, hreads⟩ := readsLists_interface
  exact ⟨hlist, hreads.read m true 10 hlist [0xFF]⟩

end Module

end WasmBinary
