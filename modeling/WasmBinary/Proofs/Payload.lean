import WasmBinary.Module.Decode
import WasmBinary.Proofs.Relocation

/-!
# The payloads of sections

What a section holds can be told without the module that it is added to. `Payload.decode` reads the
payload of a section, and `Payload.addTo` adds it to a module.

* `Module.decodePayload_eq`: the two together are what the reader of modules does with a payload.
* `Payload.globals_of_decode`, `datas_of_decode`, `codes_of_decode`: the readers behind payloads.
* `Payload.follows_decode`: at another position a payload holds the same, its offsets moved along.
* `Payload.withoutPlaces_addTo`: forgetting offsets before adding is as good as forgetting them after.
-/
namespace WasmBinary

open Decoder (Fixed Follows fixed_name fixed_takeAll)

/-- What the payload of a section holds. -/
inductive Payload where
  /-- With the contents of a `name` section. -/
  | custom (custom : CustomSection) (names : Option (Names × List Warning))
  | types (types : List FuncType)
  | imports (imports : List Import)
  | functions (functions : List Index)
  | tables (tables : List TableType)
  | memories (memories : List Limits)
  | globals (globals : List Global)
  | exports (exports : List Export)
  | start (function : Index)
  | elements (elements : List Element)
  | codes (codes : List Code)
  | datas (datas : List DataSegment)
  | dataCount (count : UInt32)
  | skipped

namespace Payload

def decodeCustom : Decoder ModuleError Payload := do
  let custom ← CustomSection.decode.mapError .custom
  if custom.name = "name" then
    match Names.decode custom.contents with
    | .ok result => return .custom custom (some result)
    | .error cause => throw (.names cause)
  else return .custom custom none

/-- Reads the payload of a section of the given kind. -/
def decode (readCode : Bool) : SectionKind → Decoder ModuleError Payload
  | .custom => decodeCustom
  | .type => .types <$> (Decoder.vector FuncType.decode).mapError .types
  | .importing => .imports <$> (Decoder.vector Import.decode).mapError .imports
  | .function => .functions <$> (Decoder.vector IndexSpace.type.decode).mapError .functions
  | .table => .tables <$> (Decoder.vector TableType.decode).mapError .tables
  | .memory => .memories <$> (Decoder.vector Limits.decodeMemory).mapError .memories
  | .global => .globals <$> (Decoder.vector Global.decode).mapError .globals
  | .exporting => .exports <$> (Decoder.vector Export.decode).mapError .exports
  | .start => .start <$> IndexSpace.func.decode.mapError .start
  | .element => .elements <$> (Decoder.vector Element.decode).mapError .elements
  | .code => if readCode then .codes <$> Code.decodeAll.mapError .codes else return .skipped
  | .data => .datas <$> (Decoder.vector DataSegment.decode).mapError .datas
  | .dataCount => .dataCount <$> Leb128.u32.mapError .dataCount
  | .tag | .unknown _ => return .skipped

/-- The module with what a payload holds. Custom sections and warnings add up, all else replaces
what there was. -/
def addTo (m : Module) : Payload → Module
  | .custom found none => { m with customs := m.customs ++ [found] }
  | .custom found (some (names, added)) =>
    { m with customs := m.customs ++ [found], names, warnings := m.warnings ++ added }
  | .types found => { m with types := found }
  | .imports found => { m with imports := found }
  | .functions found => { m with functions := found }
  | .tables found => { m with tables := found }
  | .memories found => { m with memories := found }
  | .globals found => { m with globals := found }
  | .exports found => { m with exports := found }
  | .start found => { m with start := some found }
  | .elements found => { m with elements := found }
  | .codes found => { m with codes := found }
  | .datas found => { m with datas := found }
  | .dataCount found => { m with dataCount := some found }
  | .skipped => m

/-- The kind of section whose payload this is, if it is not skipped. -/
def kind? : Payload → Option SectionKind
  | .custom .. => some .custom
  | .types _ => some .type
  | .imports _ => some .importing
  | .functions _ => some .function
  | .tables _ => some .table
  | .memories _ => some .memory
  | .globals _ => some .global
  | .exports _ => some .exporting
  | .start _ => some .start
  | .elements _ => some .element
  | .codes _ => some .code
  | .datas _ => some .data
  | .dataCount _ => some .dataCount
  | .skipped => none

/-- The payload of a custom section is the custom section, with or without names. -/
theorem exists_of_decodeCustom {c c' : Cursor} {pl : Payload} (h : decodeCustom c = .ok pl c') :
    ∃ custom names c₁, CustomSection.decode c = .ok custom c₁ ∧ pl = .custom custom names := by
  obtain ⟨custom, c₁, hread, h⟩ := (Decoder.bind_eq_ok ..).mp h
  refine ⟨custom, ?_⟩
  rw [Decoder.mapError_eq_ok] at hread
  by_cases hname : custom.name = "name"
  · rw [if_pos hname] at h
    cases hnames : Names.decode custom.contents with
    | error cause =>
      rw [hnames] at h
      cases h
    | ok result =>
      rw [hnames] at h
      cases h
      exact ⟨_, _, hread, rfl⟩
  · rw [if_neg hname] at h
    cases h
    exact ⟨_, _, hread, rfl⟩

/-- The custom section that a payload is. -/
def custom? : Payload → Option CustomSection
  | .custom found _ => some found
  | _ => none

theorem customs_addTo (m : Module) (pl : Payload) :
    (pl.addTo m).customs = m.customs ++ pl.custom?.toList := by
  cases pl with
  | custom found names => cases names <;> rfl
  | _ => exact (List.append_nil _).symm

/-- What is not skipped belongs to the kind as which it was read. -/
theorem kind?_of_decode {readCode : Bool} {kind : SectionKind} {c c' : Cursor} {pl : Payload}
    (h : decode readCode kind c = .ok pl c') : pl = .skipped ∨ pl.kind? = some kind := by
  cases kind with
  | custom =>
    obtain ⟨custom, names, _, -, rfl⟩ := exists_of_decodeCustom h
    exact .inr rfl
  | tag | unknown id =>
    cases h
    exact .inl rfl
  | code =>
    cases readCode
    · cases h
      exact .inl rfl
    · obtain ⟨found, -, rfl⟩ := (Decoder.map_eq_ok ..).mp h
      exact .inr rfl
  | _ =>
    obtain ⟨found, -, rfl⟩ := (Decoder.map_eq_ok ..).mp h
    exact .inr rfl

section

variable {readCode : Bool} {kind : SectionKind} {c c' : Cursor}

theorem kind_of_decode {pl : Payload} {kind' : SectionKind} (h : decode readCode kind c = .ok pl c')
    (hpl : pl.kind? = some kind') : kind = kind' := by
  rcases kind?_of_decode h with rfl | hkind
  · cases hpl
  · exact Option.some.inj (hkind.symm.trans hpl)

theorem globals_of_decode {found : List Global} (h : decode readCode kind c = .ok (.globals found) c') :
    Decoder.vector Global.decode c = .ok found c' := by
  obtain rfl := kind_of_decode h rfl
  obtain ⟨_, hread, hfound⟩ := (Decoder.map_eq_ok ..).mp h
  cases hfound
  exact (Decoder.mapError_eq_ok ..).mp hread

theorem datas_of_decode {found : List DataSegment}
    (h : decode readCode kind c = .ok (.datas found) c') :
    Decoder.vector DataSegment.decode c = .ok found c' := by
  obtain rfl := kind_of_decode h rfl
  obtain ⟨_, hread, hfound⟩ := (Decoder.map_eq_ok ..).mp h
  cases hfound
  exact (Decoder.mapError_eq_ok ..).mp hread

theorem codes_of_decode {found : List Code} (h : decode readCode kind c = .ok (.codes found) c') :
    Code.decodeAll c = .ok found c' := by
  obtain rfl := kind_of_decode h rfl
  cases readCode with
  | false => cases h
  | true =>
    obtain ⟨_, hread, hfound⟩ := (Decoder.map_eq_ok ..).mp h
    cases hfound
    exact (Decoder.mapError_eq_ok ..).mp hread

end

end Payload

theorem Module.decodeCustom_eq (m : Module) :
    m.decodeCustom = Payload.addTo m <$> Payload.decodeCustom := by
  simp only [decodeCustom, Payload.decodeCustom, map_bind]
  congr
  funext custom
  by_cases hname : custom.name = "name"
  · simp only [if_pos hname]
    cases Names.decode custom.contents <;> rfl
  · simp only [if_neg hname]
    rfl

theorem Module.decodePayload_eq (readCode : Bool) (m : Module) (kind : SectionKind) :
    m.decodePayload readCode kind = Payload.addTo m <$> Payload.decode readCode kind := by
  cases kind with
  | custom => exact decodeCustom_eq m
  | code => cases readCode <;> simp [decodePayload, Payload.decode, Payload.addTo]
  | _ => simp [decodePayload, Payload.decode, Payload.addTo]

/-! ## At another position -/

def ModuleError.mapOffsets (f : Nat → Nat) : ModuleError → ModuleError
  | globals cause => globals (cause.map (GlobalError.mapOffsets f))
  | elements cause => elements (cause.map (ElementError.mapOffsets f))
  | codes cause => codes (cause.map (CodeError.mapOffset f))
  | datas cause => datas (cause.map (DataError.mapOffsets f))
  | e => e

namespace Payload

def mapOffsets (f : Nat → Nat) : Payload → Payload
  | .globals found => .globals (found.map (Global.mapOffsets f))
  | .elements found => .elements (found.map (Element.mapOffsets f))
  | .codes found => .codes (found.map (Code.mapOffset f))
  | .datas found => .datas (found.map (DataSegment.mapOffsets f))
  | pl => pl

def withoutOffsets (pl : Payload) : Payload := pl.mapOffsets fun _ => 0

theorem withoutOffsets_mapOffsets (f : Nat → Nat) (pl : Payload) :
    (pl.mapOffsets f).withoutOffsets = pl.withoutOffsets := by
  have hglobal : ∀ g : Global, (g.mapOffsets f).mapOffsets (fun _ => 0) = g.mapOffsets fun _ => 0 :=
    Global.withoutOffsets_mapOffsets f
  have helement : ∀ e : Element,
      (e.mapOffsets f).mapOffsets (fun _ => 0) = e.mapOffsets fun _ => 0 :=
    Element.withoutOffsets_mapOffsets f
  have hdata : ∀ d : DataSegment,
      (d.mapOffsets f).mapOffsets (fun _ => 0) = d.mapOffsets fun _ => 0 :=
    DataSegment.withoutOffsets_mapOffsets f
  cases pl with
  | globals found => simp [withoutOffsets, mapOffsets, hglobal]
  | elements found => simp [withoutOffsets, mapOffsets, helement]
  | codes found => simp [withoutOffsets, mapOffsets, Code.mapOffset]
  | datas found => simp [withoutOffsets, mapOffsets, hdata]
  | _ => rfl

/-- Forgetting offsets before adding is as good as forgetting them after. -/
theorem withoutPlaces_addTo (m : Module) (pl : Payload) :
    (pl.addTo m).withoutPlaces = pl.withoutOffsets.addTo m.withoutPlaces := by
  cases pl with
  | custom found names => cases names <;> rfl
  | _ => rfl

/-- Moving offsets before adding is as good as moving them after. -/
theorem entities_addTo_mapOffsets {f : Nat → Nat} {m n : Module}
    (h : n.entities = m.entities.mapOffsets f) (pl : Payload) :
    ((pl.mapOffsets f).addTo n).entities = (pl.addTo m).entities.mapOffsets f := by
  have hentities : ((pl.mapOffsets f).addTo n).entities =
      ((pl.mapOffsets f).addTo n.entities).entities := by
    cases pl with
    | custom found names => cases names <;> rfl
    | _ => rfl
  rw [hentities, h]
  cases pl with
  | custom found names => cases names <;> rfl
  | _ => rfl

/-- A payload that records no offset. -/
theorem follows_of_fixed {ε α : Type} {d : Decoder ε α} (hd : Fixed d) (f : Nat → Nat)
    {toError : ε → ModuleError} {toPayload : α → Payload}
    (herror : ∀ e, (toError e).mapOffsets f = toError e)
    (hvalue : ∀ a, (toPayload a).mapOffsets f = toPayload a) :
    Follows f (ModuleError.mapOffsets f) (mapOffsets f) (toPayload <$> d.mapError toError)
      (toPayload <$> d.mapError toError) :=
  .map ((hd f).mapError herror) hvalue

theorem fixed_decodeCustomSection : Fixed CustomSection.decode :=
  fixed_name.bind fun _ => fixed_takeAll.bind fun _ => .pure _

theorem follows_decodeCustom (f : Nat → Nat) :
    Follows f (ModuleError.mapOffsets f) (mapOffsets f) decodeCustom decodeCustom := by
  refine Follows.bind ((fixed_decodeCustomSection f).mapError fun _ => rfl) fun custom => ?_
  refine .ite (fun _ => ?_) fun _ => .pure rfl
  simp only [id_eq]
  cases Names.decode custom.contents with
  | ok result => exact .pure rfl
  | error cause => exact .throw rfl

/-- At another position a payload holds the same, its offsets moved along. -/
theorem follows_decode (f : Nat → Nat) (readCode : Bool) (kind : SectionKind) :
    Follows f (ModuleError.mapOffsets f) (mapOffsets f) (decode readCode kind)
      (decode readCode kind) := by
  cases kind with
  | custom => exact follows_decodeCustom f
  | type => exact follows_of_fixed FuncType.fixed_decode.vector f (fun _ => rfl) fun _ => rfl
  | importing => exact follows_of_fixed Import.fixed_decode.vector f (fun _ => rfl) fun _ => rfl
  | function =>
    exact follows_of_fixed (IndexSpace.fixed_decode _).vector f (fun _ => rfl) fun _ => rfl
  | table => exact follows_of_fixed TableType.fixed_decode.vector f (fun _ => rfl) fun _ => rfl
  | memory => exact follows_of_fixed Limits.fixed_decodeMemory.vector f (fun _ => rfl) fun _ => rfl
  | exporting => exact follows_of_fixed Export.fixed_decode.vector f (fun _ => rfl) fun _ => rfl
  | start => exact follows_of_fixed (IndexSpace.fixed_decode _) f (fun _ => rfl) fun _ => rfl
  | dataCount => exact follows_of_fixed Leb128.fixed_u32 f (fun _ => rfl) fun _ => rfl
  | global => exact .map ((Global.follows_decode f).vector.mapError fun _ => rfl) fun _ => rfl
  | element => exact .map ((Element.follows_decode f).vector.mapError fun _ => rfl) fun _ => rfl
  | data => exact .map ((DataSegment.follows_decode f).vector.mapError fun _ => rfl) fun _ => rfl
  | code =>
    refine .ite (fun _ => ?_) fun _ => .pure rfl
    exact .map ((Code.follows_decodeAll f).mapError fun _ => rfl) fun _ => rfl
  | tag | unknown id => exact .pure rfl

end Payload

end WasmBinary
