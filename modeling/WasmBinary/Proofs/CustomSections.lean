import WasmBinary.Disassembly
import WasmBinary.Proofs.Interface
import WasmBinary.Proofs.Tiling

/-!
# Custom sections, and the names that they give

A module lists its custom sections apart from the section table. The two lists are kept in step: the
custom section at place `i` is what the section of that kind holds that comes at place `i` among them.
A summary pairs them again by these places.

Of the sections called `name` the last gives the names of the module, and all of them give warnings.

* `Section.HoldsCustom`: what a payload is that holds a custom section.
* `RawSection.holdsCustom_entries`: the two lists, for sections one behind the other.
* `Module.pairs_of_holdsCustom`: pairing lists that are in step gives each section its own.
* `Module.TakesNames`: where names and warnings come from; every section that is read keeps this.
* `Module.customSections_of_decode`: all of it, for a module that was read.
-/
namespace WasmBinary

open Leb128 (U32Form)

/-! ## Payloads -/

/-- The payload of the section is the length of a name, in any form that is accepted, the name, and the
contents of the custom section. -/
def Section.HoldsCustom (file : Bytes) (s : Section) (custom : CustomSection) : Prop :=
  ∃ count length, U32Form count length ∧ length.toNat = (Text.Utf8.encode custom.name).length ∧
    s.payload? file = some (count ++ (Text.Utf8.encode custom.name ++ custom.contents))

theorem CustomSection.payload_of_decode {p : Nat} {payload : Bytes} {custom : CustomSection} {c : Cursor}
    (h : CustomSection.decode ⟨p, payload⟩ = .ok custom c) :
    ∃ count length, U32Form count length ∧ length.toNat = (Text.Utf8.encode custom.name).length ∧
      payload = count ++ (Text.Utf8.encode custom.name ++ custom.contents) := by
  obtain ⟨name, c₁, hname, h⟩ := (Decoder.bind_eq_ok ..).mp h
  -- The contents are all that is left behind the name.
  cases h
  obtain ⟨bs, hpayload, -, hform⟩ := Decoder.recognizes_name.consumed hname
  obtain ⟨hcount, hlength⟩ := Format.name_iff.mp hform
  refine ⟨_, _, hcount, hlength.symm, ?_⟩
  rw [hpayload, List.append_assoc]

namespace RawSection

theorem payload_of_custom? {r : RawSection} {custom : CustomSection} (h : r.custom? = some custom) :
    ∃ count length, U32Form count length ∧ length.toNat = (Text.Utf8.encode custom.name).length ∧
      r.payload = count ++ (Text.Utf8.encode custom.name ++ custom.contents) := by
  unfold custom? at h
  split at h
  · cases hread : CustomSection.decode (.start r.payload) with
    | error e c => simp [Decoder.outcome, hread, Except.toOption] at h
    | ok found c =>
      simp only [Decoder.outcome, hread, Except.toOption, Option.some.injEq] at h
      subst h
      exact CustomSection.payload_of_decode hread
  · cases h

/-- The entry of a section points to what the section holds. -/
theorem holdsCustom_entry {r : RawSection} {custom : CustomSection} (h : r.custom? = some custom)
    (front back : Bytes) :
    (r.entry front.length).HoldsCustom (front ++ (r.bytes ++ back)) custom := by
  obtain ⟨count, length, hcount, hlength, hpayload⟩ := payload_of_custom? h
  refine ⟨count, length, hcount, hlength, ?_⟩
  rw [payload?_entry, hpayload]

end RawSection

/-- Each section that is read adds to both lists or to none. -/
theorem RawSection.holdsCustom_entries {readCode : Bool} {rs : List RawSection} :
    ∀ {front : Bytes} {m m' : Module}, Scans readCode front.length m rs m' → ∀ back : Bytes,
      List.Forall₂ (Section.HoldsCustom (front ++ (join rs ++ back)))
        ((entries front.length rs).filter (·.kind = .custom)) (rs.filterMap custom?) := by
  induction rs with
  | nil => exact fun _ _ => .nil
  | cons r rs ih =>
    intro front m m' h back
    cases h with
    | cons first others =>
      have hcustom := first.custom?.2
      have hfile : front ++ (join (r :: rs) ++ back) = front ++ r.bytes ++ (join rs ++ back) := by
        simp [join]
      rw [← List.length_append] at others
      have hrest := ih others back
      rw [← hfile, List.length_append] at hrest
      unfold entries
      by_cases hkind : r.kind = .custom
      · rw [decide_eq_true hkind, Option.isSome_iff_exists] at hcustom
        obtain ⟨custom, hfound⟩ := hcustom
        have hown := holdsCustom_entry hfound front (join rs ++ back)
        rw [← List.append_assoc, ← hfile] at hown
        rw [List.filter_cons_of_pos (by simp [hkind]), List.filterMap_cons_some hfound]
        exact .cons hown hrest
      · rw [decide_eq_false hkind, Option.isSome_eq_false_iff, Option.isNone_iff_eq_none] at hcustom
        rw [List.filter_cons_of_neg (by simp [hkind]), List.filterMap_cons_none hcustom]
        exact hrest

/-! ## Summaries -/

namespace Module

/-- What a summary pairs a section with: if it is a custom section, with one that stands to it as `R`
says, and with nothing otherwise. -/
def PairedBy (R : Section → CustomSection → Prop) (s : Section) : Option CustomSection → Prop
  | some custom => s.kind = .custom ∧ R s custom
  | none => s.kind ≠ .custom

/-- Lists that are in step are paired entry by entry. -/
theorem pairs_of_holdsCustom {R : Section → CustomSection → Prop} {sections : List Section} :
    ∀ {customs : List CustomSection},
      List.Forall₂ R (sections.filter (·.kind = .custom)) customs →
      List.Forall₂ (fun s pair => pair.1 = s ∧ PairedBy R s pair.2) sections
        (pairCustoms sections customs) := by
  induction sections with
  | nil => exact fun _ => .nil
  | cons s rest ih =>
    intro customs h
    by_cases hkind : s.kind = .custom
    · rw [List.filter_cons_of_pos (by simp [hkind])] at h
      cases h with
      | cons first others =>
        simp only [pairCustoms, if_pos hkind]
        exact .cons ⟨rfl, hkind, first⟩ (ih others)
    · rw [List.filter_cons_of_neg (by simp [hkind])] at h
      have hrest := ih h
      cases customs with
      | nil => exact .cons ⟨rfl, hkind⟩ hrest
      | cons custom customs =>
        simp only [pairCustoms, if_neg hkind]
        exact .cons ⟨rfl, hkind⟩ hrest

/-- The lines of a summary in front of those of the sections. -/
def heading (m : Module) (path : String) : String :=
  let name :=
    match m.names.module with
    | some name => if name.isEmpty then "" else " name: " ++ name
    | none => ""
  Listing.line 0 ("Module:" ++ name ++ " path: " ++ path)
    ++ Listing.line 1 ("size: " ++ toString m.source.length)
    ++ Listing.line 1 ("binary format version: " ++ toString m.version)
    ++ Listing.line 1 ("sections: " ++ toString m.sections.length)

end Module

/-- The line of a section in a summary, with the name that is given. -/
def Section.line (s : Section) (name : Option String) : String :=
  Listing.line 2 ("id: " ++ s.kind.text
    ++ (match name with | some name => " name: " ++ name | none => "")
    ++ " size: " ++ toString s.size)

theorem Module.summary_eq (m : Module) (path : String) : m.summary path = m.heading path ++
    String.join ((pairCustoms m.sections m.customs).map fun pair =>
      pair.1.line (pair.2.map (·.name))) := by
  have hline : ∀ pair : Section × Option CustomSection, Listing.line 2 ("id: " ++ pair.1.kind.text
      ++ (match pair.2 with | some custom => " name: " ++ custom.name | none => "")
      ++ " size: " ++ toString pair.1.size) = pair.1.line (pair.2.map (·.name)) := by
    intro pair
    cases pair.2 <;> rfl
  simp only [← hline]
  rfl

/-! ## Names -/

/-- The names that a section called `name` gives come with it, and no others do. -/
theorem Payload.custom_of_decode {readCode : Bool} {kind : SectionKind} {c c' : Cursor}
    {custom : CustomSection} {names : Option (Names × List Warning)}
    (h : decode readCode kind c = .ok (.custom custom names) c') :
    match names with
    | some result => custom.name = "name" ∧ Names.decode custom.contents = .ok result
    | none => custom.name ≠ "name" := by
  obtain rfl := kind_of_decode h rfl
  obtain ⟨found, c₁, -, h⟩ := (Decoder.bind_eq_ok ..).mp h
  by_cases hname : found.name = "name"
  · rw [if_pos hname] at h
    cases hread : Names.decode found.contents with
    | error cause =>
      rw [hread] at h
      cases h
    | ok result =>
      rw [hread] at h
      cases h
      exact ⟨hname, hread⟩
  · rw [if_neg hname] at h
    cases h
    exact hname

namespace Module

/-- The custom sections called `name`, in file order. -/
def nameSections (m : Module) : List CustomSection := m.customs.filter (·.name = "name")

/-- The last of the sections called `name` gives the names; without one there are none. The warnings
are those of all of them, in file order. -/
structure TakesNames (m : Module) : Prop where
  names : match m.nameSections.getLast? with
    | some custom => ∃ warnings, Names.decode custom.contents = .ok (m.names, warnings)
    | none => m.names = {}
  warnings : ∃ told, List.Forall₂
    (fun custom warnings => ∃ names, Names.decode custom.contents = .ok (names, warnings))
    m.nameSections told ∧ m.warnings = told.flatten

theorem TakesNames.addSection {m : Module} (hm : m.TakesNames) {readCode : Bool} {r : RawSection}
    {p : Nat} {pl : Payload} (h : r.Holds readCode p pl) (s : Section) :
    (m.addSection pl s).TakesNames := by
  obtain ⟨c, h⟩ := h
  cases pl with
  | custom custom names =>
    have hcustom := Payload.custom_of_decode h
    cases names with
    | none =>
      have hsame : (m.addSection (.custom custom none) s).nameSections = m.nameSections := by
        simp [nameSections, Module.addSection, Payload.addTo, hcustom]
      constructor
      · rw [hsame]
        exact hm.names
      · rw [hsame]
        exact hm.warnings
    | some result =>
      obtain ⟨hname, hread⟩ := hcustom
      have hlonger : (m.addSection (.custom custom (some result)) s).nameSections =
          m.nameSections ++ [custom] := by
        simp [nameSections, Module.addSection, Payload.addTo, hname]
      obtain ⟨told, htold, hwarnings⟩ := hm.warnings
      constructor
      · rw [hlonger, List.getLast?_concat]
        exact ⟨_, hread⟩
      · refine ⟨told ++ [result.2], ?_, ?_⟩
        · rw [hlonger]
          exact List.rel_append htold (.cons ⟨_, hread⟩ .nil)
        · rw [List.flatten_append, ← hwarnings]
          simp [Module.addSection, Payload.addTo]
  | _ => exact ⟨hm.names, hm.warnings⟩

theorem takesNames_of_decode {readCode : Bool} {file : Bytes} {m : Module}
    (h : decode readCode file = .ok m) : m.TakesNames :=
  invariant_of_decode h (fun _ => ⟨rfl, [], .nil, rfl⟩) fun hn hpl => hn.addSection hpl _

/-! ## Modules -/

/-- The list of custom sections is in step with the section table: as many as there are sections of
that kind, and each is what the payload of its section holds. The names are those of the last section
called `name`, the warnings those of all of them. A summary has a line for each section, which shows
the name that stands in the payload of that section. -/
theorem customSections_of_decode {readCode : Bool} {file : Bytes} {m : Module}
    (hm : decode readCode file = .ok m) :
    List.Forall₂ (Section.HoldsCustom file) (m.sectionsOf .custom) m.customs ∧
      m.TakesNames ∧
      ∀ path, ∃ lines, m.summary path = m.heading path ++ String.join lines ∧
        List.Forall₂ (fun s text =>
          s.kind = .custom ∧ (∃ custom, s.HoldsCustom file custom ∧ text = s.line (some custom.name)) ∨
            s.kind ≠ .custom ∧ text = s.line none) m.sections lines := by
  obtain ⟨version, rs, hfile, hscan, hsections⟩ := exists_scans_of_decode hm
  have hcustoms : m.customs = rs.filterMap RawSection.custom? := hscan.customs
  have hstep : List.Forall₂ (Section.HoldsCustom file) (m.sectionsOf .custom) m.customs := by
    rw [← length_preamble version] at hscan hsections
    have hall := RawSection.holdsCustom_entries hscan []
    rw [List.append_nil, ← hfile, ← hsections, ← hcustoms] at hall
    exact hall
  refine ⟨hstep, takesNames_of_decode hm, fun path => ⟨_, m.summary_eq path, ?_⟩⟩
  rw [List.forall₂_map_right_iff]
  refine (pairs_of_holdsCustom hstep).imp fun s pair h => ?_
  obtain ⟨rfl, hpair⟩ := h
  obtain ⟨s, custom⟩ := pair
  cases custom with
  | some custom => exact .inl ⟨hpair.1, custom, hpair.2, rfl⟩
  | none => exact .inr ⟨hpair, rfl⟩

/-- A module with two sections called `name`, and between them a section with signatures and a custom
section whose name is counted by two bytes. The first one gives a warning, the second one a name. -/
def threeCustoms : Module where
  source := [0x00, 0x61, 0x73, 0x6D, 1, 0, 0, 0,
    0, 14, 4, 0x6E, 0x61, 0x6D, 0x65, 1, 7, 2, 0, 1, 0x61, 0, 1, 0x62,
    1, 1, 0,
    0, 4, 0x81, 0x00, 0x78, 9,
    0, 9, 4, 0x6E, 0x61, 0x6D, 0x65, 0, 2, 1, 0x6D]
  version := 1
  sections := [⟨.custom, 14, 8, 10⟩, ⟨.type, 1, 24, 26⟩, ⟨.custom, 4, 27, 29⟩, ⟨.custom, 9, 33, 35⟩]
  customs := [⟨"name", [1, 7, 2, 0, 1, 0x61, 0, 1, 0x62]⟩, ⟨"x", [9]⟩, ⟨"name", [0, 2, 1, 0x6D]⟩]
  names := { module := some "m" }
  warnings := [.duplicateName .function 0 "b"]

theorem customSections_of_decode_threeCustoms :
    decode true threeCustoms.source = .ok threeCustoms ∧
      Section.HoldsCustom threeCustoms.source ⟨.custom, 4, 27, 29⟩ ⟨"x", [9]⟩ ∧
      ∃ warnings, Names.decode [0, 2, 1, 0x6D] = .ok (threeCustoms.names, warnings) := by
  have hm : decode true threeCustoms.source = .ok threeCustoms := rfl
  obtain ⟨hstep, hnames, -⟩ := customSections_of_decode hm
  refine ⟨hm, ?_, hnames.names⟩
  cases hstep with
  | cons _ others =>
    cases others with
    | cons second _ => exact second

end Module

end WasmBinary
