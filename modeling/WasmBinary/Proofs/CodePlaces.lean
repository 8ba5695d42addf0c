import Mathlib.Data.Finset.Card
import WasmBinary.Proofs.Bodies

/-!
# The places of the code

Where the code of the defined functions lies in the file, and what this means for selecting functions by an
offset. Each entry of a Code section is a size and the bytes of one function. The sizes lie between the
bytes, so that the code of two functions never touches, however small a function or padded a size is.

* `Code.laidIn_of_decodeAll`: the code that one section holds.
* `Module.laid_of_decode`: the code of a module lies in its last Code section; every section that is read
  keeps this.
* `Module.code_places`: an offset is in the code of one function at most, so that it selects one at most.
-/
namespace WasmBinary

open Decoder (bind_eq_ok)

/-! ## One section -/

namespace Code

/-- All the code lies between two offsets, in order and with a byte at least in between. -/
structure LaidIn (codes : List Code) (start stop : Nat) : Prop where
  inside : ∀ c ∈ codes, start ≤ c.offset ∧ c.offset + c.size ≤ stop
  apart : codes.Pairwise fun c d => c.offset + c.size < d.offset

/-- The offset and the bytes, as they are read for an entry. -/
def place (c : Code) : Nat × Bytes := (c.offset, c.bytes)

/-- A size is a byte at least, and keeps the bytes behind it off those in front of it. -/
theorem pairwise_of_elements {p : Nat} {bs : Bytes} {places : List (Nat × Bytes)}
    (h : Format.Elements PlaceForm p bs places) :
    (∀ a ∈ places, p < a.1 ∧ a.1 + a.2.length ≤ p + bs.length) ∧
      places.Pairwise fun a b => a.1 + a.2.length < b.1 := by
  induction h with
  | nil p => exact ⟨fun _ ha => (nomatch ha), .nil⟩
  | @cons p bs rest a as first _ ih =>
    obtain ⟨size, n, rfl, hsize, -, hoffset⟩ := first
    obtain ⟨hinside, hapart⟩ := ih
    have hpos := hsize.groups.length_pos
    simp only [List.length_append] at hinside ⊢
    refine ⟨fun b hb => ?_, .cons (fun b hb => ?_) hapart⟩
    · rcases List.mem_cons.mp hb with rfl | hb
      · omega
      · have := hinside b hb
        omega
    · have := hinside b hb
      omega

theorem map_place_of_decodeAll {c c' : Cursor} {codes : List Code} (h : decodeAll c = .ok codes c') :
    Decoder.vector decodePlace c = .ok (codes.map place) c' := by
  obtain ⟨places, c₁, hread, h⟩ := (bind_eq_ok ..).mp h
  cases h
  rw [hread]
  congr 1
  refine List.ext_getElem? fun i => ?_
  simp only [List.getElem?_map, List.getElem?_mapIdx, Option.map_map]
  exact (Option.map_id' ..).symm

/-- The code that a payload holds lies in the payload. -/
theorem laidIn_of_decodeAll {q : Nat} {payload : Bytes} {codes : List Code} {c' : Cursor}
    (h : decodeAll ⟨q, payload⟩ = .ok codes c') : LaidIn codes q (q + payload.length) := by
  obtain ⟨bs, rest, rfl, -, hvector⟩ :=
    (Decoder.recognizes_vector recognizes_decodePlace ..).mp (map_place_of_decodeAll h)
  generalize hplaces : codes.map place = places at hvector
  obtain ⟨hcount, -, helements⟩ := hvector
  subst hplaces
  obtain ⟨hinside, hapart⟩ := pairwise_of_elements helements
  refine ⟨fun c hc => ?_, List.pairwise_map.mp hapart⟩
  obtain ⟨hlt, hle⟩ := hinside _ (List.mem_map_of_mem hc)
  simp only [place] at hlt hle
  simp only [size, List.length_append]
  omega

theorem index_of_decodeAll {c c' : Cursor} {codes : List Code}
    (h : decodeAll c = .ok codes c') (i : Nat) (code : Code) (hcode : codes[i]? = some code) :
    code.index = i := by
  obtain ⟨places, c₁, -, h⟩ := (bind_eq_ok ..).mp h
  cases h
  rw [List.getElem?_mapIdx] at hcode
  obtain ⟨place, -, rfl⟩ := Option.map_eq_some_iff.mp hcode
  rfl

/-- An offset tells the code that it is in. -/
theorem LaidIn.eq_of_contains {codes : List Code} {start stop : Nat} (h : LaidIn codes start stop)
    {i j : Nat} {c d : Code} (hi : codes[i]? = some c) (hj : codes[j]? = some d) {offset : Nat}
    (hc : c.contains offset) (hd : d.contains offset) : i = j := by
  have hbefore := List.pairwise_iff_getElem.mp h.apart
  obtain ⟨hi', rfl⟩ := List.getElem?_eq_some_iff.mp hi
  obtain ⟨hj', rfl⟩ := List.getElem?_eq_some_iff.mp hj
  simp only [Code.contains, Bool.and_eq_true, decide_eq_true_eq] at hc hd
  rcases Nat.lt_trichotomy i j with hlt | heq | hlt
  · have := hbefore i j hi' hj' hlt
    omega
  · exact heq
  · have := hbefore j i hj' hi' hlt
    omega

end Code

/-! ## Modules -/

namespace Module

/-- The entries of the code are numbered by their places. -/
def Numbered (m : Module) : Prop := ∀ (i : Nat) (c : Code), m.codes[i]? = some c → c.index = i

theorem Numbered.addSection {m : Module} (hm : m.Numbered) {readCode : Bool} {r : RawSection}
    {p : Nat} {pl : Payload} (h : r.Holds readCode p pl) (s : Section) :
    (m.addSection pl s).Numbered := by
  obtain ⟨c, h⟩ := h
  cases pl with
  | custom found names => cases names <;> exact hm
  | codes found => exact Code.index_of_decodeAll (Payload.codes_of_decode h)
  | _ => exact hm

theorem numbered_of_decode {readCode : Bool} {file : Bytes} {m : Module}
    (h : decode readCode file = .ok m) : m.Numbered := by
  refine invariant_of_decode h (fun _ i c hc => ?_) fun hn hpl => hn.addSection hpl _
  rw [List.getElem?_nil] at hc
  cases hc

/-- The code of a module lies in its last Code section; without such a section there is none. -/
def CodeLaid (m : Module) : Prop :=
  match (m.sectionsOf .code).getLast? with
  | some s => Code.LaidIn m.codes s.payload s.stop
  | none => m.codes = []

theorem sectionsOf_addSection (m : Module) (pl : Payload) (s : Section) (kind : SectionKind) :
    (m.addSection pl s).sectionsOf kind =
      m.sectionsOf kind ++ if s.kind = kind then [s] else [] := by
  have hsections : (m.addSection pl s).sections = m.sections ++ [s] := by
    rw [addSection, (pl.addTo_places m).2.2]
  rw [sectionsOf, sectionsOf, hsections, List.filter_append]
  by_cases hkind : s.kind = kind <;> simp [hkind]

/-- A Code section takes the place of those in front of it; other sections leave the code alone. -/
theorem CodeLaid.addSection {m : Module} (hm : m.CodeLaid) {r : RawSection} {p : Nat} {pl : Payload}
    (h : r.Holds true p pl) : (m.addSection pl (r.entry p)).CodeLaid := by
  obtain ⟨c, h⟩ := h
  unfold CodeLaid
  rw [sectionsOf_addSection, RawSection.kind_entry]
  by_cases hkind : r.kind = .code
  · rw [hkind] at h
    obtain ⟨codes, hread, rfl⟩ := (Decoder.map_eq_ok ..).mp h
    have hlaid := Code.laidIn_of_decodeAll ((Decoder.mapError_eq_ok ..).mp hread)
    have hstop : (r.entry p).stop = r.payloadOffset p + r.payload.length := by
      rw [Section.stop, RawSection.entry, r.toNat_size]
    rw [if_pos hkind, List.getLast?_concat]
    simp only [hstop]
    exact hlaid
  · have hcodes : (m.addSection pl (r.entry p)).codes = m.codes := by
      rcases pl.codes_addTo m with ⟨codes, rfl, -⟩ | hcodes
      · exact absurd (Payload.kind_of_decode h rfl) hkind
      · exact hcodes
    rw [if_neg hkind, List.append_nil, hcodes]
    exact hm

theorem laid_of_decode {file : Bytes} {m : Module} (h : decode true file = .ok m) : m.CodeLaid :=
  invariant_of_decode h (fun _ => rfl) fun hn hpl => hn.addSection hpl

/-- A module that has code has a Code section for it. -/
theorem CodeLaid.exists_section {m : Module} (h : m.CodeLaid) {i : Nat} {c : Code}
    (hc : m.codes[i]? = some c) : ∃ s, (m.sectionsOf .code).getLast? = some s ∧
      Code.LaidIn m.codes s.payload s.stop := by
  unfold CodeLaid at h
  split at h
  · rename_i s hs
    exact ⟨s, hs, h⟩
  · rw [h, List.getElem?_nil] at hc
    cases hc

end Module

/-! ## Selecting functions -/

theorem Module.mem_selection {m : Module} {f : FunctionFilter} {i : Nat} :
    i ∈ m.selection f ↔ i < m.functions.length ∧ f.selects m i = true := by
  rw [selection, List.mem_filter, List.mem_range]

theorem Module.nodup_selection (m : Module) (f : FunctionFilter) : (m.selection f).Nodup :=
  List.nodup_range.filter _

namespace FunctionFilter

variable {m : Module} {i : Nat}

theorem selects_offset_iff {offset : Nat} :
    ({ offset := some offset } : FunctionFilter).selects m i = true ↔
      ∃ c, m.codes[i]? = some c ∧ c.contains offset = true := by
  cases hc : m.codes[i]? <;> simp [selects, isEmpty, matchesOffset, matchesName, hc]

theorem selects_both {accepts : String → Bool} {offset : Nat} :
    FunctionFilter.selects ⟨some accepts, some offset⟩ m i =
      (({ name := some accepts } : FunctionFilter).selects m i ||
        ({ offset := some offset } : FunctionFilter).selects m i) := by
  cases m.codes[i]? <;>
    simp [selects, isEmpty, matchesOffset, matchesName, Bool.or_comm]

end FunctionFilter

namespace Module

/-- The entries of the code are numbered by their places in the list. They all lie in the payload of the
last Code section, in the order of the file and with a byte at least between one and the next, so that no
offset is in two of them. An offset alone therefore selects at most one function: the defined one whose
code it is in. With a condition on the names as well, whichever it is, the functions are selected that one
of the two selects. -/
theorem code_places {file : Bytes} {m : Module} (hm : decode true file = .ok m) :
    (∀ (i : Nat) (c : Code), m.codes[i]? = some c → c.index = i ∧
      ∃ s, (m.sectionsOf .code).getLast? = some s ∧
        s.payload ≤ c.offset ∧ c.offset + c.size ≤ s.stop) ∧
    (∀ (i : Nat) (c d : Code), m.codes[i]? = some c → m.codes[i + 1]? = some d →
      c.offset + c.size + 1 ≤ d.offset) ∧
    (∀ (i j : Nat) (c d : Code), m.codes[i]? = some c → m.codes[j]? = some d → i ≠ j →
      ∀ offset, ¬(c.contains offset = true ∧ d.contains offset = true)) ∧
    (∀ offset : Nat, (m.selection { offset := some offset }).length ≤ 1 ∧
      ∀ i, i ∈ m.selection { offset := some offset } ↔
        i < m.functions.length ∧ ∃ c, m.codes[i]? = some c ∧ c.contains offset = true) ∧
    ∀ (accepts : String → Bool) (offset i : Nat), i ∈ m.selection ⟨some accepts, some offset⟩ ↔
      i ∈ m.selection { name := some accepts } ∨ i ∈ m.selection { offset := some offset } := by
  have hlaid := laid_of_decode hm
  have hunique {i j : Nat} {c d : Code} {offset : Nat} (hi : m.codes[i]? = some c)
      (hj : m.codes[j]? = some d) (hc : c.contains offset) (hd : d.contains offset) : i = j := by
    obtain ⟨s, -, hlaid⟩ := hlaid.exists_section hi
    exact hlaid.eq_of_contains hi hj hc hd
  refine ⟨fun i c hc => ?_, fun i c d hc hd => ?_, fun i j c d hi hj hne offset h => ?_,
    fun offset => ⟨?_, fun i => ?_⟩, fun accepts offset i => ?_⟩
  · obtain ⟨s, hs, hlaid⟩ := hlaid.exists_section hc
    exact ⟨numbered_of_decode hm i c hc, s, hs, hlaid.inside c (List.mem_of_getElem? hc)⟩
  · obtain ⟨s, -, hlaid⟩ := hlaid.exists_section hc
    obtain ⟨hi, rfl⟩ := List.getElem?_eq_some_iff.mp hc
    obtain ⟨hj, rfl⟩ := List.getElem?_eq_some_iff.mp hd
    exact List.pairwise_iff_getElem.mp hlaid.apart i (i + 1) hi hj (Nat.lt_succ_self i)
  · exact hne (hunique hi hj h.1 h.2)
  · rw [← List.toFinset_card_of_nodup (m.nodup_selection _), Finset.card_le_one]
    intro i hi j hj
    rw [List.mem_toFinset, mem_selection, FunctionFilter.selects_offset_iff] at hi hj
    obtain ⟨-, c, hc, hin⟩ := hi
    obtain ⟨-, d, hd, hin'⟩ := hj
    exact hunique hc hd hin hin'
  · rw [mem_selection, FunctionFilter.selects_offset_iff]
  · simp only [mem_selection, FunctionFilter.selects_both, Bool.or_eq_true, and_or_left]

/-- A module with three functions and two Code sections. The second one has no code for the third
function, none at all in its first entry, and a size of two bytes in its second. -/
def twoCodeSections : Module where
  source := [0x00, 0x61, 0x73, 0x6D, 1, 0, 0, 0, 3, 4, 3, 0, 0, 0, 10, 4, 1, 2, 0, 0x0B,
    10, 6, 2, 0, 0x82, 0x00, 0, 0x0B]
  version := 1
  sections := [⟨.function, 4, 8, 10⟩, ⟨.code, 4, 14, 16⟩, ⟨.code, 6, 20, 22⟩]
  functions := [0, 0, 0]
  codes := [⟨0, 24, []⟩, ⟨1, 26, [0, 0x0B]⟩]

theorem code_places_twoCodeSections :
    decode true twoCodeSections.source = .ok twoCodeSections ∧
      1 ∈ twoCodeSections.selection { offset := some 27 } ∧
      0 ∉ twoCodeSections.selection { offset := some 24 } := by
  have hm : decode true twoCodeSections.source = .ok twoCodeSections := rfl
  obtain ⟨-, -, -, hoffset, -⟩ := code_places hm
  refine ⟨hm, ((hoffset 27).2 1).mpr ⟨by decide, _, rfl, rfl⟩, fun h => ?_⟩
  obtain ⟨-, c, hc, hin⟩ := ((hoffset 24).2 0).mp h
  cases hc
  cases hin

end Module

end WasmBinary
