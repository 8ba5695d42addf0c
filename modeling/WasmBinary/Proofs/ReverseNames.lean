import Mathlib.Logic.Function.Basic
import WasmBinary.Proofs.CustomSections
import WasmBinary.Proofs.NameSection
import WasmBinary.Proofs.Pairing

/-!
# From names back to functions

Function names are looked up in both directions. For an index the first entry counts, for a name the
last entry that was kept. The index of a function counts the imported ones, its place among the defined
functions does not.

* `NameMap.indexOf?_eq_some_iff`, `NameMap.mem_reverse`: the reverse of a map, name by name and as a list.
* `Names.foldl_keepEntry`: the reverse can be kept along while entries are added.
* `Names.Reverses`: the reverse of the function names, told by the entries that were kept.
* `Module.functionIndex?_eq_some_iff`, `Module.givenName?_eq_some_iff`: places and indices.
* `Module.functions_of_names`: a module that was read.
-/
namespace WasmBinary

/-! ## Maps -/

namespace NameMap

/-- The entry for `i` is the last one with this name. -/
def LastNamed (entries : List (Index × String)) (name : String) (i : Index) : Prop :=
  ∃ front back, entries = front ++ (i, name) :: back ∧ name ∉ back.map Prod.snd

variable {m : NameMap} {name : String} {i : Index}

theorem not_mem_names_iff {entries : List (Index × String)} :
    name ∉ entries.map Prod.snd ↔ ∀ e ∈ entries, (!(e.2 == name)) = true := by
  simp only [List.mem_map, not_exists, not_and, Bool.not_eq_true', beq_eq_false_iff_ne, ne_eq]

theorem indexOf?_eq_some_iff : m.indexOf? name = some i ↔ LastNamed m.entries name i := by
  unfold indexOf? LastNamed
  simp only [Option.map_eq_some_iff, List.find?_eq_some_iff_append, Prod.exists, beq_iff_eq]
  constructor
  · rintro ⟨_, _, ⟨rfl, later, earlier, hsplit, hlater⟩, rfl⟩
    refine ⟨earlier.reverse, later.reverse, ?_, ?_⟩
    · rw [← List.reverse_inj, hsplit]
      simp
    · rw [not_mem_names_iff]
      simpa using hlater
  · rintro ⟨front, back, hentries, hback⟩
    refine ⟨i, name, ⟨rfl, back.reverse, front.reverse, ?_, ?_⟩, rfl⟩
    · simp [hentries]
    · rw [not_mem_names_iff] at hback
      simpa using hback

theorem indexOf?_eq_none_iff : m.indexOf? name = none ↔ name ∉ m.entries.map Prod.snd := by
  rw [not_mem_names_iff]
  simp [indexOf?]

/-- A name that is in the map already goes over to the new entry. -/
theorem indexOf?_push (m : NameMap) (i : Index) (name : String) :
    (m.push i name).indexOf? = Function.update m.indexOf? name (some i) := by
  funext other
  rw [Function.update_apply]
  by_cases hname : other = name
  · subst hname
    simp [indexOf?, push]
  · have hne : ¬name = other := fun h => hname h.symm
    simp [indexOf?, push, hname, hne]

theorem mem_reverse : (name, i) ∈ m.reverse ↔ m.indexOf? name = some i := by
  unfold reverse
  simp only [List.mem_filterMap, List.mem_eraseReps, (List.mergeSort_perm _ _).mem_iff,
    Option.map_eq_some_iff]
  constructor
  · rintro ⟨_, -, _, hindex, heq⟩
    cases heq
    exact hindex
  · intro h
    have hmem : name ∈ m.entries.map Prod.snd := by
      by_contra hnone
      rw [indexOf?_eq_none_iff.mpr hnone] at h
      cases h
    exact ⟨name, hmem, i, h, rfl⟩

/-- The reverse lists the names of a map in ascending order. -/
theorem keys_reverse (m : NameMap) :
    m.reverse.map Prod.fst = ((m.entries.map Prod.snd).mergeSort (· ≤ ·)).eraseReps := by
  have hkey : ∀ name ∈ ((m.entries.map Prod.snd).mergeSort (· ≤ ·)).eraseReps,
      ((m.indexOf? name).map (name, ·)).map Prod.fst = some name := by
    intro name hname
    rw [List.mem_eraseReps, (List.mergeSort_perm _ _).mem_iff] at hname
    cases hindex : m.indexOf? name with
    | none => exact absurd hname (indexOf?_eq_none_iff.mp hindex)
    | some i => rfl
  rw [reverse, List.map_filterMap, List.filterMap_congr hkey, List.filterMap_some]

theorem nodup_keys_reverse (m : NameMap) : (m.reverse.map Prod.fst).Nodup := by
  rw [keys_reverse]
  refine (Module.pairwise_eraseReps_mergeSort _).imp ?_
  rintro a _ hlt rfl
  exact String.lt_irrefl a hlt

theorem mem_keys_reverse : name ∈ m.reverse.map Prod.fst ↔ ∃ i, (i, name) ∈ m.entries := by
  rw [keys_reverse, List.mem_eraseReps, (List.mergeSort_perm _ _).mem_iff]
  simp

/-- If no index is repeated, every entry is found. -/
theorem get?_eq_some_iff (h : (m.entries.map Prod.fst).Nodup) :
    m.get? i = some name ↔ (i, name) ∈ m.entries := by
  unfold get?
  rw [List.lookup_eq_some_iff]
  constructor
  · rintro ⟨front, back, hentries, -⟩
    simp [hentries]
  · intro hmem
    obtain ⟨front, back, hentries⟩ := List.append_of_mem hmem
    refine ⟨front, back, hentries, fun e he => ?_⟩
    rw [hentries, List.map_append, List.nodup_append] at h
    have hne := h.2.2 e.1 (List.mem_map_of_mem he) i (by simp)
    exact bne_iff_ne.mpr hne.symm

end NameMap

/-! ## What is kept of the function names -/

namespace Names

/-- Adds an entry to a map and, if the map keeps it, to the reverse of the map. -/
def keepEntry (s : NameMap × (String → Option Index)) (e : Index × String) :
    NameMap × (String → Option Index) :=
  if (s.1.get? e.1).isSome then s else (s.1.push e.1 e.2, Function.update s.2 e.2 (some e.1))

/-- The map keeps the first entry for an index, its reverse the last for a name. Kept along, entry by
entry, they stay the reverse of each other. -/
theorem foldl_keepEntry (es : List (Index × String)) : ∀ front,
    es.foldl keepEntry (⟨firsts front⟩, NameMap.indexOf? ⟨firsts front⟩) =
      (⟨firsts (front ++ es)⟩, NameMap.indexOf? ⟨firsts (front ++ es)⟩) := by
  -- A step asks the map for the entries in front, so these stay general in the induction.
  induction es with
  | nil => simp
  | cons e es ih =>
    intro front
    have hstep : keepEntry (⟨firsts front⟩, NameMap.indexOf? ⟨firsts front⟩) e =
        (⟨firsts (front ++ [e])⟩, NameMap.indexOf? ⟨firsts (front ++ [e])⟩) := by
      unfold keepEntry
      rw [firsts_concat]
      by_cases he : e.1 ∈ front.map Prod.fst
      · rw [if_pos ((isSome_get?_firsts _ _).mpr he), if_pos he]
      · rw [if_neg fun h => he ((isSome_get?_firsts _ _).mp h), if_neg he, ← NameMap.indexOf?_push]
        rfl
    rw [List.foldl_cons, hstep, ih, List.append_assoc, List.singleton_append]

/-- The function names and their reverse, told by the entries that were kept, in file order. -/
structure Reverses (n : Names) (kept : List (Index × String)) : Prop where
  entries_eq : n.functions.entries = kept
  /-- The names in the reverse are those of the map, each once. -/
  mem_keys (name : String) :
    name ∈ n.functions.reverse.map Prod.fst ↔ ∃ i, n.functions.get? i = some name
  keys_nodup : (n.functions.reverse.map Prod.fst).Nodup
  mem_reverse (name : String) (i : Index) :
    (name, i) ∈ n.functions.reverse ↔ n.functionIndex? name = some i
  /-- A name leads to an index that has it. -/
  get?_of_index {name : String} {i : Index} (h : n.functionIndex? name = some i) :
    n.functions.get? i = some name
  /-- Of several indices it is the one whose entry comes last. -/
  index_iff (name : String) (i : Index) :
    n.functionIndex? name = some i ↔ NameMap.LastNamed kept name i

theorem reverses_told (ms : List Mention) :
    (told ms).Reverses (firsts (entriesOf .functions ms)) := by
  have hget {name : String} {i : Index} : (told ms).functions.get? i = some name ↔
      (i, name) ∈ (told ms).functions.entries := NameMap.get?_eq_some_iff (nodup_keys_firsts _)
  refine ⟨rfl, fun name => ?_, NameMap.nodup_keys_reverse _, fun _ _ => NameMap.mem_reverse,
    fun {name i} h => ?_, fun _ _ => NameMap.indexOf?_eq_some_iff⟩
  · rw [NameMap.mem_keys_reverse]
    simp only [hget]
  · obtain ⟨front, back, hentries, -⟩ := NameMap.indexOf?_eq_some_iff.mp h
    rw [hget, hentries]
    simp

namespace Reverses

variable {n : Names} {kept : List (Index × String)} {name : String} {i : Index}

/-- A name that an index has leads to an index. -/
theorem exists_index (h : n.Reverses kept) (hname : n.functions.get? i = some name) :
    ∃ j, n.functionIndex? name = some j := by
  obtain ⟨⟨_, j⟩, hmem, rfl⟩ := List.mem_map.mp ((h.mem_keys name).mpr ⟨i, hname⟩)
  exact ⟨j, (h.mem_reverse _ j).mp hmem⟩

/-- If the entries stand by index, the last with a name has the greatest index. -/
theorem le_index (h : n.Reverses kept) (hsorted : kept.Pairwise (·.1 ≤ ·.1))
    (hname : n.functions.get? i = some name) {j : Index} (hj : n.functionIndex? name = some j) :
    i ≤ j := by
  -- The entry for `i` stands in front of the last entry with the name, or it is that entry.
  obtain ⟨front, back, rfl, hback⟩ := (h.index_iff name j).mp hj
  have hmem : (i, name) ∈ front ++ (j, name) :: back := by
    obtain ⟨before, behind, hentries, -⟩ := List.lookup_eq_some_iff.mp hname
    rw [← h.entries_eq, hentries]
    simp
  rcases List.mem_append.mp hmem with hfront | hmem
  · exact (List.pairwise_append.mp hsorted).2.2 _ hfront _ List.mem_cons_self
  · rcases List.mem_cons.mp hmem with heq | hmem
    · cases heq
      exact UInt32.le_refl i
    · exact absurd (List.mem_map_of_mem hmem) hback

end Reverses

end Names

/-! ## Modules -/

namespace Module

variable {m : Module} {name : String}

theorem functionIndex?_eq_some_iff {i : Nat} : m.functionIndex? name = some i ↔
    ∃ full : Index, m.names.functionIndex? name = some full ∧
      full.toNat = m.importedFunctionCount + i := by
  unfold functionIndex?
  cases m.names.functionIndex? name with
  | none => simp
  | some full =>
    simp only [Option.some.injEq, exists_eq_left']
    split
    · simp only [Option.some.injEq]
      omega
    · simp only [reduceCtorEq, false_iff]
      omega

theorem givenName?_eq_some_iff {k : Nat} : m.givenName? k = some name ↔
    ∃ full : Index, full.toNat = k ∧ m.names.functions.get? full = some name := by
  unfold givenName?
  constructor
  · intro h
    split at h
    · rename_i hk
      exact ⟨_, UInt32.toNat_ofNat_of_lt' hk, h⟩
    · cases h
  · rintro ⟨full, rfl, h⟩
    rw [if_pos full.toNat_lt, UInt32.ofNat_toNat]
    exact h

theorem functionName_of_givenName? {i : Nat}
    (h : m.givenName? (m.importedFunctionCount + i) = some name) (hname : name ≠ "") :
    m.functionName i = name := by
  simp [functionName, h, String.isEmpty_iff, hname]

/-- With or without a name, a defined function is called the same by its place and by its index. -/
theorem functionNameAbsolute_of_le {j : Nat} (h : m.importedFunctionCount ≤ j) :
    m.functionNameAbsolute j = m.functionName (j - m.importedFunctionCount) := by
  have hindex : m.importedFunctionCount + (j - m.importedFunctionCount) = j := by omega
  unfold functionNameAbsolute functionName
  rw [hindex, if_pos h]
  cases m.givenName? j with
  | none => rfl
  | some given => by_cases hgiven : given.isEmpty <;> simp [hgiven]

section

variable {kept : List (Index × String)} (h : m.names.Reverses kept)
include h

/-- The place that a name leads to is that of a function with this name. -/
theorem givenName?_of_functionIndex? {i : Nat} (hi : m.functionIndex? name = some i) :
    m.givenName? (m.importedFunctionCount + i) = some name := by
  obtain ⟨full, hfull, hindex⟩ := functionIndex?_eq_some_iff.mp hi
  exact givenName?_eq_some_iff.mpr ⟨full, hindex, h.get?_of_index hfull⟩

/-- A name leads to the last of the defined functions that have it, if the entries stand by index. -/
theorem functionIndex?_of_sorted (hsorted : kept.Pairwise (·.1 ≤ ·.1)) {j : Nat}
    (hj : m.givenName? (m.importedFunctionCount + j) = some name) :
    ∃ i, m.functionIndex? name = some i ∧ j ≤ i := by
  obtain ⟨full, hfull, hname⟩ := givenName?_eq_some_iff.mp hj
  obtain ⟨last, hlast⟩ := h.exists_index hname
  have hle := UInt32.le_iff_toNat_le.mp (h.le_index hsorted hname hlast)
  refine ⟨last.toNat - m.importedFunctionCount, ?_, ?_⟩
  · exact functionIndex?_eq_some_iff.mpr ⟨last, hlast, by omega⟩
  · omega

end

/-- What the last section called `name` mentions; nothing without such a section. -/
def NamesMention (m : Module) (ms : List Names.Mention) : Prop :=
  match m.nameSections.getLast? with
  | some custom => Names.Mentions custom.contents ms
  | none => ms = []

theorem TakesNames.exists_mention (h : m.TakesNames) : ∃ ms, m.NamesMention ms := by
  have hnames := h.names
  unfold NamesMention
  cases hlast : m.nameSections.getLast? with
  | some custom =>
    rw [hlast] at hnames
    obtain ⟨_, hread⟩ := hnames
    obtain ⟨ms, hms, -⟩ := (Names.decode_eq_ok_iff ..).mp hread
    exact ⟨ms, hms⟩
  | none => exact ⟨[], rfl⟩

theorem TakesNames.names_eq_told (h : m.TakesNames) {ms : List Names.Mention} (hms : m.NamesMention ms) :
    m.names = Names.told ms := by
  have hnames := h.names
  unfold NamesMention at hms
  cases hlast : m.nameSections.getLast? with
  | some custom =>
    rw [hlast] at hnames hms
    obtain ⟨_, hread⟩ := hnames
    have hout := hread.symm.trans ((Names.decode_eq_ok_iff ..).mpr ⟨ms, hms, rfl⟩)
    exact (Prod.mk.inj (Except.ok.inj hout)).1
  | none =>
    rw [hlast] at hnames hms
    rw [hnames, hms]
    rfl

/-- The function names of a module and their reverse. The reverse holds the names that some index has,
each with the last index whose entry was kept, as if both had been kept along entry by entry. A name
that is not empty therefore leads to a defined function of this name, and one can ask by place or by
index. If the entries stand by index, the function is the last with this name, and there is none only if
no defined function has the name. -/
theorem functions_of_names {readCode : Bool} {file : Bytes} {m : Module}
    (hm : decode readCode file = .ok m) :
    (∃ ms, m.NamesMention ms) ∧ ∀ ms, m.NamesMention ms →
      m.names.Reverses (Names.firsts (Names.entriesOf .functions ms)) ∧
      (Names.entriesOf .functions ms).foldl Names.keepEntry (.empty, fun _ => none) =
        (m.names.functions, m.names.functionIndex?) ∧
      (∀ name i, name ≠ "" → m.functionIndex? name = some i → m.functionName i = name ∧
        m.functionNameAbsolute (m.importedFunctionCount + i) = name) ∧
      (∀ j, m.importedFunctionCount ≤ j →
        m.functionNameAbsolute j = m.functionName (j - m.importedFunctionCount)) ∧
      ((Names.firsts (Names.entriesOf .functions ms)).Pairwise (·.1 ≤ ·.1) → ∀ name,
        (∀ i, m.functionIndex? name = some i ↔
          m.givenName? (m.importedFunctionCount + i) = some name ∧
            ∀ j, m.givenName? (m.importedFunctionCount + j) = some name → j ≤ i) ∧
        (m.functionIndex? name = none ↔
          ∀ j, m.importedFunctionCount ≤ j → m.givenName? j ≠ some name)) := by
  have htakes := takesNames_of_decode hm
  refine ⟨htakes.exists_mention, fun ms hms => ?_⟩
  have htold := htakes.names_eq_told hms
  have hrev : m.names.Reverses (Names.firsts (Names.entriesOf .functions ms)) := by
    rw [htold]
    exact Names.reverses_told ms
  refine ⟨hrev, ?_, fun name i hname hi => ?_, fun j hj => functionNameAbsolute_of_le hj,
    fun hsorted name => ⟨fun i => ⟨fun hi => ?_, ?_⟩, ?_, ?_⟩⟩
  · rw [htold]
    exact Names.foldl_keepEntry _ []
  · have hplace := functionName_of_givenName? (givenName?_of_functionIndex? hrev hi) hname
    refine ⟨hplace, ?_⟩
    rw [functionNameAbsolute_of_le (Nat.le_add_right _ i), Nat.add_sub_cancel_left, hplace]
  · refine ⟨givenName?_of_functionIndex? hrev hi, fun j hj => ?_⟩
    obtain ⟨last, hlast, hle⟩ := functionIndex?_of_sorted hrev hsorted hj
    rw [hi] at hlast
    cases hlast
    exact hle
  · rintro ⟨hname, hgreatest⟩
    obtain ⟨last, hlast, hle⟩ := functionIndex?_of_sorted hrev hsorted hname
    have hback := hgreatest last (givenName?_of_functionIndex? hrev hlast)
    rw [hlast, Nat.le_antisymm hback hle]
  · intro hnone j hj hname
    rw [← Nat.add_sub_of_le hj] at hname
    obtain ⟨last, hlast, -⟩ := functionIndex?_of_sorted hrev hsorted hname
    rw [hnone] at hlast
    cases hlast
  · intro hnone
    cases hi : m.functionIndex? name with
    | none => rfl
    | some i =>
      exact absurd (givenName?_of_functionIndex? hrev hi) (hnone _ (Nat.le_add_right _ i))

/-- Three functions, the first one imported, and two subsections with function names: 0 is `f` and 1 is
`g`; then 1 is called `h`, which is not kept, and 2 is called `f` again. -/
def sharedName : Module where
  source := [0x00, 0x61, 0x73, 0x6D, 1, 0, 0, 0,
    2, 7, 1, 1, 0x65, 1, 0x61, 0, 0,
    3, 3, 2, 0, 0,
    0, 23, 4, 0x6E, 0x61, 0x6D, 0x65, 1, 7, 2, 0, 1, 0x66, 1, 1, 0x67,
    1, 7, 2, 1, 1, 0x68, 2, 1, 0x66]
  version := 1
  sections := [⟨.importing, 7, 8, 10⟩, ⟨.function, 3, 17, 19⟩, ⟨.custom, 23, 22, 24⟩]
  imports := [⟨"e", "a", .func 0⟩]
  functions := [0, 0]
  customs := [⟨"name", [1, 7, 2, 0, 1, 0x66, 1, 1, 0x67, 1, 7, 2, 1, 1, 0x68, 2, 1, 0x66]⟩]
  names := { functions := ⟨[(0, "f"), (1, "g"), (2, "f")]⟩ }
  warnings := [.duplicateName .function 1 "h"]

/-- Only function 2, the second defined one, is reached by the name `f`. The name that function 1 was
refused leads nowhere. -/
theorem functions_of_names_sharedName : decode true sharedName.source = .ok sharedName ∧
    sharedName.functionName 1 = "f" ∧ sharedName.functionNameAbsolute 2 = "f" ∧
    (∀ j, sharedName.givenName? (1 + j) = some "f" → j ≤ 1) ∧
    ∀ j, 1 ≤ j → sharedName.givenName? j ≠ some "h" := by
  have hm : decode true sharedName.source = .ok sharedName := rfl
  obtain ⟨⟨ms, hms⟩, hnames⟩ := functions_of_names hm
  obtain ⟨hrev, -, hback, -, hlast⟩ := hnames ms hms
  obtain ⟨hname, habsolute⟩ := hback "f" 1 (by decide) (by decide)
  have hsorted : (Names.firsts (Names.entriesOf .functions ms)).Pairwise (·.1 ≤ ·.1) := by
    rw [← hrev.entries_eq]
    decide
  have hgreatest := ((hlast hsorted "f").1 1).mp (by decide)
  exact ⟨hm, hname, habsolute, hgreatest.2, ((hlast hsorted "h").2).mp (by decide)⟩

end Module

end WasmBinary
