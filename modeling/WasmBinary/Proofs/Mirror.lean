import WasmBinary.Proofs.Accounting

/-!
# Comparing the other way round

A comparison treats both modules alike: with left and right exchanged it fails where it failed and
else gives the mirror image of what it gave.

* `Module.differences_mirror`: section tables and numbers of entities.
* `Module.sharedNames_comm`, `Module.pairs_mirror`: the names are the same in the same order, and
  the functions below each are paired the same.
* `Comparison.toOption_of_mirror`: the comparison as a whole.
* `Comparison.of_self`: a module whose selected functions can all be read is equal to itself.
* `Comparison.of_mirror`: all of this together.
-/
namespace WasmBinary

/-! ## Mirror images -/

namespace Difference

/-- The difference seen from the other side. -/
def mirror : Difference → Difference
  | sectionCount left right => sectionCount right left
  | sectionKind position left right => sectionKind position right left
  | sectionSize position kind left right => sectionSize position kind right left
  | entityCount entity left right => entityCount entity right left

end Difference

namespace FunctionStatus

def mirror : FunctionStatus → FunctionStatus
  | equal => equal
  | different => different
  | onlyInLeft => onlyInRight
  | onlyInRight => onlyInLeft

theorem mirror_eq_equal_iff (s : FunctionStatus) : s.mirror = .equal ↔ s = .equal := by
  cases s <;> decide

end FunctionStatus

/-- The same name with the status seen from the other side. -/
def FunctionDifference.mirror (d : FunctionDifference) : FunctionDifference :=
  { d with status := d.status.mirror }

namespace Comparison

def mirror (c : Comparison) : Comparison :=
  ⟨c.differences.map Difference.mirror, c.functions.map FunctionDifference.mirror⟩

theorem isEqual_mirror (c : Comparison) : c.mirror.isEqual = c.isEqual := by
  simp only [isEqual, mirror, List.isEmpty_map, List.all_map]
  congr 2
  funext d
  simp only [Function.comp_apply, FunctionDifference.mirror, FunctionStatus.mirror_eq_equal_iff]

theorem exitCode_mirror (c : Comparison) : c.mirror.exitCode = c.exitCode := by
  rw [exitCode, exitCode, isEqual_mirror]

end Comparison

namespace Pair

def mirror : Pair → Pair
  | both l r => both r l
  | left i => right i
  | right i => left i

theorem zip_mirror : ∀ ls rs : List Nat, zip rs ls = (zip ls rs).map mirror
  | [], [] => rfl
  | [], r :: rs => by simp [zip, mirror]
  | l :: ls, [] => by simp [zip, mirror]
  | l :: ls, r :: rs => by simp [zip, mirror, zip_mirror ls rs]

theorem named_mirror (name : String) (ls rs : List Nat) :
    named name rs ls = (named name ls rs).map fun entry => (entry.1, entry.2.mirror) := by
  refine List.ext_getElem? fun k => ?_
  rw [List.getElem?_map, getElem?_named, getElem?_named, zip_mirror ls rs, List.getElem?_map,
    Option.map_map, Option.map_map]
  simp only [or_comm, Function.comp_def]

/-- Both functions are needed for the status, whichever is listed first. -/
theorem status_mirror (left right : Module) (p : Pair) :
    (p.mirror.status right left).toOption =
      (p.status left right).toOption.map FunctionStatus.mirror := by
  cases p with
  | both l r =>
    simp only [mirror, status]
    cases left.disassembly false l with
    | error e => cases right.disassembly false r <;> rfl
    | ok a =>
      cases right.disassembly false r with
      | error e => rfl
      | ok b =>
        change some (if b = a then FunctionStatus.equal else .different) =
          some (FunctionStatus.mirror (if a = b then .equal else .different))
        by_cases hab : a = b
        · rw [if_pos hab, if_pos hab.symm]
          rfl
        · rw [if_neg hab, if_neg (Ne.symm hab)]
          rfl
  | left i => rfl
  | right i => rfl

end Pair

/-! ## Sections and counts -/

theorem Difference.ofSections_mirror : ∀ (position : Nat) (ls rs : List Section),
    ofSections position rs ls = (ofSections position ls rs).map mirror
  | position, [], [] => rfl
  | position, [], r :: rs => rfl
  | position, l :: ls, [] => rfl
  | position, l :: ls, r :: rs => by
    have hrest := ofSections_mirror (position + 1) ls rs
    by_cases hkind : l.kind = r.kind
    · by_cases hsize : l.size = r.size
      · simp [ofSections, hkind, hsize, hrest]
      · simp [ofSections, hkind, hsize, Ne.symm hsize, hrest, mirror]
    · simp [ofSections, hkind, Ne.symm hkind, hrest, mirror]

/-- Counts of the same entities in the same order. -/
theorem Difference.ofCounts_mirror : ∀ ls rs : List (String × Nat),
    ls.map Prod.fst = rs.map Prod.fst →
    ((rs.zip ls).filterMap fun counts =>
        if counts.1.2 ≠ counts.2.2 then
          some (entityCount counts.1.1 counts.1.2 counts.2.2) else none) =
      ((ls.zip rs).filterMap fun counts =>
        if counts.1.2 ≠ counts.2.2 then
          some (entityCount counts.1.1 counts.1.2 counts.2.2) else none).map mirror
  | [], rs, h => by simp
  | l :: ls, [], h => by simp
  | (entity, l) :: ls, (entity', r) :: rs, h => by
    simp only [List.map_cons, List.cons.injEq] at h
    obtain ⟨rfl, h⟩ := h
    have hrest := ofCounts_mirror ls rs h
    rw [List.zip_cons_cons, List.zip_cons_cons, List.filterMap_cons, List.filterMap_cons, hrest]
    by_cases hcount : l = r
    · rw [if_neg (not_not.mpr hcount), if_neg (not_not.mpr hcount.symm)]
    · rw [if_pos hcount, if_pos (Ne.symm hcount)]
      rfl

namespace Module

theorem differences_mirror (left right : Module) :
    right.differences left = (left.differences right).map Difference.mirror := by
  rw [differences, differences, List.map_append, List.map_append, Difference.ofSections_mirror]
  refine congrArg₂ _ (congrArg₂ _ ?_ rfl)
    (Difference.ofCounts_mirror left.entityCounts right.entityCounts rfl)
  by_cases h : left.sections.length = right.sections.length
  · rw [if_neg (not_not.mpr h), if_neg (not_not.mpr h.symm)]
    rfl
  · rw [if_pos h, if_pos (Ne.symm h)]
    rfl

/-! ## Functions -/

/-- Sorted lists of the same names are equal. -/
theorem mergeSort_append_comm (names names' : List String) :
    (names ++ names').mergeSort (· ≤ ·) = (names' ++ names).mergeSort (· ≤ ·) := by
  have hperm : ((names ++ names').mergeSort (· ≤ ·)).Perm ((names' ++ names).mergeSort (· ≤ ·)) :=
    (List.mergeSort_perm _ _).trans
      (List.perm_append_comm.trans (List.mergeSort_perm _ _).symm)
  exact hperm.eq_of_pairwise (fun _ _ _ _ => String.le_antisymm) (sorted_mergeSort _)
    (sorted_mergeSort _)

theorem sharedNames_comm (left right : Module) (f : FunctionFilter) :
    right.sharedNames left f = left.sharedNames right f := by
  rw [sharedNames, sharedNames, mergeSort_append_comm]

theorem pairs_mirror (left right : Module) (f : FunctionFilter) :
    right.pairs left f = (left.pairs right f).map fun entry => (entry.1, entry.2.mirror) := by
  rw [pairs_eq, pairs_eq, sharedNames_comm, List.map_flatMap]
  congr 1
  funext name
  exact Pair.named_mirror name _ _

end Module

theorem Module.functionDifferences_mirror (left right : Module) (f : FunctionFilter) :
    (right.functionDifferences left f).toOption =
      (left.functionDifferences right f).toOption.map (List.map FunctionDifference.mirror) := by
  rw [functionDifferences, functionDifferences, pairs_mirror, List.mapM_map]
  refine Except.toOption_mapM (fun entry => ?_) _
  obtain ⟨name, pair⟩ := entry
  simp only [Function.comp_apply, Except.toOption_bind, pair.status_mirror left right,
    Option.map_bind, Option.bind_map]
  rfl

/-- Comparing the other way round gives the mirror image, or fails as well. -/
theorem Comparison.toOption_of_mirror (left right : Module) (functions : Option FunctionFilter) :
    (of right left functions).toOption = (of left right functions).toOption.map mirror := by
  cases functions with
  | none =>
    rw [of, of, Module.differences_mirror left right]
    rfl
  | some f =>
    rw [of, of, Module.differences_mirror left right]
    simp only [Except.toOption_bind, Module.functionDifferences_mirror left right f,
      Option.map_bind, Option.bind_map]
    rfl

/-! ## A module and itself -/

namespace Module

variable {m : Module} {f : FunctionFilter}

theorem exists_both_of_mem_pairs {name : String} {p : Pair} (h : (name, p) ∈ m.pairs m f) :
    ∃ i ∈ m.selection f, p = .both i i := by
  rw [pairs_eq, List.mem_flatMap] at h
  obtain ⟨shared, -, h⟩ := h
  rw [Pair.named_self shared (nodup_named m f shared), List.mem_map] at h
  obtain ⟨i, hi, h⟩ := h
  cases h
  exact ⟨i, (List.mem_filter.mp hi).1, rfl⟩

/-- If all selected functions can be read, all are equal to themselves. -/
theorem functionDifferences_self (h : ∀ i ∈ m.selection f, ∃ body, m.functionBody i = .ok body) :
    m.functionDifferences m f = .ok ((m.pairs m f).map fun entry => ⟨entry.1, .equal⟩) := by
  refine Except.mapM_of_ok fun entry hentry => ?_
  obtain ⟨i, hi, hpair⟩ := exists_both_of_mem_pairs hentry
  obtain ⟨body, hbody⟩ := h i hi
  have hstatus : (Pair.both i i).status m m = .ok .equal := by
    simp only [Pair.status, disassembly, hbody]
    exact congrArg Except.ok (if_pos rfl)
  simp only [hpair, hstatus]
  rfl

theorem differences_self (m : Module) : m.differences m = [] := by
  refine (differences_eq_nil_iff m m).mpr ⟨rfl, fun k l r hl hr => ?_, rfl⟩
  rw [hl] at hr
  cases hr
  exact ⟨rfl, rfl⟩

end Module

/-- A module whose selected functions can all be read is equal to itself. -/
theorem Comparison.of_self {m : Module} {functions : Option FunctionFilter}
    (h : ∀ f, functions = some f → ∀ i ∈ m.selection f, ∃ body, m.functionBody i = .ok body) :
    ∃ c, of m m functions = .ok c ∧ c.isEqual = true := by
  cases functions with
  | none => exact ⟨⟨m.differences m, []⟩, rfl, by simp [isEqual, Module.differences_self]⟩
  | some f =>
    refine ⟨⟨m.differences m, (m.pairs m f).map fun entry => ⟨entry.1, .equal⟩⟩, ?_, ?_⟩
    · rw [of, Module.functionDifferences_self (h f rfl)]
      rfl
    · simp [isEqual, Module.differences_self]

/-- Comparing the other way round gives the mirror image of what comparing gives: each difference
and each status with left and right exchanged, in the same order and below the same names. Either
both fail or none. A module whose selected functions can all be read is equal to itself. -/
theorem Comparison.of_mirror (left right : Module) (functions : Option FunctionFilter) :
    ((∃ c, of left right functions = .ok c) ↔ ∃ c, of right left functions = .ok c) ∧
    (∀ c, of left right functions = .ok c →
      of right left functions = .ok c.mirror ∧ c.mirror.exitCode = c.exitCode) ∧
    ((∀ f, functions = some f → ∀ i ∈ left.selection f, ∃ body, left.functionBody i = .ok body) →
      ∃ c, of left left functions = .ok c ∧ c.isEqual = true ∧ c.exitCode = 0) := by
  have hmirror (a b : Module) (c : Comparison) (h : of a b functions = .ok c) :
      of b a functions = .ok c.mirror := by
    have hoption := toOption_of_mirror a b functions
    rw [h] at hoption
    cases hother : of b a functions with
    | error e =>
      rw [hother] at hoption
      cases hoption
    | ok c' =>
      rw [hother] at hoption
      cases hoption
      rfl
  refine ⟨⟨?_, ?_⟩, fun c h => ⟨hmirror left right c h, exitCode_mirror c⟩, fun h => ?_⟩
  · rintro ⟨c, h⟩
    exact ⟨_, hmirror left right c h⟩
  · rintro ⟨c, h⟩
    exact ⟨_, hmirror right left c h⟩
  · obtain ⟨c, hof, hequal⟩ := of_self h
    exact ⟨c, hof, hequal, if_pos hequal⟩

/-- A function that is only on the left is only on the right once the modules are exchanged, and the two sides of
each difference change places. -/
theorem Comparison.of_mirror_twoNames :
    let left : Module :=
      { Module.twoNames "a" "b" with sections := [⟨.function, 3, 8, 10⟩, ⟨.code, 7, 13, 15⟩] }
    let right : Module :=
      { Module.twoNames "b" "b" with
        sections := [⟨.function, 4, 8, 10⟩, ⟨.dataCount, 1, 14, 16⟩, ⟨.code, 7, 17, 19⟩, ⟨.data, 3, 26, 28⟩]
        datas := [⟨.passive, []⟩] }
    of left right (some {}) =
        .ok ⟨[.sectionCount 2 4, .sectionSize 0 .function 3 4, .sectionKind 1 .code .dataCount,
            .entityCount "data" 0 1],
          [⟨"a", .onlyInLeft⟩, ⟨"b#0", .equal⟩, ⟨"b#1", .onlyInRight⟩]⟩ ∧
      of right left (some {}) =
        .ok ⟨[.sectionCount 4 2, .sectionSize 0 .function 4 3, .sectionKind 1 .dataCount .code,
            .entityCount "data" 1 0],
          [⟨"a", .onlyInRight⟩, ⟨"b#0", .equal⟩, ⟨"b#1", .onlyInLeft⟩]⟩ ∧
      (∀ i ∈ left.selection {}, ∃ body, left.functionBody i = .ok body) ∧
      ∃ c, of left left (some {}) = .ok c ∧ c.isEqual = true := by
  intro left right
  have hnames : left.sharedNames right {} = ["a", "b"] := Module.sharedNames_twoNames
  have hof : of left right (some {}) =
      .ok ⟨[.sectionCount 2 4, .sectionSize 0 .function 3 4, .sectionKind 1 .code .dataCount,
          .entityCount "data" 0 1],
        [⟨"a", .onlyInLeft⟩, ⟨"b#0", .equal⟩, ⟨"b#1", .onlyInRight⟩]⟩ := by
    rw [of, Module.functionDifferences, Module.pairs_eq, hnames]
    rfl
  have hbodies : ∀ i ∈ left.selection {}, ∃ body, left.functionBody i = .ok body := by
    intro i hi
    obtain rfl | rfl : i = 0 ∨ i = 1 := by
      have := List.mem_range.mp ((Module.selection_all left) ▸ hi)
      change i < 2 at this
      omega
    · exact ⟨_, rfl⟩
    · exact ⟨_, rfl⟩
  obtain ⟨-, hmirror, hself⟩ := of_mirror left right (some {})
  obtain ⟨c, hc, hequal, -⟩ := hself fun f hf => Option.some.inj hf ▸ hbodies
  exact ⟨hof, (hmirror _ hof).1, hbodies, c, hc, hequal⟩

end WasmBinary
