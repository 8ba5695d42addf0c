import WasmBinary.Comparison
import WasmBinary.Proofs.Listing
import WasmBinary.Proofs.Outcomes

/-!
# How functions are paired

Functions are compared name by name. The names stand in ascending order, each once, and below a name
stand the functions that have it, in the order of their indices. So every function that a filter
selects stands below one name.

* `List.mem_eraseReps`, `List.pairwise_eraseReps`: sorted lists without their repetitions.
* `Module.pairs_eq`: the pairs, name by name.
* `Module.byName_perm`: the functions below all names.
* `Module.functionDifferences_of_same`: modules with the same names and the same listings.
-/
namespace WasmBinary

/-! ## Sorted lists -/

section

variable {α : Type}

theorem List.eraseReps_cons_cons [BEq α] (a b : α) (l : List α) :
    (a :: b :: l).eraseReps = if a == b then (a :: l).eraseReps else a :: (b :: l).eraseReps := by
  have hloop (l : List α) : ∀ (a : α) (acc : List α), List.eraseRepsBy.loop (· == ·) a l acc =
      acc.reverse ++ List.eraseRepsBy.loop (· == ·) a l [] := by
    induction l with
    | nil => simp [List.eraseRepsBy.loop]
    | cons b l ih =>
      intro a acc
      simp only [List.eraseRepsBy.loop]
      split
      · exact ih a acc
      · rw [ih b (a :: acc), ih b [a]]
        simp
  simp only [List.eraseReps, List.eraseRepsBy, List.eraseRepsBy.loop]
  split
  · rename_i h
    rw [if_pos h]
  · rename_i h
    rw [if_neg (by simp [h]), hloop l b [a]]
    rfl

theorem List.mem_eraseReps [BEq α] [LawfulBEq α] {x : α} {l : List α} : x ∈ l.eraseReps ↔ x ∈ l := by
  cases l with
  | nil => rfl
  | cons a l =>
    induction l generalizing a with
    | nil => simp [List.eraseReps, List.eraseRepsBy, List.eraseRepsBy.loop]
    | cons b l ih =>
      rw [List.eraseReps_cons_cons]
      by_cases hab : a == b
      · rw [if_pos hab, ih, eq_of_beq hab]
        simp
      · rw [if_neg hab, List.mem_cons, ih, ← List.mem_cons]

/-- In a sorted list all repetitions are next to each other. -/
theorem List.pairwise_eraseReps [BEq α] [LawfulBEq α] {R : α → α → Prop}
    (hanti : ∀ a b, R a b → R b a → a = b) {l : List α} (h : l.Pairwise R) :
    l.eraseReps.Pairwise fun a b => R a b ∧ a ≠ b := by
  cases l with
  | nil => exact .nil
  | cons a l =>
    induction l generalizing a with
    | nil => simp [List.eraseReps, List.eraseRepsBy, List.eraseRepsBy.loop]
    | cons b l ih =>
      obtain ⟨hfirst, hrest⟩ := List.pairwise_cons.mp h
      rw [List.eraseReps_cons_cons]
      by_cases hab : a == b
      · rw [if_pos hab, eq_of_beq hab]
        exact ih b hrest
      · rw [if_neg hab]
        refine List.pairwise_cons.mpr ⟨fun x hx => ?_, ih b hrest⟩
        have hx := List.mem_eraseReps.mp hx
        refine ⟨hfirst x hx, ?_⟩
        rintro rfl
        -- Then `b`, which is not `a`, stands between `a` and itself.
        rcases List.mem_cons.mp hx with rfl | hx
        · exact hab (beq_self_eq_true _)
        · have hback := (List.pairwise_cons.mp hrest).1 _ hx
          exact hab (beq_iff_eq.mpr (hanti _ _ (hfirst b List.mem_cons_self) hback))

/-- A list, grouped by a key. -/
theorem List.flatMap_filter_perm {κ : Type} [DecidableEq κ] (key : α → κ) {keys : List κ}
    (h : keys.Nodup) : ∀ {l : List α}, (∀ a ∈ l, key a ∈ keys) →
      (keys.flatMap fun k => l.filter (key · = k)).Perm l := by
  induction keys with
  | nil =>
    intro l hl
    rw [List.eq_nil_iff_forall_not_mem.mpr fun a ha => nomatch hl a ha]
    exact .nil
  | cons k keys ih =>
    obtain ⟨hk, hkeys⟩ := List.nodup_cons.mp h
    intro l hl
    have hothers : (keys.flatMap fun k' => l.filter (key · = k')) =
        keys.flatMap fun k' => (l.filter fun a => !decide (key a = k)).filter (key · = k') := by
      rw [List.flatMap_def, List.flatMap_def]
      congr 1
      refine List.map_congr_left fun k' hk' => ?_
      rw [List.filter_filter]
      refine List.filter_congr fun a _ => ?_
      have hne : k' ≠ k := by
        rintro rfl
        exact hk hk'
      by_cases hkey : key a = k' <;> simp [hkey, hne]
    have hrest := ih hkeys (l := l.filter fun a => !decide (key a = k)) fun a ha => by
      obtain ⟨ha, hne⟩ := List.mem_filter.mp ha
      rcases List.mem_cons.mp (hl a ha) with rfl | hmem
      · simp at hne
      · exact hmem
    rw [List.flatMap_cons, hothers]
    exact (hrest.append_left _).trans (List.filter_append_perm _ l)

end

/-! ## Names -/

namespace Module

/-- The functions that a filter selects and that have a name. -/
def named (m : Module) (f : FunctionFilter) (name : String) : List Nat :=
  (m.selection f).filter (m.functionName · = name)

/-- The names of the functions that a filter selects in either module. -/
def sharedNames (left right : Module) (f : FunctionFilter) : List String :=
  (((left.selection f).map left.functionName ++
    (right.selection f).map right.functionName).mergeSort (· ≤ ·)).eraseReps

variable {left right : Module} {f : FunctionFilter}

theorem mem_sharedNames {name : String} : name ∈ left.sharedNames right f ↔
    (∃ i ∈ left.selection f, left.functionName i = name) ∨
      ∃ i ∈ right.selection f, right.functionName i = name := by
  rw [sharedNames, List.mem_eraseReps, (List.mergeSort_perm _ _).mem_iff, List.mem_append,
    List.mem_map, List.mem_map]

theorem sorted_mergeSort (names : List String) :
    (names.mergeSort (· ≤ ·)).Pairwise (· ≤ ·) := by
  have htrans (a b c : String) (hab : decide (a ≤ b) = true) (hbc : decide (b ≤ c) = true) :
      decide (a ≤ c) = true :=
    decide_eq_true (String.le_trans (of_decide_eq_true hab) (of_decide_eq_true hbc))
  have htotal (a b : String) : (decide (a ≤ b) || decide (b ≤ a)) = true := by
    simpa using String.le_total a b
  exact (List.pairwise_mergeSort htrans htotal names).imp of_decide_eq_true

/-- Names that are sorted and stand once each. -/
theorem pairwise_eraseReps_mergeSort (names : List String) :
    (names.mergeSort (· ≤ ·)).eraseReps.Pairwise (· < ·) := by
  refine (List.pairwise_eraseReps ?_ (sorted_mergeSort names)).imp ?_
  · intro a b hab hba
    exact String.le_antisymm hab hba
  · intro a b h
    obtain ⟨hle, hne⟩ := h
    exact String.not_le.mp fun hback => hne (String.le_antisymm hle hback)

/-- The names stand in ascending order. -/
theorem pairwise_sharedNames (left right : Module) (f : FunctionFilter) :
    (left.sharedNames right f).Pairwise (· < ·) :=
  pairwise_eraseReps_mergeSort _

theorem nodup_sharedNames (left right : Module) (f : FunctionFilter) :
    (left.sharedNames right f).Nodup := by
  refine (pairwise_sharedNames left right f).imp ?_
  rintro a _ hlt rfl
  exact String.lt_irrefl a hlt

/-- The pairs, name by name. -/
theorem pairs_eq (left right : Module) (f : FunctionFilter) :
    left.pairs right f = (left.sharedNames right f).flatMap fun name =>
      Pair.named name (left.named f name) (right.named f name) := by
  have hindices (m : Module) (name : String) :
      ((((m.selection f).map fun i => (m.functionName i, i)).filter (·.1 = name)).map Prod.snd) =
        m.named f name := by
    rw [List.filter_map, List.map_map]
    exact List.map_id _
  simp only [pairs, hindices]
  congr 1
  simp only [sharedNames, List.map_append, List.map_map]
  rfl

/-- All functions that are selected, name by name. -/
theorem byName_perm (left right : Module) (f : FunctionFilter) :
    ((left.sharedNames right f).flatMap (left.named f)).Perm (left.selection f) :=
  List.flatMap_filter_perm left.functionName (nodup_sharedNames left right f) fun i hi =>
    mem_sharedNames.mpr (.inl ⟨i, hi, rfl⟩)

/-! ## Functions that stay the same -/

theorem selection_all (m : Module) : m.selection {} = List.range m.functions.length :=
  List.filter_eq_self.mpr fun _ _ => rfl

/-- The name under which a function is shown when all functions are compared with those of a module
that has the same functions. Functions that share a name are numbered. -/
def shownName (m : Module) (i : Nat) : String :=
  let sharing := m.named {} (m.functionName i)
  if 1 < sharing.length then m.functionName i ++ "#" ++ toString (sharing.idxOf i)
  else m.functionName i

end Module

theorem Pair.zip_self (l : List Nat) : Pair.zip l l = l.map fun i => both i i := by
  induction l with
  | nil => rfl
  | cons i l ih => rw [zip, ih, List.map_cons]

/-- A name below which the same functions stand on both sides. -/
theorem Pair.named_self (name : String) {l : List Nat} (h : l.Nodup) :
    Pair.named name l l = l.map fun i =>
      (if 1 < l.length then name ++ "#" ++ toString (l.idxOf i) else name, both i i) := by
  rw [named, zip_self]
  by_cases hshared : 1 < l.length
  · simp only [hshared, or_self, if_true]
    refine List.ext_getElem (by simp) fun k hk _ => ?_
    simp only [List.length_mapIdx, List.length_map] at hk
    simp only [List.getElem_mapIdx, List.getElem_map, h.idxOf_getElem k hk]
  · simp [hshared]

namespace Module

theorem nodup_named (m : Module) (f : FunctionFilter) (name : String) : (m.named f name).Nodup :=
  ((List.nodup_range).filter _).filter _

/-- All functions of modules with the same names are paired with themselves. -/
theorem pairs_of_sameNames {m m' : Module} (h : m.SameNames m') :
    m.pairs m' {} = ((m.sharedNames m' {}).flatMap (m.named {})).map fun i =>
      (m.shownName i, .both i i) := by
  have hselection : m'.selection {} = m.selection {} := by
    rw [selection_all, selection_all, h.functions]
  have hnamed (name : String) : m'.named {} name = m.named {} name := by
    simp only [named, hselection, h.functionName]
  rw [pairs_eq, List.map_flatMap]
  congr 1
  funext name
  rw [hnamed, Pair.named_self name (nodup_named m {} name)]
  refine List.map_congr_left fun i hi => ?_
  have hname : m.functionName i = name := of_decide_eq_true (List.mem_filter.mp hi).2
  simp only [shownName, hname]

/-- If all functions have a text, and it is the same in both modules, all are equal, each listed
once. -/
theorem functionDifferences_of_same {m m' : Module} (h : m.SameNames m')
    (htexts : ∀ i < m.functions.length, ∃ text, m.disassembly false i = .ok text ∧
      m'.disassembly false i = .ok text) :
    ∃ order : List Nat, order.Perm (List.range m.functions.length) ∧
      m.functionDifferences m' {} = .ok (order.map fun i => ⟨m.shownName i, .equal⟩) := by
  have hperm := byName_perm m m' {}
  rw [selection_all] at hperm
  refine ⟨_, hperm, ?_⟩
  rw [functionDifferences, pairs_of_sameNames h, List.mapM_map]
  refine Except.mapM_of_ok fun i hi => ?_
  obtain ⟨text, hleft, hright⟩ := htexts i (List.mem_range.mp (hperm.mem_iff.mp hi))
  have hstatus : (Pair.both i i).status m m' = .ok .equal := by
    rw [Pair.status, hleft, hright]
    exact congrArg Except.ok (if_pos rfl)
  simp only [Function.comp_apply, hstatus]
  rfl

end Module

end WasmBinary
