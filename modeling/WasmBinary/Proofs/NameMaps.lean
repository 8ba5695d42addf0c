import Mathlib.Data.List.Basic
import Mathlib.Data.List.Induction
import WasmBinary.Names.Decode

/-!
# The first name for an index

A map of names keeps the first entry for each index. Which entry of a list is the first for its
index depends on those in front of it alone, and so does the warning for one that is not.

* `Names.firsts`, `Names.repeats`: the entries of a list that are the first for their index, and the
  others. `lookup_firsts`, `nodup_keys_firsts` and `perm_firsts_append_repeats` say what is kept.
* `NameMap.KeepsFirst`: a map holds the first entries of a list and nothing else.
* `Names.addAll_firsts`, `Names.addLocals_localTables`: adding entries to the first of some others
  makes the first of all, and gives a warning for each entry that is not.
-/
namespace WasmBinary

namespace Names

section Entries

variable {α β γ κ : Type}

/-- What `f` makes of each element and those in front of it. The elements of `front` are in front of
them all. -/
def flatMapAfter (f : List α → α → List β) : (front l : List α) → List β
  | _, [] => []
  | front, a :: l => f front a ++ flatMapAfter f (front ++ [a]) l

theorem flatMapAfter_append (f : List α → α → List β) (l l' : List α) : ∀ front,
    flatMapAfter f front (l ++ l') = flatMapAfter f front l ++ flatMapAfter f (front ++ l) l' := by
  induction l with
  | nil => simp [flatMapAfter]
  | cons a l ih =>
    intro front
    simp only [List.cons_append, flatMapAfter, ih, List.append_assoc, List.nil_append]

theorem flatMapAfter_concat (f : List α → α → List β) (l : List α) (a : α) :
    flatMapAfter f [] (l ++ [a]) = flatMapAfter f [] l ++ f l a := by
  simp [flatMapAfter_append, flatMapAfter]

theorem flatMap_flatMapAfter (f : List α → α → List β) (g : β → List γ) (l : List α) : ∀ front,
    (flatMapAfter f front l).flatMap g =
      flatMapAfter (fun front a => (f front a).flatMap g) front l := by
  induction l with
  | nil => exact fun _ => rfl
  | cons a l ih =>
    intro front
    simp only [flatMapAfter, List.flatMap_append, ih]

/-- Elements of which nothing is made, and that nothing depends on, can be left out. -/
theorem flatMapAfter_filterMap (sel : α → Option γ) {f : List α → α → List β}
    {f' : List γ → γ → List β} {l : List α}
    (h : ∀ a ∈ l, ∀ front, f front a = (sel a).elim [] (f' (front.filterMap sel))) : ∀ front,
    flatMapAfter f front l = flatMapAfter f' (front.filterMap sel) (l.filterMap sel) := by
  induction l with
  | nil => exact fun _ => rfl
  | cons a l ih =>
    intro front
    obtain ⟨ha, hl⟩ := List.forall_mem_cons.mp h
    have hconcat : (front ++ [a]).filterMap sel = front.filterMap sel ++ (sel a).toList := by
      rw [List.filterMap_append]
      cases hsel : sel a <;> simp [hsel]
    rw [flatMapAfter, ha, ih hl, hconcat]
    cases hsel : sel a with
    | none => simp [hsel]
    | some c => simp [hsel, flatMapAfter]

variable [DecidableEq κ]

/-- The entries whose key no entry in front of them has. -/
def firsts (l : List (κ × α)) : List (κ × α) :=
  flatMapAfter (fun front e => if e.1 ∈ front.map Prod.fst then [] else [e]) [] l

/-- The entries whose key an entry in front of them has. -/
def repeats (l : List (κ × α)) : List (κ × α) :=
  flatMapAfter (fun front e => if e.1 ∈ front.map Prod.fst then [e] else []) [] l

theorem firsts_concat (l : List (κ × α)) (e : κ × α) :
    firsts (l ++ [e]) = if e.1 ∈ l.map Prod.fst then firsts l else firsts l ++ [e] := by
  rw [firsts, flatMapAfter_concat]
  split <;> simp [firsts]

theorem repeats_concat (l : List (κ × α)) (e : κ × α) :
    repeats (l ++ [e]) = if e.1 ∈ l.map Prod.fst then repeats l ++ [e] else repeats l := by
  rw [repeats, flatMapAfter_concat]
  split <;> simp [repeats]

theorem isSome_lookup_iff (l : List (κ × α)) (k : κ) :
    (l.lookup k).isSome ↔ k ∈ l.map Prod.fst := by
  simp only [List.lookup_isSome_iff, beq_iff_eq, List.mem_map]
  constructor
  · rintro ⟨e, he, rfl⟩
    exact ⟨e, he, rfl⟩
  · rintro ⟨e, he, rfl⟩
    exact ⟨e, he, rfl⟩

theorem lookup_firsts (l : List (κ × α)) (k : κ) : (firsts l).lookup k = l.lookup k := by
  induction l using List.reverseRecOn with
  | nil => rfl
  | append_singleton l e ih =>
    rw [firsts_concat, List.lookup_append]
    split
    · rename_i he
      rw [ih]
      by_cases hk : k = e.1
      · subst hk
        obtain ⟨a, ha⟩ := Option.isSome_iff_exists.mp ((isSome_lookup_iff l _).mpr he)
        simp [ha]
      · have hother : [e].lookup k = none := by simp [hk]
        simp [hother]
    · rw [List.lookup_append, ih]

theorem mem_keys_firsts (l : List (κ × α)) (k : κ) :
    k ∈ (firsts l).map Prod.fst ↔ k ∈ l.map Prod.fst := by
  rw [← isSome_lookup_iff, lookup_firsts, isSome_lookup_iff]

theorem nodup_keys_firsts (l : List (κ × α)) : ((firsts l).map Prod.fst).Nodup := by
  induction l using List.reverseRecOn with
  | nil => exact .nil
  | append_singleton l e ih =>
    rw [firsts_concat]
    split
    · exact ih
    · rename_i he
      rw [← mem_keys_firsts] at he
      rw [List.map_append, List.map_singleton, List.nodup_append]
      refine ⟨ih, by simp, fun k hk k' hk' => ?_⟩
      rw [List.mem_singleton.mp hk']
      rintro rfl
      exact he hk

/-- Every entry is among the first or among the further ones, as often as it stands in the list. -/
theorem perm_firsts_append_repeats (l : List (κ × α)) : l.Perm (firsts l ++ repeats l) := by
  induction l using List.reverseRecOn with
  | nil => exact .nil
  | append_singleton l e ih =>
    have hlast := ih.append_right [e]
    rw [firsts_concat, repeats_concat]
    split
    · rwa [List.append_assoc] at hlast
    · refine hlast.trans ?_
      rw [List.append_assoc, List.append_assoc]
      exact List.perm_append_comm.append_left _

end Entries

end Names

/-- The map has a name for each index of the entries `es`, the first, and nothing else. -/
structure NameMap.KeepsFirst (m : NameMap) (es : List (Index × String)) : Prop where
  mem_keys (i : Index) : i ∈ m.entries.map Prod.fst ↔ i ∈ es.map Prod.fst
  get?_eq (i : Index) : m.get? i = es.lookup i
  keys_nodup : (m.entries.map Prod.fst).Nodup
  perm : es.Perm (m.entries ++ Names.repeats es)   -- an entry that is not kept is a repeated one

namespace Names

theorem keepsFirst_firsts (es : List (Index × String)) : NameMap.KeepsFirst ⟨firsts es⟩ es where
  mem_keys := mem_keys_firsts es
  get?_eq := lookup_firsts es
  keys_nodup := nodup_keys_firsts es
  perm := perm_firsts_append_repeats es

/-! ## Adding entries -/

/-- The warning for an entry that is not kept. -/
def droppedEntry (kind : NameKind) (e : Index × String) : Warning := .duplicateName kind e.1 e.2

/-- The warnings for an entry of a map behind the entries `front`. -/
def entryWarnings (kind : NameKind) (front : List (Index × String)) (e : Index × String) :
    List Warning :=
  if e.1 ∈ front.map Prod.fst then [droppedEntry kind e] else []

theorem flatMapAfter_entryWarnings (kind : NameKind) (es : List (Index × String)) :
    flatMapAfter (entryWarnings kind) [] es = (repeats es).map (droppedEntry kind) := by
  rw [List.map_eq_flatMap, repeats, flatMap_flatMapAfter]
  congr 1
  funext front e
  rw [entryWarnings]
  split <;> rfl

theorem isSome_get?_firsts (l : List (Index × String)) (i : Index) :
    (NameMap.get? ⟨firsts l⟩ i).isSome ↔ i ∈ l.map Prod.fst := by
  rw [NameMap.get?, lookup_firsts, isSome_lookup_iff]

/-- Adding entries keeps those with a new index and warns of the others. -/
theorem addAll_firsts (kind : NameKind) (es : List (Index × String)) : ∀ front,
    addAll kind ⟨firsts front⟩ es =
      (⟨firsts (front ++ es)⟩, flatMapAfter (entryWarnings kind) front es) := by
  induction es with
  | nil => simp [addAll, flatMapAfter]
  | cons e es ih =>
    intro front
    have hfront : front ++ e :: es = (front ++ [e]) ++ es := by simp
    rw [addAll, hfront, flatMapAfter, entryWarnings]
    by_cases he : e.1 ∈ front.map Prod.fst
    · have hsame : firsts (front ++ [e]) = firsts front := by rw [firsts_concat, if_pos he]
      rw [if_pos ((isSome_get?_firsts _ _).mpr he), if_pos he, ← hsame, ih]
      rfl
    · have hpush : NameMap.push ⟨firsts front⟩ e.1 e.2 = ⟨firsts (front ++ [e])⟩ := by
        rw [firsts_concat, if_neg he]
        rfl
      rw [if_neg fun h => he ((isSome_get?_firsts _ _).mp h), if_neg he, hpush, ih]
      rfl

/-- The map for each function that its first local names make. -/
def localTables (maps : List (Index × List (Index × String))) : List (Index × NameMap) :=
  (firsts maps).map fun m => (m.1, ⟨firsts m.2⟩)

/-- The warnings for the local names of a function behind those of `front`. -/
def localWarnings (front : List (Index × List (Index × String)))
    (m : Index × List (Index × String)) : List Warning :=
  if m.1 ∈ front.map Prod.fst then [.duplicateLocalMap m.1]
  else (repeats m.2).map (droppedEntry .localVariable)

theorem lookup_localTables (maps : List (Index × List (Index × String))) (f : Index) :
    (localTables maps).lookup f = (maps.lookup f).map fun es => ⟨firsts es⟩ := by
  rw [← lookup_firsts maps, localTables]
  induction firsts maps with
  | nil => rfl
  | cons m ms ih =>
    obtain ⟨g, es⟩ := m
    simp only [List.map_cons, List.lookup_cons, ih]
    split <;> rfl

theorem isSome_lookup_localTables (maps : List (Index × List (Index × String))) (f : Index) :
    ((localTables maps).lookup f).isSome ↔ f ∈ maps.map Prod.fst := by
  rw [lookup_localTables, Option.isSome_map, isSome_lookup_iff]

/-- Adding local names keeps those of a new function and warns of the others. -/
theorem addLocals_localTables (maps : List (Index × List (Index × String))) : ∀ front,
    addLocals (localTables front) maps =
      (localTables (front ++ maps), flatMapAfter localWarnings front maps) := by
  induction maps with
  | nil => simp [addLocals, flatMapAfter]
  | cons m maps ih =>
    intro front
    have hfront : front ++ m :: maps = (front ++ [m]) ++ maps := by simp
    rw [addLocals, hfront, flatMapAfter, localWarnings]
    by_cases hm : m.1 ∈ front.map Prod.fst
    · have hsame : localTables (front ++ [m]) = localTables front := by
        rw [localTables, firsts_concat, if_pos hm, localTables]
      rw [if_pos ((isSome_lookup_localTables _ _).mpr hm), if_pos hm, ← hsame, ih]
      rfl
    · have hadded : addAll .localVariable .empty m.2 =
          (⟨firsts m.2⟩, (repeats m.2).map (droppedEntry .localVariable)) := by
        rw [← flatMapAfter_entryWarnings]
        exact addAll_firsts .localVariable m.2 []
      have hnew : localTables front ++ [(m.1, ⟨firsts m.2⟩)] = localTables (front ++ [m]) := by
        rw [localTables, localTables, firsts_concat, if_neg hm, List.map_append]
        rfl
      rw [if_neg fun h => hm ((isSome_lookup_localTables _ _).mp h), if_neg hm, hadded]
      simp only [hnew, ih]

end Names

end WasmBinary
