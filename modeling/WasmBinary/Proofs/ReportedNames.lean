import Mathlib.Data.List.Nodup
import WasmBinary.Module.Decode
import WasmBinary.Proofs.Accounting
import WasmBinary.Proofs.Words

/-!
# The names that a comparison reports

An entry of a comparison has the name of its functions. If several functions of one side share the name,
its entries are numbered: the name, a `#` and the place among the functions with that name. Whatever
the names are, two numbered entries never have the same name, and neither have two that are not
numbered. But nothing keeps a function from being called as some numbered entry is, and then both are
reported under one name.

* `Text.numbered_inj`: a numbered name can be taken apart.
* `Module.IsPlain`, `Module.IsNumbered`: the names without and with a number.
* `Module.reportedNames_perm`: the names of all entries.
* `Module.reported_names`: the names of the entries are distinct exactly if no name is of both kinds.
-/
namespace WasmBinary

/-! ## Numbered names -/

/-- The name of a place below a name that functions share. -/
def Text.numbered (name : String) (k : Nat) : String := name ++ "#" ++ toString k

/-- The number is what follows the last `#`. -/
theorem Text.numbered_inj {name name' : String} {k k' : Nat}
    (h : numbered name k = numbered name' k') : name = name' ∧ k = k' := by
  have hreverse (name : String) (k : Nat) : (numbered name k).toList.reverse =
      (toString k).toList.reverse ++ '#' :: name.toList.reverse := by
    simp [numbered]
  have hdigits (k : Nat) : ∀ c ∈ (toString k).toList.reverse, c.isDigit = true := fun c hc =>
    isDigit_of_mem_toString (List.mem_reverse.mp hc)
  have hsign (name : String) : ∀ c ∈ ('#' :: name.toList.reverse).head?, c.isDigit = false := by
    rintro _ ⟨⟩
    rfl
  have hlists := congrArg (·.toList.reverse) h
  simp only [hreverse] at hlists
  obtain ⟨hnumber, hrest⟩ :=
    List.append_inj_of_span (hdigits k) (hdigits k') (hsign name) (hsign name') hlists
  have hname := List.reverse_injective (List.cons.inj hrest).2
  exact ⟨String.toList_inj.mp hname,
    toString_inj (String.toList_inj.mp (List.reverse_injective hnumber))⟩

/-- The names of the first `n` places below a name. -/
def Text.numberedTo (n : Nat) (name : String) : List String := (List.range n).map (numbered name)

theorem Text.nodup_numberedTo (n : Nat) (name : String) : (numberedTo n name).Nodup :=
  List.nodup_range.map fun _ _ h => (numbered_inj h).2

open Text (numbered numberedTo)

/-! ## The names below one name -/

/-- A list in which some items stand for themselves and the others for lists. -/
theorem List.flatMap_ite_perm {α : Type} (p : α → Prop) [DecidablePred p] (g : α → List α) :
    ∀ l : List α, (l.flatMap fun a => if p a then g a else [a]).Perm
      (l.filter (¬p ·) ++ (l.filter p).flatMap g)
  | [] => .nil
  | a :: l => by
    have hrest := List.flatMap_ite_perm p g l
    by_cases ha : p a
    · simp only [List.flatMap_cons, ha, if_true, not_true_eq_false, decide_false, decide_true,
        List.filter_cons, Bool.false_eq_true, if_false]
      refine (hrest.append_left (g a)).trans ?_
      rw [← List.append_assoc, ← List.append_assoc]
      exact List.perm_append_comm.append_right _
    · simpa [ha] using hrest

theorem Pair.map_fst_named (name : String) (ls rs : List Nat) :
    (named name ls rs).map Prod.fst =
      if 1 < ls.length ∨ 1 < rs.length then numberedTo (max ls.length rs.length) name
      else List.replicate (max ls.length rs.length) name := by
  rw [← length_zip, named]
  split
  · refine List.ext_getElem (by simp [numberedTo]) fun k _ _ => ?_
    simp [numberedTo, numbered]
  · rw [List.map_map]
    exact List.map_const' ..

namespace Module

variable {left right : Module} {f : FunctionFilter}

/-- Several functions of one side have the name, so that the entries below it are numbered. -/
def Shares (left right : Module) (f : FunctionFilter) (name : String) : Prop :=
  1 < (left.named f name).length ∨ 1 < (right.named f name).length

instance (left right : Module) (f : FunctionFilter) : DecidablePred (left.Shares right f) :=
  fun _ => inferInstanceAs (Decidable (_ ∨ _))

/-- How many entries there are below a name. -/
def entryCount (left right : Module) (f : FunctionFilter) (name : String) : Nat :=
  max (left.named f name).length (right.named f name).length

/-- A selected function has the name, and no two of one side. -/
def IsPlain (left right : Module) (f : FunctionFilter) (name : String) : Prop :=
  ((∃ i ∈ left.selection f, left.functionName i = name) ∨
    ∃ i ∈ right.selection f, right.functionName i = name) ∧ ¬ left.Shares right f name

/-- The name is that of one of the entries below a name that functions share. -/
def IsNumbered (left right : Module) (f : FunctionFilter) (shown : String) : Prop :=
  ∃ name k, left.Shares right f name ∧ k < left.entryCount right f name ∧ shown = numbered name k

/-- The names that no two functions of one side share. -/
def plainNames (left right : Module) (f : FunctionFilter) : List String :=
  (left.sharedNames right f).filter (¬ left.Shares right f ·)

/-- The numbered names, below one shared name after the other. -/
def numberedNames (left right : Module) (f : FunctionFilter) : List String :=
  ((left.sharedNames right f).filter (left.Shares right f ·)).flatMap fun name =>
    numberedTo (left.entryCount right f name) name

theorem mem_plainNames {name : String} :
    name ∈ left.plainNames right f ↔ left.IsPlain right f name := by
  rw [plainNames, List.mem_filter, decide_eq_true_eq, mem_sharedNames, IsPlain]

theorem nodup_plainNames (left right : Module) (f : FunctionFilter) :
    (left.plainNames right f).Nodup := (nodup_sharedNames left right f).filter _

theorem mem_sharedNames_of_shares {name : String} (h : left.Shares right f name) :
    name ∈ left.sharedNames right f := by
  have hselected (m : Module) (hm : 1 < (m.named f name).length) :
      ∃ i ∈ m.selection f, m.functionName i = name := by
    obtain ⟨i, hi⟩ := List.exists_mem_of_length_pos (Nat.zero_lt_of_lt hm)
    obtain ⟨hi, hname⟩ := List.mem_filter.mp hi
    exact ⟨i, hi, of_decide_eq_true hname⟩
  exact mem_sharedNames.mpr (h.imp (hselected left) (hselected right))

theorem mem_numberedNames {shown : String} :
    shown ∈ left.numberedNames right f ↔ left.IsNumbered right f shown := by
  simp only [numberedNames, numberedTo, List.mem_flatMap, List.mem_filter, List.mem_map,
    List.mem_range, decide_eq_true_eq, IsNumbered]
  constructor
  · rintro ⟨name, ⟨-, hshares⟩, k, hk, rfl⟩
    exact ⟨name, k, hshares, hk, rfl⟩
  · rintro ⟨name, k, hshares, hk, rfl⟩
    exact ⟨name, ⟨mem_sharedNames_of_shares hshares, hshares⟩, k, hk, rfl⟩

/-- Entries below different names have different numbered names, and so have those below one. -/
theorem nodup_numberedNames (left right : Module) (f : FunctionFilter) :
    (left.numberedNames right f).Nodup := by
  refine List.nodup_flatMap.mpr ⟨fun name _ => Text.nodup_numberedTo _ name, ?_⟩
  refine ((nodup_sharedNames left right f).filter _).imp fun {name name'} hne shown h h' => ?_
  obtain ⟨k, -, rfl⟩ := List.mem_map.mp h
  obtain ⟨k', -, heq⟩ := List.mem_map.mp h'
  exact hne (Text.numbered_inj heq).1.symm

/-- The names of the entries below a name. -/
theorem map_fst_named {name : String} (h : name ∈ left.sharedNames right f) :
    (Pair.named name (left.named f name) (right.named f name)).map Prod.fst =
      if left.Shares right f name then numberedTo (left.entryCount right f name) name
      else [name] := by
  rw [Pair.map_fst_named]
  refine ite_congr rfl (fun _ => rfl) fun hshares => ?_
  have hone : max (left.named f name).length (right.named f name).length = 1 := by
    have hpos (m : Module) (i : Nat) (hi : i ∈ m.selection f) (hname : m.functionName i = name) :
        0 < (m.named f name).length :=
      List.length_pos_of_mem (List.mem_filter.mpr ⟨hi, decide_eq_true hname⟩)
    rw [Shares] at hshares
    rcases mem_sharedNames.mp h with ⟨i, hi, hname⟩ | ⟨i, hi, hname⟩
    · have := hpos left i hi hname
      omega
    · have := hpos right i hi hname
      omega
  rw [hone]
  rfl

/-! ## The names of all entries -/

variable {entries : List FunctionDifference}

theorem map_name_of_functionDifferences (h : left.functionDifferences right f = .ok entries) :
    entries.map (·.name) = (left.pairs right f).map Prod.fst := by
  have hentries : List.Forall₂ (· = ·) ((left.pairs right f).map Prod.fst)
      (entries.map (·.name)) := by
    rw [List.forall₂_map_left_iff, List.forall₂_map_right_iff]
    exact (isEntry_of_functionDifferences h).imp fun _ _ hd => hd.1.symm
  exact (List.forall₂_eq_eq_eq ▸ hentries).symm

/-- The names that are reported are the plain ones and the numbered ones. -/
theorem reportedNames_perm (h : left.functionDifferences right f = .ok entries) :
    (entries.map (·.name)).Perm (left.plainNames right f ++ left.numberedNames right f) := by
  have hblocks : ((left.pairs right f).map Prod.fst) = (left.sharedNames right f).flatMap fun name =>
      if left.Shares right f name then numberedTo (left.entryCount right f name) name
      else [name] := by
    rw [pairs_eq, List.map_flatMap]
    exact List.flatMap_congr fun name hname => map_fst_named hname
  rw [map_name_of_functionDifferences h, hblocks]
  exact List.flatMap_ite_perm _ _ _

/-- The names of the entries are names of functions, each once, and numbered names, each once. So two
entries have the same name only if one of them is numbered and the other is for functions that are
called so, and all names are distinct exactly if there is no such name. -/
theorem reported_names (h : left.functionDifferences right f = .ok entries) :
    (∃ plain numbered : List String, (entries.map (·.name)).Perm (plain ++ numbered) ∧
      plain.Nodup ∧ numbered.Nodup ∧ (∀ name, name ∈ plain ↔ left.IsPlain right f name) ∧
      ∀ name, name ∈ numbered ↔ left.IsNumbered right f name) ∧
    ((entries.map (·.name)).Nodup ↔
      ∀ name, ¬(left.IsPlain right f name ∧ left.IsNumbered right f name)) := by
  have hperm := reportedNames_perm h
  refine ⟨⟨_, _, hperm, nodup_plainNames left right f, nodup_numberedNames left right f,
    fun _ => mem_plainNames, fun _ => mem_numberedNames⟩, ?_⟩
  rw [hperm.nodup_iff, List.nodup_append]
  simp only [nodup_plainNames, nodup_numberedNames, true_and]
  constructor
  · rintro hdistinct name ⟨hplain, hnumbered⟩
    exact hdistinct name (mem_plainNames.mpr hplain) name (mem_numberedNames.mpr hnumbered) rfl
  · rintro hnone name hplain _ hnumbered rfl
    exact hnone name ⟨mem_plainNames.mp hplain, mem_numberedNames.mp hnumbered⟩

/-- A subsection that calls function 0 `a` and gives function 1 a name. -/
def secondNameSection (name : String) : Bytes :=
  let bytes := Text.Utf8.encode name
  [1, UInt8.ofNat (6 + bytes.length), 2, 0, 1, 0x61, 1, UInt8.ofNat bytes.length] ++ bytes

/-- Two functions with empty code and these names. -/
def secondName (name : String) : Module where
  source := [0x00, 0x61, 0x73, 0x6D, 1, 0, 0, 0, 3, 3, 2, 0, 0, 10, 7, 2, 2, 0, 0x0B, 2, 0, 0x0B,
    0, UInt8.ofNat (5 + (secondNameSection name).length), 4, 0x6E, 0x61, 0x6D, 0x65]
      ++ secondNameSection name
  version := 1
  sections := [⟨.function, 3, 8, 10⟩, ⟨.code, 7, 13, 15⟩,
    ⟨.custom, UInt32.ofNat (5 + (secondNameSection name).length), 22, 24⟩]
  customs := [⟨"name", secondNameSection name⟩]
  functions := [0, 0]
  codes := [⟨0, 17, [0, 0x0B]⟩, ⟨1, 20, [0, 0x0B]⟩]
  names := { functions := ⟨[(0, "a"), (1, name)]⟩ }

theorem sharedNames_secondName {name : String} (hname : (secondName name).functionName 1 = name)
    (hlt : "a" < name) : (secondName "a").sharedNames (secondName name) {} = ["a", name] := by
  have hle : "a" ≤ name := Std.le_of_lt hlt
  have hne : "a" ≠ name := fun h => String.lt_irrefl _ (h ▸ hlt)
  change ((["a", "a", "a", (secondName name).functionName 1].mergeSort
    fun a b => decide (a ≤ b)).eraseReps) = _
  rw [hname, List.mergeSort_of_pairwise (by simp [hle])]
  simp only [List.eraseReps_cons_cons, beq_self_eq_true, beq_iff_eq, hne, if_true, if_false]
  rfl

/-- A name that looks like a numbered one is no obstacle while fewer functions share `a`. -/
theorem reported_names_secondName :
    let left := secondName "a"
    let right := secondName "a#2"
    decode true left.source = .ok left ∧ decode true right.source = .ok right ∧
      left.functionDifferences right {} =
        .ok [⟨"a#0", .equal⟩, ⟨"a#1", .onlyInLeft⟩, ⟨"a#2", .onlyInRight⟩] ∧
      ∀ name, ¬(left.IsPlain right {} name ∧ left.IsNumbered right {} name) := by
  intro left right
  have h : left.functionDifferences right {} =
      .ok [⟨"a#0", .equal⟩, ⟨"a#1", .onlyInLeft⟩, ⟨"a#2", .onlyInRight⟩] := by
    rw [functionDifferences, pairs_eq, sharedNames_secondName rfl (by decide)]
    rfl
  exact ⟨rfl, rfl, h, (reported_names h).2.mp (by decide)⟩

/-- One side has two functions called `a`, the other one `a` and one `a#0`: two entries are called
`a#0`. -/
theorem numbered_name_taken :
    decode true (secondName "a").source = .ok (secondName "a") ∧
      decode true (secondName "a#0").source = .ok (secondName "a#0") ∧
      ∃ entries, (secondName "a").functionDifferences (secondName "a#0") {} = .ok entries ∧
        entries = [⟨"a#0", .equal⟩, ⟨"a#1", .onlyInLeft⟩, ⟨"a#0", .onlyInRight⟩] ∧
        ¬(entries.map (·.name)).Nodup := by
  refine ⟨rfl, rfl, _, ?_, rfl, by decide⟩
  rw [functionDifferences, pairs_eq, sharedNames_secondName rfl (by decide)]
  rfl

end Module

end WasmBinary
