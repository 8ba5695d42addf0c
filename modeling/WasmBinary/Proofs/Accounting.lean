import WasmBinary.Proofs.Pairing

/-!
# What a comparison accounts for

A comparison has an entry for each function that is selected on either side, and only one. The entries
stand by name. Below a name, the functions of both sides are set against each other place by place.
So two modules compare as equal only if below every name the same number of functions stands on both
sides, and those at the same place have the same text.

* `Text.Utf8.encode_lt`: texts are ordered like their bytes.
* `Pair.getElem?_zip`, `Pair.length_zip`: pairing, place by place.
* `FunctionStatus.Holds`, `Module.Accounts`: what an entry says, and the entries below one name.
* `Module.functionDifferences_blocks`: the entries, name by name.
* `Comparison.isEqual_iff`: when nothing differs.
* `Comparison.accounts_of`: all entries, and when nothing differs.
-/
namespace WasmBinary

/-! ## The order of names -/

namespace Text.Utf8

theorem ofNat_lt_ofNat {a b : Nat} (ha : a < 256) (hb : b < 256) :
    UInt8.ofNat a < UInt8.ofNat b ↔ a < b := by
  rw [UInt8.lt_iff_toNat_lt, UInt8.toNat_ofNat', UInt8.toNat_ofNat', Nat.mod_eq_of_lt ha,
    Nat.mod_eq_of_lt hb]

theorem ofNat_eq_ofNat {a b : Nat} (ha : a < 256) (hb : b < 256) :
    UInt8.ofNat a = UInt8.ofNat b ↔ a = b := by
  rw [← UInt8.toNat_inj, UInt8.toNat_ofNat', UInt8.toNat_ofNat', Nat.mod_eq_of_lt ha,
    Nat.mod_eq_of_lt hb]

/-- The bytes of two characters already differ in the order of the characters. -/
theorem encodeChar_lt {c d : Char} (h : c < d) (s t : Bytes) :
    String.utf8EncodeChar c ++ s < String.utf8EncodeChar d ++ t := by
  have hlt : c.val.toNat < d.val.toNat := h
  have hd : d.val.toNat < 0x110000 := by
    rcases d.valid with h | h <;> omega
  simp only [String.utf8EncodeChar]
  generalize c.val.toNat = v at *
  generalize d.val.toNat = w at *
  have htop : v / 64 / 64 / 64 % 8 = v / 64 / 64 / 64 ∧ w / 64 / 64 / 64 % 8 = w / 64 / 64 / 64 := by
    omega
  -- The digits to the base 64 differ in the order of the numbers.
  have hdigits (a b : Nat) : a < b ↔ a / 64 < b / 64 ∨ a / 64 = b / 64 ∧ a % 64 < b % 64 := by
    omega
  have hlex := hlt
  rw [hdigits, hdigits (v / 64), hdigits (v / 64 / 64)] at hlex
  simp only [Nat.div_div_eq_div_mul, Nat.reduceMul] at hlex htop
  split_ifs
  all_goals
    simp (disch := omega) only [List.cons_append, List.nil_append, List.cons_lt_cons_iff,
      ofNat_lt_ofNat, ofNat_eq_ofNat]
    omega

/-- Texts are ordered like their bytes. -/
theorem encode_lt {s t : String} (h : s < t) : encode s < encode t := by
  have hlt : s.toList < t.toList := h
  rw [encode, encode]
  generalize s.toList = cs at hlt
  generalize t.toList = ds at hlt
  induction hlt with
  | nil =>
    rename_i d ds
    have hne : String.utf8EncodeChar d ≠ [] := String.utf8EncodeChar_ne_nil
    rw [List.flatMap_cons, List.flatMap_nil]
    generalize String.utf8EncodeChar d = bytes at hne
    cases bytes with
    | nil => exact absurd rfl hne
    | cons b bytes => exact .nil
  | cons _ ih =>
    rw [List.flatMap_cons, List.flatMap_cons]
    exact List.append_left_lt ih
  | rel hcd =>
    rw [List.flatMap_cons, List.flatMap_cons]
    exact encodeChar_lt hcd _ _

end Text.Utf8

/-! ## Lists of lists -/

/-- What belongs to a list of lists consists of blocks. -/
theorem List.exists_blocks {α β γ : Type} {R : β → γ → Prop} {g : α → List β} :
    ∀ {keys : List α} {out : List γ}, List.Forall₂ R (keys.flatMap g) out →
      ∃ blocks : List (List γ), out = blocks.flatten ∧
        List.Forall₂ (fun key block => List.Forall₂ R (g key) block) keys blocks
  | [], out, h => by
    cases h
    exact ⟨[], rfl, .nil⟩
  | key :: keys, out, h => by
    rw [List.flatMap_cons] at h
    have hsplit := List.take_append_drop (g key).length out
    have hblock := List.forall₂_take (g key).length h
    have hrest := List.forall₂_drop (g key).length h
    rw [List.take_left] at hblock
    rw [List.drop_left] at hrest
    obtain ⟨blocks, hflat, hblocks⟩ := List.exists_blocks hrest
    refine ⟨_ :: blocks, ?_, .cons hblock hblocks⟩
    rw [List.flatten_cons, ← hflat, hsplit]

/-! ## Pairing place by place -/

namespace Pair

def left? : Pair → Option Nat
  | both l _ => some l
  | left i => some i
  | right _ => none

def right? : Pair → Option Nat
  | both _ r => some r
  | left _ => none
  | right i => some i

theorem length_zip : ∀ ls rs : List Nat, (zip ls rs).length = max ls.length rs.length
  | l :: ls, r :: rs => by simp [zip, length_zip ls rs]
  | [], rs => by cases rs <;> simp [zip]
  | l :: ls, [] => by simp [zip]

/-- Each place of the longer list has a pair, with what both lists have there. -/
theorem getElem?_zip : ∀ (ls rs : List Nat) (k : Nat) (p : Pair), (zip ls rs)[k]? = some p →
    p.left? = ls[k]? ∧ p.right? = rs[k]?
  | l :: ls, r :: rs, 0, p, h => by
    cases h
    exact ⟨rfl, rfl⟩
  | l :: ls, r :: rs, k + 1, p, h => getElem?_zip ls rs k p h
  | [], rs, k, p, h => by
    have hmap : zip [] rs = rs.map right := by cases rs <;> rfl
    rw [hmap, List.getElem?_map] at h
    obtain ⟨r, hr, rfl⟩ := Option.map_eq_some_iff.mp h
    exact ⟨rfl, hr.symm⟩
  | l :: ls, [], k, p, h => by
    rw [zip, List.getElem?_map] at h
    obtain ⟨i, hi, rfl⟩ := Option.map_eq_some_iff.mp h
    exact ⟨hi.symm, rfl⟩

theorem filterMap_left?_zip : ∀ ls rs : List Nat, (zip ls rs).filterMap left? = ls
  | l :: ls, r :: rs => by simp [zip, left?, filterMap_left?_zip ls rs]
  | [], rs => by cases rs <;> simp [zip, left?]
  | l :: ls, [] => by simp [zip, left?, Function.comp_def]

theorem filterMap_right?_zip : ∀ ls rs : List Nat, (zip ls rs).filterMap right? = rs
  | l :: ls, r :: rs => by simp [zip, right?, filterMap_right?_zip ls rs]
  | [], rs => by cases rs <;> simp [zip, right?, Function.comp_def]
  | l :: ls, [] => by simp [zip, right?]

/-- The name that the place has below a name. -/
theorem getElem?_named (name : String) (ls rs : List Nat) (k : Nat) :
    (named name ls rs)[k]? = (zip ls rs)[k]?.map fun p =>
      (if 1 < ls.length ∨ 1 < rs.length then name ++ "#" ++ toString k else name, p) := by
  rw [named]
  split
  · rw [List.getElem?_mapIdx]
  · rw [List.getElem?_map]

theorem map_snd_named (name : String) (ls rs : List Nat) :
    (named name ls rs).map Prod.snd = zip ls rs := by
  refine List.ext_getElem? fun k => ?_
  rw [List.getElem?_map, getElem?_named, Option.map_map]
  exact Option.map_id'

end Pair

/-! ## What an entry says -/

/-- What a status says of two functions, one of which may be missing. -/
inductive FunctionStatus.Holds (left right : Module) :
    Option Nat → Option Nat → FunctionStatus → Prop where
  | equal {l r : Nat} {text : String} (hl : left.disassembly false l = .ok text)
      (hr : right.disassembly false r = .ok text) : Holds left right (some l) (some r) .equal
  | different {l r : Nat} {a b : String} (hl : left.disassembly false l = .ok a)
      (hr : right.disassembly false r = .ok b) (hne : a ≠ b) :
      Holds left right (some l) (some r) .different
  | onlyInLeft (l : Nat) : Holds left right (some l) none .onlyInLeft
  | onlyInRight (r : Nat) : Holds left right none (some r) .onlyInRight

variable {left right : Module}

theorem Pair.holds_of_status {p : Pair} {status : FunctionStatus}
    (h : p.status left right = .ok status) : status.Holds left right p.left? p.right? := by
  cases p with
  | both l r =>
    rw [Pair.status] at h
    cases hl : left.disassembly false l with
    | error e =>
      rw [hl] at h
      cases h
    | ok a =>
      cases hr : right.disassembly false r with
      | error e =>
        rw [hl, hr] at h
        cases h
      | ok b =>
        rw [hl, hr] at h
        change Except.ok (if a = b then FunctionStatus.equal else .different) = .ok status at h
        split at h <;> rename_i hab <;> cases h
        · subst hab
          exact .equal hl hr
        · exact .different hl hr hab
  | left l =>
    cases h
    exact .onlyInLeft l
  | right r =>
    cases h
    exact .onlyInRight r

/-- The status of two functions is `equal` only if both have the same text. -/
theorem FunctionStatus.Holds.eq_equal_iff {l? r? : Option Nat} {status : FunctionStatus}
    (h : status.Holds left right l? r?) : status = .equal ↔
      ∃ l r text, l? = some l ∧ r? = some r ∧ left.disassembly false l = .ok text ∧
        right.disassembly false r = .ok text := by
  cases h with
  | equal hl hr => exact ⟨fun _ => ⟨_, _, _, rfl, rfl, hl, hr⟩, fun _ => rfl⟩
  | different hl hr hne =>
    refine ⟨fun h => (nomatch h), ?_⟩
    rintro ⟨l, r, text, hl', hr', hltext, hrtext⟩
    cases hl'
    cases hr'
    rw [hl] at hltext
    rw [hr] at hrtext
    cases hltext
    cases hrtext
    exact absurd rfl hne
  | onlyInLeft l =>
    refine ⟨fun h => (nomatch h), ?_⟩
    rintro ⟨_, _, _, _, hr, _⟩
    cases hr
  | onlyInRight r =>
    refine ⟨fun h => (nomatch h), ?_⟩
    rintro ⟨_, _, _, hl, _⟩
    cases hl

namespace Module

/-- The entries below a name: one for each place of the longer list of functions, with what both lists
have there. They are numbered if one list has more than one function. -/
structure Accounts (left right : Module) (name : String) (ls rs : List Nat)
    (entries : List FunctionDifference) : Prop where
  length_eq : entries.length = max ls.length rs.length
  name_eq (k : Nat) (d : FunctionDifference) : entries[k]? = some d →
    d.name = if ls.length ≤ 1 ∧ rs.length ≤ 1 then name else name ++ "#" ++ toString k
  holds (k : Nat) (d : FunctionDifference) : entries[k]? = some d →
    d.status.Holds left right ls[k]? rs[k]?

/-- An entry is for a pair with a name. -/
def IsEntry (left right : Module) (pair : String × Pair) (d : FunctionDifference) : Prop :=
  d.name = pair.1 ∧ pair.2.status left right = .ok d.status

variable {f : FunctionFilter} {entries : List FunctionDifference}

theorem isEntry_of_functionDifferences (h : left.functionDifferences right f = .ok entries) :
    List.Forall₂ (left.IsEntry right) (left.pairs right f) entries := by
  refine (Except.forall₂_of_mapM h).imp fun pair d hd => ?_
  cases hstatus : pair.2.status left right with
  | error e =>
    simp only [hstatus] at hd
    cases hd
  | ok status =>
    simp only [hstatus] at hd
    cases hd
    exact ⟨rfl, hstatus⟩

theorem accounts_of_isEntry {name : String} {ls rs : List Nat}
    (h : List.Forall₂ (left.IsEntry right) (Pair.named name ls rs) entries) :
    Accounts left right name ls rs entries := by
  have hplace (k : Nat) (d : FunctionDifference) (hd : entries[k]? = some d) :
      ∃ p, (Pair.zip ls rs)[k]? = some p ∧ left.IsEntry right
        (if 1 < ls.length ∨ 1 < rs.length then name ++ "#" ++ toString k else name, p) d := by
    obtain ⟨hk, rfl⟩ := List.getElem?_eq_some_iff.mp hd
    have hk' : k < (Pair.named name ls rs).length := h.length_eq ▸ hk
    have hpair := List.getElem?_eq_getElem hk'
    have hentry := (List.forall₂_iff_get.mp h).2 k hk' hk
    rw [Pair.getElem?_named] at hpair
    obtain ⟨p, hp, hname⟩ := Option.map_eq_some_iff.mp hpair
    refine ⟨p, hp, ?_⟩
    rw [hname]
    exact hentry
  refine ⟨?_, fun k d hd => ?_, fun k d hd => ?_⟩
  · rw [← h.length_eq, ← Pair.length_zip, ← Pair.map_snd_named name, List.length_map]
  · obtain ⟨p, -, hname, -⟩ := hplace k d hd
    rw [hname]
    by_cases hshared : 1 < ls.length ∨ 1 < rs.length
    · rw [if_pos hshared, if_neg (by omega)]
    · rw [if_neg hshared, if_pos (by omega)]
  · obtain ⟨p, hp, -, hstatus⟩ := hplace k d hd
    obtain ⟨hl, hr⟩ := Pair.getElem?_zip ls rs k p hp
    rw [← hl, ← hr]
    exact Pair.holds_of_status hstatus

/-- Below a name nothing differs if the functions at the same places have the same text, and none is
left over. -/
theorem Accounts.all_equal_iff {name : String} {ls rs : List Nat}
    (h : Accounts left right name ls rs entries) : (∀ d ∈ entries, d.status = .equal) ↔
      ls.length = rs.length ∧ ∀ k l r : Nat, ls[k]? = some l → rs[k]? = some r →
        ∃ text, left.disassembly false l = .ok text ∧ right.disassembly false r = .ok text := by
  have hlength := h.length_eq
  constructor
  · intro hequal
    have hplace (k : Nat) (hk : k < entries.length) := by
      have hd := List.getElem?_eq_getElem hk
      exact (h.holds k _ hd).eq_equal_iff.mp (hequal _ (List.mem_of_getElem? hd))
    constructor
    · by_contra hne
      have hk : min ls.length rs.length < entries.length := by omega
      obtain ⟨l, r, -, hl, hr, -⟩ := hplace _ hk
      have hkl := (List.getElem?_eq_some_iff.mp hl).1
      have hkr := (List.getElem?_eq_some_iff.mp hr).1
      omega
    · intro k l r hl hr
      have hkl := (List.getElem?_eq_some_iff.mp hl).1
      obtain ⟨l', r', text, hl', hr', htext⟩ := hplace k (by omega)
      rw [hl] at hl'
      rw [hr] at hr'
      cases hl'
      cases hr'
      exact ⟨text, htext⟩
  · rintro ⟨hsame, htexts⟩ d hd
    obtain ⟨k, hk, rfl⟩ := List.getElem_of_mem hd
    have hentry := h.holds k _ (List.getElem?_eq_getElem hk)
    have hkl : k < ls.length := by omega
    have hkr : k < rs.length := by omega
    obtain ⟨text, htext⟩ := htexts k _ _ (List.getElem?_eq_getElem hkl) (List.getElem?_eq_getElem hkr)
    exact hentry.eq_equal_iff.mpr
      ⟨_, _, text, List.getElem?_eq_getElem hkl, List.getElem?_eq_getElem hkr, htext⟩

/-- The entries, name by name. -/
theorem functionDifferences_blocks (h : left.functionDifferences right f = .ok entries) :
    ∃ blocks : List (List FunctionDifference), entries = blocks.flatten ∧
      List.Forall₂ (fun name block =>
        Accounts left right name (left.named f name) (right.named f name) block)
        (left.sharedNames right f) blocks := by
  have hentries := isEntry_of_functionDifferences h
  rw [pairs_eq] at hentries
  obtain ⟨blocks, hflat, hblocks⟩ := List.exists_blocks hentries
  exact ⟨blocks, hflat, hblocks.imp fun _ _ => accounts_of_isEntry⟩

/-! ## Every function once -/

theorem filterMap_left?_pairs (left right : Module) (f : FunctionFilter) :
    (((left.pairs right f).map Prod.snd).filterMap Pair.left?).Perm (left.selection f) := by
  rw [pairs_eq, List.map_flatMap, List.filterMap_flatMap]
  simp only [Pair.map_snd_named, Pair.filterMap_left?_zip]
  exact byName_perm left right f

theorem filterMap_right?_pairs (left right : Module) (f : FunctionFilter) :
    (((left.pairs right f).map Prod.snd).filterMap Pair.right?).Perm (right.selection f) := by
  rw [pairs_eq, List.map_flatMap, List.filterMap_flatMap]
  simp only [Pair.map_snd_named, Pair.filterMap_right?_zip]
  exact List.flatMap_filter_perm right.functionName (nodup_sharedNames left right f) fun i hi =>
    mem_sharedNames.mpr (.inr ⟨i, hi, rfl⟩)

end Module

/-! ## When nothing differs -/

/-- As far as both tables go, the sections have the same kinds and sizes. -/
theorem Difference.ofSections_eq_nil_iff : ∀ (position : Nat) (ls rs : List Section),
    ofSections position ls rs = [] ↔ ∀ (k : Nat) (l r : Section), ls[k]? = some l →
      rs[k]? = some r → l.kind = r.kind ∧ l.size = r.size
  | position, [], rs => by simp [ofSections]
  | position, l :: ls, [] => by simp [ofSections]
  | position, l :: ls, r :: rs => by
    have hrest := ofSections_eq_nil_iff (position + 1) ls rs
    have hplaces : (∀ (k : Nat) (l' r' : Section), (l :: ls)[k]? = some l' →
        (r :: rs)[k]? = some r' → l'.kind = r'.kind ∧ l'.size = r'.size) ↔
          (l.kind = r.kind ∧ l.size = r.size) ∧ ofSections (position + 1) ls rs = [] := by
      rw [hrest]
      constructor
      · exact fun h => ⟨h 0 l r rfl rfl, fun k => h (k + 1)⟩
      · rintro ⟨hfirst, h⟩ k l' r' hl hr
        cases k with
        | zero =>
          cases hl
          cases hr
          exact hfirst
        | succ k => exact h k l' r' hl hr
    rw [hplaces, ofSections]
    by_cases hkind : l.kind = r.kind
    · by_cases hsize : l.size = r.size <;> simp [hkind, hsize]
    · simp [hkind]

theorem Module.differences_eq_nil_iff (left right : Module) : left.differences right = [] ↔
    left.sections.length = right.sections.length ∧
      (∀ (k : Nat) (l r : Section), left.sections[k]? = some l → right.sections[k]? = some r →
        l.kind = r.kind ∧ l.size = r.size) ∧
      left.entityCounts = right.entityCounts := by
  rw [differences, List.append_eq_nil_iff, List.append_eq_nil_iff,
    Difference.ofSections_eq_nil_iff, and_assoc]
  refine and_congr ?_ (and_congr Iff.rfl ?_)
  · by_cases hlength : left.sections.length = right.sections.length <;> simp [hlength]
  · simp [entityCounts]

theorem List.forall_mem_iff_of_forall₂ {α β : Type} {R : α → β → Prop} {P : α → Prop} {Q : β → Prop}
    (hiff : ∀ a b, R a b → (P a ↔ Q b)) {l : List α} {l' : List β} (h : List.Forall₂ R l l') :
    (∀ a ∈ l, P a) ↔ ∀ b ∈ l', Q b := by
  induction h with
  | nil => simp
  | cons hab _ ih => rw [List.forall_mem_cons, List.forall_mem_cons, hiff _ _ hab, ih]

/-- Below every name the same number of functions is selected on both sides, and those at the same
place have the same text. -/
def Module.SameFunctions (left right : Module) (f : FunctionFilter) : Prop :=
  ∀ name, (left.named f name).length = (right.named f name).length ∧
    ∀ k l r : Nat, (left.named f name)[k]? = some l → (right.named f name)[k]? = some r →
      ∃ text, left.disassembly false l = .ok text ∧ right.disassembly false r = .ok text

theorem Module.all_equal_iff {f : FunctionFilter} {entries : List FunctionDifference}
    (h : left.functionDifferences right f = .ok entries) :
    (∀ d ∈ entries, d.status = .equal) ↔ left.SameFunctions right f := by
  obtain ⟨blocks, rfl, hblocks⟩ := functionDifferences_blocks h
  have hnames := List.forall_mem_iff_of_forall₂ (fun _ _ haccounts => haccounts.all_equal_iff.symm)
    hblocks
  rw [List.forall_mem_flatten, ← hnames]
  refine ⟨fun h name => ?_, fun h name _ => h name⟩
  by_cases hname : name ∈ left.sharedNames right f
  · exact h name hname
  · have hnone (m : Module) (hm : ∀ i ∈ m.selection f, m.functionName i ≠ name) :
        m.named f name = [] :=
      List.filter_eq_nil_iff.mpr fun i hi => by simpa using hm i hi
    rw [mem_sharedNames] at hname
    push Not at hname
    rw [hnone left hname.1, hnone right hname.2]
    simp

/-- Nothing differs if the section tables, the numbers of entities and, where functions are compared,
these agree. -/
theorem Comparison.isEqual_iff {functions : Option FunctionFilter} {c : Comparison}
    (h : Comparison.of left right functions = .ok c) : c.isEqual = true ↔
      left.sections.length = right.sections.length ∧
      (∀ (k : Nat) (l r : Section), left.sections[k]? = some l → right.sections[k]? = some r →
        l.kind = r.kind ∧ l.size = r.size) ∧
      left.entityCounts = right.entityCounts ∧
      ∀ f, functions = some f → left.SameFunctions right f := by
  have hc : c.differences = left.differences right ∧ ((∀ d ∈ c.functions, d.status = .equal) ↔
      ∀ f, functions = some f → left.SameFunctions right f) := by
    cases functions with
    | none =>
      cases h
      exact ⟨rfl, fun _ f hf => (nomatch hf), fun _ d hd => (nomatch hd)⟩
    | some f =>
      rw [Comparison.of] at h
      cases hentries : left.functionDifferences right f with
      | error e =>
        simp only [hentries] at h
        cases h
      | ok entries =>
        simp only [hentries] at h
        cases h
        exact ⟨rfl, (Module.all_equal_iff hentries).trans
          ⟨fun h f' hf => Option.some.inj hf ▸ h, fun h => h f rfl⟩⟩
  rw [isEqual, Bool.and_eq_true, List.isEmpty_iff, hc.1, Module.differences_eq_nil_iff, ← hc.2]
  simp [and_assoc]

/-- The names of the functions that are compared stand in the ascending order of their bytes. Below a
name each place of the longer list has its entry, and so each function of either side is in exactly
one entry. Nothing differs if the section tables, the numbers of entities and, where functions are
compared, those below every name agree. -/
theorem Comparison.accounts_of (left right : Module) :
    (∀ f entries, left.functionDifferences right f = .ok entries →
      ∃ (names : List String) (blocks : List (List FunctionDifference))
        (functions : List (Option Nat × Option Nat)),
        names.Pairwise (fun a b => Text.Utf8.encode a < Text.Utf8.encode b) ∧
        (∀ name, name ∈ names ↔ (∃ i ∈ left.selection f, left.functionName i = name) ∨
          ∃ i ∈ right.selection f, right.functionName i = name) ∧
        (∀ name, (left.named f name).Pairwise (· < ·) ∧ (right.named f name).Pairwise (· < ·)) ∧
        entries = blocks.flatten ∧
        List.Forall₂ (fun name block =>
          Module.Accounts left right name (left.named f name) (right.named f name) block)
          names blocks ∧
        List.Forall₂ (fun pair d => d.status.Holds left right pair.1 pair.2) functions entries ∧
        (functions.filterMap Prod.fst).Perm (left.selection f) ∧
        (functions.filterMap Prod.snd).Perm (right.selection f)) ∧
    ∀ functions c, Comparison.of left right functions = .ok c → (c.isEqual = true ↔
      left.sections.length = right.sections.length ∧
      (∀ (k : Nat) (l r : Section), left.sections[k]? = some l → right.sections[k]? = some r →
        l.kind = r.kind ∧ l.size = r.size) ∧
      left.entityCounts = right.entityCounts ∧
      ∀ f, functions = some f → left.SameFunctions right f) := by
  refine ⟨fun f entries h => ?_, fun functions c h => isEqual_iff h⟩
  obtain ⟨blocks, hflat, hblocks⟩ := Module.functionDifferences_blocks h
  have hascending (m : Module) (name : String) : (m.named f name).Pairwise (· < ·) :=
    (List.pairwise_lt_range.filter _).filter _
  refine ⟨left.sharedNames right f, blocks,
    (left.pairs right f).map fun pair => (pair.2.left?, pair.2.right?),
    (Module.pairwise_sharedNames left right f).imp Text.Utf8.encode_lt,
    fun name => Module.mem_sharedNames, fun name => ⟨hascending left name, hascending right name⟩,
    hflat, hblocks, ?_, ?_, ?_⟩
  · refine List.forall₂_map_left_iff.mpr ?_
    exact (Module.isEntry_of_functionDifferences h).imp fun _ _ hd => Pair.holds_of_status hd.2
  · have hperm := Module.filterMap_left?_pairs left right f
    rw [List.filterMap_map] at hperm ⊢
    exact hperm
  · have hperm := Module.filterMap_right?_pairs left right f
    rw [List.filterMap_map] at hperm ⊢
    exact hperm

/-- Two functions with empty code. -/
def Module.twoNames (first second : String) : Module where
  source := []
  version := 1
  functions := [0, 0]
  codes := [⟨0, 0, [0, 0x0B]⟩, ⟨1, 2, [0, 0x0B]⟩]
  names := { functions := ⟨[(0, first), (1, second)]⟩ }

theorem Module.sharedNames_twoNames :
    (twoNames "a" "b").sharedNames (twoNames "b" "b") {} = ["a", "b"] := by
  change ((["a", "b", "b", "b"].mergeSort fun a b => decide (a ≤ b)).eraseReps) = _
  rw [List.mergeSort_of_pairwise (by decide)]
  rfl

/-- One function is paired and two are left over, one on each side. -/
theorem Comparison.accounts_of_twoNames :
    let left := Module.twoNames "a" "b"
    let right := Module.twoNames "b" "b"
    let entries : List FunctionDifference :=
      [⟨"a", .onlyInLeft⟩, ⟨"b#0", .equal⟩, ⟨"b#1", .onlyInRight⟩]
    left.functionDifferences right {} = .ok entries ∧
      Comparison.of left right (some {}) = .ok ⟨[], entries⟩ ∧
      (∃ functions : List (Option Nat × Option Nat),
        List.Forall₂ (fun pair d => d.status.Holds left right pair.1 pair.2) functions entries ∧
        (functions.filterMap Prod.fst).Perm [0, 1] ∧
        (functions.filterMap Prod.snd).Perm [0, 1]) ∧
      ¬ left.SameFunctions right {} := by
  intro left right entries
  obtain ⟨hentries, hequal⟩ := accounts_of left right
  have h : left.functionDifferences right {} = .ok entries := by
    rw [Module.functionDifferences, Module.pairs_eq, Module.sharedNames_twoNames]
    rfl
  have hof : Comparison.of left right (some {}) = .ok ⟨[], entries⟩ := by
    rw [Comparison.of, h]
    rfl
  obtain ⟨-, -, functions, -, -, -, -, -, hholds, hleft, hright⟩ := hentries {} entries h
  refine ⟨h, hof, ⟨functions, hholds, hleft, hright⟩, fun hsame => ?_⟩
  have hsections (k : Nat) (l r : Section) (hl : left.sections[k]? = some l) :
      right.sections[k]? = some r → l.kind = r.kind ∧ l.size = r.size := by
    cases hl
  have hall := (hequal (some {}) _ hof).mpr
    ⟨rfl, hsections, rfl, fun _ hf => Option.some.inj hf ▸ hsame⟩
  cases hall

end WasmBinary
