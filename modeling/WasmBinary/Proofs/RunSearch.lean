import WasmBinary.Proofs.ZeroRuns

/-!
# Splitting by searching

A split can also be found by looking for the next long run, closing the chunk in front of it, and
going on behind the last zero of the run. Bytes that are left out are counted on the way. This gives
the same chunks as scanning byte by byte, and as many bytes left out as lie outside the chunks.

* `findRun_eq`: counting zeros finds the first place where a long run starts.
* `search_eq`: the search and the scan split alike, by induction on the bytes that are left.
* `split_zeroRuns`: all that a split promises.
-/
namespace WasmBinary

open Bytes (Zeros InLongRun)

namespace Chunk

/-! ## The next run -/

/-- Where the first `z` zeros in a row start, as counting finds it. There are `run` zeros right in
front. -/
def findRun (z : Nat) : (index run : Nat) → Bytes → Option Nat
  | _, _, [] => none
  | index, run, b :: rest =>
    if b ≠ 0 then findRun z (index + 1) 0 rest
    else if run + 1 = z then some (index + 1 - z)
    else findRun z (index + 1) (run + 1) rest

/-- Where the first `z` zeros in a row start. -/
def firstRun (z : Nat) : Bytes → Option Nat
  | [] => none
  | b :: rest => if startsRun z (b :: rest) then some 0 else (firstRun z rest).map (· + 1)

theorem firstRun_of_startsRun {z : Nat} (hz : 0 < z) {data : Bytes}
    (h : startsRun z data = true) : firstRun z data = some 0 := by
  cases data with
  | nil =>
    rw [startsRun_iff] at h
    exact absurd (h 0 (Nat.le_refl 0) hz) (by simp)
  | cons b rest => rw [firstRun, if_pos h]

theorem zeros_of_firstRun {z : Nat} {data : Bytes} :
    ∀ {k : Nat}, firstRun z data = some k → Zeros (data.drop k) 0 z := by
  induction data with
  | nil => simp [firstRun]
  | cons b rest ih =>
    intro k h
    rw [firstRun] at h
    split at h
    · next hrun =>
      cases h
      exact (startsRun_iff z _).mp hrun
    · obtain ⟨k, hk, rfl⟩ := Option.map_eq_some_iff.mp h
      exact ih hk

theorem startsRun_of_firstRun {z : Nat} {data : Bytes} (h : firstRun z data = some 0) :
    startsRun z data = true :=
  (startsRun_iff z data).mpr (zeros_of_firstRun h)

/-- Too few zeros in front of another byte, or of the end, are no long run. -/
theorem firstRun_short {z n : Nat} (hn : n < z) {b : UInt8} (hb : b ≠ 0) (rest : Bytes) :
    firstRun z (List.replicate n 0) = none ∧
      firstRun z (List.replicate n 0 ++ b :: rest) = (firstRun z rest).map (· + (n + 1)) := by
  induction n with
  | zero =>
    have hnorun : ¬startsRun z (b :: rest) = true := by
      rw [startsRun_iff]
      exact fun h => hb ((Bytes.zeros_cons_pos_iff hn).mp h).1
    refine ⟨rfl, ?_⟩
    change firstRun z (b :: rest) = _
    rw [firstRun, if_neg hnorun]
  | succ n ih =>
    obtain ⟨hend, hbyte⟩ := ih (Nat.lt_of_succ_lt hn)
    have hnorun : ¬startsRun z (0 :: List.replicate n 0) = true := by
      rw [startsRun_iff]
      exact fun h => absurd (h (n + 1) (Nat.zero_le _) hn) (by simp)
    have hnorun' : ¬startsRun z (0 :: (List.replicate n 0 ++ b :: rest)) = true := by
      rw [startsRun_iff]
      intro h
      have hzero := h (n + 1) (Nat.zero_le _) hn
      rw [List.getElem?_cons_succ, List.getElem?_append_right (by simp)] at hzero
      exact hb (by simpa using hzero)
    rw [List.replicate_succ, List.cons_append, firstRun, if_neg hnorun, firstRun, if_neg hnorun',
      hend, hbyte, Option.map_map]
    exact ⟨rfl, rfl⟩

/-- Counting starts over at every byte that is not zero, and so misses no run. -/
theorem findRun_eq {z : Nat} (data : Bytes) : ∀ (index run : Nat), run < z → run ≤ index →
    findRun z index run data =
      (firstRun z (List.replicate run 0 ++ data)).map (· + (index - run)) := by
  induction data with
  | nil =>
    intro index run hrun _
    rw [List.append_nil, (firstRun_short hrun (show (1 : UInt8) ≠ 0 by decide) []).1]
    rfl
  | cons b rest ih =>
    intro index run hrun hle
    rw [findRun]
    by_cases hb : b = 0
    · subst hb
      have hone : List.replicate run (0 : UInt8) ++ 0 :: rest =
          List.replicate (run + 1) 0 ++ rest := by
        rw [List.replicate_succ', List.append_assoc, List.singleton_append]
      rw [if_neg (by simp), hone]
      by_cases hfull : run + 1 = z
      · have hstarts : startsRun z (List.replicate (run + 1) 0 ++ rest) = true := by
          rw [startsRun_iff]
          intro i _ hi
          rw [List.getElem?_append_left (by simp; omega), List.getElem?_replicate,
            if_pos (by omega)]
        rw [if_pos hfull, firstRun_of_startsRun (by omega) hstarts, Option.map_some]
        congr 1
        omega
      · rw [if_neg hfull, ih (index + 1) (run + 1) (by omega) (by omega), Nat.add_sub_add_right]
    · rw [if_pos hb, (firstRun_short hrun hb rest).2, ih (index + 1) 0 (by omega) (Nat.zero_le _),
        Option.map_map]
      congr 1
      funext k
      simp
      omega

theorem findRun_zero {z : Nat} (hz : 0 < z) (data : Bytes) :
    findRun z 0 0 data = firstRun z data := by
  rw [findRun_eq data 0 0 hz (Nat.le_refl 0)]
  simp

/-! ## The scan from one run to the next -/

/-- An open chunk is closed where the next long run starts, or at the end. -/
theorem scan_some {z : Nat} (hz : 0 < z) (data : Bytes) (s : Nat) : ∀ index, s ≤ index →
    scan z index (some s) data =
      match firstRun z data with
      | none => [⟨s, index + data.length - s⟩]
      | some k => ⟨s, index + k - s⟩ :: scan z (index + k) none (data.drop k) := by
  induction data with
  | nil => exact fun index _ => rfl
  | cons b rest ih =>
    intro index hs
    rw [scan, firstRun]
    by_cases hrun : startsRun z (b :: rest) = true
    · have hb := ((Bytes.zeros_cons_pos_iff hz).mp ((startsRun_iff z _).mp hrun)).1
      rw [if_pos hrun, if_pos hrun, hb]
      simp only [Nat.add_zero, List.drop_zero]
      rw [scan, if_pos rfl]
    · rw [if_neg hrun, if_neg hrun, ih (index + 1) (Nat.le_succ_of_le hs)]
      cases firstRun z rest with
      | none => simp [Nat.add_assoc, Nat.add_comm 1]
      | some k => simp [Nat.add_assoc, Nat.add_comm 1]

theorem scan_none_drop (z n : Nat) : ∀ (data : Bytes) (index : Nat), Zeros data 0 n →
    scan z index none data = scan z (index + n) none (data.drop n) := by
  induction n with
  | zero => exact fun data index _ => rfl
  | succ n ih =>
    intro data index h
    cases data with
    | nil => exact absurd (h 0 (Nat.le_refl 0) (Nat.succ_pos n)) (by simp)
    | cons b rest =>
      obtain ⟨rfl, hrest⟩ := Bytes.zeros_cons_iff.mp h
      rw [scan, if_pos rfl, ih rest (index + 1) hrest, List.drop_succ_cons]
      congr 1
      omega

/-- A chunk is opened at the first byte that is not zero. -/
theorem scan_none {z : Nat} (hz : 0 < z) (data : Bytes) : ∀ index,
    scan z index none data =
      match data.findIdx? (· ≠ 0) with
      | none => []
      | some k => scan z (index + k) (some (index + k)) (data.drop k) := by
  induction data with
  | nil => exact fun index => rfl
  | cons b rest ih =>
    intro index
    rw [List.findIdx?_cons]
    by_cases hb : b = 0
    · rw [hb, scan, if_pos rfl, ih (index + 1)]
      cases rest.findIdx? (· ≠ 0) with
      | none => simp
      | some k => simp [Nat.add_assoc, Nat.add_comm 1]
    · have hnorun : ¬startsRun z (b :: rest) = true := by
        rw [startsRun_iff]
        exact fun h => hb ((Bytes.zeros_cons_pos_iff hz).mp h).1
      rw [if_pos (by simpa using hb)]
      simp only [Nat.add_zero, List.drop_zero]
      rw [scan, if_neg hb, scan, if_neg hnorun]

end Chunk

namespace Split

open Chunk

/-! ## The search -/

/-- The chunk of the `size` bytes in front of a run, if there are any. -/
def chunkAt (offset size : Nat) : List Chunk := if size = 0 then [] else [⟨offset, size⟩]

/-- How many bytes of a run the search passes together with the chunk of `size` bytes in front. -/
def runBehind (z size : Nat) : Nat := if size = 0 then 0 else z

/-- A search gets on: at the start of the bytes it finds zeros to skip, and further on a chunk. -/
theorem length_behind_lt {z : Nat} (hz : 0 < z) {data : Bytes} {size skip : Nat}
    (hrun : findRun z 0 0 data = some size)
    (hskip : (data.drop (size + runBehind z size)).findIdx? (· ≠ 0) = some skip) :
    ((data.drop (size + runBehind z size)).drop skip).length < data.length := by
  rw [findRun_zero hz] at hrun
  have hpos : 0 < data.length := by
    cases data with
    | nil => cases hrun
    | cons b rest => exact Nat.succ_pos _
  have hmoves : 0 < size + runBehind z size + skip := by
    by_cases h0 : size = 0
    · subst h0
      refine Nat.pos_of_ne_zero fun hskip0 => ?_
      obtain rfl : skip = 0 := by omega
      obtain ⟨_, hnonzero, -⟩ := List.findIdx?_eq_some_iff_getElem.mp hskip
      have hzero := zeros_of_firstRun hrun 0 (Nat.le_refl 0) hz
      simp_all [runBehind]
    · omega
  rw [List.drop_drop, List.length_drop]
  omega

/-- Splits `data`, which lies at `offset`, by searching for long runs. -/
def search (z : Nat) (hz : 0 < z) (offset : Nat) (data : Bytes) : Split :=
  match _ : findRun z 0 0 data with
  | none => ⟨[⟨offset, data.length⟩], 0⟩
  | some size =>
    let rest := data.drop (size + runBehind z size)
    match _ : rest.findIdx? (· ≠ 0) with
    | none => ⟨chunkAt offset size, runBehind z size + rest.length⟩
    | some skip =>
      let behind := search z hz (offset + (size + runBehind z size) + skip) (rest.drop skip)
      ⟨chunkAt offset size ++ behind.chunks, runBehind z size + skip + behind.stripped⟩
termination_by data.length
decreasing_by
  exact length_behind_lt hz ‹_› ‹_›

/-- Up to a long run there is the open chunk, if it has any bytes. -/
theorem scan_firstRun {z : Nat} (hz : 0 < z) {data : Bytes} {size : Nat}
    (h : firstRun z data = some size) (offset : Nat) :
    scan z offset (if startsRun z data then none else some offset) data = chunkAt offset size ++
      scan z (offset + (size + runBehind z size)) none (data.drop (size + runBehind z size)) := by
  unfold chunkAt runBehind
  by_cases h0 : size = 0
  · subst h0
    rw [if_pos (startsRun_of_firstRun h)]
    rfl
  · have hnorun : ¬startsRun z data = true := by
      intro hrun
      rw [firstRun_of_startsRun hz hrun] at h
      exact h0 (Option.some.inj h).symm
    rw [if_neg hnorun, if_neg h0, if_neg h0,
      scan_some hz data offset offset (Nat.le_refl offset), h]
    simp only [Nat.add_sub_cancel_left, List.singleton_append]
    rw [scan_none_drop z z _ _ (zeros_of_firstRun h), List.drop_drop, Nat.add_assoc]

theorem add_le_length_of_firstRun {z : Nat} (hz : 0 < z) {data : Bytes} {size : Nat}
    (h : firstRun z data = some size) : size + runBehind z size ≤ data.length := by
  have hlast := zeros_of_firstRun h (z - 1) (Nat.zero_le _) (by omega)
  rw [List.getElem?_drop] at hlast
  have hlt := (List.getElem?_eq_some_iff.mp hlast).1
  unfold runBehind
  split <;> omega

theorem total_append (chunks chunks' : List Chunk) :
    total (chunks ++ chunks') = total chunks + total chunks' := by
  induction chunks with
  | nil => simp [total]
  | cons c rest ih => rw [List.cons_append, total, total, ih, Nat.add_assoc]

theorem total_chunkAt (offset size : Nat) : total (chunkAt offset size) = size := by
  unfold chunkAt
  split
  · next h => rw [h, total]
  · rfl

/-- The search and the scan split alike, and what the search counts are the bytes left out. -/
theorem search_eq {z : Nat} (hz : 0 < z) (offset : Nat) (data : Bytes) :
    (search z hz offset data).chunks =
        scan z offset (if startsRun z data then none else some offset) data ∧
      (search z hz offset data).stripped + total (search z hz offset data).chunks =
        data.length := by
  fun_induction search z hz offset data with
  | case1 offset data hrun =>
    rw [findRun_zero hz] at hrun
    have hnorun : ¬startsRun z data = true := by
      intro hstarts
      rw [firstRun_of_startsRun hz hstarts] at hrun
      cases hrun
    rw [if_neg hnorun, scan_some hz data offset offset (Nat.le_refl offset), hrun]
    simp [total]
  | case2 offset data size hrun rest hskip =>
    rw [findRun_zero hz] at hrun
    have hle := add_le_length_of_firstRun hz hrun
    have hscan := scan_firstRun hz hrun offset
    rw [scan_none hz, show data.drop (size + runBehind z size) = rest from rfl, hskip,
      List.append_nil] at hscan
    refine ⟨hscan.symm, ?_⟩
    simp only [total_chunkAt, rest, List.length_drop]
    omega
  | case3 offset data size hrun rest skip hskip behind ih =>
    rw [findRun_zero hz] at hrun
    have hle := add_le_length_of_firstRun hz hrun
    obtain ⟨hchunks, hcount⟩ := ih
    obtain ⟨hlt, hnonzero, -⟩ := List.findIdx?_eq_some_iff_getElem.mp hskip
    have hnorun : ¬startsRun z (rest.drop skip) = true := by
      rw [startsRun_iff]
      intro hzeros
      have hzero := hzeros 0 (Nat.le_refl 0) hz
      simp_all
    have hscan := scan_firstRun hz hrun offset
    rw [scan_none hz, show data.drop (size + runBehind z size) = rest from rfl, hskip] at hscan
    rw [if_neg hnorun] at hchunks
    refine ⟨?_, ?_⟩
    · exact (hscan.trans (congrArg (chunkAt offset size ++ ·) hchunks.symm)).symm
    · have hbehind : behind.stripped + total behind.chunks = (rest.drop skip).length := hcount
      have hrest : rest.length = data.length - (size + runBehind z size) := List.length_drop
      rw [List.length_drop] at hbehind
      simp only [total_append, total_chunkAt]
      omega

/-- Searching from the start splits as `split` does. -/
theorem search_zero (data : Bytes) (zeroRun : Nat) :
    search (max zeroRun 1) (Nat.le_max_right ..) 0 data = split data zeroRun := by
  obtain ⟨hchunks, hcount⟩ := search_eq (Nat.le_max_right zeroRun 1) 0 data
  have hsame : (search (max zeroRun 1) (Nat.le_max_right ..) 0 data).chunks =
      (split data zeroRun).chunks := hchunks
  have hsum := stripped_add_total data zeroRun
  rw [← hsame] at hsum
  have hstripped := Nat.add_right_cancel (hcount.trans hsum.symm)
  generalize search (max zeroRun 1) (Nat.le_max_right ..) 0 data = found at hsame hstripped
  generalize split data zeroRun = s at hsame hstripped
  cases found
  cases s
  simp_all

end Split

/-- What a split promises. Chunks ascend with at least `z` bytes between any two. A position outside
all of them is one in a maximal run of at least `z` zeros, and `stripped` counts those. No chunk is
empty but the one of no bytes at all. Searching for the runs one after another splits in the same
way. -/
theorem split_zeroRuns (data : Bytes) (zeroRun : Nat) :
    let z := max zeroRun 1
    let s := split data zeroRun
    s.chunks.Pairwise (fun c d => c.index + c.size + z ≤ d.index) ∧
    (∀ c ∈ s.chunks, c.index + c.size ≤ data.length) ∧
    (∀ i < data.length, (∀ c ∈ s.chunks, ¬c.Contains i) ↔ InLongRun z data i) ∧
    s.stripped =
      ((Finset.range data.length).filter fun i => ∀ c ∈ s.chunks, ¬c.Contains i).card ∧
    s.stripped + Chunk.total s.chunks = data.length ∧
    (data ≠ [] → ∀ c ∈ s.chunks, 0 < c.size) ∧
    (data = [] → s.chunks = [⟨0, 0⟩]) ∧
    Split.search z (Nat.le_max_right ..) 0 data = s := by
  intro z s
  have hlaid := laid_split data zeroRun
  refine ⟨hlaid.apart, hlaid.end_le, fun i hi => outside_split_iff data zeroRun hi,
    stripped_eq_card data zeroRun, stripped_add_total data zeroRun, ?nonempty, ?empty,
    Split.search_zero data zeroRun⟩
  case nonempty => exact fun hdata c hc => pos_of_mem_split hdata hc
  case empty =>
    intro hdata
    change (split data zeroRun).chunks = _
    rw [hdata, split_nil]

/-- A leading and a trailing run are left out, a single zero between two bytes is not. -/
theorem split_zeroRuns_both_ends :
    split [0, 0, 1, 0, 2, 0, 0] 2 = ⟨[⟨2, 3⟩], 4⟩ ∧
      (∀ i < 7, (∀ c ∈ (split [0, 0, 1, 0, 2, 0, 0] 2).chunks, ¬c.Contains i) ↔
        InLongRun 2 [0, 0, 1, 0, 2, 0, 0] i) ∧
      Split.search 2 (by decide) 0 [0, 0, 1, 0, 2, 0, 0] = ⟨[⟨2, 3⟩], 4⟩ := by
  obtain ⟨-, -, houtside, -, -, -, -, hsearch⟩ := split_zeroRuns [0, 0, 1, 0, 2, 0, 0] 2
  have hsplit : split [0, 0, 1, 0, 2, 0, 0] 2 = ⟨[⟨2, 3⟩], 4⟩ := by decide
  exact ⟨hsplit, houtside, hsearch.trans hsplit⟩

end WasmBinary
