import Mathlib.Data.Finset.Card
import Mathlib.Order.Interval.Finset.Nat
import WasmBinary.Split

/-!
# Chunks and the runs of zeros between them

`split` leaves out just the long runs: a position lies outside all chunks exactly if it belongs to a
maximal run of at least so many zeros.

* `Bytes.InLongRun`: positions in maximal runs of zeros.
* `Chunk.laid_scan`: where the chunks of a scan lie, by induction on the bytes.
* `Chunk.outside_scan_iff`: what a scan leaves out.
* `laid_split`, `outside_split_iff`, `stripped_eq_card`: the same for a split.
-/
namespace WasmBinary

namespace Bytes

/-- All bytes from `start` up to `stop` are zero. -/
def Zeros (data : Bytes) (start stop : Nat) : Prop :=
  ∀ i, start ≤ i → i < stop → data[i]? = some 0

/-- The bytes from `start` up to `stop` are zeros, and there are none next to them. -/
structure IsZeroRun (data : Bytes) (start stop : Nat) : Prop where
  zeros : Zeros data start stop
  before : ∀ i, i + 1 = start → data[i]? ≠ some 0
  behind : data[stop]? ≠ some 0

/-- Position `i` belongs to a maximal run of at least `z` zeros. -/
def InLongRun (z : Nat) (data : Bytes) (i : Nat) : Prop :=
  ∃ start stop, IsZeroRun data start stop ∧ start ≤ i ∧ i < stop ∧ start + z ≤ stop

theorem zeros_cons_iff {b : UInt8} {rest : Bytes} {n : Nat} :
    Zeros (b :: rest) 0 (n + 1) ↔ b = 0 ∧ Zeros rest 0 n := by
  constructor
  · intro h
    refine ⟨by simpa using h 0 (Nat.le_refl 0) (Nat.succ_pos n), fun i _ hi => ?_⟩
    simpa using h (i + 1) (Nat.zero_le _) (Nat.succ_lt_succ hi)
  · rintro ⟨rfl, h⟩ i - hi
    cases i with
    | zero => rfl
    | succ i => simpa using h i (Nat.zero_le i) (Nat.lt_of_succ_lt_succ hi)

theorem zeros_cons_pos_iff {b : UInt8} {rest : Bytes} {n : Nat} (hn : 0 < n) :
    Zeros (b :: rest) 0 n ↔ b = 0 ∧ Zeros rest 0 (n - 1) := by
  obtain ⟨n, rfl⟩ := Nat.exists_eq_succ_of_ne_zero (Nat.ne_of_gt hn)
  exact zeros_cons_iff

theorem zeros_cons_succ_iff {b : UInt8} {rest : Bytes} {start n : Nat} :
    Zeros (b :: rest) (start + 1) (n + 1) ↔ Zeros rest start n := by
  constructor
  · intro h i hle hlt
    simpa using h (i + 1) (Nat.succ_le_succ hle) (Nat.succ_lt_succ hlt)
  · intro h i hle hlt
    cases i with
    | zero => omega
    | succ i => simpa using h i (Nat.le_of_succ_le_succ hle) (Nat.lt_of_succ_lt_succ hlt)

/-- Zeros can be extended on both sides until there are no more. -/
theorem Zeros.exists_isZeroRun {data : Bytes} {a b : Nat} (h : Zeros data a b) :
    ∃ start stop, IsZeroRun data start stop ∧ start ≤ a ∧ b ≤ stop := by
  have hstart : ∃ start, start ≤ a ∧ Zeros data start b := ⟨a, Nat.le_refl a, h⟩
  have hstop : ∃ stop, b ≤ stop ∧ data[stop]? ≠ some 0 :=
    ⟨max b data.length, Nat.le_max_left .., by simp⟩
  classical
  obtain ⟨hle, hzeros⟩ := Nat.find_spec hstart
  obtain ⟨hb, hbehind⟩ := Nat.find_spec hstop
  refine ⟨Nat.find hstart, Nat.find hstop, ⟨fun i hi hlt => ?_, fun i hi hzero => ?_, hbehind⟩, hle,
    hb⟩
  · by_cases hib : i < b
    · exact hzeros i hi hib
    · by_contra hne
      exact Nat.find_min hstop hlt ⟨Nat.le_of_not_lt hib, hne⟩
  · refine Nat.find_min hstart (show i < Nat.find hstart by omega) ⟨by omega, fun j hj hlt => ?_⟩
    rcases Nat.eq_or_lt_of_le hj with rfl | hj
    · exact hzero
    · exact hzeros j (by omega) hlt

end Bytes

open Bytes (Zeros InLongRun)

namespace Chunk

/-- Whether a position lies in a chunk. -/
def Contains (c : Chunk) (i : Nat) : Prop := c.index ≤ i ∧ i < c.index + c.size

instance (c : Chunk) (i : Nat) : Decidable (c.Contains i) := instDecidableAnd

theorem startsRun_iff (z : Nat) (data : Bytes) : startsRun z data = true ↔ Zeros data 0 z := by
  induction z generalizing data with
  | zero => simp [startsRun, Zeros]
  | succ z ih =>
    cases data with
    | nil =>
      refine iff_of_false (by simp [startsRun]) fun h => ?_
      exact absurd (h 0 (Nat.le_refl 0) (Nat.succ_pos z)) (by simp)
    | cons b rest => rw [startsRun, Bool.and_eq_true, beq_iff_eq, ih, Bytes.zeros_cons_iff]

/-! ## Where chunks lie -/

/-- Chunks from `lo` up to `hi`, in ascending order and with at least `z` bytes between them. -/
structure Laid (z lo hi : Nat) (chunks : List Chunk) : Prop where
  le_index : ∀ c ∈ chunks, lo ≤ c.index
  end_le : ∀ c ∈ chunks, c.index + c.size ≤ hi
  apart : chunks.Pairwise fun c d => c.index + c.size + z ≤ d.index

theorem Laid.nil (z lo hi : Nat) : Laid z lo hi [] := ⟨by simp, by simp, .nil⟩

theorem Laid.cons {z lo hi : Nat} {c : Chunk} {chunks : List Chunk} (hlo : lo ≤ c.index)
    (hhi : c.index + c.size ≤ hi) (h : Laid z (c.index + c.size + z) hi chunks) :
    Laid z lo hi (c :: chunks) := by
  refine ⟨fun d hd => ?_, fun d hd => ?_, List.pairwise_cons.mpr ⟨h.le_index, h.apart⟩⟩
  · rcases List.mem_cons.mp hd with rfl | hd
    · exact hlo
    · have := h.le_index d hd
      omega
  · rcases List.mem_cons.mp hd with rfl | hd
    · exact hhi
    · exact h.end_le d hd

theorem Laid.mono {z lo lo' hi hi' : Nat} {chunks : List Chunk} (h : Laid z lo hi chunks)
    (hlo : lo' ≤ lo) (hhi : hi ≤ hi') : Laid z lo' hi' chunks :=
  ⟨fun c hc => Nat.le_trans hlo (h.le_index c hc), fun c hc => Nat.le_trans (h.end_le c hc) hhi,
    h.apart⟩

/-- An open chunk begins where it was opened. Where none is open, the next one begins behind all
zeros that come first. -/
theorem laid_scan {z : Nat} (hz : 0 < z) (index : Nat) (start : Option Nat) (data : Bytes)
    (hstart : ∀ s, start = some s → s ≤ index) (n : Nat) (hzeros : start = none → Zeros data 0 n) :
    Laid z (start.getD (index + n)) (index + data.length) (scan z index start data) := by
  fun_induction scan z index start data generalizing n with
  | case1 => exact .nil ..
  | case2 index s =>
    have := hstart s rfl
    exact .cons (Nat.le_refl s) (by simp; omega) (.nil ..)
  | case3 index rest ih =>
    rw [List.length_cons]
    cases n with
    | zero =>
      have h := ih (by simp) 0 fun _ i _ hi => absurd hi (Nat.not_lt_zero i)
      exact h.mono (Nat.le_succ index) (by omega)
    | succ n =>
      have h := ih (by simp) n fun _ => (Bytes.zeros_cons_iff.mp (hzeros rfl)).2
      exact h.mono (by simp; omega) (by omega)
  | case4 index b rest hb ih =>
    rw [List.length_cons]
    have hn : n = 0 := by
      cases n with
      | zero => rfl
      | succ n => exact absurd (Bytes.zeros_cons_iff.mp (hzeros rfl)).1 hb
    have h := ih (by simp) 0 (by simp)
    exact h.mono (by simp [hn]) (by omega)
  | case5 index s b rest hrun ih =>
    have hs := hstart s rfl
    have hrest := ((Bytes.zeros_cons_pos_iff hz).mp ((startsRun_iff z _).mp hrun)).2
    have h := ih (by simp) (z - 1) fun _ => hrest
    rw [List.length_cons]
    exact .cons (Nat.le_refl s) (by simp; omega) (h.mono (by simp; omega) (by omega))
  | case6 index s b rest hrun ih =>
    have h := ih (fun s' hs' => Nat.le_succ_of_le (hstart s' hs')) 0 (by simp)
    rw [List.length_cons]
    exact h.mono (Nat.le_refl s) (by omega)

theorem pos_of_mem_scan {z index : Nat} {start : Option Nat} {data : Bytes} {c : Chunk}
    (hstart : ∀ s, start = some s → s < index) (hc : c ∈ scan z index start data) : 0 < c.size := by
  fun_induction scan z index start data with
  | case1 => cases hc
  | case2 index s =>
    have := hstart s rfl
    rw [List.mem_singleton] at hc
    subst hc
    simp
    omega
  | case3 index rest ih => exact ih (by simp) hc
  | case4 index b rest hb ih => exact ih (by simp) hc
  | case5 index s b rest hrun ih =>
    rcases List.mem_cons.mp hc with rfl | hc
    · have := hstart s rfl
      simp
      omega
    · exact ih (by simp) hc
  | case6 index s b rest hrun ih => exact ih (fun s' h => Nat.lt_succ_of_lt (hstart s' h)) hc

/-! ## What is left out -/

/-- The open chunk reaches at least up to here. -/
theorem exists_open_chunk (z s : Nat) (data : Bytes) :
    ∀ index, s ≤ index → ∃ c ∈ scan z index (some s) data, c.index = s ∧ index ≤ s + c.size := by
  induction data with
  | nil => exact fun index hs => ⟨⟨s, index - s⟩, by simp [scan], rfl, by simp; omega⟩
  | cons b rest ih =>
    intro index hs
    rw [scan]
    split
    · exact ⟨⟨s, index - s⟩, List.mem_cons_self, rfl, by simp; omega⟩
    · obtain ⟨c, hc, hindex, hend⟩ := ih (index + 1) (Nat.le_succ_of_le hs)
      exact ⟨c, hc, hindex, Nat.le_of_succ_le hend⟩

theorem not_contains_of_scan_none {z : Nat} (hz : 0 < z) (index : Nat) (data : Bytes) :
    ∀ c ∈ scan z (index + 1) none data, ¬c.Contains index := by
  intro c hc hcontains
  have hlaid := laid_scan hz (index + 1) none data (by simp) 0
    fun _ i _ hi => absurd hi (Nat.not_lt_zero i)
  exact absurd (Nat.le_trans (hlaid.le_index c hc) hcontains.1) (Nat.not_succ_le_self index)

/-- Some `z` zeros begin at or in front of position `j`, with nothing but zeros from there on. -/
def BehindRun (z : Nat) (data : Bytes) (j : Nat) : Prop :=
  ∃ a ≤ j, Zeros data a (a + z) ∧ Zeros data a (j + 1)

theorem behindRun_zero_iff {z : Nat} (hz : 0 < z) (data : Bytes) :
    BehindRun z data 0 ↔ Zeros data 0 z := by
  constructor
  · rintro ⟨a, ha, hrun, -⟩
    obtain rfl := Nat.le_zero.mp ha
    rwa [Nat.zero_add] at hrun
  · intro hrun
    exact ⟨0, Nat.le_refl 0, by rwa [Nat.zero_add], fun i hi hlt => hrun i hi (by omega)⟩

theorem behindRun_cons_succ_iff {z : Nat} {b : UInt8} {rest : Bytes} {j : Nat} :
    BehindRun z (b :: rest) (j + 1) ↔
      (Zeros (b :: rest) 0 z ∧ Zeros (b :: rest) 0 (j + 2)) ∨ BehindRun z rest j := by
  constructor
  · rintro ⟨a, ha, hrun, hzeros⟩
    cases a with
    | zero => exact .inl ⟨by rwa [Nat.zero_add] at hrun, hzeros⟩
    | succ a =>
      rw [Nat.add_right_comm, Bytes.zeros_cons_succ_iff] at hrun
      exact .inr ⟨a, Nat.le_of_succ_le_succ ha, hrun, Bytes.zeros_cons_succ_iff.mp hzeros⟩
  · rintro (⟨hrun, hzeros⟩ | ⟨a, ha, hrun, hzeros⟩)
    · exact ⟨0, Nat.zero_le _, by rwa [Nat.zero_add], hzeros⟩
    · refine ⟨a + 1, Nat.succ_le_succ ha, ?_, Bytes.zeros_cons_succ_iff.mpr hzeros⟩
      rw [Nat.add_right_comm]
      exact Bytes.zeros_cons_succ_iff.mpr hrun

/-- A scan leaves out the zeros that a run in front of it goes on with, and those behind a run of
its own. -/
theorem outside_scan_iff {z : Nat} (hz : 0 < z) (index : Nat) (start : Option Nat) (data : Bytes)
    (hstart : ∀ s, start = some s → s ≤ index) (j : Nat) (hj : j < data.length) :
    (∀ c ∈ scan z index start data, ¬c.Contains (index + j)) ↔
      (start = none ∧ Zeros data 0 (j + 1)) ∨ BehindRun z data j := by
  fun_induction scan z index start data generalizing j with
  | case1 => exact absurd hj (Nat.not_lt_zero j)
  | case2 index s => exact absurd hj (Nat.not_lt_zero j)
  | case3 index rest ih =>
    cases j with
    | zero =>
      have hzeros : Zeros (0 :: rest) 0 1 :=
        Bytes.zeros_cons_iff.mpr ⟨rfl, fun i _ hi => absurd hi (Nat.not_lt_zero i)⟩
      exact iff_of_true (not_contains_of_scan_none hz index rest) (.inl ⟨rfl, hzeros⟩)
    | succ j =>
      have hrest := ih (by simp) j (Nat.lt_of_succ_lt_succ hj)
      rw [Nat.add_right_comm] at hrest
      rw [← Nat.add_assoc, hrest, behindRun_cons_succ_iff, Bytes.zeros_cons_iff]
      tauto
  | case4 index b rest hb ih =>
    have hnot {n : Nat} : ¬Zeros (b :: rest) 0 (n + 1) := fun h => hb (Bytes.zeros_cons_iff.mp h).1
    have hnorun : ¬Zeros (b :: rest) 0 z := fun h => hb ((Bytes.zeros_cons_pos_iff hz).mp h).1
    cases j with
    | zero =>
      obtain ⟨c, hc, hindex, hend⟩ := exists_open_chunk z index rest (index + 1) (Nat.le_succ index)
      rw [behindRun_zero_iff hz]
      refine iff_of_false (fun h => h c hc ⟨by omega, by omega⟩) ?_
      rintro (⟨-, h⟩ | h)
      · exact hnot h
      · exact hnorun h
    | succ j =>
      have hrest := ih (by simp) j (Nat.lt_of_succ_lt_succ hj)
      rw [Nat.add_right_comm] at hrest
      rw [← Nat.add_assoc, hrest, behindRun_cons_succ_iff]
      simp [hnot, hnorun]
  | case5 index s b rest hrun ih =>
    rw [startsRun_iff] at hrun
    have hs := hstart s rfl
    have hfirst (n : Nat) : ¬(⟨s, index - s⟩ : Chunk).Contains (index + n) := by
      rintro ⟨-, hlt⟩
      simp only at hlt
      omega
    rw [List.forall_mem_cons, and_iff_right (hfirst j)]
    cases j with
    | zero =>
      rw [behindRun_zero_iff hz]
      exact iff_of_true (not_contains_of_scan_none hz index rest) (.inr hrun)
    | succ j =>
      obtain rfl : b = 0 := ((Bytes.zeros_cons_pos_iff hz).mp hrun).1
      have hrest := ih (by simp) j (Nat.lt_of_succ_lt_succ hj)
      rw [Nat.add_right_comm] at hrest
      rw [← Nat.add_assoc, hrest, behindRun_cons_succ_iff, Bytes.zeros_cons_iff]
      simp [hrun]
  | case6 index s b rest hrun ih =>
    rw [startsRun_iff] at hrun
    have hs := hstart s rfl
    cases j with
    | zero =>
      obtain ⟨c, hc, hindex, hend⟩ := exists_open_chunk z s rest (index + 1) (Nat.le_succ_of_le hs)
      rw [behindRun_zero_iff hz]
      refine iff_of_false (fun h => h c hc ⟨by omega, by omega⟩) ?_
      simp [hrun]
    | succ j =>
      have hrest := ih (fun s' h => Nat.le_succ_of_le (hstart s' h)) j (Nat.lt_of_succ_lt_succ hj)
      rw [Nat.add_right_comm] at hrest
      rw [← Nat.add_assoc, hrest, behindRun_cons_succ_iff]
      simp [hrun]

/-- To be behind a run without a byte in between is to be in a maximal one of the same length. -/
theorem behindRun_iff {z : Nat} {data : Bytes} {j : Nat} :
    BehindRun z data j ↔ InLongRun z data j := by
  constructor
  · rintro ⟨a, ha, hrun, hzeros⟩
    have hboth : Zeros data a (max (a + z) (j + 1)) := by
      intro i hi hlt
      rcases Nat.lt_or_ge i (a + z) with hi' | hi'
      · exact hrun i hi hi'
      · exact hzeros i hi (by omega)
    obtain ⟨start, stop, hmaximal, hstart, hstop⟩ := hboth.exists_isZeroRun
    exact ⟨start, stop, hmaximal, by omega, by omega, by omega⟩
  · rintro ⟨start, stop, hmaximal, hstart, hstop, hlong⟩
    exact ⟨start, hstart, fun i hi hlt => hmaximal.zeros i hi (by omega),
      fun i hi hlt => hmaximal.zeros i hi (by omega)⟩

/-! ## Counting -/

/-- Chunks that do not overlap cover as many positions as they have bytes. -/
theorem Laid.card_covered {z lo hi : Nat} {chunks : List Chunk} (h : Laid z lo hi chunks) :
    ((Finset.range hi).filter fun i => ∃ c ∈ chunks, c.Contains i).card = total chunks := by
  induction chunks with
  | nil => simp [total]
  | cons c rest ih =>
    obtain ⟨hbehind, hapart⟩ := List.pairwise_cons.mp h.apart
    have hrest : Laid z lo hi rest :=
      ⟨fun d hd => h.le_index d (.tail c hd), fun d hd => h.end_le d (.tail c hd), hapart⟩
    have hend := h.end_le c (.head rest)
    have hsplit : ((Finset.range hi).filter fun i => ∃ d ∈ c :: rest, d.Contains i) =
        Finset.Ico c.index (c.index + c.size) ∪
          (Finset.range hi).filter fun i => ∃ d ∈ rest, d.Contains i := by
      ext i
      simp only [Finset.mem_filter, Finset.mem_range, Finset.mem_union, Finset.mem_Ico,
        List.exists_mem_cons_iff]
      constructor
      · rintro ⟨hi, hc | hd⟩
        · exact .inl hc
        · exact .inr ⟨hi, hd⟩
      · rintro (hc | ⟨hi, hd⟩)
        · exact ⟨Nat.lt_of_lt_of_le hc.2 hend, .inl hc⟩
        · exact ⟨hi, .inr hd⟩
    have hdisjoint : Disjoint (Finset.Ico c.index (c.index + c.size))
        ((Finset.range hi).filter fun i => ∃ d ∈ rest, d.Contains i) := by
      rw [Finset.disjoint_left]
      intro i hi hmem
      obtain ⟨d, hd, hcontains⟩ := (Finset.mem_filter.mp hmem).2
      have := hbehind d hd
      have := (Finset.mem_Ico.mp hi).2
      have := hcontains.1
      omega
    rw [hsplit, Finset.card_union_of_disjoint hdisjoint, Nat.card_Ico, ih hrest, total]
    omega

end Chunk

/-! ## Splitting -/

open Chunk

/-- The chunk that is open where a split begins: none if a long run comes first. -/
def firstStart (z : Nat) (data : Bytes) : Option Nat := if startsRun z data then none else some 0

theorem le_of_firstStart {z s : Nat} {data : Bytes} (h : firstStart z data = some s) : s ≤ 0 := by
  unfold firstStart at h
  split at h <;> simp_all

theorem chunks_split (data : Bytes) (zeroRun : Nat) : (split data zeroRun).chunks =
    scan (max zeroRun 1) 0 (firstStart (max zeroRun 1) data) data := rfl

theorem laid_split (data : Bytes) (zeroRun : Nat) :
    Laid (max zeroRun 1) 0 data.length (split data zeroRun).chunks := by
  have h := laid_scan (Nat.le_max_right zeroRun 1) 0 (firstStart (max zeroRun 1) data) data
    (fun _ => le_of_firstStart) 0 fun _ i _ hi => absurd hi (Nat.not_lt_zero i)
  exact h.mono (Nat.zero_le _) (Nat.le_of_eq (Nat.zero_add _))

theorem outside_split_iff (data : Bytes) (zeroRun : Nat) {i : Nat} (hi : i < data.length) :
    (∀ c ∈ (split data zeroRun).chunks, ¬c.Contains i) ↔ InLongRun (max zeroRun 1) data i := by
  have h := outside_scan_iff (Nat.le_max_right zeroRun 1) 0 (firstStart (max zeroRun 1) data) data
    (fun _ => le_of_firstStart) i hi
  rw [Nat.zero_add] at h
  rw [chunks_split, h, behindRun_iff]
  constructor
  · rintro (⟨hnone, hzeros⟩ | hlong)
    · have hrun : startsRun (max zeroRun 1) data = true := by
        by_contra hne
        simp [firstStart, hne] at hnone
      rw [startsRun_iff] at hrun
      exact behindRun_iff.mp ⟨0, Nat.zero_le i, by rwa [Nat.zero_add], hzeros⟩
    · exact hlong
  · exact .inr

theorem split_nil (zeroRun : Nat) : (split [] zeroRun).chunks = [⟨0, 0⟩] := by
  have hrun : startsRun (max zeroRun 1) [] = false := by
    rw [show max zeroRun 1 = max zeroRun 1 - 1 + 1 by omega, startsRun]
  rw [chunks_split, firstStart, hrun]
  rfl

theorem pos_of_mem_split {data : Bytes} (hdata : data ≠ []) {zeroRun : Nat} {c : Chunk}
    (hc : c ∈ (split data zeroRun).chunks) : 0 < c.size := by
  obtain ⟨b, rest, rfl⟩ := List.exists_cons_of_ne_nil hdata
  rw [chunks_split, firstStart] at hc
  by_cases hrun : startsRun (max zeroRun 1) (b :: rest) = true
  · rw [if_pos hrun] at hc
    exact pos_of_mem_scan (by simp) hc
  · rw [if_neg hrun, scan, if_neg hrun] at hc
    exact pos_of_mem_scan (by simp) hc

/-- No byte is counted twice or forgotten. -/
theorem stripped_add_total (data : Bytes) (zeroRun : Nat) :
    (split data zeroRun).stripped + total (split data zeroRun).chunks = data.length := by
  have hcard := (laid_split data zeroRun).card_covered
  have hle := Finset.card_filter_le (Finset.range data.length)
    fun i => ∃ c ∈ (split data zeroRun).chunks, c.Contains i
  rw [hcard, Finset.card_range] at hle
  exact Nat.sub_add_cancel hle

theorem stripped_eq_card (data : Bytes) (zeroRun : Nat) : (split data zeroRun).stripped =
    ((Finset.range data.length).filter fun i =>
      ∀ c ∈ (split data zeroRun).chunks, ¬c.Contains i).card := by
  have hcard := (laid_split data zeroRun).card_covered
  have hboth := Finset.card_filter_add_card_filter_not (s := Finset.range data.length)
    fun i => ∃ c ∈ (split data zeroRun).chunks, c.Contains i
  have hsum := stripped_add_total data zeroRun
  rw [hcard, Finset.card_range] at hboth
  simp only [not_exists, not_and] at hboth
  omega

end WasmBinary
