import Mathlib.Algebra.BigOperators.Ring.Finset
import Mathlib.Algebra.BigOperators.Intervals
import Mathlib.Data.Nat.Bitwise
import Mathlib.Tactic.Ring
import WasmBinary.Proofs.Leb128

/-!
# Reading numbers, whatever the input

What reading an unsigned number gives on every input, failures included: which of the four outcomes
it is depends on the place of the first byte that ends a number and on the number that the payloads
of the bytes up to there spell to the base 128.

* `unsignedGroups_append`: groups that others follow shift what is read behind them. From it come
  the cases `unsigned_tooLong`, `unsigned_endOfInput` and `unsigned_append_last`.
* `unsigned_eq`: the four outcomes in one equation.
* `unsignedInto_eq`: a loop that collects the groups in a word of 64 bits reads the same.
* `unsigned_outcome`: all of this together.
-/
namespace WasmBinary

namespace Leb128

/-! ## What bytes spell -/

theorem spelled_append (bs cs : Bytes) :
    spelled (bs ++ cs) = spelled bs + 128 ^ bs.length * spelled cs := by
  induction bs with
  | nil => simp [spelled]
  | cons b bs ih =>
    rw [List.cons_append, spelled, spelled, ih, List.length_cons, Nat.pow_succ']
    ring

theorem spelled_lt (bs : Bytes) : spelled bs < 128 ^ bs.length := by
  induction bs with
  | nil => simp [spelled]
  | cons b bs ih =>
    have hmod := Nat.mod_lt b.toNat (show 0 < 128 by decide)
    rw [spelled, List.length_cons, Nat.pow_succ']
    omega

/-- The payloads are the digits of the number to the base 128. -/
theorem spelled_eq_sum (bs : Bytes) :
    spelled bs = ∑ i ∈ Finset.range bs.length, (bs.getD i 0).toNat % 128 * 128 ^ i := by
  induction bs with
  | nil => rfl
  | cons b bs ih =>
    rw [List.length_cons, Finset.sum_range_succ', spelled, ih, Finset.mul_sum, Nat.add_comm]
    congr 1
    · refine Finset.sum_congr rfl fun i _ => ?_
      rw [List.getD_cons_succ, Nat.pow_succ', Nat.mul_left_comm]
    · simp

/-! ## Groups in front -/

variable {front : Bytes}

/-- Groups that others follow only shift what is read behind them. -/
theorem unsignedGroups_append (bits groups : Nat) (h : ∀ b ∈ front, 0x80 ≤ b) :
    ∀ (width p : Nat) (s : Bytes),
      unsignedGroups bits (groups + front.length) width ⟨p, front ++ s⟩ =
        ((spelled front + 128 ^ front.length * ·) <$>
          unsignedGroups bits groups (width - 7 * front.length)) ⟨p + front.length, s⟩ := by
  induction front with
  | nil =>
    intro width p s
    have hid : (spelled [] + 128 ^ ([] : Bytes).length * · : Nat → Nat) = id := by
      funext v
      simp [spelled]
    rw [hid, id_map]
    rfl
  | cons b front ih =>
    intro width p s
    obtain ⟨hb, hfront⟩ := List.forall_mem_cons.mp h
    have hbyte : (Decoder.byte.mapError fun _ => UnsignedError.endOfInput) ⟨p, b :: (front ++ s)⟩ =
        .ok b ⟨p + 1, front ++ s⟩ := rfl
    have hwidth : width - 7 * (front.length + 1) = width - 7 - 7 * front.length := by omega
    have hposition : p + (front.length + 1) = p + 1 + front.length := by omega
    have hshift : (spelled (b :: front) + 128 ^ (front.length + 1) * · : Nat → Nat) =
        (b.toNat % 128 + 128 * ·) ∘ (spelled front + 128 ^ front.length * ·) := by
      funext v
      simp only [spelled, Nat.pow_succ', Function.comp_apply]
      ring
    rw [List.cons_append, List.length_cons, ← Nat.add_assoc, unsignedGroups,
      Decoder.bind_of_ok hbyte, if_neg (UInt8.not_lt.mpr hb), hwidth, hposition, hshift, comp_map]
    exact Decoder.map_apply_congr _ (ih hfront _ _ _)

/-- With all groups used up, the number is too long. -/
theorem unsigned_tooLong {bits : Nat} (h : ∀ b ∈ front, 0x80 ≤ b)
    (hlength : front.length = groupCount bits) (p : Nat) (s : Bytes) :
    unsigned bits ⟨p, front ++ s⟩ = .error (.tooLong bits) ⟨p + front.length, s⟩ := by
  have happend := unsignedGroups_append bits 0 h bits p s
  rw [Nat.zero_add, hlength] at happend
  rw [unsigned, happend, hlength]
  exact Decoder.map_of_error _ rfl

theorem unsigned_endOfInput {bits : Nat} (h : ∀ b ∈ front, 0x80 ≤ b)
    (hlength : front.length < groupCount bits) (p : Nat) :
    unsigned bits ⟨p, front⟩ = .error .endOfInput ⟨p + front.length, []⟩ := by
  obtain ⟨groups, hgroups⟩ : ∃ groups, groupCount bits = groups + 1 + front.length :=
    ⟨groupCount bits - front.length - 1, by omega⟩
  have happend := unsignedGroups_append bits (groups + 1) h bits p []
  rw [List.append_nil] at happend
  rw [unsigned, hgroups, happend]
  exact Decoder.map_of_error _ rfl

/-- The last group decides by the number that all groups spell. -/
theorem unsigned_append_last {bits : Nat} (h : ∀ b ∈ front, 0x80 ≤ b) {b : UInt8} (hb : b < 0x80)
    (hlength : front.length < groupCount bits) (p : Nat) (s : Bytes) :
    unsigned bits ⟨p, front ++ b :: s⟩ =
      if spelled (front ++ [b]) < 2 ^ bits then
        .ok (spelled (front ++ [b])) ⟨p + (front.length + 1), s⟩
      else .error (.tooLarge bits) ⟨p + (front.length + 1), s⟩ := by
  obtain ⟨groups, hgroups⟩ : ∃ groups, groupCount bits = groups + 1 + front.length :=
    ⟨groupCount bits - front.length - 1, by omega⟩
  have hwidth : groups + 1 = (bits - 7 * front.length + 6) / 7 := by
    rw [groupCount] at hgroups
    omega
  have hmod := Nat.mod_lt b.toNat (show 0 < 128 by decide)
  have hspelled : spelled (front ++ [b]) =
      spelled front + 128 ^ front.length * (b.toNat % 128) := by
    rw [spelled_append]
    simp [spelled]
  have hfits : spelled (front ++ [b]) < 2 ^ bits ↔
      b.toNat % 128 < 2 ^ (bits - 7 * front.length) := by
    have hlt := spelled_lt front
    have hpow : 2 ^ bits = 128 ^ front.length * 2 ^ (bits - 7 * front.length) := by
      rw [show 128 = 2 ^ 7 by rfl, ← Nat.pow_mul, ← Nat.pow_add]
      congr 1
      rw [groupCount] at hgroups
      omega
    have hpos : 0 < 128 ^ front.length := Nat.pow_pos (by decide)
    rw [hspelled, hpow, Nat.mul_comm _ (2 ^ _), ← Nat.div_lt_iff_lt_mul hpos,
      Nat.add_mul_div_left _ _ hpos, Nat.div_eq_of_lt hlt, Nat.zero_add]
  rw [unsigned, hgroups, unsignedGroups_append bits (groups + 1) h]
  rw [← payload_fits_iff hwidth hmod] at hfits
  have hbyte : (Decoder.byte.mapError fun _ => UnsignedError.endOfInput)
      ⟨p + front.length, b :: s⟩ = .ok b ⟨p + front.length + 1, s⟩ := rfl
  by_cases hlt : spelled (front ++ [b]) < 2 ^ bits
  · rw [if_pos hlt, hspelled]
    refine Decoder.map_of_ok _ ?_
    rw [unsignedGroups, Decoder.bind_of_ok hbyte, if_pos hb, if_neg (hfits.mp hlt)]
    rfl
  · rw [if_neg hlt]
    refine Decoder.map_of_error _ ?_
    rw [unsignedGroups, Decoder.bind_of_ok hbyte, if_pos hb, if_pos (not_not.mp (mt hfits.mpr hlt))]
    rfl

/-! ## Reading into a word -/

/-- Reads group `i` of a number and those behind it into a word that has the groups in front. -/
def unsignedInto (bits : Nat) : (groups i : Nat) → (word : UInt64) → Decoder UnsignedError UInt64
  | 0, _, _ => throw (.tooLong bits)
  | groups + 1, i, word => do
    let byte ← Decoder.byte.mapError fun _ => .endOfInput
    let payload := byte &&& 0x7F
    let word := word ||| payload.toUInt64 <<< UInt64.ofNat (7 * i)
    if byte &&& 0x80 = 0 then
      if groups = 0 ∧ payload >>> UInt8.ofNat (bits - 7 * i) ≠ 0 then throw (.tooLarge bits)
      else return word
    else unsignedInto bits groups (i + 1) word

theorem toNat_and_127 (b : UInt8) : (b &&& 0x7F).toNat = b.toNat % 128 := by
  rw [UInt8.toNat_and]
  exact Nat.and_two_pow_sub_one_eq_mod b.toNat 7

/-- A bit of a number is set if its place has an odd digit. -/
theorem and_two_pow_eq_zero_iff (n k : Nat) : n &&& 2 ^ k = 0 ↔ n / 2 ^ k % 2 = 0 := by
  rw [Nat.and_two_pow, Nat.testBit_eq_decide_div_mod_eq]
  have hpos := Nat.two_pow_pos k
  by_cases hodd : n / 2 ^ k % 2 = 1
  · simp [hodd]
  · have heven : n / 2 ^ k % 2 = 0 := by omega
    simp [heven]

theorem and_128_eq_zero_iff (b : UInt8) : b &&& 0x80 = 0 ↔ b < 0x80 := by
  have hlt := b.toNat_lt
  rw [UInt8.lt_iff_toNat_lt, ← UInt8.toNat_inj, UInt8.toNat_and]
  refine (and_two_pow_eq_zero_iff b.toNat 7).trans ?_
  have : (0x80 : UInt8).toNat = 128 := rfl
  omega

/-- A group that fits into the number is added at its place in the word. -/
theorem toNat_or_shiftLeft {bits i : Nat} (hbits : bits ≤ 64) (hi : 7 * i < bits) {word : UInt64}
    (hword : word.toNat < 128 ^ i) {b : UInt8} (hfits : b.toNat % 128 < 2 ^ (bits - 7 * i)) :
    (word ||| (b &&& 0x7F).toUInt64 <<< UInt64.ofNat (7 * i)).toNat =
      word.toNat + 128 ^ i * (b.toNat % 128) := by
  have hpow : 128 ^ i = 2 ^ (7 * i) := by rw [Nat.pow_mul]
  rw [hpow] at hword ⊢
  have hplace : 2 ^ (7 * i) * (b.toNat % 128) < 2 ^ 64 :=
    calc 2 ^ (7 * i) * (b.toNat % 128)
      _ < 2 ^ (7 * i) * 2 ^ (bits - 7 * i) :=
        Nat.mul_lt_mul_of_pos_left hfits (Nat.pow_pos (by decide))
      _ = 2 ^ bits := by rw [← Nat.pow_add, Nat.add_sub_cancel' hi.le]
      _ ≤ 2 ^ 64 := Nat.pow_le_pow_right (by decide) hbits
  have hshift : (UInt64.ofNat (7 * i)).toNat % 64 = 7 * i := by
    rw [UInt64.toNat_ofNat']
    omega
  rw [UInt64.toNat_or, UInt64.toNat_shiftLeft, UInt8.toNat_toUInt64, toNat_and_127, hshift,
    Nat.shiftLeft_eq, Nat.mul_comm, Nat.mod_eq_of_lt hplace, Nat.or_comm,
    ← Nat.two_pow_add_eq_or_of_lt hword, Nat.add_comm]

theorem leftover_eq_zero_iff (b : UInt8) {width : Nat} (h : width < 8) :
    (b &&& 0x7F) >>> UInt8.ofNat width = 0 ↔ (b.toNat % 128) >>> width = 0 := by
  have hwidth : (UInt8.ofNat width).toNat % 8 = width := by
    rw [UInt8.toNat_ofNat']
    omega
  rw [← UInt8.toNat_inj, UInt8.toNat_shiftRight, hwidth, toNat_and_127]
  rfl

/-- With the groups in front in the word, reading goes on as for the number alone. -/
theorem unsignedInto_eq {bits : Nat} (hbits : bits ≤ 64) (groups : Nat) :
    ∀ (i : Nat), groups = (bits - 7 * i + 6) / 7 → ∀ (word : UInt64), word.toNat < 128 ^ i →
      unsignedInto bits groups i word = (fun v => UInt64.ofNat (word.toNat + 128 ^ i * v)) <$>
        unsignedGroups bits groups (bits - 7 * i) := by
  induction groups with
  | zero => exact fun i _ word _ => rfl
  | succ groups ih =>
    intro i hg word hword
    rw [unsignedInto, unsignedGroups, map_bind]
    congr 1
    funext b
    have hmod := Nat.mod_lt b.toNat (show 0 < 128 by decide)
    -- Only in the last group can there be bits that the number has no place for.
    have hadd (h : ¬(groups = 0 ∧ (b.toNat % 128) >>> (bits - 7 * i) ≠ 0)) :=
      toNat_or_shiftLeft hbits (by omega) hword ((payload_fits_iff hg hmod).mp h)
    have hchecks : (groups = 0 ∧ (b &&& 0x7F) >>> UInt8.ofNat (bits - 7 * i) ≠ 0) ↔
        (groups = 0 ∧ (b.toNat % 128) >>> (bits - 7 * i) ≠ 0) :=
      and_congr_right fun h0 => not_congr (leftover_eq_zero_iff b (by omega))
    simp only [and_128_eq_zero_iff, hchecks]
    by_cases hb : b < 0x80
    · rw [if_pos hb, if_pos hb]
      by_cases hfails : groups = 0 ∧ (b.toNat % 128) >>> (bits - 7 * i) ≠ 0
      · rw [if_pos hfails, if_pos hfails]
        rfl
      · rw [if_neg hfails, if_neg hfails, map_pure, ← hadd hfails, UInt64.ofNat_toNat]
    · rw [if_neg hb, if_neg hb]
      by_cases h0 : groups = 0
      · subst h0
        rfl
      · have hnext := hadd fun h => h0 h.1
        have hwidth : bits - 7 * (i + 1) = bits - 7 * i - 7 := by omega
        rw [ih (i + 1) (by omega) _ ?_, hnext, hwidth, map_bind]
        · congr 1
          funext v
          simp only [Nat.pow_succ', Nat.mul_add, Nat.add_assoc, Nat.mul_assoc, Nat.mul_left_comm]
        · have hle := Nat.mul_le_mul_left (128 ^ i) (Nat.le_of_lt_succ hmod)
          rw [hnext, Nat.pow_succ']
          omega

/-! ## All inputs -/

/-- The number that the first `k` bytes and the one behind them spell. -/
theorem spelled_take_succ {s : Bytes} {k : Nat} (hk : k < s.length) :
    spelled (s.take k ++ [s[k]]) =
      ∑ i ∈ Finset.range (k + 1), (s.getD i 0).toNat % 128 * 128 ^ i := by
  have hlength : (s.take (k + 1)).length = k + 1 := by
    rw [List.length_take]
    omega
  rw [List.take_append_getElem hk, spelled_eq_sum, hlength]
  refine Finset.sum_congr rfl fun i hi => ?_
  rw [List.getD_eq_getElem?_getD, List.getD_eq_getElem?_getD,
    List.getElem?_take_of_lt (Finset.mem_range.mp hi)]

/-- The bytes in front of the first that ends a number all say that another one follows. -/
theorem le_of_mem_take {s : Bytes} {n : Nat} (hn : n ≤ s.findIdx (· < 0x80)) :
    ∀ b ∈ s.take n, 0x80 ≤ b := by
  intro b hb
  obtain ⟨i, hi, rfl⟩ := List.mem_take_iff_getElem.mp hb
  have hcontinued := List.not_of_lt_findIdx (show i < s.findIdx (· < 0x80) by omega)
  exact UInt8.not_lt.mp (by simpa using hcontinued)

/-- Reading ends in one of four ways. -/
theorem unsigned_eq (bits p : Nat) (s : Bytes) :
    let most := groupCount bits
    let k := s.findIdx (· < 0x80)
    let value := ∑ i ∈ Finset.range (k + 1), (s.getD i 0).toNat % 128 * 128 ^ i
    unsigned bits ⟨p, s⟩ =
      if most ≤ k then .error (.tooLong bits) ⟨p + most, s.drop most⟩
      else if k = s.length then .error .endOfInput ⟨p + k, []⟩
      else if value < 2 ^ bits then .ok value ⟨p + (k + 1), s.drop (k + 1)⟩
      else .error (.tooLarge bits) ⟨p + (k + 1), s.drop (k + 1)⟩ := by
  intro most k value
  have hle : k ≤ s.length := List.findIdx_le_length
  by_cases hlong : most ≤ k
  · have hlength : (s.take most).length = most := by
      rw [List.length_take]
      omega
    have h := unsigned_tooLong (le_of_mem_take hlong) hlength p (s.drop most)
    rw [List.take_append_drop, hlength] at h
    rw [if_pos hlong, h]
  · have hk : k < most := Nat.lt_of_not_le hlong
    have hlength : (s.take k).length = k := by
      rw [List.length_take]
      omega
    have hfront := le_of_mem_take (Nat.le_refl k)
    rw [if_neg hlong]
    by_cases hend : k = s.length
    · have h := unsigned_endOfInput hfront (hlength.trans_lt hk) p
      rw [hlength, List.take_of_length_le (Nat.le_of_eq hend.symm)] at h
      rw [if_pos hend, h]
    · have hks : k < s.length := by omega
      have hlast : decide (s[k] < 0x80) = true := List.findIdx_getElem (w := hks)
      have h := unsigned_append_last hfront (of_decide_eq_true hlast) (hlength.trans_lt hk) p
        (s.drop (k + 1))
      rw [← List.drop_eq_getElem_cons hks, List.take_append_drop, spelled_take_succ hks,
        hlength] at h
      rw [if_neg hend, h]

/-- What reading gives on every input. A number ends at the first byte that says so. It is good if
that is one of the first `most`, and the payloads up to there spell a number of the given width.
Reading into a word of 64 bits loses nothing, and a number of 32 bits fits into its type. -/
theorem unsigned_outcome {bits : Nat} (hbits : bits ≤ 64) (p : Nat) (s : Bytes) :
    let most := groupCount bits
    let k := s.findIdx (· < 0x80)
    let value := ∑ i ∈ Finset.range (k + 1), (s.getD i 0).toNat % 128 * 128 ^ i
    unsigned bits ⟨p, s⟩ =
      (if most ≤ k then .error (.tooLong bits) ⟨p + most, s.drop most⟩
      else if k = s.length then .error .endOfInput ⟨p + k, []⟩
      else if value < 2 ^ bits then .ok value ⟨p + (k + 1), s.drop (k + 1)⟩
      else .error (.tooLarge bits) ⟨p + (k + 1), s.drop (k + 1)⟩) ∧
    unsignedInto bits most 0 0 = UInt64.ofNat <$> unsigned bits ∧
    (∀ v c, unsigned bits ⟨p, s⟩ = .ok v c → (UInt64.ofNat v).toNat = v) ∧
    ∀ v c, unsigned 32 ⟨p, s⟩ = .ok v c → ∃ n : UInt32, n.toNat = v ∧ u32 ⟨p, s⟩ = .ok n c := by
  intro most k value
  refine ⟨unsigned_eq bits p s, ?_, fun v c h => ?_, fun v c h => ?_⟩
  · have h := unsignedInto_eq hbits most 0 (by simp [most, groupCount]) 0 (by simp)
    have hwhole : (fun v => UInt64.ofNat ((0 : UInt64).toNat + 128 ^ 0 * v)) = UInt64.ofNat := by
      funext v
      simp
    rw [hwhole] at h
    exact h
  · obtain ⟨bs, -, -, hform⟩ := (recognizes_unsigned bits).consumed h
    have hle : 2 ^ bits ≤ 2 ^ 64 := Nat.pow_le_pow_right (by decide) hbits
    exact UInt64.toNat_ofNat_of_lt' (Nat.lt_of_lt_of_le hform.lt hle)
  · obtain ⟨bs, -, -, hform⟩ := (recognizes_unsigned 32).consumed h
    exact ⟨UInt32.ofNat v, UInt32.toNat_ofNat_of_lt' hform.lt, Decoder.map_of_ok _ h⟩

/-- Ten bytes carry 70 bits. Of the last one a number of 64 bits has only the lowest. -/
theorem unsigned_outcome_tenBytes :
    64 ≤ 64 ∧ unsigned 64 ⟨0, List.replicate 9 0xFF ++ [0x01]⟩ = .ok (2 ^ 64 - 1) ⟨10, []⟩ ∧
      unsigned 64 ⟨0, List.replicate 9 0xFF ++ [0x02]⟩ = .error (.tooLarge 64) ⟨10, []⟩ := by
  obtain ⟨hlow, -⟩ := unsigned_outcome (Nat.le_refl 64) 0 (List.replicate 9 0xFF ++ [0x01])
  obtain ⟨hhigh, -⟩ := unsigned_outcome (Nat.le_refl 64) 0 (List.replicate 9 0xFF ++ [0x02])
  refine ⟨Nat.le_refl 64, ?_, ?_⟩
  · rw [hlow, if_neg (by decide), if_neg (by decide), if_pos (by decide)]
    congr 1
  · rw [hhigh, if_neg (by decide), if_neg (by decide), if_neg (by decide)]
    rfl

end Leb128

end WasmBinary
