import WasmBinary.Proofs.Numbers

/-!
# Reading integers, whatever the input

What reading a signed number gives on every input, failures included. The payloads are read as for a
natural number that uses up all the bits of its groups; where they end, the uppermost bit read is
the sign, and the width decides whether the integer is accepted.

* `signedGroups_eq`: reading an integer is reading its payloads and then judging what they spell.
  From it and the outcomes for natural numbers come the outcomes for integers, `signed_eq`.
* `signedInto_eq`: a loop that collects the groups in a signed word of 64 bits, and fills the bits
  above them with the sign, reads the same.
* `signed_outcome`: all of this together.
-/
namespace WasmBinary

namespace Leb128

/-! ## The sign of what bytes spell -/

theorem spelledSigned_eq_toInt {bs : Bytes} (h : 0 < bs.length) :
    spelledSigned bs = (BitVec.ofNat (7 * bs.length) (spelled bs)).toInt := by
  have hlt : spelled bs < 2 ^ (7 * bs.length) := by
    rw [Nat.pow_mul]
    exact spelled_lt bs
  have hpow : 2 ^ (7 * bs.length) = 2 * 2 ^ (7 * bs.length - 1) := by
    rw [← Nat.pow_succ']
    congr 1
    omega
  rw [BitVec.toInt_eq_toNat_cond, BitVec.toNat_ofNat, Nat.mod_eq_of_lt hlt, spelledSigned]
  by_cases hs : spelled bs < 2 ^ (7 * bs.length - 1)
  · rw [if_pos hs, if_pos (by omega)]
  · rw [if_neg hs, if_neg (by omega)]
    push_cast
    rfl

/-- The failures that do not depend on the sign. -/
def unjudged (bits : Nat) : UnsignedError → SignedError
  | .endOfInput => .endOfInput
  | _ => .tooLong bits

/-- What comes of an integer of `width` bits that starts at `p`, once its payloads are read. -/
def judged (bits width p : Nat) :
    EStateM.Result UnsignedError Cursor Nat → EStateM.Result SignedError Cursor Int
  | .ok n c =>
    let value := (BitVec.ofNat (7 * (c.position - p)) n).toInt
    if -2 ^ (width - 1) ≤ value ∧ value < 2 ^ (width - 1) then .ok value c
    else .error (.wrongSign bits) c
  | .error e c => .error (unjudged bits e) c

theorem judged_ok (bits width p : Nat) (bs : Bytes) (h : 0 < bs.length) (s : Bytes) :
    judged bits width p (.ok (spelled bs) ⟨p + bs.length, s⟩) =
      if -2 ^ (width - 1) ≤ spelledSigned bs ∧ spelledSigned bs < 2 ^ (width - 1) then
        .ok (spelledSigned bs) ⟨p + bs.length, s⟩
      else .error (.wrongSign bits) ⟨p + bs.length, s⟩ := by
  have hlength : p + bs.length - p = bs.length := by omega
  rw [spelledSigned_eq_toInt h]
  simp only [judged]
  rw [hlength]

/-- The width matters to a single group only if no other one was permitted behind it. -/
theorem judged_last (bits p : Nat) (b : UInt8) (s : Bytes) {groups width : Nat}
    (hg : groups + 1 = (width + 6) / 7) :
    judged bits width p (.ok (b.toNat % 128) ⟨p + 1, s⟩) =
      if groups = 0 ∧ signedPayload b >>> (width - 1) ≠ 0 ∧ signedPayload b >>> (width - 1) ≠ -1 then
        .error (.wrongSign bits) ⟨p + 1, s⟩
      else .ok (signedPayload b) ⟨p + 1, s⟩ := by
  have hjudged := judged_ok bits width p [b] Nat.zero_lt_one s
  have hspelled : spelled [b] = b.toNat % 128 := by simp [spelled]
  have hfits := sign_fits_iff hg (signedPayload_bounds b)
  rw [spelledSigned_singleton, hspelled] at hjudged
  refine hjudged.trans ?_
  by_cases hsign : -2 ^ (width - 1) ≤ signedPayload b ∧ signedPayload b < 2 ^ (width - 1)
  · rw [if_pos hsign, if_neg (hfits.mpr hsign)]
    rfl
  · rw [if_neg hsign, if_pos (not_not.mp (mt hfits.mp hsign))]
    rfl

/-- A group in front takes up seven bits of the width, and leaves the sign to those behind it. -/
theorem judged_cons (bits p : Nat) (b : UInt8) {bs : Bytes} (h : 0 < bs.length) (s : Bytes)
    {width : Nat} (hwidth : 7 < width) :
    judged bits width p (.ok (spelled (b :: bs)) ⟨p + 1 + bs.length, s⟩) =
      if -2 ^ (width - 7 - 1) ≤ spelledSigned bs ∧ spelledSigned bs < 2 ^ (width - 7 - 1) then
        .ok ((b.toNat % 128 : Nat) + 128 * spelledSigned bs) ⟨p + 1 + bs.length, s⟩
      else .error (.wrongSign bits) ⟨p + 1 + bs.length, s⟩ := by
  have hplace : p + 1 + bs.length = p + (b :: bs).length := by
    rw [List.length_cons]
    omega
  have hpow : (2 : Int) ^ (width - 1) = 128 * 2 ^ (width - 7 - 1) := by
    rw [show width - 1 = 7 + (width - 7 - 1) by omega, Int.pow_add]
    simp
  have hbounds : (-2 ^ (width - 1) ≤ spelledSigned (b :: bs) ∧
      spelledSigned (b :: bs) < 2 ^ (width - 1)) ↔
      -2 ^ (width - 7 - 1) ≤ spelledSigned bs ∧ spelledSigned bs < 2 ^ (width - 7 - 1) := by
    have hmod := Nat.mod_lt b.toNat (show 0 < 128 by decide)
    rw [spelledSigned_cons b h]
    omega
  rw [hplace, judged_ok bits width p (b :: bs) (Nat.succ_pos _) s, ← spelledSigned_cons b h]
  exact if_congr hbounds rfl rfl

/-- An integer is read by reading its payloads and judging what they spell. -/
theorem signedGroups_eq (bits label groups : Nat) :
    ∀ width, groups = (width + 6) / 7 → ∀ (p : Nat) (s : Bytes),
      signedGroups bits groups width ⟨p, s⟩ =
        judged bits width p (unsignedGroups label groups (7 * groups) ⟨p, s⟩) := by
  induction groups with
  | zero => exact fun width _ p s => rfl
  | succ groups ih =>
    intro width hg p s
    cases s with
    | nil => rfl
    | cons b s =>
      have hbyte {ε : Type} (e : ε) : (Decoder.byte.mapError fun _ => e) ⟨p, b :: s⟩ =
          .ok b ⟨p + 1, s⟩ := rfl
      rw [signedGroups, unsignedGroups, Decoder.bind_of_ok (hbyte _), Decoder.bind_of_ok (hbyte _)]
      by_cases hb : b < 0x80
      · -- All seven bits of a last group are payload.
        have hmod := Nat.mod_lt b.toNat (show 0 < 128 by decide)
        have hfits : ¬(groups = 0 ∧ (b.toNat % 128) >>> (7 * (groups + 1)) ≠ 0) := by
          rw [payload_fits_iff (by omega) hmod, Nat.pow_mul]
          exact Nat.lt_of_lt_of_le hmod (Nat.le_pow (Nat.succ_pos groups))
        rw [if_pos hb, if_pos hb, if_neg hfits]
        refine Eq.trans ?_ (judged_last bits p b s hg).symm
        split <;> rfl
      · rw [if_neg hb, if_neg hb, Nat.mul_succ, Nat.add_sub_cancel]
        have hih := ih (width - 7) (by omega) (p + 1) s
        cases hrest : unsignedGroups label groups (7 * groups) ⟨p + 1, s⟩ with
        | ok n c =>
          obtain ⟨bs, rest, rfl, rfl, hbs, hlen, rfl, -⟩ :=
            (recognizes_unsignedGroups label groups (7 * groups) (by omega) ..).mp hrest
          have hpos := hbs.length_pos
          rw [hrest, judged_ok bits (width - 7) (p + 1) _ hpos] at hih
          rw [Decoder.bind_of_ok hrest]
          refine Eq.trans ?_ (judged_cons bits p b hpos rest (by omega)).symm
          by_cases hsign : -2 ^ (width - 7 - 1) ≤ spelledSigned bs ∧
              spelledSigned bs < 2 ^ (width - 7 - 1)
          · rw [if_pos hsign] at hih
            rw [if_pos hsign, Decoder.bind_of_ok hih]
            rfl
          · rw [if_neg hsign] at hih
            rw [if_neg hsign]
            exact Decoder.map_of_error (_ + 128 * ·) hih
        | error e c =>
          have hmap : (unsignedGroups label groups (7 * groups) >>= fun n =>
              pure (b.toNat % 128 + 128 * n)) ⟨p + 1, s⟩ = .error e c :=
            Decoder.map_of_error (_ + 128 * ·) hrest
          rw [hrest] at hih
          rw [hmap]
          exact Decoder.map_of_error (_ + 128 * ·) hih

/-- Reading ends in one of four ways. -/
theorem signed_eq (bits p : Nat) (s : Bytes) :
    let most := groupCount bits
    let k := s.findIdx (· < 0x80)
    let payload := ∑ i ∈ Finset.range (k + 1), (s.getD i 0).toNat % 128 * 128 ^ i
    let value := (BitVec.ofNat (7 * (k + 1)) payload).toInt
    signed bits ⟨p, s⟩ =
      if most ≤ k then .error (.tooLong bits) ⟨p + most, s.drop most⟩
      else if k = s.length then .error .endOfInput ⟨p + k, []⟩
      else if -2 ^ (bits - 1) ≤ value ∧ value < 2 ^ (bits - 1) then
        .ok value ⟨p + (k + 1), s.drop (k + 1)⟩
      else .error (.wrongSign bits) ⟨p + (k + 1), s.drop (k + 1)⟩ := by
  intro most k payload value
  have hmost : groupCount (7 * most) = most := by
    rw [groupCount]
    omega
  have hread : signed bits ⟨p, s⟩ = judged bits bits p (unsigned (7 * most) ⟨p, s⟩) := by
    rw [unsigned, hmost]
    exact signedGroups_eq bits (7 * most) most bits rfl p s
  rw [hread, unsigned_eq, hmost]
  by_cases hlong : most ≤ k
  · rw [if_pos hlong, if_pos hlong]
    rfl
  · rw [if_neg hlong, if_neg hlong]
    by_cases hend : k = s.length
    · rw [if_pos hend, if_pos hend]
      rfl
    · have hk : k < s.length := Nat.lt_of_le_of_ne List.findIdx_le_length hend
      have hlt : payload < 2 ^ (7 * most) :=
        calc payload
          _ = spelled (s.take k ++ [s[k]]) := (spelled_take_succ hk).symm
          _ < 128 ^ (s.take k ++ [s[k]]).length := spelled_lt _
          _ ≤ 128 ^ most := Nat.pow_le_pow_right (by decide) (by simp; omega)
          _ = 2 ^ (7 * most) := by rw [Nat.pow_mul]
      have hlength : p + (k + 1) - p = k + 1 := by omega
      rw [if_neg hend, if_neg hend, if_pos hlt]
      simp only [judged]
      rw [hlength]

/-! ## Reading into a word -/

/-- A word that has the groups in front of group `i`, and group `i` in its place. -/
def withGroup (word : Int64) (i : Nat) (b : UInt8) : Int64 :=
  word ||| Int64.ofNat (b &&& 0x7F).toNat <<< Int64.ofNat (7 * i)

/-- Reads group `i` of an integer and those behind it into a word that has the groups in front. The
sign, unless it already is the uppermost bit of the word, is copied to all bits above the last
group. -/
def signedInto (bits : Nat) : (groups i : Nat) → (word : Int64) → Decoder SignedError Int64
  | 0, _, _ => throw (.tooLong bits)
  | groups + 1, i, word => do
    let byte ← Decoder.byte.mapError fun _ => .endOfInput
    let word := withGroup word i byte
    let shift := 7 * (i + 1)
    if byte &&& 0x80 = 0 then
      let unused := UInt8.ofNat (bits - 7 * i - 1)
      let extension := (byte &&& 0x7F) >>> unused
      if groups = 0 ∧ extension ≠ 0 ∧ extension ≠ 0x7F >>> unused then throw (.wrongSign bits)
      else if shift < 64 ∧ byte &&& 0x40 ≠ 0 then return word ||| (-1) <<< Int64.ofNat shift
      else return word
    else signedInto bits groups (i + 1) word

/-- Bits above those of a word are added to it at their place. -/
theorem or_ofInt_shiftLeft {word : Int64} {n k : Nat} (hn : n < 64) (hword : word.toInt = k)
    (hk : k < 2 ^ n) (x : Int) :
    word ||| Int64.ofInt x <<< Int64.ofNat n = Int64.ofInt (k + 2 ^ n * x) := by
  have hshift : (BitVec.ofNat 64 n).smod 64 = BitVec.ofNat 64 n :=
    (by decide : ∀ n : Fin 64, (BitVec.ofNat 64 n).smod 64 = BitVec.ofNat 64 n) ⟨n, hn⟩
  have htoNat : word.toBitVec.toNat = k := by
    have hlt := word.toBitVec.isLt
    have hint : word.toInt = word.toBitVec.toInt := rfl
    rw [hint, BitVec.toInt_eq_toNat_cond] at hword
    split at hword <;> omega
  have hdisjoint : word.toBitVec &&& BitVec.ofInt 64 x <<< n = 0 := by
    ext i hi
    by_cases hin : i < n
    · simp [hin]
    · have hle : 2 ^ n ≤ 2 ^ i := Nat.pow_le_pow_right (by decide) (by omega)
      have hbit := Nat.testBit_lt_two_pow (Nat.lt_of_lt_of_le hk hle)
      simp [BitVec.getElem_eq_testBit_toNat, htoNat, hbit]
  have hpow : BitVec.ofInt 64 (2 ^ n) = BitVec.twoPow 64 n := by
    rw [← BitVec.toNat_inj, BitVec.toNat_twoPow]
    norm_cast
  rw [← Int64.toBitVec_inj, Int64.toBitVec_or, Int64.toBitVec_shiftLeft, Int64.toBitVec_ofNat',
    hshift, Int64.toBitVec_ofInt, Int64.toBitVec_ofInt, BitVec.shiftLeft_eq', BitVec.toNat_ofNat,
    Nat.mod_eq_of_lt (by omega), ← BitVec.add_eq_or_of_and_eq_zero _ _ hdisjoint,
    BitVec.shiftLeft_eq_mul_twoPow, BitVec.ofInt_add, BitVec.ofInt_mul, hpow, BitVec.mul_comm,
    ← hword]
  congr 1
  exact BitVec.ofInt_toInt.symm

theorem sign_bit_iff (b : UInt8) : b &&& 0x40 ≠ 0 ↔ 64 ≤ b.toNat % 128 := by
  have hbit := and_two_pow_eq_zero_iff b.toNat 6
  rw [ne_eq, ← UInt8.toNat_inj, UInt8.toNat_and]
  refine (not_congr hbit).trans ?_
  omega

/-- The bits of a last group that a number has no place for agree with its sign if the group, as a
number with a sign, needs none of them. -/
theorem extension_iff (b : UInt8) {unused : Nat} (h : unused < 7) :
    ((b &&& 0x7F) >>> UInt8.ofNat unused ≠ 0 ∧
      (b &&& 0x7F) >>> UInt8.ofNat unused ≠ 0x7F >>> UInt8.ofNat unused) ↔
    (signedPayload b >>> unused ≠ 0 ∧ signedPayload b >>> unused ≠ -1) := by
  have hall := (by decide +kernel : ∀ (u : Fin 7) (i : Fin 256), let b := UInt8.ofNat i
    ((b &&& 0x7F) >>> UInt8.ofNat u ≠ 0 ∧ (b &&& 0x7F) >>> UInt8.ofNat u ≠ 0x7F >>> UInt8.ofNat u) ↔
      (signedPayload b >>> u.val ≠ 0 ∧ signedPayload b >>> u.val ≠ -1))
    ⟨unused, h⟩ ⟨b.toNat, b.toNat_lt⟩
  simpa using hall

theorem withGroup_eq {word : Int64} {i k : Nat} (hi : 7 * i < 64) (hword : word.toInt = k)
    (hk : k < 2 ^ (7 * i)) (b : UInt8) :
    withGroup word i b = Int64.ofInt (k + 2 ^ (7 * i) * (b.toNat % 128 : Nat)) := by
  rw [← or_ofInt_shiftLeft hi hword hk, Int64.ofInt_eq_ofNat, ← toNat_and_127]
  rfl

/-- As long as another group has a place in the word, the groups up to it are not negative. -/
theorem toInt_withGroup {word : Int64} {i k : Nat} (hi : 7 * (i + 1) < 64) (hword : word.toInt = k)
    (hk : k < 2 ^ (7 * i)) (b : UInt8) :
    (withGroup word i b).toInt = (k + 2 ^ (7 * i) * (b.toNat % 128) : Nat) ∧
      k + 2 ^ (7 * i) * (b.toNat % 128) < 2 ^ (7 * (i + 1)) := by
  have hle : 2 ^ (7 * i) * (b.toNat % 128) ≤ 2 ^ (7 * i) * 127 :=
    Nat.mul_le_mul_left _ (Nat.le_of_lt_succ (Nat.mod_lt b.toNat (by decide)))
  have hbelow : k + 2 ^ (7 * i) * (b.toNat % 128) < 2 ^ (7 * (i + 1)) := by
    rw [Nat.mul_succ, Nat.pow_add]
    omega
  have htop : 2 ^ (7 * (i + 1)) ≤ 2 ^ 63 := Nat.pow_le_pow_right (by decide) (by omega)
  refine ⟨?_, hbelow⟩
  have hsum : (k + 2 ^ (7 * i) * (b.toNat % 128 : Nat) : Int) =
      (k + 2 ^ (7 * i) * (b.toNat % 128) : Nat) := by
    push_cast
    rfl
  rw [withGroup_eq (by omega) hword hk, hsum, Int64.toInt_ofInt_of_le] <;> omega

/-- The last group of an integer is added to a word with its sign. -/
theorem withGroup_sign {word : Int64} {i k : Nat} (hi : 7 * i < 64) (hword : word.toInt = k)
    (hk : k < 2 ^ (7 * i)) (b : UInt8) :
    (if 7 * (i + 1) < 64 ∧ b &&& 0x40 ≠ 0 then
        withGroup word i b ||| (-1) <<< Int64.ofNat (7 * (i + 1))
      else withGroup word i b) = Int64.ofInt (k + 2 ^ (7 * i) * signedPayload b) := by
  by_cases hsign : b.toNat % 128 < 64
  · have hclear : ¬(7 * (i + 1) < 64 ∧ b &&& 0x40 ≠ 0) := by
      rintro ⟨-, hset⟩
      exact absurd ((sign_bit_iff b).mp hset) (Nat.not_le_of_lt hsign)
    rw [if_neg hclear, withGroup_eq hi hword hk, signedPayload, if_pos hsign]
  · rw [signedPayload, if_neg hsign]
    by_cases hshift : 7 * (i + 1) < 64
    · obtain ⟨hsum, hbelow⟩ := toInt_withGroup hshift hword hk b
      have hones : (-1 : Int64) = Int64.ofInt (-1) := rfl
      have hset : 7 * (i + 1) < 64 ∧ b &&& 0x40 ≠ 0 :=
        ⟨hshift, (sign_bit_iff b).mpr (Nat.le_of_not_lt hsign)⟩
      rw [if_pos hset, hones, or_ofInt_shiftLeft hshift hsum hbelow, Nat.mul_succ, Int.pow_add]
      congr 1
      push_cast
      ring
    · -- The uppermost bit of the word is the sign; what is above it in the group falls out.
      obtain rfl : i = 9 := by omega
      have hbeyond : Int64.ofInt (2 ^ (7 * 9) * 128) = 0 := by decide
      rw [if_neg (fun h => absurd h.1 (by decide)), withGroup_eq hi hword hk, Int.mul_sub,
        ← Int.add_sub_assoc, Int64.ofInt_sub, hbeyond, Int64.sub_zero]

/-- With the groups in front in the word, reading goes on as for the integer alone. -/
theorem signedInto_eq {bits : Nat} (hbits : bits ≤ 64) (groups : Nat) :
    ∀ (i : Nat), groups = (bits - 7 * i + 6) / 7 → ∀ (word : Int64) (k : Nat), word.toInt = k →
      k < 2 ^ (7 * i) →
        signedInto bits groups i word = (fun v => Int64.ofInt (k + 2 ^ (7 * i) * v)) <$>
          signedGroups bits groups (bits - 7 * i) := by
  induction groups with
  | zero => exact fun i _ word k _ _ => rfl
  | succ groups ih =>
    intro i hg word k hword hk
    rw [signedInto, signedGroups, map_bind]
    congr 1
    funext b
    have hchecks : (groups = 0 ∧
        (b &&& 0x7F) >>> UInt8.ofNat (bits - 7 * i - 1) ≠ 0 ∧
        (b &&& 0x7F) >>> UInt8.ofNat (bits - 7 * i - 1) ≠
          0x7F >>> UInt8.ofNat (bits - 7 * i - 1)) ↔
        (groups = 0 ∧ signedPayload b >>> (bits - 7 * i - 1) ≠ 0 ∧
          signedPayload b >>> (bits - 7 * i - 1) ≠ -1) :=
      and_congr_right fun h0 => extension_iff b (by omega)
    simp only [and_128_eq_zero_iff, hchecks]
    by_cases hb : b < 0x80
    · rw [if_pos hb, if_pos hb]
      by_cases hfails : groups = 0 ∧ signedPayload b >>> (bits - 7 * i - 1) ≠ 0 ∧
          signedPayload b >>> (bits - 7 * i - 1) ≠ -1
      · rw [if_pos hfails, if_pos hfails]
        rfl
      · rw [if_neg hfails, if_neg hfails, map_pure, ← withGroup_sign (by omega) hword hk]
        split <;> rfl
    · rw [if_neg hb, if_neg hb]
      by_cases h0 : groups = 0
      · subst h0
        rfl
      · obtain ⟨hsum, hbelow⟩ := toInt_withGroup (by omega) hword hk b
        have hwidth : bits - 7 * (i + 1) = bits - 7 * i - 7 := by omega
        rw [ih (i + 1) (by omega) _ _ hsum hbelow, hwidth, map_bind]
        congr 1
        funext v
        have hvalue : ((k + 2 ^ (7 * i) * (b.toNat % 128) : Nat) + 2 ^ (7 * (i + 1)) * v : Int) =
            k + 2 ^ (7 * i) * ((b.toNat % 128 : Nat) + 128 * v) := by
          rw [Nat.mul_succ, Int.pow_add]
          push_cast
          ring
        rw [hvalue]

/-! ## All inputs -/

theorem two_pow_le_of_le {bits : Nat} (hbits : bits ≤ 64) : (2 : Int) ^ (bits - 1) ≤ 2 ^ 63 := by
  exact_mod_cast Nat.pow_le_pow_right (show 0 < 2 by decide) (show bits - 1 ≤ 63 by omega)

/-- What reading gives on every input. An integer ends at the first byte that says so. It is good if
that is one of the first `most`, and the payloads up to there, in two's complement, spell an integer
of the given width. Reading into a word of 64 bits loses nothing, an integer of 32 bits fits into
its type, and of 33 bits exactly the integers of that width can be read. -/
theorem signed_outcome {bits : Nat} (hbits : bits ≤ 64) (p : Nat) (s : Bytes) :
    let most := groupCount bits
    let k := s.findIdx (· < 0x80)
    let payload := ∑ i ∈ Finset.range (k + 1), (s.getD i 0).toNat % 128 * 128 ^ i
    let value := (BitVec.ofNat (7 * (k + 1)) payload).toInt
    signed bits ⟨p, s⟩ =
      (if most ≤ k then .error (.tooLong bits) ⟨p + most, s.drop most⟩
      else if k = s.length then .error .endOfInput ⟨p + k, []⟩
      else if -2 ^ (bits - 1) ≤ value ∧ value < 2 ^ (bits - 1) then
        .ok value ⟨p + (k + 1), s.drop (k + 1)⟩
      else .error (.wrongSign bits) ⟨p + (k + 1), s.drop (k + 1)⟩) ∧
    signedInto bits most 0 0 = Int64.ofInt <$> signed bits ∧
    (∀ v c, signed bits ⟨p, s⟩ = .ok v c → (Int64.ofInt v).toInt = v) ∧
    (∀ v c, signed 32 ⟨p, s⟩ = .ok v c → ∃ n : Int32, n.toInt = v ∧ i32 ⟨p, s⟩ = .ok n c) ∧
    ∀ v, (∃ bs c, signed 33 ⟨p, bs⟩ = .ok v c) ↔ -2 ^ 32 ≤ v ∧ v < 2 ^ 32 := by
  intro most k payload value
  refine ⟨signed_eq bits p s, ?_, fun v c h => ?_, fun v c h => ?_, fun v => ⟨?_, ?_⟩⟩
  · have h := signedInto_eq hbits most 0 (by simp [most, groupCount]) 0 0 rfl (by decide)
    have hwhole : (fun v => Int64.ofInt ((0 : Nat) + 2 ^ (7 * 0) * v)) = Int64.ofInt := by
      funext v
      simp
    rw [hwhole] at h
    exact h
  · obtain ⟨bs, -, -, hform⟩ := (recognizes_signed bits).consumed h
    have hpow := two_pow_le_of_le hbits
    have hle := hform.le
    have hlt := hform.lt
    exact Int64.toInt_ofInt_of_le (by omega) (by omega)
  · obtain ⟨bs, -, -, hform⟩ := (recognizes_signed 32).consumed h
    exact ⟨Int32.ofInt v, Int32.toInt_ofInt_of_le hform.le hform.lt, Decoder.map_of_ok _ h⟩
  · rintro ⟨bs, c, h⟩
    obtain ⟨bs, -, -, hform⟩ := (recognizes_signed 33).consumed h
    exact ⟨hform.le, hform.lt⟩
  · rintro ⟨hle, hlt⟩
    exact ⟨_, _, (recognizes_signed 33).read (isSigned_encodeSigned (by decide) v hle hlt) []⟩

/-- Of a tenth byte an integer of 64 bits has only the lowest bit, which is its sign; all others
have to agree with it. -/
theorem signed_outcome_tenBytes :
    64 ≤ 64 ∧ signed 64 ⟨0, List.replicate 9 0x80 ++ [0x7F]⟩ = .ok (-2 ^ 63) ⟨10, []⟩ ∧
      signed 64 ⟨0, List.replicate 9 0x80 ++ [0x7E]⟩ = .error (.wrongSign 64) ⟨10, []⟩ := by
  obtain ⟨hsame, -⟩ := signed_outcome (Nat.le_refl 64) 0 (List.replicate 9 0x80 ++ [0x7F])
  obtain ⟨hother, -⟩ := signed_outcome (Nat.le_refl 64) 0 (List.replicate 9 0x80 ++ [0x7E])
  refine ⟨Nat.le_refl 64, ?_, ?_⟩
  · rw [hsame, if_neg (by decide), if_neg (by decide), if_pos (by decide)]
    congr 1
  · rw [hother, if_neg (by decide), if_neg (by decide), if_neg (by decide)]
    rfl

end Leb128

end WasmBinary
