import WasmBinary.Proofs.SignedNumbers
import WasmBinary.Proofs.Writer

/-!
# What is written is the shortest form

Of all byte strings that are read as a number, the one that is written is the shortest, and no other
has its length. How many bytes it takes is known without writing it, and a loop that sends out a
word of 64 bits, seven bits at a time, writes just these bytes and counts them.

* `encodeUnsigned_shortest`, `encodeSigned_shortest`: every form of a number is the one that is
  written or longer, by induction on its groups.
* `writes_putUnsigned`, `writes_putSigned`: the loops over words.
* `shortest_forms`: all of this together with what reading gives.
-/
namespace WasmBinary

namespace Leb128

/-! ## Competing forms -/

theorem encodeUnsigned_shortest {bs : Bytes} (h : Groups bs) :
    bs = encodeUnsigned (spelled bs) ∨ (encodeUnsigned (spelled bs)).length < bs.length := by
  induction h with
  | @last b hb =>
    have hlt : b.toNat < 128 := UInt8.lt_iff_toNat_lt.mp hb
    have hspelled : spelled [b] = b.toNat := by
      simp only [spelled, Nat.mul_zero, Nat.add_zero]
      exact Nat.mod_eq_of_lt hlt
    rw [hspelled, encodeUnsigned, if_pos hlt, UInt8.ofNat_toNat]
    exact .inl rfl
  | @more b bs hb hrest ih =>
    have hle : 128 ≤ b.toNat := UInt8.le_iff_toNat_le.mp hb
    have hpos := hrest.length_pos
    rw [encodeUnsigned]
    by_cases hsmall : spelled (b :: bs) < 128
    · rw [if_pos hsmall, List.length_cons]
      exact .inr (Nat.succ_lt_succ hpos)
    · have hbyte : UInt8.ofNat (spelled (b :: bs) % 128 + 128) = b := by
        have := b.toNat_lt
        rw [← UInt8.toNat_inj, UInt8.toNat_ofNat', spelled]
        omega
      have hdiv : spelled (b :: bs) / 128 = spelled bs := by
        rw [spelled]
        omega
      rw [if_neg hsmall, hbyte, hdiv]
      refine ih.imp (congrArg (b :: ·)) fun hlonger => ?_
      rw [List.length_cons, List.length_cons]
      exact Nat.succ_lt_succ hlonger

theorem encodeSigned_shortest {bs : Bytes} (h : Groups bs) :
    bs = encodeSigned (spelledSigned bs) ∨
      (encodeSigned (spelledSigned bs)).length < bs.length := by
  induction h with
  | @last b hb =>
    have hbyte : UInt8.ofNat (signedPayload b % 128).toNat = b := by
      have hlt : b.toNat < 128 := UInt8.lt_iff_toNat_lt.mp hb
      rw [← UInt8.toNat_inj, UInt8.toNat_ofNat', signedPayload]
      split <;> omega
    rw [spelledSigned_singleton, encodeSigned, if_pos (signedPayload_bounds b), hbyte]
    exact .inl rfl
  | @more b bs hb hrest ih =>
    have hle : 128 ≤ b.toNat := UInt8.le_iff_toNat_le.mp hb
    have hpos := hrest.length_pos
    rw [spelledSigned_cons b hpos, encodeSigned]
    by_cases hsmall : -64 ≤ (b.toNat % 128 : Nat) + 128 * spelledSigned bs ∧
        (b.toNat % 128 : Nat) + 128 * spelledSigned bs < 64
    · rw [if_pos hsmall, List.length_cons]
      exact .inr (Nat.succ_lt_succ hpos)
    · have hbyte : UInt8.ofNat
          ((((b.toNat % 128 : Nat) + 128 * spelledSigned bs) % 128).toNat + 128) = b := by
        have := b.toNat_lt
        rw [← UInt8.toNat_inj, UInt8.toNat_ofNat']
        omega
      have hdiv : ((b.toNat % 128 : Nat) + 128 * spelledSigned bs) / 128 = spelledSigned bs := by
        omega
      rw [if_neg hsmall, hbyte, hdiv]
      refine ih.imp (congrArg (b :: ·)) fun hlonger => ?_
      rw [List.length_cons, List.length_cons]
      exact Nat.succ_lt_succ hlonger

/-- `bs` is read as `a` at all widths that have room for it, whatever follows, and other bytes that
are read as `a` to their end, at any width, are longer. -/
structure IsShortest {ε α : Type} (read : Nat → Decoder ε α) (hasRoom : Nat → Prop) (a : α)
    (bs : Bytes) : Prop where
  read_append (bits : Nat) (h : hasRoom bits) (p : Nat) (rest : Bytes) :
    read bits ⟨p, bs ++ rest⟩ = .ok a ⟨p + bs.length, rest⟩
  lt_length (bits p : Nat) (other : Bytes) (h : read bits ⟨p, other⟩ = .ok a ⟨p + other.length, []⟩)
    (hne : other ≠ bs) : bs.length < other.length

/-- A decoder at each width that recognizes forms has a shortest one if all others are longer. -/
theorem IsShortest.of_forms {ε α : Type} {read : Nat → Decoder ε α} {hasRoom : Nat → Prop}
    {Form : Nat → Bytes → α → Prop} (hread : ∀ bits, (read bits).Recognizes (.fixed (Form bits)))
    {a : α} {bs : Bytes} (hform : ∀ bits, hasRoom bits → Form bits bs a)
    (hlonger : ∀ bits other, Form bits other a → other = bs ∨ bs.length < other.length) :
    IsShortest read hasRoom a bs := by
  constructor
  · intro bits hroom p rest
    exact (hread bits).read (hform bits hroom) rest
  · intro bits p other h hne
    obtain ⟨taken, hother, -, hF⟩ := (hread bits).consumed h
    obtain rfl : other = taken := by simpa using hother
    exact (hlonger bits other hF).resolve_left hne

theorem isShortest_encodeUnsigned (n : Nat) :
    IsShortest unsigned (fun bits => 0 < bits ∧ n < 2 ^ bits) n (encodeUnsigned n) := by
  refine .of_forms recognizes_unsigned (fun bits hroom => ?_) fun bits other hform => ?_
  · exact isUnsigned_encodeUnsigned hroom.1 n hroom.2
  · rw [← hform.spells]
    exact encodeUnsigned_shortest hform.groups

theorem isShortest_encodeSigned (v : Int) :
    IsShortest signed (fun bits => 0 < bits ∧ -2 ^ (bits - 1) ≤ v ∧ v < 2 ^ (bits - 1)) v
      (encodeSigned v) := by
  refine .of_forms recognizes_signed (fun bits hroom => ?_) fun bits other hform => ?_
  · exact isSigned_encodeSigned hroom.1 v hroom.2.1 hroom.2.2
  · rw [← hform.spells]
    exact encodeSigned_shortest hform.groups

/-! ## Words -/

/-- The lowest seven bits of a word. -/
def lowGroup (word : UInt64) : UInt8 := (word &&& 0x7F).toUInt8

theorem toNat_lowGroup (word : UInt64) : (lowGroup word).toNat = word.toNat % 128 := by
  have hmask : (word &&& 0x7F).toNat = word.toNat % 128 := by
    rw [UInt64.toNat_and]
    exact Nat.and_two_pow_sub_one_eq_mod word.toNat 7
  rw [lowGroup, UInt64.toNat_toUInt8, hmask]
  omega

theorem toNat_lowGroup_toUInt64 (word : Int64) :
    (lowGroup word.toUInt64).toNat = (word.toInt % 128).toNat := by
  have hlt := word.toBitVec.isLt
  have hint : word.toInt = word.toBitVec.toInt := rfl
  have hnat : word.toUInt64.toNat = word.toBitVec.toNat := rfl
  rw [toNat_lowGroup, hint, hnat, BitVec.toInt_eq_toNat_cond]
  split <;> omega

theorem or_128 {b : UInt8} (h : b.toNat < 128) : b ||| 0x80 = UInt8.ofNat (b.toNat + 128) := by
  have hor := (by decide : ∀ i : Fin 128, i.val ||| 128 = i.val + 128) ⟨_, h⟩
  rw [← UInt8.toNat_inj, UInt8.toNat_or, UInt8.toNat_ofNat', Nat.mod_eq_of_lt (by omega)]
  exact hor

theorem toNat_shiftRight_seven (word : UInt64) : (word >>> 7).toNat = word.toNat / 128 := by
  rw [UInt64.toNat_shiftRight]
  exact Nat.shiftRight_eq_div_pow _ 7

/-- The shift of a word with a sign is the division that rounds down. -/
theorem toInt_shiftRight_seven (word : Int64) : (word >>> 7).toInt = word.toInt / 128 := by
  change (word >>> 7).toBitVec.toInt = word.toBitVec.toInt / 128
  rw [Int64.toBitVec_shiftRight]
  exact BitVec.toInt_sshiftRight.trans (Int.shiftRight_eq_div_pow _ 7)

theorem shiftRight_seven_eq_zero_iff (word : UInt64) : word >>> 7 = 0 ↔ word.toNat < 128 := by
  rw [← UInt64.toNat_inj, toNat_shiftRight_seven]
  exact Nat.div_eq_zero_iff_lt (by decide)

/-- Whether all bits behind the lowest seven are what the uppermost of those is. -/
def IsLastGroup (word : Int64) : Prop :=
  (word >>> 7 = 0 ∧ lowGroup word.toUInt64 &&& 0x40 = 0) ∨
    (word >>> 7 = -1 ∧ lowGroup word.toUInt64 &&& 0x40 ≠ 0)

instance (word : Int64) : Decidable (IsLastGroup word) := instDecidableOr

theorem isLastGroup_iff (word : Int64) : IsLastGroup word ↔ -64 ≤ word.toInt ∧ word.toInt < 64 := by
  have hones : (-1 : Int64).toInt = -1 := by decide
  have hsign := sign_bit_iff (lowGroup word.toUInt64)
  rw [toNat_lowGroup_toUInt64] at hsign
  rw [IsLastGroup, ← not_not (a := lowGroup word.toUInt64 &&& 0x40 = 0), ← ne_eq, hsign,
    ← Int64.toInt_inj, ← Int64.toInt_inj, toInt_shiftRight_seven, Int64.toInt_zero, hones]
  omega

/-! ## Writing a word -/

/-- Writes a word seven bits at a time, least significant first, and counts the bytes. -/
def putUnsigned (word : UInt64) : Writer SinkFull Nat :=
  if word >>> 7 = 0 then do
    Writer.put [lowGroup word]
    return 1
  else do
    Writer.put [lowGroup word ||| 0x80]
    return 1 + (← putUnsigned (word >>> 7))
termination_by word.toNat
decreasing_by
  rename_i hmore
  rw [shiftRight_seven_eq_zero_iff] at hmore
  rw [toNat_shiftRight_seven]
  omega

/-- Writes a word with a sign seven bits at a time, and counts the bytes. -/
def putSigned (word : Int64) : Writer SinkFull Nat :=
  if IsLastGroup word then do
    Writer.put [lowGroup word.toUInt64]
    return 1
  else do
    Writer.put [lowGroup word.toUInt64 ||| 0x80]
    return 1 + (← putSigned (word >>> 7))
termination_by word.toInt.natAbs
decreasing_by
  rename_i hmore
  rw [isLastGroup_iff] at hmore
  rw [toInt_shiftRight_seven]
  omega

open Writer (Writes)

theorem writes_putUnsigned (word : UInt64) :
    Writes .sinkFull (putUnsigned word) (encodeUnsigned word.toNat)
      (.ok (unsignedLength word.toNat)) := by
  induction word using putUnsigned.induct with
  | case1 word hlast =>
    have hlt := (shiftRight_seven_eq_zero_iff word).mp hlast
    have hbyte : lowGroup word = UInt8.ofNat word.toNat := by
      rw [← UInt8.toNat_inj, toNat_lowGroup, UInt8.toNat_ofNat']
      omega
    rw [putUnsigned, if_pos hlast, encodeUnsigned, if_pos hlt, unsignedLength, if_pos hlt, hbyte]
    exact (Writer.writes_put _).bind (.pure 1)
  | case2 word hmore ih =>
    have hle := mt (shiftRight_seven_eq_zero_iff word).mpr hmore
    have hbyte : lowGroup word ||| 0x80 = UInt8.ofNat (word.toNat % 128 + 128) := by
      have hlow := toNat_lowGroup word
      rw [or_128 (by omega), hlow]
    rw [toNat_shiftRight_seven] at ih
    rw [putUnsigned, if_neg hmore, encodeUnsigned, if_neg hle, unsignedLength, if_neg hle, hbyte]
    have hrest := ih.bind (k := fun n => pure (1 + n)) (.pure _)
    rw [List.append_nil] at hrest
    exact (Writer.writes_put [_]).bind hrest

theorem writes_putSigned (word : Int64) :
    Writes .sinkFull (putSigned word) (encodeSigned word.toInt)
      (.ok (signedLength word.toInt)) := by
  induction word using putSigned.induct with
  | case1 word hlast =>
    have hbounds := (isLastGroup_iff word).mp hlast
    have hbyte : lowGroup word.toUInt64 = UInt8.ofNat (word.toInt % 128).toNat := by
      rw [← toNat_lowGroup_toUInt64, UInt8.ofNat_toNat]
    rw [putSigned, if_pos hlast, encodeSigned, if_pos hbounds, signedLength, if_pos hbounds, hbyte]
    exact (Writer.writes_put _).bind (.pure 1)
  | case2 word hmore ih =>
    have hbounds := mt (isLastGroup_iff word).mpr hmore
    have hbyte : lowGroup word.toUInt64 ||| 0x80 =
        UInt8.ofNat ((word.toInt % 128).toNat + 128) := by
      have hlow := toNat_lowGroup_toUInt64 word
      rw [or_128 (by omega), hlow]
    rw [toInt_shiftRight_seven] at ih
    rw [putSigned, if_neg hmore, encodeSigned, if_neg hbounds, signedLength, if_neg hbounds, hbyte]
    have hrest := ih.bind (k := fun n => pure (1 + n)) (.pure _)
    rw [List.append_nil] at hrest
    exact (Writer.writes_put [_]).bind hrest

/-- What is written for a number is read back at every width that has room for it, takes as many
bytes as are counted in advance and while writing, and is shorter than all else that is read as the
same number. A width has at least one bit. -/
theorem shortest_forms :
    (∀ word : UInt64,
      IsShortest unsigned (fun bits => 0 < bits ∧ word.toNat < 2 ^ bits) word.toNat
          (encodeUnsigned word.toNat) ∧
        Writes .sinkFull (putUnsigned word) (encodeUnsigned word.toNat)
          (.ok (unsignedLength word.toNat)) ∧
        (encodeUnsigned word.toNat).length = unsignedLength word.toNat) ∧
    ∀ word : Int64,
      IsShortest signed
          (fun bits => 0 < bits ∧ -2 ^ (bits - 1) ≤ word.toInt ∧ word.toInt < 2 ^ (bits - 1))
          word.toInt (encodeSigned word.toInt) ∧
        Writes .sinkFull (putSigned word) (encodeSigned word.toInt)
          (.ok (signedLength word.toInt)) ∧
        (encodeSigned word.toInt).length = signedLength word.toInt := by
  refine ⟨fun word => ⟨?_, ?_, ?_⟩, fun word => ⟨?_, ?_, ?_⟩⟩
  · exact isShortest_encodeUnsigned word.toNat
  · exact writes_putUnsigned word
  · exact length_encodeUnsigned word.toNat
  · exact isShortest_encodeSigned word.toInt
  · exact writes_putSigned word
  · exact length_encodeSigned word.toInt

/-- Minus one is written as one byte. With a byte more in front it is read as well. -/
theorem shortest_forms_minusOne :
    signed 33 ⟨0, [0x7F] ++ [0x00]⟩ = .ok (-1) ⟨1, [0x00]⟩ ∧
      signed 33 ⟨0, [0xFF, 0x7F]⟩ = .ok (-1) ⟨2, []⟩ ∧
      ([0x7F] : Bytes).length < ([0xFF, 0x7F] : Bytes).length := by
  obtain ⟨hshortest, -⟩ := shortest_forms.2 (-1)
  have hvalue : (-1 : Int64).toInt = -1 := by decide
  have hbytes : encodeSigned (-1) = [0x7F] := by
    rw [encodeSigned, if_pos (by decide)]
    rfl
  have hpadded : signed 33 ⟨0, [0xFF, 0x7F]⟩ = .ok (-1) ⟨2, []⟩ := rfl
  rw [hvalue, hbytes] at hshortest
  exact ⟨hshortest.read_append 33 (by decide) 0 [0x00], hpadded,
    hshortest.lt_length 33 0 [0xFF, 0x7F] hpadded (by decide)⟩

end Leb128

end WasmBinary
