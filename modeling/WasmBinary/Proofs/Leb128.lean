import Mathlib.Algebra.Group.Nat.Defs
import Mathlib.Algebra.Group.Int.Defs
import WasmBinary.Leb128
import WasmBinary.Proofs.Format

/-!
# The accepted forms of LEB128 numbers

`IsUnsigned bits bs n` and `IsSigned bits bs v` say which byte strings stand for a number at a given
width, in terms of the number that all their payload bits together spell: every byte but the last
has its top bit set, there are no more bytes than the width needs, and the number fits the width.

* `unsignedGroups_eq_readGroups`, `signedGroups_eq_readGroups`: both readers are the same loop.
* `recognizes_unsigned`, `recognizes_signed`: the readers accept exactly these forms.
* `isUnsigned_encodeUnsigned`, `isSigned_encodeSigned`: what is written is one of them, at every
  width that the number fits.
-/
namespace WasmBinary.Leb128

/-- Every byte but the last says that another one follows. -/
inductive Groups : Bytes → Prop
  | last {b : UInt8} (h : b < 0x80) : Groups [b]
  | more {b : UInt8} {bs : Bytes} (h : 0x80 ≤ b) (rest : Groups bs) : Groups (b :: bs)

/-- The number that the payload bits of the bytes spell. -/
def spelled : Bytes → Nat
  | [] => 0
  | b :: rest => b.toNat % 128 + 128 * spelled rest

/-- The number that the payload bits spell when the uppermost is a sign. -/
def spelledSigned (bs : Bytes) : Int :=
  if spelled bs < 2 ^ (7 * bs.length - 1) then spelled bs else spelled bs - 2 ^ (7 * bs.length)

/-- `bs` stands for `n` among the natural numbers below `2 ^ bits`. -/
structure IsUnsigned (bits : Nat) (bs : Bytes) (n : Nat) : Prop where
  groups : Groups bs
  length_le : bs.length ≤ groupCount bits
  spells : spelled bs = n
  lt : n < 2 ^ bits

/-- `bs` stands for `v` among the integers of `bits` bits. -/
structure IsSigned (bits : Nat) (bs : Bytes) (v : Int) : Prop where
  groups : Groups bs
  length_le : bs.length ≤ groupCount bits
  spells : spelledSigned bs = v
  le : -2 ^ (bits - 1) ≤ v
  lt : v < 2 ^ (bits - 1)

/-- A form of a number of 32 bits. -/
def U32Form (bs : Bytes) (n : UInt32) : Prop := IsUnsigned 32 bs n.toNat

theorem Groups.length_pos {bs : Bytes} (h : Groups bs) : 0 < bs.length := by
  cases h <;> simp

/-! ## The loop of both readers -/

/-- Reads up to `groups` groups that together carry `width` bits. The last byte is refused if it does not fit, and
`last` is its value alone; `more` adds the groups behind a byte. -/
def readGroups {ε α : Type} (endOfInput tooLong misfit : ε)
    (unfit : (groups width : Nat) → UInt8 → Bool) (last : UInt8 → α) (more : UInt8 → α → α) :
    (groups width : Nat) → Decoder ε α
  | 0, _ => throw tooLong
  | groups + 1, width => do
    let byte ← Decoder.byte.mapError fun _ => endOfInput
    if byte < 0x80 then
      if unfit groups width byte then throw misfit else return last byte
    else return more byte (← readGroups endOfInput tooLong misfit unfit last more groups (width - 7))

theorem unsignedGroups_eq_readGroups (bits groups : Nat) : ∀ width, unsignedGroups bits groups width =
    readGroups .endOfInput (.tooLong bits) (.tooLarge bits)
      (fun groups width b => groups = 0 ∧ (b.toNat % 128) >>> width ≠ 0) (fun b => b.toNat % 128)
      (fun b n => b.toNat % 128 + 128 * n) groups width := by
  induction groups with
  | zero => exact fun _ => rfl
  | succ groups ih =>
    intro width
    simp only [unsignedGroups, readGroups, ih, decide_eq_true_eq]

theorem signedGroups_eq_readGroups (bits groups : Nat) : ∀ width, signedGroups bits groups width =
    readGroups .endOfInput (.tooLong bits) (.wrongSign bits)
      (fun groups width b => groups = 0 ∧ signedPayload b >>> (width - 1) ≠ 0 ∧
        signedPayload b >>> (width - 1) ≠ -1) signedPayload
      (fun b v => (b.toNat % 128 : Nat) + 128 * v) groups width := by
  induction groups with
  | zero => exact fun _ => rfl
  | succ groups ih =>
    intro width
    simp only [signedGroups, readGroups, ih, decide_eq_true_eq]

/-! ## Reading natural numbers -/

theorem two_pow_of_groups {groups width : Nat} (hg : groups + 1 = (width + 6) / 7)
    (h0 : groups ≠ 0) : 2 ^ width = 128 * 2 ^ (width - 7) := by
  rw [show width = 7 + (width - 7) by omega, Nat.pow_add]
  simp

/-- The check on the last permitted byte, which no earlier byte needs. -/
theorem payload_fits_iff {groups width : Nat} (hg : groups + 1 = (width + 6) / 7) {n : Nat}
    (hn : n < 128) : ¬(groups = 0 ∧ n >>> width ≠ 0) ↔ n < 2 ^ width := by
  by_cases h0 : groups = 0
  · rw [Nat.shiftRight_eq_div_pow]
    simp [h0, Nat.div_eq_zero_iff]
  · have := two_pow_of_groups hg h0
    have := Nat.two_pow_pos (width - 7)
    simp only [h0, false_and, not_false_eq_true, true_iff]
    omega

theorem recognizes_unsignedGroups (bits groups : Nat) :
    ∀ width, groups = (width + 6) / 7 → (unsignedGroups bits groups width).Recognizes
      (.fixed fun bs n => Groups bs ∧ bs.length ≤ groups ∧ spelled bs = n ∧ n < 2 ^ width) := by
  induction groups with
  | zero =>
    intro width _
    refine (Decoder.Recognizes.throw _).congr fun p bs n => ?_
    simp only [false_iff, not_and]
    intro h hlen
    have := h.length_pos
    omega
  | succ groups ih =>
    intro width hg
    have hgroups : groups = (width - 7 + 6) / 7 := by omega
    have hmod (b : UInt8) : b.toNat % 128 < 128 := Nat.mod_lt _ (by decide)
    unfold unsignedGroups
    refine ((Decoder.recognizes_byte.mapError _).bind fun b => .ite
      (fun _ => .ite (fun _ => .throw _) (fun _ => .pure _))
      (fun _ => (ih (width - 7) hgroups).bind fun n => .pure _)).congr fun p bs n => ⟨?_, ?_⟩
    · intro hform
      rcases hform with ⟨_, _, b, rfl, rfl, ⟨hb, ⟨-, hf⟩ | ⟨hfits, rfl, rfl⟩⟩ |
        ⟨hb, bs, _, n, rfl, ⟨hrest, hlen, hspell, hlt⟩, rfl, rfl⟩⟩
      · exact hf.elim
      · rw [payload_fits_iff hg (hmod b)] at hfits
        exact ⟨.last hb, by simp, by simp [spelled], hfits⟩
      · have := hrest.length_pos
        have := two_pow_of_groups hg (by omega)
        have := hmod b
        refine ⟨?_, ?_, ?_, by omega⟩
        · simpa using Groups.more (UInt8.not_lt.mp hb) hrest
        · simpa using hlen
        · simp [spelled, hspell]
    · intro hform
      obtain ⟨h, hlen, rfl, hlt⟩ := hform
      cases h with
      | @last b hb =>
        refine ⟨[b], [], b, rfl, rfl, .inl ⟨hb, .inr ⟨?_, rfl, by simp [spelled]⟩⟩⟩
        rw [payload_fits_iff hg (hmod b)]
        simpa [spelled] using hlt
      | @more b bs hb hrest =>
        have := hrest.length_pos
        simp only [List.length_cons] at hlen
        have := two_pow_of_groups hg (by omega)
        rw [spelled] at hlt
        exact ⟨[b], bs, b, rfl, rfl, .inr ⟨UInt8.not_lt.mpr hb, bs, [], spelled bs, by simp,
          ⟨hrest, by omega, rfl, by omega⟩, rfl, rfl⟩⟩

/-- Reading accepts exactly the forms of numbers of the given width. -/
theorem recognizes_unsigned (bits : Nat) :
    (unsigned bits).Recognizes (.fixed (IsUnsigned bits)) := by
  refine (recognizes_unsignedGroups bits (groupCount bits) bits rfl).congr fun p bs n => ?_
  exact ⟨fun ⟨h, hlen, hspell, hlt⟩ => ⟨h, hlen, hspell, hlt⟩,
    fun ⟨h, hlen, hspell, hlt⟩ => ⟨h, hlen, hspell, hlt⟩⟩

theorem recognizes_u32 : u32.Recognizes (.fixed U32Form) := by
  refine ((recognizes_unsigned 32).map _).congr fun p bs n => ⟨?_, ?_⟩
  · intro hform
    obtain ⟨a, h, rfl⟩ := hform
    have ha : (UInt32.ofNat a).toNat = a := UInt32.toNat_ofNat_of_lt' h.lt
    change IsUnsigned 32 bs _
    rwa [ha]
  · intro h
    exact ⟨n.toNat, h, by simp⟩

theorem recognizes_u64 : u64.Recognizes (.fixed fun bs n => IsUnsigned 64 bs n.toNat) := by
  refine ((recognizes_unsigned 64).map _).congr fun p bs n => ⟨?_, ?_⟩
  · intro hform
    obtain ⟨a, h, rfl⟩ := hform
    have ha : (UInt64.ofNat a).toNat = a := UInt64.toNat_ofNat_of_lt' h.lt
    change IsUnsigned 64 bs _
    rwa [ha]
  · intro h
    exact ⟨n.toNat, h, by simp⟩

/-! ## Reading integers -/

theorem spelledSigned_singleton (b : UInt8) : spelledSigned [b] = signedPayload b := by
  simp [spelledSigned, spelled, signedPayload]

/-- The groups behind the first one carry the sign. -/
theorem spelledSigned_cons (b : UInt8) {bs : Bytes} (h : 0 < bs.length) :
    spelledSigned (b :: bs) = (b.toNat % 128 : Nat) + 128 * spelledSigned bs := by
  have hmod := Nat.mod_lt b.toNat (show 0 < 128 by decide)
  have hhalf : 2 ^ (7 * (b :: bs).length - 1) = 128 * 2 ^ (7 * bs.length - 1) := by
    rw [List.length_cons, show 7 * (bs.length + 1) - 1 = 7 + (7 * bs.length - 1) by omega,
      Nat.pow_add]
  have hall : (2 : Int) ^ (7 * (b :: bs).length) = 128 * 2 ^ (7 * bs.length) := by
    rw [List.length_cons, show 7 * (bs.length + 1) = 7 + 7 * bs.length by omega, Int.pow_add]
    rfl
  unfold spelledSigned
  rw [hhalf, hall, spelled]
  by_cases hs : spelled bs < 2 ^ (7 * bs.length - 1)
  · rw [if_pos hs, if_pos (by omega)]
    omega
  · rw [if_neg hs, if_neg (by omega)]
    omega

theorem shiftRight_sign_iff (v : Int) (k : Nat) :
    (v >>> k = 0 ∨ v >>> k = -1) ↔ -2 ^ k ≤ v ∧ v < 2 ^ k := by
  have hpos : (0 : Int) < (2 ^ k : Nat) := by exact_mod_cast Nat.two_pow_pos k
  have hcast : ((2 ^ k : Nat) : Int) = 2 ^ k := by push_cast; rfl
  rw [Int.shiftRight_eq_div_pow, Int.ediv_eq_iff_of_pos hpos, Int.ediv_eq_iff_of_pos hpos]
  omega

theorem signedPayload_bounds (b : UInt8) : -64 ≤ signedPayload b ∧ signedPayload b < 64 := by
  have := Nat.mod_lt b.toNat (show 0 < 128 by decide)
  simp only [signedPayload]
  split <;> omega

/-- The check on the last permitted byte, which no earlier byte needs. -/
theorem sign_fits_iff {groups width : Nat} (hg : groups + 1 = (width + 6) / 7) {v : Int}
    (hv : -64 ≤ v ∧ v < 64) :
    ¬(groups = 0 ∧ v >>> (width - 1) ≠ 0 ∧ v >>> (width - 1) ≠ -1) ↔
      -2 ^ (width - 1) ≤ v ∧ v < 2 ^ (width - 1) := by
  rw [← shiftRight_sign_iff]
  by_cases h0 : groups = 0
  · simp only [h0, true_and, ne_eq]
    omega
  · have h128 : (2 : Int) ^ (width - 1) = 128 * 2 ^ (width - 1 - 7) := by
      rw [show width - 1 = 7 + (width - 1 - 7) by omega, Int.pow_add]
      simp
    have : (0 : Int) < 2 ^ (width - 1 - 7) := Int.pow_pos (by decide)
    simp only [h0, false_and, not_false_eq_true, true_iff]
    rw [shiftRight_sign_iff]
    omega

theorem recognizes_signedGroups (bits groups : Nat) :
    ∀ width, groups = (width + 6) / 7 → (signedGroups bits groups width).Recognizes
      (.fixed fun bs v => Groups bs ∧ bs.length ≤ groups ∧ spelledSigned bs = v ∧
        -2 ^ (width - 1) ≤ v ∧ v < 2 ^ (width - 1)) := by
  induction groups with
  | zero =>
    intro width _
    refine (Decoder.Recognizes.throw _).congr fun p bs v => ?_
    simp only [false_iff, not_and]
    intro h hlen
    have := h.length_pos
    omega
  | succ groups ih =>
    intro width hg
    have hgroups : groups = (width - 7 + 6) / 7 := by omega
    have hpow (h0 : groups ≠ 0) : (2 : Int) ^ (width - 1) = 128 * 2 ^ (width - 7 - 1) := by
      rw [show width - 1 = 7 + (width - 7 - 1) by omega, Int.pow_add]
      simp
    have hmod (b : UInt8) : b.toNat % 128 < 128 := Nat.mod_lt _ (by decide)
    unfold signedGroups
    refine ((Decoder.recognizes_byte.mapError _).bind fun b => .ite
      (fun _ => .ite (fun _ => .throw _) (fun _ => .pure _))
      (fun _ => (ih (width - 7) hgroups).bind fun v => .pure _)).congr fun p bs v => ⟨?_, ?_⟩
    · intro hform
      rcases hform with ⟨_, _, b, rfl, rfl, ⟨hb, ⟨-, hf⟩ | ⟨hfits, rfl, rfl⟩⟩ |
        ⟨hb, bs, _, v, rfl, ⟨hrest, hlen, hspell, hle, hlt⟩, rfl, rfl⟩⟩
      · exact hf.elim
      · rw [sign_fits_iff hg (signedPayload_bounds b)] at hfits
        exact ⟨.last hb, by simp, spelledSigned_singleton b, hfits⟩
      · have hpos := hrest.length_pos
        have := hpow (by omega)
        have := hmod b
        refine ⟨?_, ?_, ?_, by omega, by omega⟩
        · simpa using Groups.more (UInt8.not_lt.mp hb) hrest
        · simpa using hlen
        · simpa [hspell] using spelledSigned_cons b hpos
    · intro hform
      obtain ⟨h, hlen, rfl, hle, hlt⟩ := hform
      cases h with
      | @last b hb =>
        rw [spelledSigned_singleton] at hle hlt ⊢
        exact ⟨[b], [], b, rfl, rfl, .inl ⟨hb, .inr
          ⟨(sign_fits_iff hg (signedPayload_bounds b)).mpr ⟨hle, hlt⟩, rfl, rfl⟩⟩⟩
      | @more b bs hb hrest =>
        have hpos := hrest.length_pos
        simp only [List.length_cons] at hlen
        have := hpow (by omega)
        have := hmod b
        rw [spelledSigned_cons b hpos] at hle hlt ⊢
        exact ⟨[b], bs, b, rfl, rfl, .inr ⟨UInt8.not_lt.mpr hb, bs, [], spelledSigned bs, by simp,
          ⟨hrest, by omega, rfl, by omega, by omega⟩, rfl, rfl⟩⟩

/-- Reading accepts exactly the forms of integers of the given width. -/
theorem recognizes_signed (bits : Nat) : (signed bits).Recognizes (.fixed (IsSigned bits)) := by
  refine (recognizes_signedGroups bits (groupCount bits) bits rfl).congr fun p bs v => ?_
  exact ⟨fun ⟨h, hlen, hspell, hle, hlt⟩ => ⟨h, hlen, hspell, hle, hlt⟩,
    fun ⟨h, hlen, hspell, hle, hlt⟩ => ⟨h, hlen, hspell, hle, hlt⟩⟩

theorem recognizes_i32 : i32.Recognizes (.fixed fun bs v => IsSigned 32 bs v.toInt) := by
  refine ((recognizes_signed 32).map _).congr fun p bs v => ⟨?_, ?_⟩
  · intro hform
    obtain ⟨a, h, rfl⟩ := hform
    have ha : (Int32.ofInt a).toInt = a := Int32.toInt_ofInt_of_le h.le h.lt
    change IsSigned 32 bs _
    rwa [ha]
  · intro h
    exact ⟨v.toInt, h, by simp⟩

theorem recognizes_i64 : i64.Recognizes (.fixed fun bs v => IsSigned 64 bs v.toInt) := by
  refine ((recognizes_signed 64).map _).congr fun p bs v => ⟨?_, ?_⟩
  · intro hform
    obtain ⟨a, h, rfl⟩ := hform
    have ha : (Int64.ofInt a).toInt = a := Int64.toInt_ofInt_of_le h.le h.lt
    change IsSigned 64 bs _
    rwa [ha]
  · intro h
    exact ⟨v.toInt, h, by simp⟩

/-! ## Writing -/

theorem isUnsigned_encodeUnsigned {bits : Nat} (hbits : 0 < bits) (n : Nat) (h : n < 2 ^ bits) :
    IsUnsigned bits (encodeUnsigned n) n := by
  fun_induction encodeUnsigned n generalizing bits with
  | case1 n hn =>
    have hb : (UInt8.ofNat n).toNat = n := by
      rw [UInt8.toNat_ofNat']
      omega
    refine ⟨.last ?_, ?_, ?_, h⟩
    · rw [UInt8.lt_iff_toNat_lt, hb]
      exact hn
    · simp only [groupCount, List.length_cons, List.length_nil]
      omega
    · simp only [spelled, hb]
      omega
  | case2 n hn ih =>
    have h8 : 8 ≤ bits := by
      by_cases h8 : 8 ≤ bits
      · exact h8
      · have := Nat.pow_le_pow_right (show 0 < 2 by decide) (show bits ≤ 7 by omega)
        omega
    have hpow : 2 ^ bits = 128 * 2 ^ (bits - 7) := by
      rw [show bits = 7 + (bits - 7) by omega, Nat.pow_add]
      simp
    have hb : (UInt8.ofNat (n % 128 + 128)).toNat = n % 128 + 128 := by
      rw [UInt8.toNat_ofNat']
      omega
    obtain ⟨hgroups, hlen, hspell, -⟩ := ih (show 0 < bits - 7 by omega) (by omega)
    refine ⟨.more ?_ hgroups, ?_, ?_, h⟩
    · rw [UInt8.le_iff_toNat_le, hb]
      exact Nat.le_add_left _ _
    · simp only [groupCount, List.length_cons] at hlen ⊢
      omega
    · rw [spelled, hspell, hb]
      omega

theorem u32Form_encodeUnsigned (n : UInt32) : U32Form (encodeUnsigned n.toNat) n :=
  isUnsigned_encodeUnsigned (by decide) _ n.toNat_lt

theorem u32Form_encodeUnsigned_of_lt {n : Nat} (h : n < UInt32.size) :
    U32Form (encodeUnsigned n) (UInt32.ofNat n) := by
  have hform := u32Form_encodeUnsigned (UInt32.ofNat n)
  rwa [UInt32.toNat_ofNat_of_lt' h] at hform

theorem isSigned_encodeSigned {bits : Nat} (hbits : 0 < bits) (v : Int)
    (hle : -2 ^ (bits - 1) ≤ v) (hlt : v < 2 ^ (bits - 1)) :
    IsSigned bits (encodeSigned v) v := by
  induction v using encodeSigned.induct generalizing bits with
  | case1 v hv =>
    have hb : (UInt8.ofNat (v % 128).toNat).toNat = (v % 128).toNat := by
      rw [UInt8.toNat_ofNat']
      omega
    rw [encodeSigned, if_pos hv]
    refine ⟨.last ?_, ?_, ?_, hle, hlt⟩
    · rw [UInt8.lt_iff_toNat_lt, hb]
      show (v % 128).toNat < 128
      omega
    · simp only [groupCount, List.length_cons, List.length_nil]
      omega
    · rw [spelledSigned_singleton, signedPayload, hb]
      split <;> omega
  | case2 v hv ih =>
    have h8 : 8 ≤ bits := by
      by_cases h8 : 8 ≤ bits
      · exact h8
      · have := Nat.pow_le_pow_right (show 0 < 2 by decide) (show bits - 1 ≤ 6 by omega)
        have : (2 : Int) ^ (bits - 1) ≤ 2 ^ 6 := by exact_mod_cast this
        omega
    have hpow : (2 : Int) ^ (bits - 1) = 128 * 2 ^ (bits - 7 - 1) := by
      rw [show bits - 1 = 7 + (bits - 7 - 1) by omega, Int.pow_add]
      simp
    have hb : (UInt8.ofNat ((v % 128).toNat + 128)).toNat = (v % 128).toNat + 128 := by
      rw [UInt8.toNat_ofNat']
      omega
    obtain ⟨hgroups, hlen, hspell, -, -⟩ := ih (show 0 < bits - 7 by omega) (by omega) (by omega)
    rw [encodeSigned, if_neg hv]
    refine ⟨.more ?_ hgroups, ?_, ?_, hle, hlt⟩
    · rw [UInt8.le_iff_toNat_le, hb]
      exact Nat.le_add_left _ _
    · simp only [groupCount, List.length_cons] at hlen ⊢
      omega
    · rw [spelledSigned_cons _ hgroups.length_pos, hspell, hb]
      omega

theorem isSigned_encode_int32 (v : Int32) : IsSigned 32 (encodeSigned v.toInt) v.toInt :=
  isSigned_encodeSigned (by decide) _ v.le_toInt v.toInt_lt

theorem isSigned_encode_int64 (v : Int64) : IsSigned 64 (encodeSigned v.toInt) v.toInt :=
  isSigned_encodeSigned (by decide) _ v.le_toInt v.toInt_lt

end WasmBinary.Leb128
