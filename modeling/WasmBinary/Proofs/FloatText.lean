import Mathlib.Algebra.Group.Nat.Defs
import WasmBinary.Proofs.Words

/-!
# The text of floating-point constants

A constant is written as the shortest decimal that reads back. No other pattern has that text: a decimal
text stands for one number, the number lies in the interval of the pattern that it is written for, and
the intervals of two patterns have no number in common. They meet half way between two neighbours, and
that place belongs to the one of them that is even.

* `Decimal.Interval.holds_coarsest`: what is written lies in the interval.
* `Decimal.write_inj`: a decimal text stands for one number.
* `Ieee754.Format.units_lt_units`, `not_holds_interval`: magnitudes and their intervals are ordered.
* `Ieee754.Format.text_inj`, `isWord_text`: the text of a pattern that is no NaN.
-/
namespace WasmBinary

namespace Text.Decimal

/-! ## Decimal texts -/

/-- The number `n * 10 ^ k / 10 ^ places`. -/
def write (places : Nat) (number : Nat × Nat) : String :=
  if places ≤ number.2 then toString (number.1 * Nat.pow 10 (number.2 - places))
  else fixed (places - number.2) number.1

theorem shortest_eq_write (i : Interval) (places : Nat) :
    i.shortest places = write places (i.coarsest i.bound) := rfl

/-- The digits behind the point. -/
def fraction (places n : Nat) : List Char :=
  let digits := Nat.toDigits 10 (n % Nat.pow 10 places)
  List.replicate (places - digits.length) '0' ++ digits

theorem toList_fixed {places : Nat} (h : 0 < places) (n : Nat) : (fixed places n).toList =
    (toString (n / Nat.pow 10 places)).toList ++ '.' :: fraction places n := by
  rw [fixed, if_neg (by omega), String.toList_append, String.toList_append, String.toList_ofList,
    String.toList_ofList, List.append_assoc]
  rfl

theorem length_fraction {places : Nat} (h : 0 < places) (n : Nat) :
    (fraction places n).length = places := by
  have hpos : 0 < Nat.pow 10 places := Nat.pow_pos (by decide)
  have hle : (Nat.toDigits 10 (n % Nat.pow 10 places)).length ≤ places :=
    (Nat.length_toDigits_le_iff (by decide) h).mpr (Nat.mod_lt n hpos)
  rw [fraction, List.length_append, List.length_replicate]
  omega

theorem ofDigitChars_fraction (places n : Nat) :
    Nat.ofDigitChars 10 (fraction places n) 0 = n % Nat.pow 10 places := by
  rw [fraction, Nat.ofDigitChars_append, Nat.ofDigitChars_replicate_zero, Nat.mul_zero,
    Nat.ofDigitChars_ten_toDigits]

theorem isDigit_of_mem_fraction {places n : Nat} {c : Char} (h : c ∈ fraction places n) :
    c.isDigit = true := by
  rcases List.mem_append.mp h with h | h
  · rw [List.eq_of_mem_replicate h]
    decide
  · exact Nat.isDigit_of_mem_toDigits (by decide) (by decide) h

/-- A text with a point tells how many places there are, and the number. -/
theorem fixed_inj {places places' n n' : Nat} (hp : 0 < places) (hp' : 0 < places')
    (h : fixed places n = fixed places' n') : places = places' ∧ n = n' := by
  have hlist := congrArg String.toList h
  rw [toList_fixed hp, toList_fixed hp'] at hlist
  have hpoint (l : List Char) : ∀ c ∈ ('.' :: l).head?, c.isDigit = false := by
    rintro _ ⟨⟩
    decide
  obtain ⟨hwhole, hfraction⟩ := List.append_inj_of_span (fun _ => isDigit_of_mem_toString)
    (fun _ => isDigit_of_mem_toString) (hpoint _) (hpoint _) hlist
  obtain ⟨-, hfraction⟩ := List.cons.inj hfraction
  have hplaces := congrArg List.length hfraction
  rw [length_fraction hp, length_fraction hp'] at hplaces
  subst hplaces
  have hmod := congrArg (Nat.ofDigitChars 10 · 0) hfraction
  simp only [ofDigitChars_fraction] at hmod
  have hdiv := toString_inj (String.toList_inj.mp hwhole)
  refine ⟨rfl, ?_⟩
  rw [← Nat.div_add_mod n (Nat.pow 10 places), hdiv, hmod, Nat.div_add_mod]

/-- A whole number has no point. -/
theorem fixed_ne_toString {places : Nat} (h : 0 < places) (n m : Nat) :
    fixed places n ≠ toString m := by
  intro heq
  have hdigit : '.'.isDigit = true := by
    refine isDigit_of_mem_toString (n := m) ?_
    rw [← heq, toList_fixed h]
    simp
  cases hdigit

/-- A decimal text stands for one number. -/
theorem write_inj {places : Nat} {a b : Nat × Nat} (h : write places a = write places b) :
    a.1 * Nat.pow 10 a.2 = b.1 * Nat.pow 10 b.2 := by
  obtain ⟨n, k⟩ := a
  obtain ⟨m, l⟩ := b
  simp only [write] at h ⊢
  by_cases hk : places ≤ k <;> by_cases hl : places ≤ l
  · rw [if_pos hk, if_pos hl] at h
    have hwhole := congrArg (· * Nat.pow 10 places) (toString_inj h)
    simp only [Nat.mul_assoc, Nat.pow_eq, ← Nat.pow_add, Nat.sub_add_cancel hk,
      Nat.sub_add_cancel hl] at hwhole
    exact hwhole
  · rw [if_pos hk, if_neg hl] at h
    exact absurd h.symm (fixed_ne_toString (by omega) m _)
  · rw [if_neg hk, if_pos hl] at h
    exact absurd h (fixed_ne_toString (by omega) n _)
  · rw [if_neg hk, if_neg hl] at h
    obtain ⟨hplaces, rfl⟩ := fixed_inj (by omega) (by omega) h
    rw [show k = l by omega]

/-- A decimal text starts with a digit and has nothing else in it but digits and a point. -/
theorem mem_write {places : Nat} (a : Nat × Nat) {c : Char} (h : c ∈ (write places a).toList) :
    c.isDigit = true ∨ c = '.' := by
  rw [write] at h
  split at h
  · exact .inl (isDigit_of_mem_toString h)
  · rw [toList_fixed (by omega), List.mem_append, List.mem_cons] at h
    rcases h with h | rfl | h
    · exact .inl (isDigit_of_mem_toString h)
    · exact .inr rfl
    · exact .inl (isDigit_of_mem_fraction h)

/-! ## Intervals -/

namespace Interval

theorem holds_iff {i : Interval} {n : Nat} : i.holds n = true ↔
    i.twiceLow ≤ 2 * n ∧ 2 * n ≤ i.twiceHigh ∧
      (i.closed = false → i.twiceLow < 2 * n ∧ 2 * n < i.twiceHigh) := by
  rw [holds]
  cases i.closed <;> simp
  omega

theorem holds_of_nearest? {i : Interval} {step n : Nat} (h : i.nearest? step = some n) :
    i.holds (n * step) = true := by
  simp only [nearest?] at h
  split at h
  · rename_i hbelow
    split at h <;> cases h
    · rename_i habove
      exact habove.1
    · exact hbelow
  · split at h
    · rename_i habove
      cases h
      exact habove
    · cases h

/-- The number that is written lies in the interval. -/
theorem holds_coarsest {i : Interval} (hvalue : i.holds i.value = true) : ∀ k : Nat,
    i.holds ((i.coarsest k).1 * Nat.pow 10 (i.coarsest k).2) = true
  | 0 => by simpa [coarsest] using hvalue
  | k + 1 => by
    rw [coarsest]
    split
    · rename_i hnearest
      exact holds_of_nearest? hnearest
    · exact holds_coarsest hvalue k

end Interval

end Text.Decimal

namespace Ieee754.Format

open Text.Decimal (Interval write write_inj mem_write shortest_eq_write)

/-! ## The order of magnitudes -/

theorem units_subnormal (f : Format) {fraction : Nat} (h : fraction < 2 ^ f.fractionBits) :
    f.units fraction = fraction := by
  rw [units, Nat.shiftRight_eq_div_pow, Nat.div_eq_of_lt h, if_pos rfl, Nat.shiftLeft_eq,
    Nat.one_mul, Nat.mod_eq_of_lt h]

theorem units_normal (f : Format) (exponent : Nat) {fraction : Nat}
    (h : fraction < 2 ^ f.fractionBits) :
    f.units (2 ^ f.fractionBits * (exponent + 1) + fraction) =
      (2 ^ f.fractionBits + fraction) * 2 ^ exponent := by
  have hpos : 0 < 2 ^ f.fractionBits := Nat.pow_pos (by decide)
  simp only [units, Nat.shiftRight_eq_div_pow, Nat.shiftLeft_eq, Nat.one_mul]
  rw [Nat.mul_add_div hpos, Nat.div_eq_of_lt h, Nat.mul_add_mod, Nat.mod_eq_of_lt h,
    if_neg (by omega), Nat.add_zero, Nat.add_sub_cancel]

/-- The next magnitude is a larger number, within an exponent and across its end. -/
theorem units_lt_succ (f : Format) (magnitude : Nat) :
    f.units magnitude < f.units (magnitude + 1) := by
  have hpos : 0 < 2 ^ f.fractionBits := Nat.pow_pos (by decide)
  rw [← Nat.div_add_mod magnitude (2 ^ f.fractionBits)]
  have hfraction := Nat.mod_lt magnitude hpos
  generalize magnitude / 2 ^ f.fractionBits = exponent
  generalize magnitude % 2 ^ f.fractionBits = fraction at hfraction
  have hlast (hend : ¬ fraction + 1 < 2 ^ f.fractionBits) :
      2 ^ f.fractionBits * exponent + fraction + 1 = 2 ^ f.fractionBits * (exponent + 1) + 0 := by
    rw [Nat.mul_succ]
    omega
  cases exponent with
  | zero =>
    rw [Nat.mul_zero, Nat.zero_add, units_subnormal f hfraction]
    by_cases hend : fraction + 1 < 2 ^ f.fractionBits
    · rw [units_subnormal f hend]
      exact Nat.lt_succ_self _
    · rw [Nat.mul_zero, Nat.zero_add] at hlast
      rw [hlast hend, units_normal f 0 hpos]
      simpa using hfraction
  | succ e =>
    have hpow : 0 < 2 ^ e := Nat.pow_pos (by decide)
    rw [units_normal f e hfraction]
    by_cases hend : fraction + 1 < 2 ^ f.fractionBits
    · rw [Nat.add_assoc, units_normal f e hend]
      exact Nat.mul_lt_mul_of_pos_right (by omega) hpow
    · rw [hlast hend, units_normal f (e + 1) hpos]
      calc (2 ^ f.fractionBits + fraction) * 2 ^ e
          < (2 ^ f.fractionBits * 2) * 2 ^ e := Nat.mul_lt_mul_of_pos_right (by omega) hpow
        _ = (2 ^ f.fractionBits + 0) * 2 ^ (e + 1) := by
          rw [Nat.add_zero, Nat.pow_succ, Nat.mul_assoc, Nat.mul_comm 2]

theorem units_lt_units (f : Format) {a b : Nat} (h : a < b) : f.units a < f.units b := by
  induction b with
  | zero => omega
  | succ b ih =>
    have hstep := units_lt_succ f b
    by_cases hab : a = b
    · rwa [hab]
    · exact Nat.lt_trans (ih (by omega)) hstep

/-! ## Intervals -/

/-- A number lies in its own interval, and not at an end. -/
theorem holds_value (f : Format) {magnitude : Nat} (h : magnitude ≠ 0) :
    (f.interval magnitude).holds (f.interval magnitude).value = true := by
  have hlow := units_lt_units f (Nat.sub_one_lt h)
  have hhigh := units_lt_succ f magnitude
  have hscale : 0 < Nat.pow 5 f.places := Nat.pow_pos (by decide)
  have hbelow := Nat.mul_lt_mul_of_pos_right (Nat.add_lt_add_right hlow (f.units magnitude)) hscale
  have habove := Nat.mul_lt_mul_of_pos_right (Nat.add_lt_add_left hhigh (f.units magnitude)) hscale
  rw [← Nat.two_mul, Nat.mul_assoc] at hbelow habove
  exact Interval.holds_iff.mpr
    ⟨Nat.le_of_lt hbelow, Nat.le_of_lt habove, fun _ => ⟨hbelow, habove⟩⟩

/-- What lies in the interval of a positive magnitude is positive. -/
theorem ne_zero_of_holds (f : Format) {magnitude n : Nat} (h : magnitude ≠ 0)
    (hn : (f.interval magnitude).holds n = true) : n ≠ 0 := by
  have hunits : 0 < f.units magnitude :=
    Nat.zero_lt_of_lt (units_lt_units f (Nat.pos_of_ne_zero h))
  have hlow : 0 < (f.interval magnitude).twiceLow :=
    Nat.mul_pos (by omega) (Nat.pow_pos (by decide))
  have hle := (Interval.holds_iff.mp hn).1
  omega

/-- No number lies in the intervals of two magnitudes. -/
theorem not_holds_interval (f : Format) {a b n : Nat} (h : a < b)
    (ha : (f.interval a).holds n = true) (hb : (f.interval b).holds n = true) : False := by
  obtain ⟨-, hhigh, hopen⟩ := Interval.holds_iff.mp ha
  obtain ⟨hlow, -, hopen'⟩ := Interval.holds_iff.mp hb
  have hscale : 0 < Nat.pow 5 f.places := Nat.pow_pos (by decide)
  by_cases hnext : b = a + 1
  · -- The place half way belongs to the even one of the two only.
    have hhalf : (f.interval a).twiceHigh = (f.interval b).twiceLow := by
      subst hnext
      rfl
    rcases Nat.mod_two_eq_zero_or_one a with hmod | hmod
    · have hclosed : (f.interval b).closed = false := decide_eq_false (by omega)
      have := (hopen' hclosed).1
      omega
    · have hclosed : (f.interval a).closed = false := decide_eq_false (by omega)
      have := (hopen hclosed).2
      omega
  · have hapart : (f.interval a).twiceHigh < (f.interval b).twiceLow :=
      Nat.mul_lt_mul_of_pos_right (Nat.add_lt_add (units_lt_units f (by omega))
        (units_lt_units f (by omega))) hscale
    omega

theorem eq_of_holds (f : Format) {a b n : Nat} (ha : (f.interval a).holds n = true)
    (hb : (f.interval b).holds n = true) : a = b := by
  rcases Nat.lt_trichotomy a b with h | h | h
  · exact (not_holds_interval f h ha hb).elim
  · exact h
  · exact (not_holds_interval f h hb ha).elim

/-! ## Patterns -/

/-- The text of a magnitude that is no NaN. -/
def magnitudeText (f : Format) (magnitude : Nat) : String :=
  if magnitude = f.infinity then "inf"
  else if magnitude = 0 then "0"
  else (f.interval magnitude).shortest f.places

theorem text_eq (f : Format) {bits : Nat} (h : f.isNaN bits = false) :
    f.text bits = (if f.isNegative bits then "-" else "") ++ f.magnitudeText (f.magnitude bits) := by
  have hle : ¬ f.infinity < f.magnitude bits := of_decide_eq_false h
  simp only [text, magnitudeText, if_neg hle]
  split
  · rfl
  · split <;> rfl

/-- A finite magnitude is written as a number of its interval. -/
theorem exists_magnitudeText (f : Format) {magnitude : Nat} (h : magnitude ≠ f.infinity) :
    ∃ number : Nat × Nat, f.magnitudeText magnitude = write f.places number ∧
      (magnitude = 0 ∧ number.1 * Nat.pow 10 number.2 = 0 ∨
        magnitude ≠ 0 ∧ (f.interval magnitude).holds (number.1 * Nat.pow 10 number.2) = true) := by
  rw [magnitudeText, if_neg h]
  by_cases hzero : magnitude = 0
  · refine ⟨(0, f.places), ?_, .inl ⟨hzero, Nat.zero_mul _⟩⟩
    rw [if_pos hzero, write, if_pos (Nat.le_refl _), Nat.zero_mul]
    rfl
  · rw [if_neg hzero]
    exact ⟨_, shortest_eq_write _ _, .inr ⟨hzero, Interval.holds_coarsest (holds_value f hzero) _⟩⟩

theorem write_ne_inf (places : Nat) (number : Nat × Nat) : write places number ≠ "inf" := by
  intro h
  have hmem : 'i' ∈ (write places number).toList := by
    rw [h]
    decide
  rcases mem_write number hmem with hdigit | hpoint
  · cases hdigit
  · cases hpoint

theorem magnitudeText_inj (f : Format) {a b : Nat} (h : f.magnitudeText a = f.magnitudeText b) :
    a = b := by
  have hinf : f.magnitudeText f.infinity = "inf" := if_pos rfl
  by_cases ha : a = f.infinity <;> by_cases hb : b = f.infinity
  · rw [ha, hb]
  · obtain ⟨number, hwrite, -⟩ := exists_magnitudeText f hb
    rw [ha, hinf, hwrite] at h
    exact absurd h.symm (write_ne_inf _ number)
  · obtain ⟨number, hwrite, -⟩ := exists_magnitudeText f ha
    rw [hb, hinf, hwrite] at h
    exact absurd h (write_ne_inf _ number)
  · obtain ⟨x, hx, hxvalue⟩ := exists_magnitudeText f ha
    obtain ⟨y, hy, hyvalue⟩ := exists_magnitudeText f hb
    rw [hx, hy] at h
    have hsame := write_inj h
    rw [hsame] at hxvalue
    rcases hxvalue with ⟨rfl, hzero⟩ | ⟨hane, hxholds⟩ <;>
      rcases hyvalue with ⟨rfl, hzero'⟩ | ⟨hbne, hyholds⟩
    · rfl
    · exact absurd hzero (ne_zero_of_holds f hbne hyholds)
    · exact absurd hzero' (ne_zero_of_holds f hane hxholds)
    · exact eq_of_holds f hxholds hyholds

theorem mem_magnitudeText (f : Format) {magnitude : Nat} {c : Char}
    (h : c ∈ (f.magnitudeText magnitude).toList) : c ∈ "inf".toList ∨ c.isDigit = true ∨ c = '.' := by
  by_cases hinf : magnitude = f.infinity
  · rw [magnitudeText, if_pos hinf] at h
    exact .inl h
  · obtain ⟨number, hwrite, -⟩ := exists_magnitudeText f hinf
    rw [hwrite] at h
    exact .inr (mem_write number h)

/-- A pattern is its sign and its magnitude. -/
theorem eq_of_sign_of_magnitude (f : Format) {a b : Nat}
    (ha : a < 2 ^ (f.exponentBits + f.fractionBits + 1))
    (hb : b < 2 ^ (f.exponentBits + f.fractionBits + 1))
    (hsign : f.isNegative a = f.isNegative b) (hmagnitude : f.magnitude a = f.magnitude b) :
    a = b := by
  simp only [isNegative, Nat.testBit_eq_decide_div_mod_eq] at hsign
  simp only [magnitude, Nat.shiftLeft_eq, Nat.one_mul] at hmagnitude
  rw [Nat.pow_succ, Nat.mul_comm] at ha hb
  have hposition : 0 < 2 ^ (f.exponentBits + f.fractionBits) := Nat.pow_pos (by decide)
  generalize 2 ^ (f.exponentBits + f.fractionBits) = position at *
  have hatop : a / position < 2 := Nat.div_lt_of_lt_mul (by omega)
  have hbtop : b / position < 2 := Nat.div_lt_of_lt_mul (by omega)
  have hdiv : a / position = b / position := by
    rw [decide_eq_decide, Nat.mod_eq_of_lt hatop, Nat.mod_eq_of_lt hbtop] at hsign
    generalize a / position = x at *
    generalize b / position = y at *
    omega
  rw [← Nat.div_add_mod a position, ← Nat.div_add_mod b position, hdiv, hmagnitude]

/-- Two patterns that are no NaNs have different texts. -/
theorem text_inj (f : Format) {a b : Nat} (ha : a < 2 ^ (f.exponentBits + f.fractionBits + 1))
    (hb : b < 2 ^ (f.exponentBits + f.fractionBits + 1)) (hna : f.isNaN a = false)
    (hnb : f.isNaN b = false) (h : f.text a = f.text b) : a = b := by
  rw [text_eq f hna, text_eq f hnb] at h
  have hminus (magnitude : Nat) (s : String) : "-" ++ s ≠ "" ++ f.magnitudeText magnitude := by
    intro heq
    rw [String.empty_append] at heq
    have hmem : '-' ∈ (f.magnitudeText magnitude).toList := by
      rw [← heq, String.toList_append]
      exact List.mem_cons_self
    rcases mem_magnitudeText f hmem with hmem | hdigit | hpoint
    · revert hmem
      decide
    · cases hdigit
    · cases hpoint
  have hsign : f.isNegative a = f.isNegative b := by
    cases hsign : f.isNegative a <;> cases hsign' : f.isNegative b
    · rfl
    · rw [hsign, hsign'] at h
      exact absurd h.symm (hminus _ _)
    · rw [hsign, hsign'] at h
      exact absurd h (hminus _ _)
    · rfl
  rw [hsign, String.append_right_inj] at h
  exact eq_of_sign_of_magnitude f ha hb hsign (magnitudeText_inj f h)

theorem isWord_text (f : Format) {bits : Nat} (h : f.isNaN bits = false) :
    Text.IsWord (f.text bits) := by
  rw [text_eq f h]
  refine Text.IsWord.append ?_ fun c hc => ?_
  · split
    · exact Text.isWord_minus
    · exact fun c hc => (nomatch hc)
  · rcases mem_magnitudeText f hc with hinf | hdigit | rfl
    · have hall : Text.IsWord "inf" := by decide
      exact hall c hinf
    · exact Text.isWordChar_of_isDigit hdigit
    · decide

end Ieee754.Format

namespace Ieee754

theorem F32.text_inj {x y : F32} (hx : single.isNaN x.bits.toNat = false)
    (hy : single.isNaN y.bits.toNat = false) (h : x.text = y.text) : x = y := by
  have hbits := single.text_inj x.bits.toNat_lt y.bits.toNat_lt hx hy h
  exact congrArg F32.mk (UInt32.toNat_inj.mp hbits)

theorem F64.text_inj {x y : F64} (hx : double.isNaN x.bits.toNat = false)
    (hy : double.isNaN y.bits.toNat = false) (h : x.text = y.text) : x = y := by
  have hbits := double.text_inj x.bits.toNat_lt y.bits.toNat_lt hx hy h
  exact congrArg F64.mk (UInt64.toNat_inj.mp hbits)

end Ieee754

end WasmBinary
