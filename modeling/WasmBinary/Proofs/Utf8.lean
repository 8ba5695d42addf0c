import Mathlib.Tactic.SplitIfs
import WasmBinary.Text
import WasmBinary.Proofs.Outcomes

/-!
# UTF-8 back and forth

The reader of UTF-8 accepts exactly the bytes that texts have, and gives the text back.

* `Text.Utf8.Sequence`: the byte strings of which the reader makes one character, and its number.
* `Text.Utf8.sequence_iff`: they are the bytes of the characters.
* `Text.Utf8.decode_eq_ok_iff`: whole texts.
-/
namespace WasmBinary.Text.Utf8

/-! ## Ranges -/

theorem toNat_ofNat {n : Nat} (h : n < 256) : (UInt8.ofNat n).toNat = n := UInt8.toNat_ofNat_of_lt' h

theorem followers?_eq_some_iff {a : UInt8} {n : Nat} : followers? a = some n ↔
    n = 0 ∧ a.toNat < 0x80 ∨ n = 1 ∧ 0xC2 ≤ a.toNat ∧ a.toNat ≤ 0xDF ∨
      n = 2 ∧ 0xE0 ≤ a.toNat ∧ a.toNat ≤ 0xEF ∨ n = 3 ∧ 0xF0 ≤ a.toNat ∧ a.toNat ≤ 0xF4 := by
  simp only [followers?, UInt8.lt_iff_toNat_lt, UInt8.le_iff_toNat_le, UInt8.reduceToNat]
  split_ifs <;> simp <;> omega

theorem isSecond_iff {a b : UInt8} : isSecond a b = true ↔
    (0x80 ≤ b.toNat ∧ b.toNat ≤ 0xBF) ∧ (a.toNat = 0xE0 → 0xA0 ≤ b.toNat) ∧
      (a.toNat = 0xED → b.toNat ≤ 0x9F) ∧ (a.toNat = 0xF0 → 0x90 ≤ b.toNat) ∧
      (a.toNat = 0xF4 → b.toNat ≤ 0x8F) := by
  simp only [isSecond, Bool.and_eq_true, decide_eq_true_eq, UInt8.le_iff_toNat_le, ← UInt8.toNat_inj,
    UInt8.reduceToNat]
  split_ifs <;> simp <;> omega

theorem isContinuation_iff {b : UInt8} : isContinuation b = true ↔ 0x80 ≤ b.toNat ∧ b.toNat ≤ 0xBF := by
  simp [isContinuation, UInt8.le_iff_toNat_le]

/-! ## One character -/

/-- The byte strings of which the reader makes one character, and the number of the character. -/
inductive Sequence : Bytes → Nat → Prop
  | one {a : UInt8} (ha : followers? a = some 0) : Sequence [a] a.toNat
  | two {a b : UInt8} (ha : followers? a = some 1) (hb : isSecond a b = true) :
      Sequence [a, b] (a.toNat % 32 * 64 + payload b)
  | three {a b c : UInt8} (ha : followers? a = some 2) (hb : isSecond a b = true)
      (hc : isContinuation c = true) :
      Sequence [a, b, c] ((a.toNat % 16 * 64 + payload b) * 64 + payload c)
  | four {a b c d : UInt8} (ha : followers? a = some 3) (hb : isSecond a b = true)
      (hc : isContinuation c = true) (hd : isContinuation d = true) :
      Sequence [a, b, c, d] (((a.toNat % 8 * 64 + payload b) * 64 + payload c) * 64 + payload d)

theorem Sequence.decodeFrom_append {bs : Bytes} {n : Nat} (h : Sequence bs n) (index : Nat)
    (rest : Bytes) : decodeFrom index (bs ++ rest) =
      (Char.ofNat n :: ·) <$> decodeFrom (index + bs.length) rest := by
  cases h with
  | one ha => simp [decodeFrom, ha]
  | two ha hb => simp [decodeFrom, ha, hb]
  | three ha hb hc => simp [decodeFrom, ha, hb, hc]
  | four ha hb hc hd => simp [decodeFrom, ha, hb, hc, hd]

/-- Bytes that can be read start with the bytes of their first character. -/
theorem exists_sequence_of_decodeFrom {index : Nat} {bs : Bytes} {cs : List Char}
    (h : decodeFrom index bs = .ok cs) (hbs : bs ≠ []) :
    ∃ first n rest cs', Sequence first n ∧ bs = first ++ rest ∧ cs = Char.ofNat n :: cs' ∧
      decodeFrom (index + first.length) rest = .ok cs' := by
  unfold decodeFrom at h
  split at h
  · exact absurd rfl hbs
  · rename_i a rest
    split at h
    · cases h
    · rename_i ha
      obtain ⟨cs', hrest, rfl⟩ := Except.map_eq_ok.mp h
      exact ⟨_, _, _, cs', .one ha, rfl, rfl, hrest⟩
    · cases h
    · rename_i b rest ha
      split at h <;> rename_i hb
      · obtain ⟨cs', hrest, rfl⟩ := Except.map_eq_ok.mp h
        exact ⟨_, _, rest, cs', .two ha hb, rfl, rfl, hrest⟩
      · cases h
    · rename_i b rest ha
      split at h <;> rename_i hb
      · split at h
        · cases h
        · rename_i c rest
          split at h <;> rename_i hc
          · obtain ⟨cs', hrest, rfl⟩ := Except.map_eq_ok.mp h
            exact ⟨_, _, rest, cs', .three ha hb hc, rfl, rfl, hrest⟩
          · cases h
      · cases h
    · rename_i k b rest h0 h1 h2 ha
      have hk : k = 3 := by
        rcases followers?_eq_some_iff.mp ha with ⟨hk, -⟩ | ⟨hk, -⟩ | ⟨hk, -⟩ | ⟨hk, -⟩
        · exact absurd hk h0
        · exact absurd hk h1
        · exact absurd hk h2
        · exact hk
      subst hk
      split at h <;> rename_i hb
      · split at h
        · cases h
        · rename_i c rest
          split at h <;> rename_i hc
          · split at h
            · cases h
            · rename_i d rest
              split at h <;> rename_i hd
              · obtain ⟨cs', hrest, rfl⟩ := Except.map_eq_ok.mp h
                exact ⟨_, _, rest, cs', .four ha hb hc hd, rfl, rfl, hrest⟩
              · cases h
          · cases h
      · cases h

/-- A number is that of a character if it is small enough and not that of a surrogate. -/
theorem Sequence.isValidChar {bs : Bytes} {n : Nat} (h : Sequence bs n) : n.isValidChar := by
  unfold Nat.isValidChar
  cases h with
  | one ha =>
    simp only [followers?_eq_some_iff] at ha
    omega
  | two ha hb =>
    simp only [followers?_eq_some_iff, isSecond_iff] at ha hb
    unfold payload
    omega
  | three ha hb hc =>
    simp only [followers?_eq_some_iff, isSecond_iff, isContinuation_iff] at ha hb hc
    unfold payload
    omega
  | four ha hb hc hd =>
    simp only [followers?_eq_some_iff, isSecond_iff, isContinuation_iff] at ha hb hc hd
    unfold payload
    omega

theorem Sequence.of_eq {bs : Bytes} {n m : Nat} (h : Sequence bs n) (hn : n = m) : Sequence bs m :=
  hn ▸ h

/-- The bytes of a character are those of its number. -/
theorem sequence_encodeChar (c : Char) : Sequence (String.utf8EncodeChar c) c.toNat := by
  have hvalid : c.val.toNat < 0xD800 ∨ 0xDFFF < c.val.toNat ∧ c.val.toNat < 0x110000 := c.valid
  simp only [String.utf8EncodeChar, Char.toNat]
  generalize c.val.toNat = v at *
  split_ifs with h1 h2 h3
  · refine (Sequence.one ?_).of_eq ?_
    · rw [followers?_eq_some_iff, toNat_ofNat (by omega)]
      omega
    · exact toNat_ofNat (by omega)
  · refine (Sequence.two ?_ ?_).of_eq ?_
    · rw [followers?_eq_some_iff, toNat_ofNat (by omega)]
      omega
    · rw [isSecond_iff]
      simp (disch := omega) only [toNat_ofNat]
      omega
    · simp (disch := omega) only [payload, toNat_ofNat]
      omega
  · refine (Sequence.three ?_ ?_ ?_).of_eq ?_
    · rw [followers?_eq_some_iff, toNat_ofNat (by omega)]
      omega
    · rw [isSecond_iff]
      simp (disch := omega) only [toNat_ofNat]
      omega
    · rw [isContinuation_iff, toNat_ofNat (by omega)]
      omega
    · simp (disch := omega) only [payload, toNat_ofNat]
      omega
  · refine (Sequence.four ?_ ?_ ?_ ?_).of_eq ?_
    · rw [followers?_eq_some_iff, toNat_ofNat (by omega)]
      omega
    · rw [isSecond_iff]
      simp (disch := omega) only [toNat_ofNat]
      omega
    · rw [isContinuation_iff, toNat_ofNat (by omega)]
      omega
    · rw [isContinuation_iff, toNat_ofNat (by omega)]
      omega
    · simp (disch := omega) only [payload, toNat_ofNat]
      omega

theorem toNat_ofNat_of_isValidChar {n : Nat} (h : n.isValidChar) : (Char.ofNat n).val.toNat = n := by
  unfold Char.ofNat
  rw [dif_pos h]
  rfl

theorem eq_ofNat_iff {a : UInt8} {n : Nat} (hn : n < 256) : a = UInt8.ofNat n ↔ a.toNat = n := by
  rw [← UInt8.toNat_inj, toNat_ofNat hn]

/-- The characters have exactly the byte strings of which the reader makes one. -/
theorem sequence_iff {bs : Bytes} {n : Nat} :
    Sequence bs n ↔ n.isValidChar ∧ bs = String.utf8EncodeChar (Char.ofNat n) := by
  constructor
  · intro h
    have hvalid := h.isValidChar
    refine ⟨hvalid, ?_⟩
    simp only [String.utf8EncodeChar, toNat_ofNat_of_isValidChar hvalid]
    cases h with
    | one ha =>
      simp only [followers?_eq_some_iff] at ha
      rw [if_pos (by omega), UInt8.ofNat_toNat]
    | @two a b ha hb =>
      have ha : 0xC2 ≤ a.toNat ∧ a.toNat ≤ 0xDF := by simpa [followers?_eq_some_iff] using ha
      obtain ⟨hb, -⟩ := isSecond_iff.mp hb
      unfold payload
      rw [if_neg (by omega), if_pos (by omega)]
      simp (disch := omega) only [List.cons.injEq, eq_ofNat_iff, and_true]
      omega
    | @three a b c ha hb hc =>
      have ha : 0xE0 ≤ a.toNat ∧ a.toNat ≤ 0xEF := by simpa [followers?_eq_some_iff] using ha
      obtain ⟨hb, hoverlong, -⟩ := isSecond_iff.mp hb
      have hc := isContinuation_iff.mp hc
      unfold payload
      rw [if_neg (by omega), if_neg (by omega), if_pos (by omega)]
      clear hoverlong
      simp (disch := omega) only [List.cons.injEq, eq_ofNat_iff, and_true]
      omega
    | @four a b c d ha hb hc hd =>
      have ha : 0xF0 ≤ a.toNat ∧ a.toNat ≤ 0xF4 := by simpa [followers?_eq_some_iff] using ha
      obtain ⟨hb, -, -, hoverlong, -⟩ := isSecond_iff.mp hb
      have hc := isContinuation_iff.mp hc
      have hd := isContinuation_iff.mp hd
      unfold payload
      rw [if_neg (by omega), if_neg (by omega), if_neg (by omega)]
      clear hoverlong
      simp (disch := omega) only [List.cons.injEq, eq_ofNat_iff, and_true]
      omega
  · rintro ⟨hvalid, rfl⟩
    exact (sequence_encodeChar _).of_eq (toNat_ofNat_of_isValidChar hvalid)

/-! ## Texts -/

theorem decodeFrom_encode (cs : List Char) : ∀ index,
    decodeFrom index (cs.flatMap String.utf8EncodeChar) = .ok cs := by
  induction cs with
  | nil => exact fun _ => rfl
  | cons c cs ih =>
    intro index
    rw [List.flatMap_cons, (sequence_encodeChar c).decodeFrom_append, ih, Char.ofNat_toNat]
    rfl

theorem eq_encode_of_decodeFrom (cs : List Char) : ∀ {index bs},
    decodeFrom index bs = .ok cs → bs = cs.flatMap String.utf8EncodeChar := by
  induction cs with
  | nil =>
    intro index bs h
    by_contra hbs
    obtain ⟨first, n, rest, cs', -, -, hcs, -⟩ := exists_sequence_of_decodeFrom h hbs
    cases hcs
  | cons c cs ih =>
    intro index bs h
    have hbs : bs ≠ [] := by
      rintro rfl
      cases h
    obtain ⟨first, n, rest, cs', hfirst, rfl, hcs, hrest⟩ := exists_sequence_of_decodeFrom h hbs
    cases hcs
    rw [List.flatMap_cons, ← (sequence_iff.mp hfirst).2, ← ih hrest]

/-- The bytes that can be read are those of texts, and they are read as these texts. -/
theorem decode_eq_ok_iff {bs : Bytes} {s : String} : decode bs = .ok s ↔ bs = encode s := by
  rw [decode, Except.map_eq_ok, encode]
  constructor
  · rintro ⟨cs, hcs, rfl⟩
    rw [String.toList_ofList]
    exact eq_encode_of_decodeFrom cs hcs
  · rintro rfl
    exact ⟨s.toList, decodeFrom_encode s.toList 0, String.ofList_toList⟩

end WasmBinary.Text.Utf8
