import WasmBinary.Instruction.Basic

/-!
# Words in a listing

A line of a listing is made of words with spaces and brackets between them. No word has a space, a line
end or a bracket in it, so the text tells where each word ends: if two texts are equal, and both are a
word followed by something else, then the words are equal and so is what follows.

* `List.append_inj_of_span`: a part made of certain characters ends where they end.
* `Text.IsWord`, `Text.EndsWord`, `Text.EndsWords`: words, and what may follow a word or a list of them.
* `Text.IsWord.append_inj`, `spaced_append_inj`: a word and a list of words can be read back.
* `Text.isWord_toString`, `Text.Hex.lower_two_inj`, `ValueType.text_inj`: the words of a listing.
-/
namespace WasmBinary

/-- A part made of certain characters ends where they end. -/
theorem List.append_inj_of_span {α : Type} {p : α → Bool} {a b x y : List α} (ha : ∀ c ∈ a, p c = true)
    (hb : ∀ c ∈ b, p c = true) (hx : ∀ c ∈ x.head?, p c = false) (hy : ∀ c ∈ y.head?, p c = false)
    (h : a ++ x = b ++ y) : a = b ∧ x = y := by
  have hspan {l r : List α} (hl : ∀ c ∈ l, p c = true) (hr : ∀ c ∈ r.head?, p c = false) :
      (l ++ r).takeWhile p = l := by
    rw [List.takeWhile_append_of_pos hl]
    cases r with
    | nil => simp
    | cons c r => simp [hr c rfl]
  have hab : a = b := by
    rw [← hspan ha hx, h, hspan hb hy]
  subst hab
  exact ⟨rfl, List.append_cancel_left h⟩

namespace Text

/-! ## Words -/

/-- Whether a character may stand in a word. -/
def isWordChar (c : Char) : Bool := c ≠ ' ' && c ≠ '\n' && c ≠ '(' && c ≠ ')'

theorem eq_of_not_isWordChar {c : Char} (h : ¬ isWordChar c = true) :
    c = ' ' ∨ c = '\n' ∨ c = '(' ∨ c = ')' := by
  grind [isWordChar]

def IsWord (s : String) : Prop := ∀ c ∈ s.toList, isWordChar c = true

instance (s : String) : Decidable (IsWord s) :=
  List.decidableBAll (fun c => isWordChar c = true) s.toList

/-- No word goes on at the start of a text. -/
def EndsWord (text : List Char) : Prop := ∀ c ∈ text.head?, isWordChar c = false

/-- No word goes on at the start of a text, and no space leads to a further one. -/
def EndsWords (text : List Char) : Prop := ∀ c ∈ text.head?, isWordChar c = false ∧ c ≠ ' '

theorem endsWord_cons {c : Char} (h : isWordChar c = false) (text : List Char) :
    EndsWord (c :: text) := by
  rintro _ ⟨⟩
  exact h

theorem endsWords_cons {c : Char} (h : isWordChar c = false ∧ c ≠ ' ') (text : List Char) :
    EndsWords (c :: text) := by
  rintro _ ⟨⟩
  exact h

theorem endsWords_lineEnd (text : List Char) : EndsWords ('\n' :: text) :=
  endsWords_cons (by decide) text

theorem EndsWords.endsWord {text : List Char} (h : EndsWords text) : EndsWord text :=
  fun c hc => (h c hc).1

theorem EndsWord.append {text rest : List Char} (h : EndsWord text) (hrest : EndsWord rest) :
    EndsWord (text ++ rest) := by
  cases text with
  | nil => exact hrest
  | cons c text => exact h

/-- A word ends where something else follows. -/
theorem IsWord.append_inj {s t : String} (hs : IsWord s) (ht : IsWord t) {x y : List Char}
    (hx : EndsWord x) (hy : EndsWord y) (h : s.toList ++ x = t.toList ++ y) : s = t ∧ x = y := by
  obtain ⟨hst, hxy⟩ := List.append_inj_of_span hs ht hx hy h
  exact ⟨String.toList_inj.mp hst, hxy⟩

theorem IsWord.append {s t : String} (hs : IsWord s) (ht : IsWord t) : IsWord (s ++ t) := by
  intro c hc
  rw [String.toList_append, List.mem_append] at hc
  exact hc.elim (hs c) (ht c)

/-! ## Numbers -/

theorem isWordChar_of_isDigit {c : Char} (h : c.isDigit = true) : isWordChar c = true := by
  rw [isWordChar, Bool.and_eq_true, Bool.and_eq_true, Bool.and_eq_true]
  simp only [ne_eq, decide_eq_true_eq]
  refine ⟨⟨⟨?_, ?_⟩, ?_⟩, ?_⟩ <;> rintro rfl <;> cases h

theorem isDigit_of_mem_toString {n : Nat} {c : Char} (h : c ∈ (toString n).toList) :
    c.isDigit = true := by
  rw [Nat.toString_eq_ofList_toDigits, String.toList_ofList] at h
  exact Nat.isDigit_of_mem_toDigits (by decide) (by decide) h

theorem isWord_toString (n : Nat) : IsWord (toString n) := fun _ hc =>
  isWordChar_of_isDigit (isDigit_of_mem_toString hc)

theorem toString_inj {n m : Nat} (h : toString n = toString m) : n = m := by
  rw [Nat.toString_eq_ofList_toDigits, Nat.toString_eq_ofList_toDigits, String.ofList_inj] at h
  have hvalue := congrArg (Nat.ofDigitChars 10 · 0) h
  simpa using hvalue

theorem isWord_minus : IsWord "-" := by decide

theorem isWord_toString_int : ∀ i : Int, IsWord (toString i)
  | .ofNat n => isWord_toString n
  | .negSucc n => isWord_minus.append (isWord_toString (n + 1))

theorem minus_append_ne_toString (s : String) (n : Nat) : "-" ++ s ≠ toString n := by
  intro h
  have hdigit : '-'.isDigit = true := by
    refine isDigit_of_mem_toString (n := n) ?_
    rw [← h, String.toList_append]
    exact List.mem_cons_self
  cases hdigit

theorem toString_int_inj : ∀ {i j : Int}, toString i = toString j → i = j
  | .ofNat n, .ofNat m, h => congrArg Int.ofNat (toString_inj h)
  | .negSucc n, .negSucc m, h => by
    have hnumber := toString_inj ((String.append_right_inj "-").mp h)
    rw [Nat.succ.inj hnumber]
  | .ofNat n, .negSucc m, h => absurd h.symm (minus_append_ne_toString _ n)
  | .negSucc n, .ofNat m, h => absurd h (minus_append_ne_toString _ m)

/-- The digit that a character is in base sixteen. -/
def Hex.digit (c : Char) : Nat := if c.isDigit then c.toNat - '0'.toNat else c.toNat - 'a'.toNat + 10

/-- The two digits of a byte. -/
theorem Hex.lower_two (b : UInt8) : IsWord (lower 2 b.toNat) ∧
    (lower 2 b.toNat).toList.foldl (fun n c => 16 * n + digit c) 0 = b.toNat := by
  have hall : ∀ n < 256, ((lower 2 n).toList.all isWordChar &&
      (lower 2 n).toList.foldl (fun n c => 16 * n + digit c) 0 == n) = true := by decide +kernel
  have hb := hall b.toNat b.toNat_lt
  rw [Bool.and_eq_true, List.all_eq_true, beq_iff_eq] at hb
  exact hb

theorem Hex.lower_two_inj {b b' : UInt8} (h : lower 2 b.toNat = lower 2 b'.toNat) : b = b' := by
  have hvalue := (lower_two b).2
  rw [h, (lower_two b').2] at hvalue
  exact UInt8.toNat_inj.mp hvalue.symm

end Text

/-! ## Lists of words -/

open Text

theorem toList_spaced (words : List String) :
    (spaced words).toList = words.flatMap fun w => ' ' :: w.toList := by
  rw [spaced, String.toList_join, List.flatMap_map]
  simp

theorem toList_spaced_cons (w : String) (words : List String) :
    (spaced (w :: words)).toList = ' ' :: (w.toList ++ (spaced words).toList) := by
  rw [toList_spaced, List.flatMap_cons, ← toList_spaced, List.cons_append]

theorem toList_spaced_nil : (spaced []).toList = [] := rfl

theorem endsWord_spaced (words : List String) : EndsWord (spaced words).toList := by
  cases words with
  | nil => exact fun _ hc => (nomatch hc)
  | cons w words =>
    rw [toList_spaced_cons]
    exact endsWord_cons (by decide) _

theorem spaced_append_inj : ∀ {words words' : List String} {x y : List Char},
    (∀ w ∈ words, IsWord w) → (∀ w ∈ words', IsWord w) → EndsWords x → EndsWords y →
    (spaced words).toList ++ x = (spaced words').toList ++ y → words = words' ∧ x = y
  | [], [], x, y, _, _, _, _, h => ⟨rfl, h⟩
  | [], w' :: words', x, y, _, _, hx, _, h => by
    rw [toList_spaced_cons, toList_spaced_nil, List.nil_append] at h
    subst h
    exact absurd rfl (hx ' ' rfl).2
  | w :: words, [], x, y, _, _, _, hy, h => by
    rw [toList_spaced_cons, toList_spaced_nil, List.nil_append] at h
    subst h
    exact absurd rfl (hy ' ' rfl).2
  | w :: words, w' :: words', x, y, hw, hw', hx, hy, h => by
    rw [toList_spaced_cons, toList_spaced_cons, List.cons_append, List.cons_append,
      List.append_assoc, List.append_assoc] at h
    obtain ⟨hfirst, hwords⟩ := List.forall_mem_cons.mp hw
    obtain ⟨hfirst', hwords'⟩ := List.forall_mem_cons.mp hw'
    obtain ⟨rfl, hrest⟩ := hfirst.append_inj hfirst' ((endsWord_spaced words).append hx.endsWord)
      ((endsWord_spaced words').append hy.endsWord) (List.cons.inj h).2
    obtain ⟨rfl, hxy⟩ := spaced_append_inj hwords hwords' hx hy hrest
    exact ⟨rfl, hxy⟩

/-! ## Types -/

theorem ValueType.isWord_text (t : ValueType) : IsWord t.text := by
  rcases t with _ | _ | _ | _ | _ | (_ | _) <;> decide

theorem ValueType.text_inj {t t' : ValueType} (h : t.text = t'.text) : t = t' := by
  revert h
  rcases t with _ | _ | _ | _ | _ | (_ | _) <;> rcases t' with _ | _ | _ | _ | _ | (_ | _) <;>
    decide

end WasmBinary
