import WasmBinary.Types.Basic

/-!
# Formats

A format says which byte strings stand for which values. What a byte string stands for may depend
on the position it has in the input, because instructions record where they were found.
`Recognizes d F` says that decoder `d` reads exactly format `F`: it succeeds where the input goes on
with a byte string of `F`, with the value of that byte string, and stops right behind it.

* `Recognizes.consumed`, `Recognizes.read`: the two directions, one input at a time.
* `Recognizes.unique`: a format that some decoder recognizes is unambiguous, and none of its byte
  strings is the start of another.
* `Recognizes.bind`, `Recognizes.map`, …: one lemma for each way in which decoders are built. The
  format of a decoder is put together along its definition and then simplified by
  `Recognizes.congr`.
-/
namespace WasmBinary

/-- Which byte strings stand for which values at a position of the input. -/
abbrev Format (α : Type) := Nat → Bytes → α → Prop

namespace Format

variable {α β : Type}

/-- A format that does not depend on the position. -/
abbrev fixed (F : Bytes → α → Prop) : Format α := fun _ => F

/-- A byte string for some `a` and behind it one of the format that goes with `a`. -/
def bind (F : Format α) (G : α → Format β) : Format β := fun p bs b =>
  ∃ bs₁ bs₂ a, bs = bs₁ ++ bs₂ ∧ F p bs₁ a ∧ G a (p + bs₁.length) bs₂ b

/-- Values one behind the other. -/
inductive Elements (F : Format α) : Format (List α)
  | nil (p : Nat) : Elements F p [] []
  | cons {p : Nat} {bs rest : Bytes} {a : α} {as : List α} (first : F p bs a)
      (others : Elements F (p + bs.length) rest as) : Elements F p (bs ++ rest) (a :: as)

end Format

namespace Decoder

variable {ε ε' α β : Type}

/-- `d` succeeds exactly on the inputs that start with a byte string of `F`, gives the value that it
stands for, and stops right behind it. -/
def Recognizes (d : Decoder ε α) (F : Format α) : Prop :=
  ∀ p s a c, d ⟨p, s⟩ = .ok a c ↔
    ∃ bs rest, s = bs ++ rest ∧ c = ⟨p + bs.length, rest⟩ ∧ F p bs a

theorem bind_eq_ok (d : Decoder ε α) (k : α → Decoder ε β) (c c'' : Cursor) (b : β) :
    (d >>= k) c = .ok b c'' ↔ ∃ a c', d c = .ok a c' ∧ k a c' = .ok b c'' := by
  change EStateM.bind d k c = _ ↔ _
  unfold EStateM.bind
  cases d c with
  | ok a c' =>
    simp only [EStateM.Result.ok.injEq]
    constructor
    · intro h
      exact ⟨a, c', ⟨rfl, rfl⟩, h⟩
    · intro h
      obtain ⟨_, _, ⟨rfl, rfl⟩, h⟩ := h
      exact h
  | error e c' => simp

theorem bind_of_ok {d : Decoder ε α} {c c' : Cursor} {a : α} (h : d c = .ok a c')
    (k : α → Decoder ε β) : (d >>= k) c = k a c' := by
  change EStateM.bind d k c = _
  simp only [EStateM.bind, h]

theorem mapError_eq_ok (f : ε → ε') (d : Decoder ε α) (c c' : Cursor) (a : α) :
    d.mapError f c = .ok a c' ↔ d c = .ok a c' := by
  unfold mapError
  cases d c <;> simp

theorem map_eq_ok (f : α → β) (d : Decoder ε α) (c c' : Cursor) (b : β) :
    (f <$> d) c = .ok b c' ↔ ∃ a, d c = .ok a c' ∧ b = f a := by
  change EStateM.map f d c = _ ↔ _
  unfold EStateM.map
  cases d c with
  | ok a c'' =>
    simp only [EStateM.Result.ok.injEq]
    constructor
    · intro h
      obtain ⟨rfl, rfl⟩ := h
      exact ⟨a, ⟨rfl, rfl⟩, rfl⟩
    · intro h
      obtain ⟨_, ⟨rfl, rfl⟩, rfl⟩ := h
      exact ⟨rfl, rfl⟩
  | error e c'' => simp

theorem map_of_ok (f : α → β) {d : Decoder ε α} {c c' : Cursor} {a : α} (h : d c = .ok a c') :
    (f <$> d) c = .ok (f a) c' := (map_eq_ok ..).mpr ⟨a, h, rfl⟩

theorem map_of_error (f : α → β) {d : Decoder ε α} {c c' : Cursor} {e : ε}
    (h : d c = .error e c') : (f <$> d) c = .error e c' := by
  change EStateM.map f d c = _
  simp only [EStateM.map, h]

theorem map_apply_congr (f : α → β) {d d' : Decoder ε α} {c c' : Cursor} (h : d c = d' c') :
    (f <$> d) c = (f <$> d') c' := by
  change EStateM.map f d c = EStateM.map f d' c'
  simp only [EStateM.map, h]

theorem outcome_eq_ok (d : Decoder ε α) (c : Cursor) (a : α) :
    d.outcome c = .ok a ↔ ∃ c', d c = .ok a c' := by
  unfold outcome
  cases d c <;> simp

theorem within_eq_ok (size : Nat) (d : Decoder ε α) (c c' : Cursor) (a : α) :
    within size d c = .ok a c' ↔
      (∃ c'', d ⟨c.position, c.rest.take size⟩ = .ok a c'') ∧ c' = c.skip size := by
  unfold within
  cases d ⟨c.position, c.rest.take size⟩ with
  | ok a' c'' =>
    simp only [EStateM.Result.ok.injEq]
    constructor
    · intro h
      obtain ⟨rfl, rfl⟩ := h
      exact ⟨⟨c'', rfl, rfl⟩, rfl⟩
    · intro h
      obtain ⟨⟨_, rfl, -⟩, rfl⟩ := h
      exact ⟨rfl, rfl⟩
  | error e c'' => simp

namespace Recognizes

variable {d : Decoder ε α} {F : Format α}

/-- What a successful decoder took is a byte string of its format. -/
theorem consumed (h : Recognizes d F) {p : Nat} {s : Bytes} {a : α} {c : Cursor}
    (hd : d ⟨p, s⟩ = .ok a c) : ∃ bs, s = bs ++ c.rest ∧ c.position = p + bs.length ∧ F p bs a := by
  obtain ⟨bs, rest, rfl, rfl, hF⟩ := (h p s a c).mp hd
  exact ⟨bs, rfl, rfl, hF⟩

/-- A byte string of the format is read, whatever follows it. -/
theorem read (h : Recognizes d F) {p : Nat} {bs : Bytes} {a : α} (hF : F p bs a) (rest : Bytes) :
    d ⟨p, bs ++ rest⟩ = .ok a ⟨p + bs.length, rest⟩ :=
  (h p _ a _).mpr ⟨bs, rest, rfl, rfl, hF⟩

theorem unique (h : Recognizes d F) {p : Nat} {bs bs' rest rest' : Bytes} {a a' : α}
    (hF : F p bs a) (hF' : F p bs' a') (heq : bs ++ rest = bs' ++ rest') : a = a' ∧ bs = bs' := by
  have hread := h.read hF rest
  rw [heq, h.read hF' rest'] at hread
  simp only [EStateM.Result.ok.injEq, Cursor.mk.injEq] at hread
  obtain ⟨rfl, -, rfl⟩ := hread
  exact ⟨rfl, (List.append_cancel_right heq)⟩

theorem congr (h : Recognizes d F) {G : Format α} (hFG : ∀ p bs a, F p bs a ↔ G p bs a) :
    Recognizes d G := by
  intro p s a c
  simp only [h p s a c, hFG]

theorem pure (a : α) : Recognizes (pure a : Decoder ε α) fun _ bs b => bs = [] ∧ b = a := by
  intro p s b c
  change EStateM.Result.ok a _ = _ ↔ _
  simp only [EStateM.Result.ok.injEq]
  constructor
  · intro h
    obtain ⟨rfl, rfl⟩ := h
    exact ⟨[], s, rfl, rfl, rfl, rfl⟩
  · intro h
    obtain ⟨_, rest, rfl, rfl, rfl, rfl⟩ := h
    exact ⟨rfl, rfl⟩

theorem throw (e : ε) : Recognizes (throw e : Decoder ε α) fun _ _ _ => False := by
  intro p s a c
  change EStateM.Result.error e _ = _ ↔ _
  simp

theorem bind (h : Recognizes d F) {k : α → Decoder ε β} {G : α → Format β}
    (hk : ∀ a, Recognizes (k a) (G a)) : Recognizes (d >>= k) (F.bind G) := by
  intro p s b c
  rw [bind_eq_ok]
  constructor
  · intro h
    obtain ⟨a, ⟨q, r⟩, hd, hkd⟩ := h
    obtain ⟨bs₁, rfl, hq, hF⟩ := h.consumed hd
    obtain ⟨bs₂, rest, rfl, rfl, hG⟩ := (hk a q r b c).mp hkd
    simp only at hq
    subst hq
    exact ⟨bs₁ ++ bs₂, rest, by simp, by simp [Nat.add_assoc], bs₁, bs₂, a, rfl, hF, hG⟩
  · intro hform
    obtain ⟨_, rest, rfl, rfl, bs₁, bs₂, a, rfl, hF, hG⟩ := hform
    refine ⟨a, ⟨p + bs₁.length, bs₂ ++ rest⟩, ?_, ?_⟩
    · rw [List.append_assoc]
      exact h.read hF _
    · rw [(hk a).read hG]
      simp [Nat.add_assoc]

theorem map (h : Recognizes d F) (f : α → β) :
    Recognizes (f <$> d) fun p bs b => ∃ a, F p bs a ∧ b = f a := by
  have hmap : f <$> d = d >>= fun a => Pure.pure (f a) := rfl
  rw [hmap]
  refine (h.bind fun a => pure (f a)).congr fun p bs b => ⟨?_, ?_⟩
  · intro hform
    obtain ⟨bs, _, a, rfl, hF, rfl, rfl⟩ := hform
    exact ⟨a, by simpa using hF, rfl⟩
  · intro hform
    obtain ⟨a, hF, rfl⟩ := hform
    exact ⟨bs, [], a, by simp, hF, rfl, rfl⟩

theorem mapError (h : Recognizes d F) (f : ε → ε') : Recognizes (d.mapError f) F := by
  intro p s a c
  rw [mapError_eq_ok]
  exact h p s a c

theorem ite {P : Prop} [Decidable P] {d' : Decoder ε α} {G : Format α} (h : P → Recognizes d F)
    (h' : ¬P → Recognizes d' G) :
    Recognizes (if P then d else d') fun p bs a => (P ∧ F p bs a) ∨ (¬P ∧ G p bs a) := by
  by_cases hP : P
  · rw [if_pos hP]
    exact (h hP).congr fun p bs a => by simp [hP]
  · rw [if_neg hP]
    exact (h' hP).congr fun p bs a => by simp [hP]

end Recognizes

/-! ## Bytes -/

theorem recognizes_position : Recognizes (position : Decoder ε Nat) fun p bs q => bs = [] ∧ q = p := by
  intro p s q c
  simp only [position, EStateM.Result.ok.injEq]
  constructor
  · intro h
    obtain ⟨rfl, rfl⟩ := h
    exact ⟨[], s, rfl, rfl, rfl, rfl⟩
  · intro h
    obtain ⟨_, rest, rfl, rfl, rfl, rfl⟩ := h
    exact ⟨rfl, rfl⟩

theorem recognizes_byte : Recognizes byte (.fixed fun bs b => bs = [b]) := by
  intro p s b c
  cases s with
  | nil => simp [byte]
  | cons x s =>
    simp only [byte, EStateM.Result.ok.injEq]
    constructor
    · intro h
      obtain ⟨rfl, rfl⟩ := h
      exact ⟨[x], s, rfl, rfl, rfl⟩
    · intro h
      obtain ⟨_, rest, heq, rfl, rfl⟩ := h
      cases heq
      exact ⟨rfl, rfl⟩

theorem recognizes_take (n : Nat) : Recognizes (take n) (.fixed fun bs taken => bs = taken.val) := by
  induction n with
  | zero =>
    refine (Recognizes.pure _).congr fun p bs a => ?_
    have ha : a = ⟨[], rfl⟩ := Subtype.ext (List.length_eq_zero_iff.mp a.property)
    subst ha
    simp
  | succ n ih =>
    refine (recognizes_byte.bind fun b => ih.bind fun t => Recognizes.pure _).congr ?_
    rintro p bs ⟨taken, hlen⟩
    constructor
    · intro h
      obtain ⟨_, _, b, rfl, rfl, _, _, t, rfl, rfl, rfl, ha⟩ := h
      simpa using (congrArg Subtype.val ha).symm
    · intro heq
      cases taken with
      | nil => simp at hlen
      | cons b t =>
        obtain rfl : bs = b :: t := heq
        exact ⟨[b], t, b, rfl, rfl, t, [], ⟨t, by simpa using hlen⟩, by simp, rfl, rfl, rfl⟩

/-- A successful `takeUpTo` that found enough bytes. -/
theorem takeUpTo_append (bs rest : Bytes) (p : Nat) :
    (takeUpTo bs.length : Decoder ε Bytes) ⟨p, bs ++ rest⟩ = .ok bs ⟨p + bs.length, rest⟩ := by
  simp [takeUpTo, Cursor.skip]

end Decoder

/-- The marker of a value in a table of markers. -/
def MarkerTable.Form {α : Type} (t : MarkerTable α) (bs : Bytes) (a : α) : Prop :=
  ∃ marker, bs = [marker] ∧ t.find? marker = some a

theorem MarkerTable.recognizes_find {α : Type} (t : MarkerTable α) (marker : UInt8) :
    Decoder.Recognizes
      (match t.find? marker with
        | some value => return value
        | none => throw (.unknown marker) : Decoder (MarkerError t) α)
      fun _ bs a => bs = [] ∧ t.find? marker = some a := by
  cases t.find? marker with
  | none => exact (Decoder.Recognizes.throw _).congr fun p bs a => by simp
  | some value => exact (Decoder.Recognizes.pure _).congr fun p bs a => by simp [eq_comm]

theorem MarkerTable.recognizes_decode {α : Type} (t : MarkerTable α) :
    t.decode.Recognizes (.fixed t.Form) := by
  refine ((Decoder.recognizes_byte.mapError _).bind t.recognizes_find).congr fun p bs a => ⟨?_, ?_⟩
  · intro h
    obtain ⟨_, _, marker, rfl, rfl, rfl, hmarker⟩ := h
    exact ⟨marker, rfl, hmarker⟩
  · intro h
    obtain ⟨marker, rfl, hmarker⟩ := h
    exact ⟨[marker], [], marker, rfl, rfl, rfl, hmarker⟩

end WasmBinary
