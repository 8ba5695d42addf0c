import WasmBinary.Encoder

/-!
# What a writer writes

`Writes full w bs r` says all about a writer at once. On a sink with enough room it writes `bs` and
ends in `r`; on any other it fills the room with the first bytes of `bs` and fails with `full`.

* `Writes.bind`, `Writes.bindError`, …: one lemma for each way in which writers are built.
* `Writes.forM`: a sequence of items.
* `Writes.ok`: what a success says, whatever the sink.
* `run`: a writer on an empty sink; `Writes.run_none`, `Writes.run_some` for sinks of either kind.
* `bind_eq_ok`, `mapError_eq_ok`, `ofExcept_eq_ok`: when a writer succeeds, by how it is built.
-/
namespace WasmBinary

namespace Sink

/-- Whether `n` more bytes find room. -/
def Fits (s : Sink) (n : Nat) : Prop := ∀ room, s.room = some room → n ≤ room

/-- The sink once `bs` is written to it. -/
structure After (s : Sink) (bs : Bytes) (s' : Sink) : Prop where
  bytes_eq : s'.bytes = s.bytes ++ bs
  room_eq : s'.room = s.room.map (· - bs.length)

theorem After.nil (s : Sink) : s.After [] s := by
  refine ⟨by simp, ?_⟩
  cases s.room <;> simp

theorem After.append {s s' s'' : Sink} {bs bs' : Bytes} (h : s.After bs s') (h' : s'.After bs' s'') :
    s.After (bs ++ bs') s'' := by
  refine ⟨by rw [h'.bytes_eq, h.bytes_eq, List.append_assoc], ?_⟩
  rw [h'.room_eq, h.room_eq, List.length_append]
  cases s.room with
  | none => rfl
  | some room => simp [Nat.sub_sub]

theorem fits_or_short (s : Sink) (n : Nat) : s.Fits n ∨ ∃ room, s.room = some room ∧ room < n := by
  cases hroom : s.room with
  | none => exact .inl fun room h => by simp [hroom] at h
  | some room =>
    by_cases hle : n ≤ room
    · exact .inl fun room' h => by
        rw [hroom] at h
        cases h
        exact hle
    · exact .inr ⟨room, rfl, by omega⟩

theorem Fits.of_append {s s' : Sink} {bs bs' : Bytes} (h : s.Fits (bs ++ bs').length)
    (hafter : s.After bs s') : s.Fits bs.length ∧ s'.Fits bs'.length := by
  rw [List.length_append] at h
  constructor
  · intro room hroom
    have := h room hroom
    omega
  · intro room' hroom'
    rw [hafter.room_eq] at hroom'
    obtain ⟨room, hroom, rfl⟩ := Option.map_eq_some_iff.mp hroom'
    have := h room hroom
    omega

end Sink

namespace Writer

variable {ε ε' α β : Type}

/-! ## Successes -/

theorem bind_eq_ok (w : Writer ε α) (k : α → Writer ε β) (s s'' : Sink) (b : β) :
    (w >>= k) s = .ok b s'' ↔ ∃ a s', w s = .ok a s' ∧ k a s' = .ok b s'' := by
  change EStateM.bind w k s = _ ↔ _
  unfold EStateM.bind
  cases w s with
  | ok a s' =>
    simp only [EStateM.Result.ok.injEq]
    constructor
    · intro h
      exact ⟨a, s', ⟨rfl, rfl⟩, h⟩
    · intro h
      obtain ⟨_, _, ⟨rfl, rfl⟩, h⟩ := h
      exact h
  | error e s' => simp

theorem mapError_eq_ok (f : ε → ε') (w : Writer ε α) (s s' : Sink) (a : α) :
    w.mapError f s = .ok a s' ↔ w s = .ok a s' := by
  unfold mapError
  cases w s <;> simp

theorem ofExcept_eq_ok (r : Except ε α) (s s' : Sink) (a : α) :
    (ofExcept r : Writer ε α) s = .ok a s' ↔ r = .ok a ∧ s' = s := by
  cases r with
  | ok b =>
    change EStateM.Result.ok b s = .ok a s' ↔ _
    simp only [EStateM.Result.ok.injEq, Except.ok.injEq, eq_comm]
  | error e =>
    change EStateM.Result.error e s = .ok a s' ↔ _
    simp

/-! ## All that a writer does -/

/-- A result together with the sink that it leaves. -/
def leaving (r : Except ε α) (s : Sink) : EStateM.Result ε Sink α :=
  match r with
  | .ok a => .ok a s
  | .error e => .error e s

/-- `w` writes `bs` and ends in `r`, or in `full` where there is too little room. -/
structure Writes (full : ε) (w : Writer ε α) (bs : Bytes) (r : Except ε α) : Prop where
  enough (s : Sink) (h : s.Fits bs.length) : ∃ s', w s = leaving r s' ∧ s.After bs s'
  short (s : Sink) (room : Nat) (hroom : s.room = some room) (h : room < bs.length) :
    ∃ s', w s = .error full s' ∧ s'.bytes = s.bytes ++ bs.take room ∧ s'.room = some 0

namespace Writes

variable {full : ε} {w : Writer ε α} {bs bs' : Bytes} {r : Except ε α}

/-- A success says that the result is one and that all bytes were written. -/
theorem ok (h : Writes full w bs r) {s s' : Sink} {a : α} (hw : w s = .ok a s') :
    r = .ok a ∧ s.After bs s' := by
  rcases s.fits_or_short bs.length with hfits | ⟨room, hroom, hshort⟩
  · obtain ⟨s'', hw', hafter⟩ := h.enough s hfits
    rw [hw] at hw'
    cases r with
    | ok b =>
      cases hw'
      exact ⟨rfl, hafter⟩
    | error e => cases hw'
  · obtain ⟨s'', hw', -⟩ := h.short s room hroom hshort
    rw [hw] at hw'
    cases hw'

theorem ofExcept (r : Except ε α) : Writes full (ofExcept r) [] r := by
  constructor
  · intro s _
    refine ⟨s, ?_, .nil s⟩
    cases r <;> rfl
  · intro s room _ h
    cases h

theorem pure (a : α) : Writes full (pure a) [] (.ok a) := ofExcept (.ok a)

theorem throw (e : ε) : Writes full (throw e : Writer ε α) [] (.error e) := ofExcept (.error e)

theorem bind {a : α} {k : α → Writer ε β} {r : Except ε β} (h : Writes full w bs (.ok a))
    (hk : Writes full (k a) bs' r) : Writes full (w >>= k) (bs ++ bs') r := by
  constructor
  · intro s hfits
    obtain ⟨s₁, hw, hafter⟩ := h.enough s fun room hroom => by
      have := hfits room hroom
      rw [List.length_append] at this
      omega
    obtain ⟨s₂, hks, hafter'⟩ := hk.enough s₁ (hfits.of_append hafter).2
    refine ⟨s₂, ?_, hafter.append hafter'⟩
    change EStateM.bind w k s = _
    simp only [EStateM.bind, hw, leaving]
    exact hks
  · intro s room hroom hshort
    rw [List.length_append] at hshort
    by_cases hle : bs.length ≤ room
    · obtain ⟨s₁, hw, hafter⟩ := h.enough s fun room' hroom' => by
        rw [hroom] at hroom'
        cases hroom'
        exact hle
      have hroom₁ : s₁.room = some (room - bs.length) := by
        rw [hafter.room_eq, hroom]
        rfl
      obtain ⟨s₂, hks, hbytes, hfull⟩ := hk.short s₁ _ hroom₁ (by omega)
      refine ⟨s₂, ?_, ?_, hfull⟩
      · change EStateM.bind w k s = _
        simp only [EStateM.bind, hw, leaving]
        exact hks
      · rw [hbytes, hafter.bytes_eq, List.append_assoc, List.take_append,
          List.take_of_length_le hle]
    · obtain ⟨s₁, hw, hbytes, hfull⟩ := h.short s room hroom (by omega)
      refine ⟨s₁, ?_, ?_, hfull⟩
      · change EStateM.bind w k s = _
        simp only [EStateM.bind, hw]
      · rw [hbytes, List.take_append_of_le_length (by omega)]

/-- Nothing is written behind a failure. -/
theorem bindError {e : ε} (h : Writes full w bs (.error e)) (k : α → Writer ε β) :
    Writes full (w >>= k) bs (.error e) := by
  constructor
  · intro s hfits
    obtain ⟨s₁, hw, hafter⟩ := h.enough s hfits
    refine ⟨s₁, ?_, hafter⟩
    change EStateM.bind w k s = _
    simp only [EStateM.bind, hw, leaving]
  · intro s room hroom hshort
    obtain ⟨s₁, hw, hbytes, hfull⟩ := h.short s room hroom hshort
    refine ⟨s₁, ?_, hbytes, hfull⟩
    change EStateM.bind w k s = _
    simp only [EStateM.bind, hw]

theorem mapError (h : Writes full w bs r) (f : ε → ε') :
    Writes (f full) (w.mapError f) bs (r.mapError f) := by
  constructor
  · intro s hfits
    obtain ⟨s', hw, hafter⟩ := h.enough s hfits
    refine ⟨s', ?_, hafter⟩
    cases r <;> simp only [Writer.mapError, hw, leaving] <;> rfl
  · intro s room hroom hshort
    obtain ⟨s', hw, hbytes, hfull⟩ := h.short s room hroom hshort
    exact ⟨s', by simp only [Writer.mapError, hw], hbytes, hfull⟩

/-- Items are written up to the first that cannot be. One of those writes nothing. -/
theorem forM {w : α → Writer ε Unit} {r : α → Except ε Unit} {f : α → Bytes} (items : List α)
    (hok : ∀ a ∈ items, r a = .ok () → Writes full (w a) (f a) (.ok ()))
    (herror : ∀ a ∈ items, ∀ e, r a = .error e → Writes full (w a) [] (.error e)) :
    Writes full (items.forM w) ((items.takeWhile fun a => (r a).isOk).flatMap f)
      (items.forM r) := by
  induction items with
  | nil => exact .pure ()
  | cons a rest ih =>
    have ih := ih (fun b hb => hok b (.tail a hb)) fun b hb => herror b (.tail a hb)
    change Writes full (w a >>= fun _ => rest.forM w) _ (r a >>= fun _ => rest.forM r)
    rw [List.takeWhile_cons]
    cases hr : r a with
    | ok u =>
      rw [if_pos (by rfl), List.flatMap_cons]
      exact (hok a (.head rest) hr).bind ih
    | error e => exact (herror a (.head rest) e hr).bindError _

end Writes

/-- The result of a writer on an empty sink, and the bytes that it writes. -/
def run (w : Writer ε α) (capacity : Option Nat) : Except ε α × Bytes :=
  match w (.empty capacity) with
  | .ok a s => (.ok a, s.bytes)
  | .error e s => (.error e, s.bytes)

theorem run_of_leaving {w : Writer ε α} {capacity : Option Nat} {r : Except ε α} {s : Sink}
    (h : w (.empty capacity) = leaving r s) : w.run capacity = (r, s.bytes) := by
  cases r <;> simp only [run, h, leaving]

theorem run_throw (e : ε) (capacity : Option Nat) :
    (throw e : Writer ε α).run capacity = (.error e, []) := rfl

/-- A result that was found without writing decides how to go on. -/
theorem run_ofExcept_bind (r : Except ε α) (k : α → Writer ε β) (capacity : Option Nat) :
    (ofExcept r >>= k).run capacity =
      match r with
      | .ok a => (k a).run capacity
      | .error e => (.error e, []) := by
  cases r <;> rfl

theorem run_mapError (f : ε → ε') (w : Writer ε α) (capacity : Option Nat) :
    (w.mapError f).run capacity = ((w.run capacity).1.mapError f, (w.run capacity).2) := by
  simp only [run, mapError]
  cases w (.empty capacity) <;> rfl

namespace Writes

variable {full : ε} {w : Writer ε α} {bs : Bytes} {r : Except ε α}

theorem run_none (h : Writes full w bs r) : w.run none = (r, bs) := by
  obtain ⟨s, hw, hafter⟩ := h.enough (.empty none) fun room hroom => nomatch hroom
  rw [run_of_leaving hw, hafter.bytes_eq]
  rfl

theorem run_some (h : Writes full w bs r) (capacity : Nat) : w.run (some capacity) =
    if bs.length ≤ capacity then (r, bs) else (.error full, bs.take capacity) := by
  split
  · rename_i hle
    obtain ⟨s, hw, hafter⟩ := h.enough (.empty (some capacity)) fun room hroom => by
      cases hroom
      exact hle
    rw [run_of_leaving hw, hafter.bytes_eq]
    rfl
  · rename_i hlong
    obtain ⟨s, hw, hbytes, -⟩ := h.short (.empty (some capacity)) capacity rfl (by omega)
    rw [run_of_leaving (r := .error full) hw, hbytes]
    rfl

end Writes

theorem forM_eq_ok_iff {r : α → Except ε Unit} {items : List α} :
    items.forM r = .ok () ↔ ∀ a ∈ items, r a = .ok () := by
  induction items with
  | nil => simp [List.forM, pure, Except.pure]
  | cons a rest ih =>
    rw [List.forall_mem_cons, ← ih]
    change (r a >>= fun _ => rest.forM r) = _ ↔ _
    cases r a <;> simp [bind, Except.bind]

theorem takeWhile_of_forM_eq_ok {r : α → Except ε Unit} {items : List α}
    (h : items.forM r = .ok ()) : (items.takeWhile fun a => (r a).isOk) = items := by
  rw [forM_eq_ok_iff] at h
  induction items with
  | nil => rfl
  | cons a rest ih =>
    have ha : (r a).isOk = true := by
      rw [h a (.head rest)]
      rfl
    rw [List.takeWhile_cons, if_pos ha, ih fun b hb => h b (.tail a hb)]

/-! ## Bytes -/

theorem writes_put (bs : Bytes) : Writes .sinkFull (put bs) bs (.ok ()) := by
  constructor
  · intro s hfits
    cases hroom : s.room with
    | none =>
      refine ⟨⟨bs :: s.chunks, none⟩, by simp [put, hroom, leaving], ?_, by simp [hroom]⟩
      simp [Sink.bytes]
    | some room =>
      have hle := hfits room hroom
      refine ⟨⟨bs :: s.chunks, some (room - bs.length)⟩, by simp [put, hroom, hle, leaving], ?_,
        by simp [hroom]⟩
      simp [Sink.bytes]
  · intro s room hroom hshort
    have hle : ¬bs.length ≤ room := by omega
    refine ⟨⟨bs.take room :: s.chunks, some 0⟩, by simp [put, hroom, hle], ?_, rfl⟩
    simp [Sink.bytes]

theorem writes_putEach (bs : Bytes) : Writes .sinkFull (putEach bs) bs (.ok ()) := by
  induction bs with
  | nil => exact .pure ()
  | cons b rest ih => exact (writes_put [b]).bind ih

end Writer

end WasmBinary
