import Mathlib.Data.List.Forall2

/-!
# Results that may be errors

Steps that may fail, one behind the other, and a step for each item of a list.

* `Except.bind_eq_ok`, `Except.bind_eq_error`: two steps.
* `Except.mapM_of_ok`, `Except.forall₂_of_mapM`, `Except.forall_of_mapM`: a list whose items all
  succeed.
* `Except.exists_error_of_mapM`, `Except.exists_error_of_forM`: the first item that fails.
* `Except.toOption_mapM`: lists that succeed together.
-/
namespace WasmBinary

namespace Except

variable {ε α β γ : Type}

/-! ## Two steps -/

theorem bind_eq_ok {x : Except ε α} {k : α → Except ε β} {b : β} :
    (x >>= k) = .ok b ↔ ∃ a, x = .ok a ∧ k a = .ok b := by
  cases x <;> simp [bind, Except.bind]

theorem bind_eq_error {x : Except ε α} {k : α → Except ε β} {e : ε} :
    (x >>= k) = .error e ↔ x = .error e ∨ ∃ a, x = .ok a ∧ k a = .error e := by
  cases x <;> simp [bind, Except.bind]

theorem map_eq_ok {f : α → β} {x : Except ε α} {b : β} :
    f <$> x = .ok b ↔ ∃ a, x = .ok a ∧ f a = b := by
  cases x <;> simp [Functor.map, Except.map]

theorem toOption_bind (x : Except ε α) (k : α → Except ε β) :
    (x >>= k).toOption = x.toOption.bind fun a => (k a).toOption := by
  cases x <;> rfl

/-! ## Lists -/

theorem mapM_of_ok {g : α → Except ε β} {k : α → β} {l : List α}
    (h : ∀ a ∈ l, g a = .ok (k a)) : l.mapM g = .ok (l.map k) := by
  induction l with
  | nil => rfl
  | cons a l ih =>
    rw [List.mapM_cons, h a List.mem_cons_self, ih fun b hb => h b (.tail a hb)]
    rfl

theorem forall₂_of_mapM {g : α → Except ε β} : ∀ {l : List α} {out : List β},
    l.mapM g = .ok out → List.Forall₂ (fun a b => g a = .ok b) l out
  | [], out, h => by
    cases h
    exact .nil
  | a :: l, out, h => by
    simp only [List.mapM_cons, bind_eq_ok] at h
    obtain ⟨b, ha, rest, hl, hout⟩ := h
    cases hout
    exact .cons ha (forall₂_of_mapM hl)

/-- What a success says of an item holds of all items. -/
theorem forall_of_mapM {g : α → Except ε β} {P : α → Prop} {l : List α} {out : List β}
    (h : l.mapM g = .ok out) (hg : ∀ a b, g a = .ok b → P a) : ∀ a ∈ l, P a := by
  have hall := (forall₂_of_mapM h).imp fun a b hb => And.intro (hg a b hb) hb
  exact ((List.forall₂_and_left ..).mp hall).1

/-- What a success says of a result holds of all results. -/
theorem forall_results_of_mapM {g : α → Except ε β} {P : β → Prop} {l : List α} {out : List β}
    (h : l.mapM g = .ok out) (hg : ∀ a b, g a = .ok b → P b) : ∀ b ∈ out, P b := by
  have hall : List.Forall₂ (fun b a => P b ∧ g a = .ok b) out l :=
    ((forall₂_of_mapM h).imp fun a b hb => ⟨hg a b hb, hb⟩).flip
  exact ((List.forall₂_and_left ..).mp hall).1

/-- The error of a list is that of the first member that has one. -/
theorem exists_error_of_mapM {g : α → Except ε β} {l : List α} {e : ε}
    (h : l.mapM g = .error e) : ∃ front a back, l = front ++ a :: back ∧
      (∀ b ∈ front, ∃ y, g b = .ok y) ∧ g a = .error e := by
  induction l with
  | nil => cases h
  | cons a l ih =>
    simp only [List.mapM_cons, bind_eq_error] at h
    obtain ha | ⟨y, ha, hl | ⟨_, -, h⟩⟩ := h
    · exact ⟨[], a, l, rfl, by simp, ha⟩
    · obtain ⟨front, b, back, rfl, hfront, hb⟩ := ih hl
      exact ⟨a :: front, b, back, rfl, List.forall_mem_cons.mpr ⟨⟨y, ha⟩, hfront⟩, hb⟩
    · cases h

theorem exists_error_of_forM {g : α → Except ε Unit} {l : List α} {e : ε}
    (h : l.forM g = .error e) : ∃ front a back, l = front ++ a :: back ∧
      (∀ b ∈ front, g b = .ok ()) ∧ g a = .error e := by
  induction l with
  | nil => cases h
  | cons a l ih =>
    change (g a >>= fun _ => l.forM g) = _ at h
    obtain ha | ⟨_, ha, hl⟩ := bind_eq_error.mp h
    · exact ⟨[], a, l, rfl, by simp, ha⟩
    · obtain ⟨front, b, back, rfl, hfront, hb⟩ := ih hl
      exact ⟨a :: front, b, back, rfl, List.forall_mem_cons.mpr ⟨ha, hfront⟩, hb⟩

/-- Runs whose steps succeed together. -/
theorem toOption_mapM {g : α → Except ε β} {g' : α → Except ε γ} {k : β → γ}
    (h : ∀ a, (g' a).toOption = (g a).toOption.map k) (l : List α) :
    (l.mapM g').toOption = (l.mapM g).toOption.map (List.map k) := by
  induction l with
  | nil => rfl
  | cons a l ih =>
    simp only [List.mapM_cons, toOption_bind, h, ih]
    cases (g a).toOption <;> cases (l.mapM g).toOption <;> rfl

end Except

end WasmBinary
