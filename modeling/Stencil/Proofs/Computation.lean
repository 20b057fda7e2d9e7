import Stencil.Engine

/-!
# Running computations

Loading and rendering are computations that change a state and can fail, and that keep what they
changed when they fail. The laws here say what each step of such a computation does to a state.
-/

namespace Stencil.Computation

variable {ε σ α β : Type}

/-- A mapped outcome is a success exactly when the outcome is one. -/
theorem map_eq_ok {x : Except ε α} {f : α → β} {b : β} :
    x.map f = .ok b ↔ ∃ a, x = .ok a ∧ f a = b := by
  cases x <;> simp [Except.map]

/-- Two steps succeed exactly when the first one does and the second one does after it. -/
theorem bind_eq_ok {x : Except ε α} {f : α → Except ε β} {b : β} :
    x.bind f = .ok b ↔ ∃ a, x = .ok a ∧ f a = .ok b := by
  cases x <;> simp [Except.bind]

/-- Another wording of the failures changes no success. -/
theorem mapError_eq_ok {δ : Type} {x : Except ε α} {f : ε → δ} {a : α} :
    x.mapError f = .ok a ↔ x = .ok a := by
  cases x with
  | error e => exact ⟨nofun, nofun⟩
  | ok b =>
    change (Except.ok b : Except δ α) = .ok a ↔ _
    rw [Except.ok.injEq, Except.ok.injEq]

theorem isOk_iff {x : Except ε α} : x.isOk = true ↔ ∃ a, x = .ok a := by
  cases x <;> simp [Except.isOk, Except.toBool]

theorem exists_eq_ok_of_isOk {x : Except ε α} (h : x.isOk = true) : ∃ a, x = .ok a :=
  isOk_iff.mp h

@[simp] theorem pure_apply (a : α) (s : σ) :
    (pure a : ExceptT ε (StateM σ) α) s = (.ok a, s) := rfl

@[simp] theorem throw_apply (e : ε) (s : σ) :
    (throw e : ExceptT ε (StateM σ) α) s = (.error e, s) := rfl

@[simp] theorem get_apply (s : σ) : (get : ExceptT ε (StateM σ) σ) s = (.ok s, s) := rfl

@[simp] theorem set_apply (s t : σ) :
    (set t : ExceptT ε (StateM σ) PUnit) s = (.ok ⟨⟩, t) := rfl

@[simp] theorem modify_apply (f : σ → σ) (s : σ) :
    (modify f : ExceptT ε (StateM σ) PUnit) s = (.ok ⟨⟩, f s) := rfl

@[simp] theorem ofExcept_apply (x : Except ε α) (s : σ) :
    (ofExcept x : ExceptT ε (StateM σ) α) s = (x, s) := by
  cases x <;> rfl

/-- An action whose failure is kept as a result does not fail. -/
@[simp] theorem lift_run_apply (x : ExceptT ε (StateM σ) α) (s : σ) :
    (ExceptT.lift x.run : ExceptT ε (StateM σ) (Except ε α)) s = (.ok (x s).1, (x s).2) := rfl

/-- The second action runs on the state that the first one leaves, unless that one fails. -/
@[simp] theorem bind_apply (x : ExceptT ε (StateM σ) α) (f : α → ExceptT ε (StateM σ) β) (s : σ) :
    (x >>= f) s = match x s with
      | (.ok a, after) => f a after
      | (.error e, after) => (.error e, after) := by
  rcases h : x s with ⟨_ | _, _⟩
  · simp [bind, ExceptT.bind, ExceptT.mk, StateT.bind, h, ExceptT.bindCont]
    rfl
  · simp [bind, ExceptT.bind, ExceptT.mk, StateT.bind, h, ExceptT.bindCont]

@[simp] theorem map_apply (f : α → β) (x : ExceptT ε (StateM σ) α) (s : σ) :
    (f <$> x) s = match x s with
      | (.ok a, after) => (.ok (f a), after)
      | (.error e, after) => (.error e, after) := by
  rw [map_eq_pure_bind, bind_apply]
  rfl

/-- The second action has a result when the first one has one and leaves a state from which the second
one has it. -/
theorem bind_apply_eq_ok {x : ExceptT ε (StateM σ) α} {f : α → ExceptT ε (StateM σ) β} {s after : σ}
    {b : β} : (x >>= f) s = (.ok b, after) ↔
      ∃ a middle, x s = (.ok a, middle) ∧ f a middle = (.ok b, after) := by
  rw [bind_apply]
  rcases hx : x s with ⟨e | a, middle⟩
  · constructor
    · intro h
      cases h
    · rintro ⟨_, _, h, -⟩
      cases h
  · constructor
    · intro h
      exact ⟨a, middle, rfl, h⟩
    · rintro ⟨_, _, ⟨⟩, h⟩
      exact h

end Stencil.Computation
