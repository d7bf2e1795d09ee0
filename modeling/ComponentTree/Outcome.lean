/-
# Results that may fail

What has to be known of a chain of computations that may fail: it succeeds when each part
does, and fails with the error of the first part that fails.

A call that changes a state gives its reply and the state as it is then, whether it fails or not.
Where calls are made only as long as none fails, the state after a failure is dropped (`state`).
-/

namespace ComponentTree.Outcome

universe u v w

/-- The state after a call that has not failed. -/
def state {ε : Type u} {σ : Type v} : Except ε Unit × σ → Except ε σ
  | (.ok (), s) => .ok s
  | (.error e, _) => .error e

variable {ε : Type u} {α β : Type v}

theorem state_eq_ok {call : Except ε Unit × α} {a : α} :
    state call = .ok a ↔ call = (.ok (), a) := by
  obtain ⟨_ | _, _⟩ := call <;> simp [state]

theorem bind_eq_ok {x : Except ε α} {f : α → Except ε β} {b : β} :
    (x >>= f) = .ok b ↔ ∃ a, x = .ok a ∧ f a = .ok b := by
  cases x <;> simp [bind, Except.bind]

theorem bind_eq_error {x : Except ε α} {f : α → Except ε β} {e : ε} :
    (x >>= f) = .error e ↔ x = .error e ∨ ∃ a, x = .ok a ∧ f a = .error e := by
  cases x <;> simp [bind, Except.bind]

theorem map_eq_ok {x : Except ε α} {f : α → β} {b : β} :
    x.map f = .ok b ↔ ∃ a, x = .ok a ∧ f a = b := by
  cases x <;> simp [Except.map]

theorem map_eq_error {x : Except ε α} {f : α → β} {e : ε} :
    x.map f = .error e ↔ x = .error e := by
  cases x <;> simp [Except.map]

theorem mapError_eq_ok {ε' : Type w} {x : Except ε α} {f : ε → ε'} {a : α} :
    x.mapError f = .ok a ↔ x = .ok a := by
  cases x <;> constructor <;> rintro ⟨⟩ <;> rfl

end ComponentTree.Outcome
