/-
# One computation after another

The parser, runs, sessions and the native functions are all computations that
change a state and may stop at an error, with the state as it is then.  What such
a computation does, followed by another, is said here once.
-/

namespace Scriptlet

variable {ε σ α β : Type}

theorem bind_apply (x : EStateM ε σ α) (k : α → EStateM ε σ β) (s : σ) :
    (x >>= k) s =
      match x s with
      | .ok a s' => k a s'
      | .error e s' => .error e s' :=
  EStateM.run_bind x k

theorem bind_of_ok {x : EStateM ε σ α} {s s' : σ} {a : α} (h : x s = .ok a s')
    (k : α → EStateM ε σ β) : (x >>= k) s = k a s' := by
  rw [bind_apply, h]

theorem bind_of_error {x : EStateM ε σ α} {s s' : σ} {e : ε} (h : x s = .error e s')
    (k : α → EStateM ε σ β) : (x >>= k) s = .error e s' := by
  rw [bind_apply, h]

/-- If both together give a value, the first gives one and then the second does. -/
theorem ok_of_bind {x : EStateM ε σ α} {k : α → EStateM ε σ β} {s s' : σ} {b : β}
    (h : (x >>= k) s = .ok b s') : ∃ a between, x s = .ok a between ∧ k a between = .ok b s' := by
  rw [bind_apply] at h
  cases ran : x s with
  | ok a between =>
    rw [ran] at h
    exact ⟨a, between, rfl, h⟩
  | error e between =>
    rw [ran] at h
    cases h

end Scriptlet
