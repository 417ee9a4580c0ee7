/-!
# Results and faults

What comes to a result in sequence does so in each of its parts, and what is made of a result has
the fault that the result would have had.
-/

namespace Cuesheet

variable {ε α β : Type}

theorem ok_of_bind {m : Except ε α} {f : α → Except ε β} {b : β} (h : m >>= f = .ok b) :
    ∃ a, m = .ok a ∧ f a = .ok b := by
  cases m with
  | error e => cases h
  | ok a => exact ⟨a, rfl, h⟩

theorem map_error_iff {x : Except ε α} {f : α → β} {fault : ε} :
    x.map f = .error fault ↔ x = .error fault := by
  cases x <;> simp [Except.map]

theorem exists_ok_iff {result : Except ε α} :
    (∃ a, result = .ok a) ↔ ∀ fault, result ≠ .error fault := by
  cases result <;> simp

/-- What does not end in a fault that a test fails comes to a result or to a fault that passes. -/
theorem passed_or_ok_iff {result : Except ε α} {test : ε → Bool} :
    ((∃ fault, result = .error fault ∧ test fault = true) ∨ ∃ a, result = .ok a) ↔
      ¬ ∃ fault, result = .error fault ∧ test fault = false := by
  cases result <;> simp

/-- A test that succeeds has a result to be about. -/
theorem exists_ok_of_any {result : Except ε α} {test : α → Bool}
    (h : result.toOption.any test = true) : ∃ a, result = .ok a ∧ test a = true := by
  cases result with
  | error _ => cases h
  | ok a => exact ⟨a, rfl, h⟩

end Cuesheet
