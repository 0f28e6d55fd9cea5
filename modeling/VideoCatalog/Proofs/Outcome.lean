/-!
# Computations that may fail

What a computation gave is taken apart: where a whole succeeded, each of its steps did.
-/

namespace VideoCatalog

variable {ε ε' α β : Type}

/-- A computation that succeeds did so step by step. -/
theorem exists_of_bind_eq_ok {x : Except ε α} {next : α → Except ε β} {b : β}
    (h : x >>= next = .ok b) : ∃ a, x = .ok a ∧ next a = .ok b := by
  cases x with
  | error e => cases h
  | ok a => exact ⟨a, rfl, h⟩

/-- Another name for what may go wrong is no other success. -/
theorem eq_ok_of_mapError {x : Except ε α} {k : ε → ε'} {a : α} (h : x.mapError k = .ok a) :
    x = .ok a := by
  cases x with
  | error e => cases h
  | ok a' =>
      cases h
      rfl

end VideoCatalog
