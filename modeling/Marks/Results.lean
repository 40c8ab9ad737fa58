import Mathlib.Init

/-! # Computations that may fail

What is known of the parts of a computation in `Except` that has succeeded. -/

namespace Marks

section
variable {ε α β : Type}

theorem bind_ok {x : Except ε α} {f : α → Except ε β} {b : β} (h : x >>= f = .ok b) :
    ∃ a, x = .ok a ∧ f a = .ok b := by
  cases x with
  | error _ => cases h
  | ok a => exact ⟨a, rfl, h⟩

theorem toOption_ok {x : Except ε α} {a : α} (h : x.toOption = some a) : x = .ok a := by
  cases x with
  | error _ => cases h
  | ok _ => exact congrArg Except.ok (Option.some.inj h)

def require (holds : Bool) (error : ε) : Except ε Unit := if holds then .ok () else .error error

/-- A row that has to be there. -/
def found (row : Option α) (error : ε) : Except ε α :=
  match row with
  | some row => .ok row
  | none => .error error

variable {holds : Bool} {error : ε}

theorem require_ok {u : Unit} (h : require holds error = .ok u) : holds = true := by
  unfold require at h
  split at h
  · assumption
  · cases h

theorem found_ok {row : Option α} {a : α} (h : found row error = .ok a) : row = some a := by
  unfold found at h
  split at h
  · cases h
    rfl
  · cases h

theorem require_true {f : Unit → Except ε β} : require true error >>= f = f () := rfl

theorem found_some {a : α} {f : α → Except ε β} : found (some a) error >>= f = f a := rfl

theorem require_bind {f : Unit → Except ε β} {b : β} (h : require holds error >>= f = .ok b) :
    holds = true ∧ f () = .ok b := by
  obtain ⟨_, hr, h⟩ := bind_ok h
  exact ⟨require_ok hr, h⟩

theorem found_bind {row : Option α} {f : α → Except ε β} {b : β} (h : found row error >>= f = .ok b) :
    ∃ a, row = some a ∧ f a = .ok b := by
  obtain ⟨a, hf, h⟩ := bind_ok h
  exact ⟨a, found_ok hf, h⟩

end

end Marks
