/-! # Reading from the front

A reader takes something off the front of its input. The rest is shorter, which is why readers that
call each other end.
-/

namespace LinearProgram

/-- What was read from the front of the input, and what is left. -/
structure Parsed {τ : Type} (β : Type) (input : List τ) where
  value : β
  rest : List τ
  shorter : rest.length < input.length

namespace Parsed

variable {τ β γ : Type} {input : List τ}

def map (f : β → γ) (p : Parsed β input) : Parsed γ input := ⟨f p.value, p.rest, p.shorter⟩

/-- The same reading, seen as part of a longer input. -/
def within {longer : List τ} (h : input.length ≤ longer.length) (p : Parsed β input) :
    Parsed β longer :=
  ⟨p.value, p.rest, Nat.lt_of_lt_of_le p.shorter h⟩

end Parsed

/-- Steps one after the other succeed if each of them does. -/
theorem bind_eq_ok {ε β γ : Type} {x : Except ε β} {f : β → Except ε γ} {c : γ} :
    (x >>= f) = .ok c ↔ ∃ b, x = .ok b ∧ f b = .ok c := by
  cases x with
  | error e => simp [bind, Except.bind]
  | ok b => simp [bind, Except.bind]

theorem eq_ok_of_toOption {ε β : Type} {x : Except ε β} {b : β} (h : x.toOption = some b) :
    x = .ok b := by
  cases x with
  | error e => cases h
  | ok c =>
    cases h
    rfl

end LinearProgram
