/-!
# Outcome — the three ways a call ends

A call returns a value, reports an error, or unwinds: an unwinding passes through every caller, each of which still
puts its own state in order, until something stops it.
-/
namespace Demarcate

inductive Outcome (ε α : Type) where
  | value (a : α)
  | failed (e : ε)
  | unwound (text : String)
  deriving DecidableEq

namespace Outcome

variable {ε ε' α β : Type}

instance [Inhabited α] : Inhabited (Outcome ε α) := ⟨.value default⟩

protected def bind : Outcome ε α → (α → Outcome ε β) → Outcome ε β
  | .value a, f => f a
  | .failed e, _ => .failed e
  | .unwound text, _ => .unwound text

instance : Monad (Outcome ε) where
  pure := .value
  bind := Outcome.bind

instance : MonadExceptOf ε (Outcome ε) where
  throw := .failed
  tryCatch
    | .failed e, handle => handle e
    | x, _ => x

/-- The same ending with its error put in other words. -/
def mapError (f : ε → ε') : Outcome ε α → Outcome ε' α
  | .value a => .value a
  | .failed e => .failed (f e)
  | .unwound text => .unwound text

def ofExcept : Except ε α → Outcome ε α
  | .ok a => .value a
  | .error e => .failed e

end Outcome
end Demarcate
