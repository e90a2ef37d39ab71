import Demarcate.Error
import Demarcate.Outcome
/-!
# Act — actions on a state

An action on a state ends in one of the three ways and leaves the state as it has become, in each.
-/
namespace Demarcate.Script

def Act (σ α : Type) : Type := σ → Outcome Failure α × σ

namespace Act

variable {σ : Type}

protected def pure {α : Type} (a : α) : Act σ α := fun s => (.value a, s)

protected def bind {α β : Type} (x : Act σ α) (f : α → Act σ β) : Act σ β := fun s =>
  match x s with
  | (.value a, s) => f a s
  | (.failed e, s) => (.failed e, s)
  | (.unwound text, s) => (.unwound text, s)

instance : Monad (Act σ) where
  pure := Act.pure
  bind := Act.bind

def fail {α : Type} (f : Failure) : Act σ α := fun s => (.failed f, s)

/-- Asks for what there is not. -/
def misuse {α : Type} (message : String) : Act σ α := fail (.misuse message)

def unwind {α : Type} (text : String) : Act σ α := fun s => (.unwound text, s)

/-- The state as it is. -/
def state : Act σ σ := fun s => (.value s, s)

def update (f : σ → σ) : Act σ Unit := fun s => (.value (), f s)

def lift {ε α : Type} (wrap : ε → Failure) (x : Except ε α) : Act σ α :=
  match x with
  | .ok a => Act.pure a
  | .error e => fail (wrap e)

/-! ## Names that a step gives -/

def tableOf (text : String) : Act σ TableName := lift (fun e => .storage (.invalidName e)) (TableName.parse text)

def keyOf (text : String) : Act σ RowKey := lift (fun e => .storage (.invalidName e)) (RowKey.parse text)

def backendOf (text : String) : Act σ BackendName := lift (fun e => .storage (.invalidName e)) (BackendName.parse text)

end Act
end Demarcate.Script
