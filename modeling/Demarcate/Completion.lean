/-!
# Completion — a result with what is to become of it

Work inside a native transaction ends with a value and says whether the transaction is committed or rolled back.
-/
namespace Demarcate

inductive Completion (α : Type) where
  | commit (a : α)
  | rollback (a : α)
  deriving DecidableEq

namespace Completion

variable {α : Type}

def isCommit : Completion α → Bool
  | .commit _ => true
  | .rollback _ => false

/-- The value, whatever becomes of the transaction. -/
def value : Completion α → α
  | .commit a | .rollback a => a

end Completion
end Demarcate
