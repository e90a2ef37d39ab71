import Demarcate.Config
import Demarcate.Definition
import Demarcate.Row
/-!
# Step — units of work as data

A program is a list of steps, of which two kinds have programs inside them: a call that is run as a definition says, and
a native transaction.  A step names the session it works on, by a name that an earlier step gave it or as what a context
has for a data source (`Target`).  Names are texts here and are checked when the step is taken.
-/
namespace Demarcate.Script

/-- Which session a step works on. -/
structure Target where
  /-- The name that an earlier step gave to a session. -/
  handle : Option String := none
  context : Nat := 0
  backend : String := "default"

/-- The row that a step writes. -/
structure RowSpec where
  key : String
  data : Json
  /-- How many arrays are around the null of the column `deep`, if the row has one. -/
  deep : Option Nat := none
  version : Option Nat := none
  createdAt : Option String := none
  updatedAt : Option String := none

namespace RowSpec

/-- A null inside `n` arrays. -/
def nested : (n : Nat) → Json
  | 0 => .null
  | n + 1 => .array [nested n]

/-- The row, made at `now`. -/
def build (now : String) (r : RowSpec) : Except StorageError Row := do
  let key ← (RowKey.parse r.key).mapError .invalidName
  let row ← Row.ofJson now key r.data
  let columns := match r.deep with
    | none => row.columns
    | some n => row.columns.insert "deep" (nested n)
  return { row with
    columns
    version := r.version.getD row.version
    createdAt := r.createdAt.getD row.createdAt
    updatedAt := r.updatedAt.getD row.updatedAt }

end RowSpec

inductive WriteKind where
  | insert
  | update
  | upsert
  deriving DecidableEq

def WriteKind.change : WriteKind → Row → Change
  | .insert => .insert
  | .update => .update
  | .upsert => .upsert

/-- A step without steps inside it. -/
inductive Call where
  | write (kind : WriteKind) (target : Target) (table : String) (row : RowSpec)
  | delete (target : Target) (table key : String)
  | get (target : Target) (table key : String)
  | scan (target : Target) (table : String)
  | count (target : Target) (table : String)
  /-- The rows, without their times. -/
  | keys (target : Target) (table : String)
  /-- The rows that a session of its own sees, without their times. -/
  | persisted (backend table : String)
  | tables (target : Target)
  | fail (f : Failure)
  | unwind (text : String)
  | state (context : Nat)
  | depth (context : Nat) (backend : String)
  | current (context : Nat) (backend : String)
  | resource (target : Target) (name : Option String)
  | peek (target : Target)
  | acquire (backend name : String)
  | release (backend name : String)
  | opened (backend : String)
  | backends
  | describe (context : Nat)
  | newContext
  | dropContext (context : Nat)
  | log (backend : String) (limit : Nat) (sorted : Bool)
  | transactionIds (backend : String)
  | beginBranch (backend id : String)
  | abandonBranch (backend id : String)
  | cleanup (backend : String)
  | configuration (backend : String)
  | reopen (config : Except ConfigError EngineConfig)
  | calls
  | unknown

/-- What the steps after a step depend on. -/
structure Guard where
  /-- Whether the list goes on although the step failed. -/
  goesOnAfterError : Bool := false
  /-- Whether an unwinding stops at the step. -/
  catchesUnwinding : Bool := false

inductive Program where
  | done
  | call (guard : Guard) (c : Call) (next : Program)
  | run (guard : Guard) (context : Nat) (d : Definition) (body next : Program)
  /-- A native transaction, whose session gets a name; `commits` is how it ends after its body. -/
  | native (guard : Guard) (target : Target) (name : String) (commits : Bool) (body next : Program)

instance : Inhabited Program := ⟨.done⟩

end Demarcate.Script
