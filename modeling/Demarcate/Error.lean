import Demarcate.ErrorKind
import Demarcate.Json.Decode
import Demarcate.Name
import Demarcate.Propagation
/-!
# Error — what can go wrong, layer by layer

Each layer has its own causes and wraps those of the layers below: storage, the session that demarcates a transaction,
propagation, and the database with its configuration.  A cause has a kind, which a directive judges, and a message.
The kind of a wrapped cause is the inner one's.  Two causes have no message of their own: a refusal by the version
store, and a text that is not JSON.
-/
namespace Demarcate

/-! ## Storage -/

inductive StorageError where
  /-- The version store refused. -/
  | git
  | rowNotFound (slot : Slot)
  | rowAlreadyExists (slot : Slot)
  | invalidName (e : NameError)
  | serialization (e : Json.DecodeError)
  | refNotFound (ref : String)
  | corruptedData (path reason : String)
  | io (message : String)
  | notInitialized (path : String)
  | concurrentModification (branch : String)
  | schemaViolation (reason : String)
  deriving DecidableEq

/-- The message of a text that is JSON and not what was wanted. -/
def Json.DecodeError.message? : Json.DecodeError → Option String
  | .data message => some message
  | _ => none

namespace StorageError

def message? : StorageError → Option String
  | .git => none
  | .rowNotFound s => some s!"row not found: table={s.table.text}, key={s.key.text}"
  | .rowAlreadyExists s => some s!"row already exists: table={s.table.text}, key={s.key.text}"
  | .invalidName e => some ("invalid name: " ++ e.message)
  | .serialization e => e.message?.map ("serialization error: " ++ ·)
  | .refNotFound ref => some ("ref not found: " ++ ref)
  | .corruptedData path reason => some s!"corrupted data at {path}: {reason}"
  | .io message => some ("io error: " ++ message)
  | .notInitialized path => some ("repository not initialized: " ++ path)
  | .concurrentModification branch =>
    some s!"concurrent modification: branch {branch} was updated by another writer"
  | .schemaViolation reason => some ("schema violation: " ++ reason)

def kind : StorageError → ErrorKind
  | .git => ⟨"storage.git"⟩
  | .rowNotFound _ => ⟨"storage.row_not_found"⟩
  | .rowAlreadyExists _ => ⟨"storage.row_already_exists"⟩
  | .invalidName _ => ⟨"storage.invalid_name"⟩
  | .serialization _ => ⟨"storage.serialization"⟩
  | .refNotFound _ => ⟨"storage.ref_not_found"⟩
  | .corruptedData _ _ => ⟨"storage.corrupted_data"⟩
  | .io _ => ⟨"storage.io"⟩
  | .notInitialized _ => ⟨"storage.not_initialized"⟩
  | .concurrentModification _ => ⟨"storage.concurrent_modification"⟩
  | .schemaViolation _ => ⟨"storage.schema_violation"⟩

def isNotFound : StorageError → Bool
  | .rowNotFound _ | .refNotFound _ => true
  | _ => false

def isConflict : StorageError → Bool
  | .rowAlreadyExists _ | .concurrentModification _ => true
  | _ => false

/-- Whether another attempt may succeed. -/
def isRetryable : StorageError → Bool
  | .concurrentModification _ => true
  | _ => false

/-- The text that the cause is JSON's, if it is. -/
def json? : StorageError → Option Json.DecodeError
  | .serialization e => some e
  | _ => none

end StorageError

/-! ## Sessions -/

inductive ResourceError where
  | storage (e : StorageError)
  | nestedTransaction
  /-- Committing would overwrite rows that were changed meanwhile. -/
  | conflict (transaction : String) (paths : List String)
  | unknownBackend (name : BackendName)
  deriving DecidableEq

namespace ResourceError

def message? : ResourceError → Option String
  | .storage e => e.message?.map ("storage error: " ++ ·)
  | .nestedTransaction => some "resource is already inside a native transaction"
  | .conflict transaction paths =>
    let listed := ", ".intercalate paths
    some s!"transaction {transaction} conflicts on paths: {listed}"
  | .unknownBackend name => some s!"no data source configured under the name '{name.text}'"

def kind : ResourceError → ErrorKind
  | .storage e => e.kind
  | .nestedTransaction => ⟨"resource.nested_transaction"⟩
  | .conflict _ _ => ⟨"resource.conflict"⟩
  | .unknownBackend _ => ⟨"resource.unknown_backend"⟩

def isRetryable : ResourceError → Bool
  | .conflict _ _ => true
  | .storage e => e.isRetryable
  | _ => false

end ResourceError

/-! ## Propagation -/

inductive TransactionError where
  | required (operation : String)
  /-- A call that never runs in a transaction, inside one. -/
  | notAllowed (operation : String)
  | resource (e : ResourceError)
  deriving DecidableEq

namespace TransactionError

def ofStorage (e : StorageError) : TransactionError := .resource (.storage e)

def message? : TransactionError → Option String
  | .required operation => some (operation ++ " called outside a transaction context")
  | .notAllowed operation => some (operation ++ " called inside a transaction context")
  | .resource e => e.message?

def kind : TransactionError → ErrorKind
  | .required _ => ⟨"transaction.required"⟩
  | .notAllowed _ => ⟨"transaction.not_allowed"⟩
  | .resource e => e.kind

def isContractViolation : TransactionError → Bool
  | .required _ | .notAllowed _ => true
  | _ => false

def isRetryable : TransactionError → Bool
  | .resource e => e.isRetryable
  | _ => false

end TransactionError

/-- The error of a broken contract, for the operation whose call broke it. -/
def Violation.toError (operation : String) : Violation → TransactionError
  | .transactionRequired => .required operation
  | .transactionNotAllowed => .notAllowed operation

/-! ## Configuration and database -/

inductive ConfigError where
  | notConfigured
  | parse (e : Json.DecodeError)
  | invalidName (e : NameError)
  | invalid (name : BackendName) (reason : String)
  deriving DecidableEq

def ConfigError.message? : ConfigError → Option String
  | .notConfigured => some "no data source configured"
  | .parse e => e.message?.map ("invalid configuration json: " ++ ·)
  | .invalidName e => some ("invalid data source name: " ++ e.message)
  | .invalid name reason => some s!"data source '{name.text}': {reason}"

inductive DatabaseError where
  | config (e : ConfigError)
  | storage (e : StorageError)
  | transaction (e : TransactionError)
  deriving DecidableEq

namespace DatabaseError

def message? : DatabaseError → Option String
  | .config e => e.message?.map ("configuration error: " ++ ·)
  | .storage e => e.message?.map ("storage error: " ++ ·)
  | .transaction e => e.message?.map ("transaction error: " ++ ·)

def kind : DatabaseError → ErrorKind
  | .config _ => ⟨"database.config"⟩
  | .storage e => e.kind
  | .transaction e => e.kind

def isRetryable : DatabaseError → Bool
  | .config _ => false
  | .storage e => e.isRetryable
  | .transaction e => e.isRetryable

end DatabaseError

/-! ## The errors of a unit of work

A unit of work may fail with an error of any layer, with one of its own, or because it asks for what is not there to be
asked.  It passes every error through unchanged. -/

inductive Failure where
  | app (kind : ErrorKind) (message : String)
  | storage (e : StorageError)
  | resource (e : ResourceError)
  | transaction (e : TransactionError)
  | config (e : ConfigError)
  | database (e : DatabaseError)
  /-- The work names a handle, a context or a step that there is not. -/
  | misuse (message : String)
  deriving DecidableEq

namespace Failure

def message? : Failure → Option String
  | .app _ message => some message
  | .storage e => e.message?
  | .resource e => e.message?
  | .transaction e => e.message?
  | .config e => e.message?
  | .database e => e.message?
  | .misuse message => some message

def kind : Failure → ErrorKind
  | .app kind _ => kind
  | .storage e => e.kind
  | .resource e => e.kind
  | .transaction e => e.kind
  | .config _ => ⟨"config"⟩
  | .database e => e.kind
  | .misuse _ => ⟨"driver"⟩

/-- The cause inside every wrapping. -/
inductive Cause where
  | storage (e : StorageError)
  | resource (e : ResourceError)
  | other

def ofResource : ResourceError → Cause
  | .storage e => .storage e
  | e => .resource e

def ofTransaction : TransactionError → Cause
  | .resource e => ofResource e
  | _ => .other

def cause : Failure → Cause
  | .storage e => .storage e
  | .resource e => ofResource e
  | .transaction e => ofTransaction e
  | .database (.storage e) => .storage e
  | .database (.transaction e) => ofTransaction e
  | _ => .other

/-- The fault of a JSON text, if that is the innermost cause. -/
def json? : Failure → Option Json.DecodeError
  | .config (.parse e) => some e
  | .database (.config (.parse e)) => some e
  | f => match f.cause with
    | .storage e => e.json?
    | _ => none

def conflictPaths? (f : Failure) : Option (List String) :=
  match f.cause with
  | .resource (.conflict _ paths) => some paths
  | _ => none

inductive Layer where
  | resource
  | transaction
  | database
  deriving DecidableEq

/-- Wraps an error in one more layer; `none` where the layer takes no such error. -/
def wrap? : Failure → Layer → Option Failure
  | .storage e, .resource => some (.resource (.storage e))
  | .storage e, .transaction => some (.transaction (.ofStorage e))
  | .resource e, .transaction => some (.transaction (.resource e))
  | .storage e, .database => some (.database (.storage e))
  | .transaction e, .database => some (.database (.transaction e))
  | .config e, .database => some (.database (.config e))
  | _, _ => none

end Failure
end Demarcate
