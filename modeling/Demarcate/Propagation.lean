import Demarcate.Text.Upper
/-!
# Propagation — how a call relates to a running transaction

A call declares a mode, and `Mode.resolve` decides from the mode and from whether a transaction is running on the
call's data source what is done: join what there is, run as is, run on a fresh session outside a transaction, or begin
a transaction on a fresh session.  Two modes are contracts that a running, or a missing, transaction breaks.
-/
namespace Demarcate

inductive Mode where
  | mandatory
  | never
  | notSupported
  | required
  | requiresNew
  | supports
  deriving DecidableEq, Inhabited

namespace Mode

def all : List Mode := [.mandatory, .never, .notSupported, .required, .requiresNew, .supports]

/-- The mode of a definition that names none. -/
def default : Mode := .required

def name : Mode → String
  | .mandatory => "MANDATORY"
  | .never => "NEVER"
  | .notSupported => "NOT_SUPPORTED"
  | .required => "REQUIRED"
  | .requiresNew => "REQUIRES_NEW"
  | .supports => "SUPPORTS"

/-- Whether a call in this mode can begin a transaction. -/
def mayBegin : Mode → Bool
  | .required | .requiresNew => true
  | _ => false

/-- A name without the characters that separate its words. -/
def withoutSeparators (s : String) : List Char := s.toList.filter fun c => c != '_' && c != '-'

def parse? (s : String) : Option Mode :=
  let word := Text.upper (withoutSeparators s)
  all.find? fun m => withoutSeparators m.name == word

/-- The message about a name that is no mode's. -/
def unknownMessage (s : String) : String := "unknown propagation mode: " ++ s

def parse (s : String) : Except String Mode :=
  match parse? s with
  | some m => .ok m
  | none => .error (unknownMessage s)

end Mode

/-- What a mode comes to in a given situation. -/
inductive Resolution where
  /-- Run inside the transaction that is there. -/
  | join
  /-- Run on what there is, outside a transaction. -/
  | runAsIs
  /-- Run outside the transaction that is there, on a fresh session. -/
  | suspend
  /-- Run in a new transaction on a fresh session. -/
  | begin
  deriving DecidableEq, Inhabited

namespace Resolution

/-- Whether the call runs on a session of its own. -/
def isInitiator : Resolution → Bool
  | .suspend | .begin => true
  | _ => false

/-- Whether the call runs in a transaction of its own. -/
def mustWrap : Resolution → Bool
  | .begin => true
  | _ => false

def name : Resolution → String
  | .join => "Join"
  | .runAsIs => "RunAsIs"
  | .suspend => "Suspend"
  | .begin => "Begin"

end Resolution

/-- A contract that the situation breaks. -/
inductive Violation where
  | transactionRequired
  | transactionNotAllowed
  deriving DecidableEq, Inhabited

def Violation.name : Violation → String
  | .transactionRequired => "TransactionRequired"
  | .transactionNotAllowed => "TransactionNotAllowed"

def Mode.resolve : Mode → (active : Bool) → Except Violation Resolution
  | .mandatory, true => .ok .join
  | .mandatory, false => .error .transactionRequired
  | .never, true => .error .transactionNotAllowed
  | .never, false => .ok .runAsIs
  | .notSupported, true => .ok .suspend
  | .notSupported, false => .ok .runAsIs
  | .required, true => .ok .join
  | .required, false => .ok .begin
  | .requiresNew, _ => .ok .begin
  | .supports, true => .ok .join
  | .supports, false => .ok .runAsIs

end Demarcate
