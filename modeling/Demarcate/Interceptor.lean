import Demarcate.Engine
/-!
# Interceptor — running a unit of work as its definition says

`Engine.run` decides by the definition's mode and by the context's top frame how the work runs: where it is, or on a
fresh session, in a transaction or outside one.  A fresh session is a frame for as long as the work runs.  While it runs
in a transaction the frame holds the session's twin inside it, and the plain session again before the transaction is
ended, so whatever ends the work finds the stacks as they were.

The work's own result is the call's result, with two exceptions: work that never ran, and work that succeeded in a
transaction whose commit failed.
-/
namespace Demarcate
namespace Engine

def provider? (e : Engine) (c : Nat) (b : BackendName) : Except TransactionError Nat :=
  match (e.context c).registry.get? b with
  | some p => .ok p
  | none => .error (.resource (.unknownBackend b))

/-- The session that work outside every call, or inside the innermost one, uses.  Where there is no frame, one session
is acquired and kept. -/
def resource (e : Engine) (c : Nat) (b : BackendName) : Except TransactionError Session × Engine :=
  match (e.context c).current? b, (e.context c).detached.get? b with
  | some s, _ => (.ok s, e)
  | none, some s => (.ok s, e)
  | none, none =>
    match e.provider? c b with
    | .error err => (.error err, e)
    | .ok p =>
      match e.acquire p with
      | (.error err, e) => (.error (.resource err), e)
      | (.ok s, e) =>
        let x := e.context c
        (.ok s, e.setContext c { x with detached := x.detached.insert b s })

/-! ## Planning -/

/-- How a call is to run. -/
inductive Plan where
  /-- On what there is. -/
  | inPlace
  /-- On a session of its own, and in a transaction if `wrap` says so. -/
  | onFresh (s : Session) (wrap : Bool)

def planCall (e : Engine) (c : Nat) (d : Definition) : Except TransactionError Plan × Engine :=
  match e.provider? c d.backend with
  | .error err => (.error err, e)
  | .ok p =>
    match d.mode.resolve ((e.context c).isActive d.backend) with
    | .error violation => (.error (violation.toError d.operation), e)
    | .ok resolution =>
      if resolution.isInitiator then
        match e.acquire p with
        | (.error err, e) => (.error (.resource err), e)
        | (.ok s, e) => (.ok (.onFresh s resolution.mustWrap), e)
      else (.ok .inPlace, e)

/-! ## Frames -/

def pushFrame (e : Engine) (c : Nat) (b : BackendName) (s : Session) : Engine :=
  e.setContext c ((e.context c).pushFrame b s)

/-- Takes off the top frame and gives its session back; `none` if there is no frame. -/
def dropFrame? (e : Engine) (c : Nat) (b : BackendName) : Option Engine :=
  match (e.context c).popFrame? b with
  | none => none
  | some (s, x) =>
    let e := e.setContext c x
    match x.registry.get? b with
    | some p => some (e.release p s)
    | none => some e

def swapTop? (e : Engine) (c : Nat) (b : BackendName) (s : Session) : Option (Session × Engine) :=
  ((e.context c).swapTop? b s).map fun (previous, x) => (previous, e.setContext c x)

/-! ## Running

Work takes the engine and returns how it ended, whatever else it has to report, and what has become of the engine. -/

/-- How a transaction is ended after its work. -/
def verdictOf (d : Directive) : Outcome Failure Unit → Verdict
  | .value () => .commit
  | .failed f => if d.shouldRollback f.kind then .rollback else .commit
  | .unwound text => .unwind text

/-- The result of a call whose work ran in a transaction. -/
def combine (demarcation : Outcome ResourceError Unit) (work : Outcome Failure Unit) : Outcome Failure Unit :=
  match demarcation, work with
  | .value (), result => result
  | .failed _, .failed f => .failed f
  | .failed e, _ => .failed (.transaction (.resource e))
  | .unwound text, _ => .unwound text

/-- Runs work with a frame's session replaced by another. -/
def runSwapped {β : Type} (e : Engine) (c : Nat) (b : BackendName) (s : Session)
    (work : Engine → (Outcome Failure Unit × β) × Engine) : (Outcome Failure Unit × Option β) × Engine :=
  match e.swapTop? c b s with
  | none => ((.unwound FrameStack.replaceTopText, none), e)
  | some (previous, e) =>
    let ((outcome, b'), e) := work e
    match e.swapTop? c b previous with
    | none => ((.unwound FrameStack.replaceTopText, some b'), e)
    | some (_, e) => ((outcome, some b'), e)

def runWrapped {β : Type} (e : Engine) (c : Nat) (d : Definition) (s : Session)
    (work : Engine → (Outcome Failure Unit × β) × Engine) : (Outcome Failure Unit × Option β) × Engine :=
  let (demarcated, e) := e.transact s fun tx e =>
    let (ran, e) := e.runSwapped c d.backend tx work
    ((verdictOf d.directive ran.1, ran), e)
  match demarcated with
  | .refused err => ((.failed (.transaction (.resource err)), none), e)
  | .ended outcome (result, b) => ((combine outcome result, b), e)

def runFramed {β : Type} (e : Engine) (c : Nat) (d : Definition) (s : Session) (wrap : Bool)
    (work : Engine → (Outcome Failure Unit × β) × Engine) : (Outcome Failure Unit × Option β) × Engine :=
  let e := e.pushFrame c d.backend s
  let ((outcome, b), e) :=
    if wrap then e.runWrapped c d s work
    else
      let ((outcome, b), e) := work e
      ((outcome, some b), e)
  match e.dropFrame? c d.backend with
  | some e => ((outcome, b), e)
  | none => ((.unwound FrameStack.popText, b), e)

/-- Runs work as a definition says.  What the work reports is `none` if it never ran. -/
def run {β : Type} (e : Engine) (c : Nat) (d : Definition)
    (work : Engine → (Outcome Failure Unit × β) × Engine) : (Outcome Failure Unit × Option β) × Engine :=
  match e.planCall c d with
  | (.error err, e) => ((.failed (.transaction err), none), e)
  | (.ok .inPlace, e) =>
    let ((outcome, b), e) := work e
    ((outcome, some b), e)
  | (.ok (.onFresh s wrap), e) => e.runFramed c d s wrap work

end Engine
end Demarcate
