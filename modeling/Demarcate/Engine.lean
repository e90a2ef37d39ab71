import Demarcate.Definition
import Demarcate.FrameStack
import Demarcate.Session
/-!
# Engine — providers, contexts and what they share

A provider hands out sessions on one store and counts those that were not given back.  A context belongs to one thread
of work: for every data source it has a stack of frames, each a session, and at most one session besides, handed out
while there was no frame and kept for the context's life.  The engine is the state that all of this shares.

A provider can be given a plan of faults (`FaultPlan`), by which the n-th call of a kind fails.
-/
namespace Demarcate

/-! ## Planned faults -/

/-- The calls that can be planned to fail, and the one that cannot. -/
inductive ProviderCall where
  | acquire
  | begin
  | commit
  | rollback
  | release
  deriving DecidableEq

def ProviderCall.name : ProviderCall → String
  | .acquire => "acquire"
  | .begin => "begin"
  | .commit => "commit"
  | .rollback => "rollback"
  | .release => "release"

structure FaultPlan where
  /-- The calls that fail, by their kind and their number among the calls of the kind. -/
  faults : List ((ProviderCall × Nat) × ResourceError) := []
  /-- The calls so far, the last one first. -/
  history : List ProviderCall := []
  /-- How many of them were reported. -/
  reported : Nat := 0

namespace FaultPlan

/-- Counts a call.  Returns the error that it is to fail with. -/
def call (p : FaultPlan) (c : ProviderCall) : Option ResourceError × FaultPlan :=
  (p.faults.lookup (c, p.history.count c), { p with history := c :: p.history })

/-- The calls since the last report. -/
def report (p : FaultPlan) : List ProviderCall × FaultPlan :=
  ((p.history.take (p.history.length - p.reported)).reverse, { p with reported := p.history.length })

end FaultPlan

/-! ## The state -/

/-- What a provider hands out sessions on. -/
inductive Source where
  | memory (store : Nat)
  | git (handle : Nat)
  deriving DecidableEq, Inhabited

structure Provider where
  source : Source
  /-- The sessions that were handed out and not given back. -/
  opened : UInt64 := 0
  deriving Inhabited

/-- The data sources by name, each with its provider's place. -/
abbrev Registry := SortedMap BackendName Nat

structure Context where
  registry : Registry := ∅
  frames : SortedMap BackendName (FrameStack Session) := ∅
  /-- The sessions handed out while there was no frame. -/
  detached : SortedMap BackendName Session := ∅
  /-- How many calls are running in it. -/
  running : Nat := 0
  /-- Whether nothing but the calls that are running refers to it. -/
  dropped : Bool := false
  deriving Inhabited

structure Engine where
  stores : Stores := {}
  providers : Array Provider := #[]
  contexts : Array Context := #[]
  plan : Option FaultPlan := none

namespace Context

def stack (c : Context) (b : BackendName) : FrameStack Session := (c.frames.get? b).getD {}

def current? (c : Context) (b : BackendName) : Option Session := (c.stack b).current?

def depth (c : Context) (b : BackendName) : Nat := (c.stack b).depth

/-- Whether a call would run in a transaction. -/
def isActive (c : Context) (b : BackendName) : Bool := (c.current? b).any Session.isInTransaction

def setStack (c : Context) (b : BackendName) (s : FrameStack Session) : Context :=
  { c with frames := c.frames.insert b s }

def pushFrame (c : Context) (b : BackendName) (s : Session) : Context := c.setStack b ((c.stack b).push s)

/-- Takes off the top frame; `none` if there is no frame. -/
def popFrame? (c : Context) (b : BackendName) : Option (Session × Context) :=
  (c.stack b).pop?.map fun (s, rest) => (s, c.setStack b rest)

/-- Replaces the session of the top frame; `none` if there is no frame. -/
def swapTop? (c : Context) (b : BackendName) (s : Session) : Option (Session × Context) :=
  ((c.stack b).replaceTop? s).map fun (previous, stack) => (previous, c.setStack b stack)

end Context

namespace Engine

def context (e : Engine) (c : Nat) : Context := e.contexts.getD c {}

def setContext (e : Engine) (c : Nat) (x : Context) : Engine := { e with contexts := e.contexts.setIfInBounds c x }

def addContext (e : Engine) (registry : Registry) : Nat × Engine :=
  (e.contexts.size, { e with contexts := e.contexts.push { registry } })

def provider (e : Engine) (p : Nat) : Provider := e.providers.getD p default

def addProvider (e : Engine) (s : Source) : Nat × Engine :=
  (e.providers.size, { e with providers := e.providers.push { source := s } })

/-- Counts a provider's call.  Returns the error that it is planned to fail with. -/
def count (e : Engine) (c : ProviderCall) : Option ResourceError × Engine :=
  match e.plan with
  | none => (none, e)
  | some plan =>
    let (fault, plan) := plan.call c
    (fault, { e with plan := some plan })

/-! ## Sessions -/

def setOpened (e : Engine) (p : Nat) (n : UInt64) : Engine :=
  { e with providers := e.providers.setIfInBounds p { e.provider p with opened := n } }

def acquire (e : Engine) (p : Nat) : Except ResourceError Session × Engine :=
  match e.count .acquire with
  | (some fault, e) => (.error fault, e)
  | (none, e) =>
    let e := e.setOpened p ((e.provider p).opened + 1)
    let (id, stores) := e.stores.issue
    let session := match (e.provider p).source with
      | .memory store => .memory id store none
      | .git handle => .git id handle none
    (.ok session, { e with stores })

/-- Whether a provider counts sessions of this kind. -/
def handsOut : Source → Session → Bool
  | .memory _, .memory _ _ _ | .git _, .git _ _ _ => true
  | _, _ => false

/-- Gives a session back.  A provider does not count a session of the other kind. -/
def release (e : Engine) (p : Nat) (s : Session) : Engine :=
  let (_, e) := e.count .release
  if handsOut (e.provider p).source s then e.setOpened p ((e.provider p).opened - 1) else e

/-- Gives back the sessions that a context was handed outside its frames. -/
def closeContext (e : Engine) (c : Nat) : Engine :=
  let x := e.context c
  let e := e.setContext c { x with detached := ∅ }
  x.detached.entries.foldl (fun e (b, s) =>
    match x.registry.get? b with
    | some p => e.release p s
    | none => e) e

/-- Drops a context, with what it was handed.  One that runs goes when it has run. -/
def dropContext (e : Engine) (c : Nat) : Engine :=
  let x := e.context c
  if x.running = 0 then e.closeContext c else e.setContext c { x with dropped := true }

/-- Closes a context that was dropped while it ran, once nothing runs in it. -/
def closeDropped (e : Engine) (c : Nat) : Engine :=
  let x := e.context c
  if x.dropped && x.running = 0 then e.closeContext c else e

def apply (e : Engine) (s : Session) (table : TableName) (c : Change) : Outcome StorageError Unit × Engine :=
  let (outcome, stores) := s.apply e.stores table c
  (outcome, { e with stores })

/-! ## Native transactions -/

/-- How the work inside a transaction ended. -/
inductive Verdict where
  | commit
  | rollback
  | unwind (text : String)

/-- What became of a native transaction. -/
inductive Demarcated (α : Type) where
  /-- It was not begun, and its work did not run. -/
  | refused (e : ResourceError)
  /-- Its work ran with the result `a`. -/
  | ended (outcome : Outcome ResourceError Unit) (a : α)

/-- Ends a transaction as its work ended.  A fault that is planned for the end takes the place of the end, and the
transaction is rolled back. -/
def finish (e : Engine) (tx : Session) : Verdict → Outcome ResourceError Unit × Engine
  | .unwind text => (.unwound text, { e with stores := tx.abort e.stores })
  | .rollback =>
    match e.count .rollback with
    | (some fault, e) => (.failed fault, { e with stores := tx.rollback e.stores })
    | (none, e) => (.value (), { e with stores := tx.rollback e.stores })
  | .commit =>
    match e.count .commit with
    | (some fault, e) => (.failed fault, { e with stores := tx.rollback e.stores })
    | (none, e) =>
      match tx.commit e.stores with
      | (.ok (), stores) => (.value (), { e with stores })
      | (.error err, stores) => (.failed err, { e with stores })

/-- Begins a transaction, runs the work on the session's twin inside it, and ends it by the work's verdict. -/
def transact {α : Type} (e : Engine) (s : Session) (work : Session → Engine → (Verdict × α) × Engine) :
    Demarcated α × Engine :=
  match e.count .begin with
  | (some fault, e) => (.refused fault, e)
  | (none, e) =>
    match s.begin e.stores with
    | (.error err, stores) => (.refused err, { e with stores })
    | (.ok tx, stores) =>
      let ((verdict, a), e) := work tx { e with stores }
      let (outcome, e) := e.finish tx verdict
      (.ended outcome a, e)

end Engine
end Demarcate
