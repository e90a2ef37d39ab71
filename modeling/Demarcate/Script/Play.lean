import Demarcate.Script.Scene
import Demarcate.Script.Step
/-!
# Play — running a program on a scene

`perform` takes one step.  `play` runs a program: it stops at the first step that fails or unwinds, unless the step's
guard says otherwise, and the answers of the steps it took are kept whatever stopped it.  A step with a body hands the
body's ending to what it demarcates and has the ending of that.
-/
namespace Demarcate.Script

open Act

/-! ## Answers -/

/-- What a step has to report. -/
inductive Reply where
  | nothing
  | row (r : Option Row)
  | rows (rs : List Row)
  | briefRows (rs : List Row)
  | count (n : Nat)
  | tables (names : Option (List TableName))
  | state (views : List (BackendName × BackendView))
  | depth (n : Nat) (active : Bool)
  | session (view : Option SessionView)
  | peek (baseIsTip : Option Bool) (names : Option (List TableName))
  | opened (n : UInt64)
  | openedCounts (counts : List (BackendName × UInt64))
  | texts (ts : List String)
  | text (t : String)
  | configuration (sources : Nat) (sweeps : Bool) (backends depth : Nat) (isGit : Option Bool)

/-- How an action ended, without its value. -/
abbrev Ending := Outcome Failure Unit

inductive Answer where
  | call (result : Outcome Failure Reply)
  /-- A run: the context before and after its body, if there is such a context, and before only if the body ran. -/
  | run (enter : Option (List (BackendName × BackendView))) (trace : List Answer)
      (leave : List (BackendName × BackendView)) (result : Ending)
  /-- A native transaction: its session before the body, if the body ran, the session it is on after it, and whether
  it was to commit. -/
  | native (inside : Option SessionView) (trace : List Answer) (after : SessionView) (commits : Bool) (result : Ending)
  /-- A step with a body and nothing to run it on. -/
  | refused (f : Failure)

/-! ## Single steps -/

/-- The session that a step works on. -/
def sessionOf (t : Target) : Act Scene Session := do
  match t.handle with
  | some name => sessionNamed name
  | none =>
    let c ← contextOf t.context
    let b ← backendOf t.backend
    onEngine? .transaction fun e => e.resource c b

def applyChange (x : Session) (table : TableName) (c : Change) : Act Scene Reply := fun s =>
  let (outcome, engine) := s.engine.apply x table c
  let s := { s with engine }
  match outcome with
  | .value () => (.value .nothing, s)
  | .failed e => (.failed (.storage e), s)
  | .unwound text => (.unwound text, s)

def scanOf (x : Session) (table : TableName) : Act Scene (List Row) := do
  lift .storage (x.scan (← state).engine.stores table)

/-- A change of the row that a spec describes. -/
def write (kind : WriteKind) (t : Target) (table : String) (row : RowSpec) : Act Scene Reply := do
  let table ← tableOf table
  let x ← sessionOf t
  let now ← onStores Stores.readClock
  let row ← lift .storage (row.build now)
  applyChange x table (kind.change row)

/-- The names of the tables in a session's store, if it is one in memory. -/
def tableNames (s : Scene) : Session → Option (List TableName)
  | .memory _ store _ => some (s.engine.stores.memory store).tableNames
  | .git _ _ _ => none

/-- Whether `main` still stands where a session's transaction was begun. -/
def baseIsTip (s : Scene) : Session → Option Bool
  | .git _ handle (some tx) =>
    match (s.engine.stores.repository handle).tip with
    | .ok tip => some (tip == tx.base)
    | .error _ => some false
  | _ => none

def peek (t : Target) : Act Scene Reply := do
  let x ← sessionOf t
  let s ← state
  if s.engine.plan.isSome then return .peek none none
  return .peek (baseIsTip s x) (tableNames s x)

/-- The rows that a fresh session sees. -/
def persisted (backend table : String) : Act Scene Reply := do
  let table ← tableOf table
  let p ← providerOf (← backendOf backend)
  let x ← onEngine? .resource fun e => e.acquire p
  let rows := x.scan (← state).engine.stores table
  onEngine fun e => ((), e.release p x)
  return .briefRows (← lift .storage rows)

/-- Gives a named session to a data source.  Its name goes even where there is no such data source. -/
def releaseNamed (backend name : String) : Act Scene Reply := do
  let x ← sessionNamed name
  update fun s => { s with named := s.named.erase name }
  let p ← providerOf (← backendOf backend)
  onEngine fun e => ((), e.release p x)
  return .opened ((← state).engine.provider p).opened

def dropContext (number : Nat) : Act Scene Reply := do
  let c ← contextOf number
  if ((← state).engine.context c).running ≠ 0 then misuse "context is running"
  else
    update fun s => { s with engine := s.engine.closeContext c, numbered := s.numbered.setIfInBounds number none }
    return .openedCounts (← state).openedCounts

def configuration (backend : String) : Act Scene Reply := do
  let s ← state
  match s.database with
  | none => misuse "no database"
  | some config =>
    let b ← backendOf backend
    let isGit := (s.registry.get? b).map fun p => (s.engine.handle? p).isSome
    return .configuration config.sources.size config.cleanupOnOpen s.registry.size (({} : Context).depth b) isGit

/-- Opens the database again, with one context, and forgets the sessions that were named. -/
def reopen (config : Except ConfigError EngineConfig) : Act Scene Reply := do
  if (← state).database.isNone then misuse "no database"
  else
    update fun s => { s.dropContexts with named := ∅ }
    let config ← lift .config config
    fun s =>
      match s.openDatabase config with
      | (.ok (), s) => (.value .nothing, s.addContext.2)
      | (.error e, s) => (.failed (.database e), s)

def cleanup (backend : String) : Act Scene Reply := do
  let s ← state
  if s.database.isSome then return .count (← onEngine fun e => e.cleanupDatabase s.registry)
  else
    let i ← gitHandleOf backend
    return .count (← onStores fun st => st.cleanup i)

def calls : Act Scene Reply := fun s =>
  match s.engine.plan with
  | none => (.failed (.misuse "no faults"), s)
  | some plan =>
    let (names, plan) := plan.report
    (.value (.texts (names.map ProviderCall.name)), { s with engine := { s.engine with plan := some plan } })

/-- A log that does not depend on the order in which equally old commits are met. -/
def sortTexts (ts : List String) : List String := ts.mergeSort fun a b => (compare a b).isLE

def perform : Call → Act Scene Reply
  | .write kind t table row => write kind t table row
  | .delete t table key => do
    let table ← tableOf table
    let x ← sessionOf t
    applyChange x table (.delete (← keyOf key))
  | .get t table key => do
    let table ← tableOf table
    let x ← sessionOf t
    let key ← keyOf key
    return .row (← lift .storage (x.get (← state).engine.stores ⟨table, key⟩))
  | .scan t table => do
    let table ← tableOf table
    return .rows (← scanOf (← sessionOf t) table)
  | .count t table => do
    let table ← tableOf table
    return .count (← scanOf (← sessionOf t) table).length
  | .keys t table => do
    let table ← tableOf table
    return .briefRows (← scanOf (← sessionOf t) table)
  | .persisted backend table => persisted backend table
  | .tables t => do
    let x ← sessionOf t
    return .tables (tableNames (← state) x)
  | .fail f => fail f
  | .unwind text => unwind text
  | .state number => do
    let c ← contextOf number
    return .state ((← state).viewContext c)
  | .depth number backend => do
    let c ← contextOf number
    let b ← backendOf backend
    let x := (← state).engine.context c
    return .depth (x.depth b) (x.isActive b)
  | .current number backend => do
    let c ← contextOf number
    let b ← backendOf backend
    let s ← state
    return .session (((s.engine.context c).current? b).map s.viewSession)
  | .resource t name => do
    let x ← sessionOf t
    match name with
    | some name => nameSession name x
    | none => pure ()
    return .session (some ((← state).viewSession x))
  | .peek t => peek t
  | .acquire backend name => do
    let p ← providerOf (← backendOf backend)
    let x ← onEngine? .resource fun e => e.acquire p
    nameSession name x
    return .session (some ((← state).viewSession x))
  | .release backend name => releaseNamed backend name
  | .opened backend => do
    let p ← providerOf (← backendOf backend)
    return .opened ((← state).engine.provider p).opened
  | .backends => do return .texts ((← state).registry.keys.map (·.text))
  | .describe number => do
    let c ← contextOf number
    return .text ((← state).describe c)
  | .newContext => fun s =>
    let (number, s) := s.addContext
    (.value (.count number), s)
  | .dropContext number => dropContext number
  | .log backend limit sorted => do
    let i ← gitHandleOf backend
    let lines ← lift .storage (((← state).engine.stores.repository i).log limit)
    return .texts (if sorted then sortTexts lines else lines)
  | .transactionIds backend => do
    let i ← gitHandleOf backend
    return .texts ((← state).engine.stores.repository i).transactionIds
  | .beginBranch backend id => do
    let i ← gitHandleOf backend
    let _ ← onStores? .storage fun st => st.beginBranch i id
    return .nothing
  | .abandonBranch backend id => do
    let i ← gitHandleOf backend
    onStores? .storage fun st => st.abandonBranch i id
    return .nothing
  | .cleanup backend => cleanup backend
  | .configuration backend => configuration backend
  | .reopen config => reopen config
  | .calls => calls
  | .unknown => misuse "unknown step"

/-! ## Programs -/

/-- How a list of steps goes on after one of them: on to the rest, or not. -/
def continueAfter (g : Guard) (answer : Answer) (ending : Ending) (s : Scene)
    (rest : Scene → (List Answer × Ending) × Scene) : (List Answer × Ending) × Scene :=
  let goesOn := match ending with
    | .value () => true
    | .failed _ => g.goesOnAfterError
    | .unwound _ => g.catchesUnwinding
  if goesOn then
    let ((answers, last), s) := rest s
    ((answer :: answers, last), s)
  else (([answer], ending), s)

def endingOf {α : Type} : Outcome Failure α → Ending
  | .value _ => .value ()
  | .failed f => .failed f
  | .unwound text => .unwound text

/-- Counts a call of a context that begins to run or has run. -/
def Scene.setRunning (s : Scene) (c : Nat) (f : Nat → Nat) : Scene :=
  let x := s.engine.context c
  { s with engine := s.engine.setContext c { x with running := f x.running } }

/-- What is known of a body that ran: how things were before it, its answers, and the scene after it. -/
structure Ran (α : Type) where
  before : α
  trace : List Answer
  scene : Scene

/-- Runs a body in a context as a definition says. -/
def runIn (c : Nat) (d : Definition) (body : Scene → (List Answer × Ending) × Scene) (s : Scene) :
    (Answer × Ending) × Scene :=
  let s := s.setRunning c (· + 1)
  let ((result, ran), engine) := s.engine.run c d fun engine =>
    let s := { s with engine }
    let before := s.viewContext c
    let ((trace, ending), s) := body s
    ((ending, (⟨before, trace, s⟩ : Ran _)), s.engine)
  let s := match ran with
    | some ran => ran.scene
    | none => s
  let s := Scene.setRunning { s with engine } c (· - 1)
  let trace := (ran.map (·.trace)).getD []
  ((.run (ran.map (·.before)) trace (s.viewContext c) result, result),
    { s with engine := s.engine.closeDropped c })

/-- The verdict on a native transaction whose body ended so. -/
def nativeVerdict (commits : Bool) : Ending → Engine.Verdict
  | .value () => if commits then .commit else .rollback
  | .failed _ => .rollback
  | .unwound text => .unwind text

/-- The ending of a native transaction: the demarcation's where that failed, else the body's. -/
def nativeEnding (demarcation : Outcome ResourceError Unit) (body : Ending) : Ending :=
  match demarcation with
  | .value () => body
  | .failed e => .failed (.resource e)
  | .unwound text => .unwound text

/-- Runs a body in a native transaction on a session. -/
def runNative (x : Session) (name : String) (commits : Bool) (body : Scene → (List Answer × Ending) × Scene)
    (s : Scene) : (Answer × Ending) × Scene :=
  let (demarcated, engine) := s.engine.transact x fun tx engine =>
    let s := { s with engine, named := s.named.insert name tx }
    let before := s.viewSession tx
    let ((trace, ending), s) := body s
    ((nativeVerdict commits ending, ((⟨before, trace, s⟩ : Ran _), ending)), s.engine)
  match demarcated with
  | .refused e =>
    let s := { s with engine }
    let ending : Ending := .failed (.resource e)
    ((.native none [] (s.viewSession x) commits ending, ending), s)
  | .ended outcome (ran, ending) =>
    let s := { ran.scene with engine }
    let ending := nativeEnding outcome ending
    ((.native (some ran.before) ran.trace (s.viewSession x) commits ending, ending), s)

/-- Runs a program.  Returns the answers of the steps it took, how it ended, and the scene after it. -/
def play : Program → Scene → (List Answer × Ending) × Scene
  | .done, s => (([], .value ()), s)
  | .call g c next, s =>
    let (result, s) := perform c s
    continueAfter g (.call result) (endingOf result) s fun s => play next s
  | .run g number d body next, s =>
    match contextOf number s with
    | (.value c, s) =>
      let ((answer, ending), s) := runIn c d (fun s => play body s) s
      continueAfter g answer ending s fun s => play next s
    | (.failed f, s) => continueAfter g (.refused f) (.failed f) s fun s => play next s
    | (.unwound text, s) => continueAfter g (.call (.unwound text)) (.unwound text) s fun s => play next s
  | .native g target name commits body next, s =>
    match sessionOf target s with
    | (.value x, s) =>
      let ((answer, ending), s) := runNative x name commits (fun s => play body s) s
      continueAfter g answer ending s fun s => play next s
    | (.failed f, s) => continueAfter g (.refused f) (.failed f) s fun s => play next s
    | (.unwound text, s) => continueAfter g (.call (.unwound text)) (.unwound text) s fun s => play next s

end Demarcate.Script
