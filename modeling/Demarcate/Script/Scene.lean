import Demarcate.Database
import Demarcate.Interceptor
import Demarcate.Script.Act
/-!
# Scene — what a program runs on

A scene is an engine with the data sources that it offers, its contexts by number, and the sessions that steps gave a
name.  A step is an action on a scene (`Act`): it ends in one of the three ways, and the scene is changed in each.
-/
namespace Demarcate.Script

structure Scene where
  engine : Engine := {}
  registry : Registry := ∅
  /-- The contexts by number; a number whose context was dropped stays unused. -/
  numbered : Array (Option Nat) := #[]
  named : SortedMap String Session := ∅
  /-- The configuration of the database, on a scene that is one. -/
  database : Option EngineConfig := none

/-! ## Actions -/

namespace Act

/-- An action on the engine. -/
def onEngine {α : Type} (f : Engine → α × Engine) : Act Scene α := fun s =>
  let (a, engine) := f s.engine
  (.value a, { s with engine })

/-- An action on the engine that may fail. -/
def onEngine? {ε α : Type} (wrap : ε → Failure) (f : Engine → Except ε α × Engine) : Act Scene α := fun s =>
  match f s.engine with
  | (.ok a, engine) => (.value a, { s with engine })
  | (.error e, engine) => (.failed (wrap e), { s with engine })

def onStores {α : Type} (f : Stores → α × Stores) : Act Scene α := onEngine fun e =>
  let (a, stores) := f e.stores
  (a, { e with stores })

def onStores? {ε α : Type} (wrap : ε → Failure) (f : Stores → Except ε α × Stores) : Act Scene α := do
  lift wrap (← onStores f)

end Act

open Act

/-! ## What there is on a scene -/

/-- The context of a number. -/
def Scene.context? (s : Scene) (number : Nat) : Option Nat := (s.numbered.getD number none)

def contextOf (number : Nat) : Act Scene Nat := do
  match (← state).context? number with
  | some c => return c
  | none => misuse "no such context"

/-- The provider of a data source. -/
def providerOf (b : BackendName) : Act Scene Nat := do
  match (← state).registry.get? b with
  | some p => return p
  | none => fail (.transaction (.resource (.unknownBackend b)))

def sessionNamed (name : String) : Act Scene Session := do
  match (← state).named.get? name with
  | some s => return s
  | none => misuse "no such handle"

def nameSession (name : String) (x : Session) : Act Scene Unit :=
  update fun s => { s with named := s.named.insert name x }

/-- The handle of a data source's repository. -/
def gitHandleOf (backend : String) : Act Scene Nat := do
  let p ← providerOf (← backendOf backend)
  match (← state).engine.handle? p with
  | some i => return i
  | none => misuse "not a git backend"

/-! ## Views -/

/-- What is shown of a session. -/
structure SessionView where
  id : Ulid
  transaction : Option String
  inTransaction : Bool
  /-- How many slots it has written and not committed, if it is one in memory. -/
  pending : Option Nat

/-- What is shown of a data source. -/
structure BackendView where
  depth : Nat
  active : Bool
  current : Option SessionView
  opened : UInt64

namespace Scene

def viewSession (s : Scene) (x : Session) : SessionView :=
  ⟨x.id, x.transaction?, x.isInTransaction, x.pendingWrites? s.engine.stores⟩

def viewBackend (s : Scene) (c : Context) (b : BackendName) (p : Nat) : BackendView :=
  ⟨c.depth b, c.isActive b, (c.current? b).map s.viewSession, (s.engine.provider p).opened⟩

/-- What is shown of a context: each data source that the scene offers, with the context's frames on it. -/
def viewContext (s : Scene) (c : Nat) : List (BackendName × BackendView) :=
  let x := s.engine.context c
  s.registry.entries.map fun (b, p) => (b, s.viewBackend x b p)

/-- How many sessions each data source has handed out. -/
def openedCounts (s : Scene) : List (BackendName × UInt64) :=
  s.registry.entries.map fun (b, p) => (b, (s.engine.provider p).opened)

/-- How a context and the data sources show themselves. -/
def describe (s : Scene) (c : Nat) : String :=
  let entry (e : BackendName × FrameStack Session) := Text.quoted e.1.text ++ ": " ++ toString e.2.depth
  let depths := ", ".intercalate ((s.engine.context c).frames.entries.map entry)
  let names := ", ".intercalate (s.registry.keys.map fun b =>
    "BackendName(" ++ Text.quoted b.text ++ ")")
  "TransactionContext \x7b depths: \x7b" ++ depths ++ "\x7d \x7d " ++
    "TransactionManager \x7b backends: [" ++ names ++ "] \x7d"

/-! ## Scenes to begin with -/

def addContext (s : Scene) : Nat × Scene :=
  let (c, engine) := s.engine.addContext s.registry
  (s.numbered.size, { s with engine, numbered := s.numbered.push (some c) })

def addContexts : (n : Nat) → Scene → Scene
  | 0, s => s
  | n + 1, s => addContexts n s.addContext.2

/-- Offers a data source under a name. -/
def offer (s : Scene) (b : BackendName) (source : Source) : Scene :=
  let (p, engine) := s.engine.addProvider source
  { s with engine, registry := s.registry.insert b p }

/-- Offers a store in memory under each name. -/
def offerMemories : List BackendName → Scene → Scene
  | [], s => s
  | b :: bs, s =>
    let (i, stores) := s.engine.stores.addMemory
    offerMemories bs (offer { s with engine := { s.engine with stores } } b (.memory i))

/-- Offers one store under several names. -/
def offerShared (source : Source) (bs : List BackendName) (s : Scene) : Scene :=
  bs.foldl (fun s b => s.offer b source) s

/-! Each of the next three makes its stores in a state that says which identifiers and readings come next. -/

/-- Stores in memory, one for all names or one for each. -/
def inMemory (st : Stores) (bs : List BackendName) (shared : Bool) : Scene :=
  if shared then
    let (i, stores) := st.addMemory
    offerShared (.memory i) bs { engine := { stores } }
  else offerMemories bs { engine := { stores := st } }

/-- A new repository at a path, under several names. -/
def onRepository (st : Stores) (path : String) (bs : List BackendName) : Except StorageError Scene :=
  match st.openRepository { path } with
  | (.error e, _) => .error e
  | (.ok i, stores) => .ok (offerShared (.git i) bs { engine := { stores } })

/-- A store in memory whose provider fails as planned. -/
def withFaults (st : Stores) (plan : FaultPlan) : Scene :=
  let s := inMemory st [.default] false
  { s with engine := { s.engine with plan := some plan } }

/-- Opens a database on a scene.  A scene that offers other data sources keeps them if that fails. -/
def openDatabase (s : Scene) (config : EngineConfig) : Except DatabaseError Unit × Scene :=
  match s.engine.openDatabase config with
  | (.ok registry, engine) => (.ok (), { s with engine, registry, database := some config })
  | (.error e, engine) => (.error e, { s with engine })

/-- Drops every context. -/
def dropContexts (s : Scene) : Scene :=
  let engine := s.numbered.toList.foldl (fun e c => match c with
    | some c => e.dropContext c
    | none => e) s.engine
  { s with engine, numbered := #[] }

end Scene
end Demarcate.Script
