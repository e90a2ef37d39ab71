import Demarcate.Config
import Demarcate.Engine
/-!
# Database — data sources opened from a configuration

`Engine.openDatabase` opens the data sources of a configuration in order of name, each with a provider, and sweeps each
repository as it is opened, if the configuration says so.  What failed leaves behind what was opened before it.  A sweep
deletes the branches of transactions that were not begun through the handle it goes by.
-/
namespace Demarcate

open Git (Handle)

namespace Stores

def openRepository (st : Stores) (g : GitConfig) : Except StorageError Nat × Stores :=
  let (opened, disk) :=
    if g.createIfMissing then Handle.openOrInitAt st.disk g.path g.signature
    else (Handle.openAt st.disk g.path g.signature, st.disk)
  let st := { st with disk }
  match opened with
  | .error e => (.error e, st)
  | .ok h =>
    let (i, st) := st.addHandle h
    (.ok i, st)

end Stores

namespace Engine

/-- Opens a data source, and sweeps it if it is a repository and `sweep` says so. -/
def openSource (e : Engine) (sweep : Bool) : SourceConfig → Except StorageError Source × Engine
  | .memory =>
    let (i, stores) := e.stores.addMemory
    (.ok (.memory i), { e with stores })
  | .git g =>
    match e.stores.openRepository g with
    | (.error err, stores) => (.error err, { e with stores })
    | (.ok i, stores) => (.ok (.git i), { e with stores := if sweep then (stores.cleanup i).2 else stores })

def openSources (sweep : Bool) : List (BackendName × SourceConfig) → Engine → Except StorageError Registry × Engine
  | [], e => (.ok ∅, e)
  | (name, config) :: rest, e =>
    match e.openSource sweep config with
    | (.error err, e) => (.error err, e)
    | (.ok source, e) =>
      let (p, e) := e.addProvider source
      match openSources sweep rest e with
      | (.error err, e) => (.error err, e)
      | (.ok registry, e) => (.ok (registry.insert name p), e)

def openDatabase (e : Engine) (config : EngineConfig) : Except DatabaseError Registry × Engine :=
  match config.validate with
  | .error err => (.error (.config err), e)
  | .ok () =>
    match openSources config.cleanupOnOpen config.sources.entries e with
    | (.error err, e) => (.error (.storage err), e)
    | (.ok registry, e) => (.ok registry, e)

def handle? (e : Engine) (p : Nat) : Option Nat :=
  match (e.provider p).source with
  | .git i => some i
  | .memory _ => none

/-- Sweeps a provider's repository, if it is one, and counts the branches. -/
def cleanupProvider (e : Engine) (p : Nat) : Nat × Engine :=
  match e.handle? p with
  | none => (0, e)
  | some i =>
    let (n, stores) := e.stores.cleanup i
    (n, { e with stores })

def cleanupProviders : List Nat → Engine → Nat × Engine
  | [], e => (0, e)
  | p :: ps, e =>
    let (n, e) := e.cleanupProvider p
    let (m, e) := cleanupProviders ps e
    (n + m, e)

/-- Sweeps every repository of a database, and counts the branches. -/
def cleanupDatabase (e : Engine) (r : Registry) : Nat × Engine := cleanupProviders r.values e

end Engine
end Demarcate
