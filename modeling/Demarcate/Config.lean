import Demarcate.Error
import Demarcate.Git.Signature
/-!
# Config — which data sources there are

A configuration names its data sources and says of each where its rows are kept.  As JSON a data source is an object
whose field `kind` says which other fields count, or an array that begins with the kind.  The kind may come last, so the
other fields are set aside until it is known, and are checked for being JSON while they are.

A configuration without a data source, or with a repository at an empty path, is refused (`EngineConfig.validate`).
-/
namespace Demarcate

open Json (DecodeError Source)
open Json.Document (Decoder FieldShape RecordShape)

/-! ## One data source -/

structure GitConfig where
  path : String
  /-- Whether a directory without a repository is given one. -/
  createIfMissing : Bool := true
  signature : Git.Signature := Git.Signature.default
  deriving DecidableEq

inductive SourceConfig where
  | memory
  | git (g : GitConfig)
  deriving DecidableEq

namespace SourceConfig

/-- What is wrong with a data source. -/
def refusal? : SourceConfig → Option String
  | .git g => if g.path = "" then some "git path is empty" else none
  | .memory => none

def toJson : SourceConfig → Json
  | .memory => .object [("kind", .string "memory")]
  | .git g => .object [("kind", .string "git"), ("path", .string g.path),
      ("create_if_missing", .bool g.createIfMissing),
      ("signature", g.signature.toJson)]

/-! ### The kind -/

inductive Kind where
  | memory
  | git
  deriving DecidableEq

def readKind : Decoder Kind
  | _, .string s => do
    match ← Json.liftFault s with
    | "memory" => .ok .memory
    | "git" => .ok .git
    | other => .error (.data s!"unknown variant `{other}`, expected `memory` or `git`")
  | _, d => .error (d.mismatch "variant identifier")

/-! ### The fields of a repository -/

structure Parts where
  path : Option String := none
  createIfMissing : Option Bool := none
  signature : Option Git.Signature := none

def readPath : Decoder String
  | _, .string s => Json.liftFault s
  | _, d => .error (d.mismatch "path string")

def gitShape : RecordShape Parts where
  title := "struct variant DataSourceConfig::Git"
  fields := [
    { name := "path", isSet := (·.path.isSome), required := true,
      read := fun source d p => do return { p with path := some (← readPath source d) } },
    { name := "create_if_missing", isSet := (·.createIfMissing.isSome), required := false,
      read := fun source d p => do return { p with createIfMissing := some (← Json.Document.readBool source d) } },
    { name := "signature", isSet := (·.signature.isSome), required := false,
      read := fun source d p => do return { p with signature := some (← Git.Signature.decode source d) } }]

/-- A data source of a kind, from what was set aside. -/
def decodeKind (kind : Kind) (contents : Json.Document) : Except DecodeError SourceConfig :=
  match kind with
  | .memory =>
    match contents with
    | .array (item :: items) _ => .error (Source.leftover .setAside 0 (item :: items).length)
    | _ => .ok .memory
  | .git => do
    let p ← gitShape.decode {} .setAside contents
    return .git ⟨p.path.getD "", p.createIfMissing.getD true, p.signature.getD Git.Signature.default⟩

/-! ### The whole -/

/-- Reads the members of an object: the kind, where it was found, and the others as they are. -/
def setAside (inside : Source) : List (Except Json.Fault String × Json.Document) → (kind : Option Kind) →
    Except DecodeError (Option Kind × List (Except Json.Fault String × Json.Document))
  | [], kind => .ok (kind, [])
  | (k, d) :: ms, kind => do
    let name ← Json.liftFault k
    if name = "kind" then
      if kind.isSome then .error (.data "duplicate field `kind`")
      else
        let found ← readKind inside d
        setAside inside ms (some found)
    else
      let _ ← d.toJson inside
      let (kind, others) ← setAside inside ms kind
      return (kind, (k, d) :: others)

def missingKind : DecodeError := .data "missing field `kind`"

def decode : Decoder SourceConfig
  | source, .object members close => do
    let inside ← source.enter
    let (kind, others) ← setAside inside members none
    Json.Document.checkClose close
    match kind with
    | none => .error missingKind
    | some kind => decodeKind kind (.object others .closed)
  | source, .array items close => do
    let inside ← source.enter
    match items with
    | [] => do
      Json.Document.checkClose close
      .error missingKind
    | first :: others =>
      let kind ← readKind inside first
      let _ ← Json.Document.toJsonItems inside others
      Json.Document.checkClose close
      decodeKind kind (.array others .closed)
  | _, d => .error (d.mismatch "internally tagged enum DataSourceConfig")

end SourceConfig

/-! ## All data sources -/

structure EngineConfig where
  sources : SortedMap BackendName SourceConfig := ∅
  /-- Whether opening sweeps the branches of transactions that nobody runs. -/
  cleanupOnOpen : Bool := true
  deriving DecidableEq

namespace EngineConfig

/-- One data source in memory, under the default name. -/
def inMemory : EngineConfig := { sources := (∅ : SortedMap BackendName SourceConfig).insert .default .memory }

def withSource (c : EngineConfig) (name : BackendName) (s : SourceConfig) : EngineConfig :=
  { c with sources := c.sources.insert name s }

def validateEntries : List (BackendName × SourceConfig) → Except ConfigError Unit
  | [] => .ok ()
  | (name, s) :: rest =>
    match s.refusal? with
    | some reason => .error (.invalid name reason)
    | none => validateEntries rest

def validate (c : EngineConfig) : Except ConfigError Unit :=
  if c.sources.isEmpty then .error .notConfigured else validateEntries c.sources.entries

/-! ### As JSON -/

def toJson (c : EngineConfig) : Json :=
  .object [("data_sources", .object (c.sources.entries.map fun e => (e.1.text, e.2.toJson))),
    ("cleanup_on_open", .bool c.cleanupOnOpen)]

structure Parts where
  sources : Option (SortedMap BackendName SourceConfig) := none
  cleanupOnOpen : Option Bool := none

def readName (text : String) : Except DecodeError BackendName :=
  match BackendName.parse text with
  | .ok name => .ok name
  | .error e => .error (.data e.message)

def shape : RecordShape Parts where
  title := "struct EngineConfig"
  fields := [
    { name := "data_sources", isSet := (·.sources.isSome), required := false,
      read := fun source d p => do
        return { p with sources := some (← Json.Document.sortedMap readName SourceConfig.decode source d) } },
    { name := "cleanup_on_open", isSet := (·.cleanupOnOpen.isSome), required := false,
      read := fun source d p => do return { p with cleanupOnOpen := some (← Json.Document.readBool source d) } }]

def decode : Decoder EngineConfig := fun source d => do
  let p ← shape.decode {} source d
  return ⟨p.sources.getD ∅, p.cleanupOnOpen.getD true⟩

/-- The configuration of a text, if it is one and nothing is wrong with it. -/
def ofText (text : String) : Except ConfigError EngineConfig :=
  match Json.decodeText decode text with
  | .error e => .error (.parse e)
  | .ok c => (c.validate).map fun _ => c

/-- The configuration of a JSON value; it may still be refused. -/
def ofJson (j : Json) : Except ConfigError EngineConfig :=
  match Json.decodeValue decode j with
  | .error e => .error (.parse e)
  | .ok c => .ok c

end EngineConfig
end Demarcate
