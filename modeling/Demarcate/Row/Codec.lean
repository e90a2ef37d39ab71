import Demarcate.Row
import Demarcate.Json.Printer
/-!
# The row's text

A row in a file is a JSON object: its key, version and times under names that begin with an underscore, then its
columns in order of name.  Reading takes the fields in any order and every other field for a column.  The record is
printed as it is, also when a column has the name of one of the four; such a text has the field twice and is refused
when it is read.
-/
namespace Demarcate
namespace Row

/-- The fields before the columns. -/
def header (r : Row) : List (String × Json) :=
  [("_pk", .string r.key.text), ("_version", Json.ofInt r.version), ("_created_at", .string r.createdAt),
    ("_updated_at", .string r.updatedAt)]

def encode (r : Row) : String := Json.toPrettyText (.object (r.header ++ r.columns.entries))

open Json.Document (Decoder)

/-- The fields read so far, the columns in reverse order. -/
structure Parts where
  key : Option String := none
  version : Option Nat := none
  createdAt : Option String := none
  updatedAt : Option String := none
  columns : List (String × Json) := []

/-- Reads a field of the header once. -/
def once {α σ : Type} (name : String) (had : Option α) (read : Except Json.DecodeError α) (put : α → σ) :
    Except Json.DecodeError σ :=
  if had.isSome then .error (.data s!"duplicate field `{name}`") else read.map put

def readMember (inside : Json.Source) (name : String) (d : Json.Document) (p : Parts) :
    Except Json.DecodeError Parts :=
  if name = "_pk" then
    once name p.key (Json.Document.readString inside d) fun s => { p with key := some s }
  else if name = "_version" then
    once name p.version (Json.Document.readWord inside d) fun n => { p with version := some n }
  else if name = "_created_at" then
    once name p.createdAt (Json.Document.readString inside d) fun s => { p with createdAt := some s }
  else if name = "_updated_at" then
    once name p.updatedAt (Json.Document.readString inside d) fun s => { p with updatedAt := some s }
  else do
    let j ← d.toJson inside
    return { p with columns := (name, j) :: p.columns }

def readMembers (inside : Json.Source) : List (Except Json.Fault String × Json.Document) → Parts →
    Except Json.DecodeError Parts
  | [], p => .ok p
  | (k, d) :: ms, p => do
    let p ← readMember inside (← Json.liftFault k) d p
    readMembers inside ms p

def wanted {α : Type} (name : String) : Option α → Except Json.DecodeError α
  | some a => .ok a
  | none => .error (.data s!"missing field `{name}`")

/-- A row's record: its key as text, and the row but for the key. -/
def decodeRecord : Decoder (String × (RowKey → Row))
  | source, .object members close => do
    let inside ← source.enter
    let p ← readMembers inside members {}
    Json.Document.checkClose close
    let key ← wanted "_pk" p.key
    let version ← wanted "_version" p.version
    let createdAt ← wanted "_created_at" p.createdAt
    let updatedAt ← wanted "_updated_at" p.updatedAt
    return (key, fun k => ⟨k, version, createdAt, updatedAt, SortedMap.ofList p.columns.reverse⟩)
  | _, d => .error (d.mismatch "struct RowJson")

/-- The row of a file's text, which has to carry the key that the file is named for. -/
def decode (text : String) (expected : RowKey) : Except StorageError Row :=
  match Json.decodeText decodeRecord text with
  | .error e => .error (.serialization e)
  | .ok (key, row) =>
    if key = expected.text then .ok (row expected)
    else .error (.corruptedData expected.fileName
      s!"primary key mismatch: file name suggests '{expected.text}' but content has '{key}'")

end Row
end Demarcate
