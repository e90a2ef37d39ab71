import Demarcate.Json.Document
import Demarcate.Decimal.Shortest
import Demarcate.Text.Quoted
/-!
# Decoding JSON

A decoder walks a document in the order of its text and stops at the first thing wrong with it.  Records are described
by their fields (`RecordShape`) and read from an object, in any order of the fields and passing over fields they do not
know, or from an array of their fields in order.  Three kinds of document are told apart (`Source`): a text, in which
arrays and objects may stand at most 127 deep; the parts of a text that were set aside until the kind of a variant was
known; and a value in memory.  They differ in what they say of an array that is longer than the record.
-/
namespace Demarcate
namespace Json

inductive DecodeError where
  | malformed
  | truncated
  /-- The text is JSON, but not of the wanted kind. -/
  | data (message : String)
  deriving DecidableEq

def Fault.toError : Fault → DecodeError
  | .malformed => .malformed
  | .truncated => .truncated

/-- How many arrays and objects may stand inside one another in a text. -/
def depthLimit : Nat := 127

/-- What a document is part of. -/
inductive Source where
  /-- A text, in which `depth` more brackets may open. -/
  | text (depth : Nat)
  | setAside
  | value

def elements (n : Nat) : String := if n = 1 then "1 element" else s!"{n} elements"

namespace Source

/-- The source inside one more bracket. -/
def enter : Source → Except DecodeError Source
  | .text 0 => .error .malformed
  | .text (depth + 1) => .ok (.text depth)
  | s => .ok s

/-- The error of an array with more items than the `fields` that were read from it. -/
def leftover : Source → (fields total : Nat) → DecodeError
  | .text _, _, _ => .malformed
  | .setAside, fields, total =>
    .data s!"invalid length {total}, expected {elements fields} in sequence"
  | .value, _, total => .data s!"invalid length {total}, expected fewer elements in array"

end Source

def liftFault {α : Type} : Except Fault α → Except DecodeError α
  | .ok a => .ok a
  | .error f => .error f.toError

namespace Document

/-- A decoder of values of type `α`. -/
abbrev Decoder (α : Type) := Source → Document → Except DecodeError α

/-- What stands at a document's head, as an error message calls it. -/
def headName : Document → Except DecodeError String
  | .null => .ok "null"
  | .bool b => .ok s!"boolean `{b}`"
  | .number (.ok (.int n)) => .ok s!"integer `{n}`"
  | .number (.ok (.float x)) =>
    let text := String.ofList x.render
    .ok s!"floating point `{text}`"
  | .number (.error f) => .error f.toError
  | .string (.ok s) => .ok s!"string {Text.quoted s}"
  | .string (.error f) => .error f.toError
  | .array _ _ => .ok "sequence"
  | .object _ _ => .ok "map"
  | .broken read _ => .error read.toError

/-- The error of a document that is not what was expected. -/
def mismatch (expected : String) (d : Document) : DecodeError :=
  match d.headName with
  | .ok found => .data s!"invalid type: {found}, expected {expected}"
  | .error e => e

/-! ## Passing over and reading as it stands -/

def checkClose : Close → Except DecodeError Unit
  | .closed => .ok ()
  | .comma f => .error f.toError
  | .missing f => .error f.toError

mutual
/-- Passes over a value: only what cannot be passed over is an error. -/
def skip : Document → Except DecodeError Unit
  | .array items close => do skipItems items; checkClose close
  | .object members close => do skipMembers members; checkClose close
  | .broken _ skipped => .error skipped.toError
  | _ => .ok ()

def skipItems : List Document → Except DecodeError Unit
  | [] => .ok ()
  | d :: ds => do d.skip; skipItems ds

def skipMembers : List (Except Fault String × Document) → Except DecodeError Unit
  | [] => .ok ()
  | (_, d) :: ms => do d.skip; skipMembers ms
end

mutual
/-- The value as it stands, the fields of its objects sorted by key and the last of equal keys kept. -/
def toJson : (source : Source) → Document → Except DecodeError Json
  | _, .null => .ok .null
  | _, .bool b => .ok (.bool b)
  | _, .number n => do return .number (← liftFault n)
  | _, .string s => do return .string (← liftFault s)
  | source, .array items close => do
    let inside ← source.enter
    let js ← toJsonItems inside items
    checkClose close
    return .array js
  | source, .object members close => do
    let inside ← source.enter
    let js ← toJsonMembers inside members
    checkClose close
    return Json.ofFields js
  | _, .broken read _ => .error read.toError

def toJsonItems (source : Source) : List Document → Except DecodeError (List Json)
  | [] => .ok []
  | d :: ds => do
    let j ← d.toJson source
    return j :: (← toJsonItems source ds)

def toJsonMembers (source : Source) : List (Except Fault String × Document) →
    Except DecodeError (List (String × Json))
  | [] => .ok []
  | (k, d) :: ms => do
    let k ← liftFault k
    let j ← d.toJson source
    return (k, j) :: (← toJsonMembers source ms)
end

/-! ## Plain values -/

def readString : Decoder String
  | _, .string s => liftFault s
  | _, d => .error (d.mismatch "a string")

def readBool : Decoder Bool
  | _, .bool b => .ok b
  | _, d => .error (d.mismatch "a boolean")

def readWord : Decoder Nat
  | _, .number (.ok (.int (.ofNat n))) => .ok n
  | _, .number (.ok (.int (.negSucc n))) => .error (.data s!"invalid value: integer `-{n + 1}`, expected u64")
  | _, d => .error (d.mismatch "u64")

/-! A message says what is wrong and not where, so a place that a message seems to end with is taken for the place of
the fault, and is left out like that one. -/

/-- What stands before `ending` in a text; both are reversed. -/
def beforeEnding? (ending cs : List Char) : Option (List Char) :=
  if ending.isPrefixOf cs then some (cs.drop ending.length) else none

/-- Whether digits, which are reversed, write a number that a place can have. -/
def isPlaceNumber (ds : List Char) : Bool := !ds.isEmpty && (takeDigits 0 ds.reverse).2.2 == 0

/-- A message without the line and the column that it ends with, if it ends so. -/
def withoutPlace (message : String) : String :=
  let before : Option (List Char) := do
    let (column, cs) := message.toList.reverse.span Char.isDigit
    let (line, cs) := (← beforeEnding? " column ".toList.reverse cs).span Char.isDigit
    let cs ← beforeEnding? " at line ".toList.reverse cs
    if isPlaceNumber line && isPlaceNumber column then some cs.reverse else none
  before.elim message String.ofList

/-- A string that `parse` takes. -/
def parsed {α ε : Type} (parse : String → Except ε α) (message : ε → String) : Decoder α := fun source d => do
  match parse (← readString source d) with
  | .ok a => .ok a
  | .error e => .error (.data (withoutPlace (message e)))

def readItems {α : Type} (read : Decoder α) (inside : Source) : List Document → Except DecodeError (List α)
  | [] => .ok []
  | d :: ds => do
    let a ← read inside d
    return a :: (← readItems read inside ds)

def list {α : Type} (read : Decoder α) : Decoder (List α)
  | source, .array items close => do
    let inside ← source.enter
    let as ← readItems read inside items
    checkClose close
    return as
  | _, d => .error (d.mismatch "a sequence")

def readEntries {κ α : Type} (key : String → Except DecodeError κ) (read : Decoder α) (inside : Source) :
    List (Except Fault String × Document) → Except DecodeError (List (κ × α))
  | [] => .ok []
  | (k, d) :: ms => do
    let k ← key (← liftFault k)
    let a ← read inside d
    return (k, a) :: (← readEntries key read inside ms)

/-- An object whose keys `key` takes; of several entries with one key the last counts. -/
def sortedMap {κ α : Type} [Ord κ] [Std.TransOrd κ] [Std.LawfulEqOrd κ]
    (key : String → Except DecodeError κ) (read : Decoder α) : Decoder (SortedMap κ α)
  | source, .object members close => do
    let inside ← source.enter
    let entries ← readEntries key read inside members
    checkClose close
    return SortedMap.ofList entries
  | _, d => .error (d.mismatch "a map")

/-! ## Records -/

/-- A field of a record whose values are gathered in `σ`. -/
structure FieldShape (σ : Type) where
  name : String
  isSet : σ → Bool
  read : Source → Document → σ → Except DecodeError σ
  /-- Whether the field has no default. -/
  required : Bool

structure RecordShape (σ : Type) where
  /-- What an error message calls the record. -/
  title : String
  fields : List (FieldShape σ)

namespace RecordShape

variable {σ : Type} (shape : RecordShape σ)

def field? (name : String) : Option (FieldShape σ) := shape.fields.find? fun f => f.name == name

/-- Reads one member: a field that was read before is an error, a field that is not known is passed over. -/
def readMember (inside : Source) (name : String) (d : Document) (s : σ) : Except DecodeError σ :=
  match shape.field? name with
  | none => do d.skip; return s
  | some f => if f.isSet s then .error (.data s!"duplicate field `{name}`") else f.read inside d s

def readMembers (inside : Source) : List (Except Fault String × Document) → σ → Except DecodeError σ
  | [], s => .ok s
  | (k, d) :: ms, s => do
    let s ← shape.readMember inside (← liftFault k) d s
    readMembers inside ms s

/-- The name of the first field that has to be set and is not. -/
def firstMissing? (s : σ) : Option (String × Nat) :=
  (shape.fields.zipIdx.find? fun f => f.1.required && !f.1.isSet s).map fun f => (f.1.name, f.2)

/-- Reads the items of an array as the fields in order.  Returns how many items were left over. -/
def readInOrder (inside : Source) : List (FieldShape σ) → List Document → σ → Except DecodeError (σ × Nat)
  | [], ds, s => .ok (s, ds.length)
  | _ :: _, [], s => .ok (s, 0)
  | f :: fs, d :: ds, s => do readInOrder inside fs ds (← f.read inside d s)

/-- Whether every field had an item, so that the array's end is checked and not read. -/
def closeInOrder (source : Source) (fields items : Nat) (close : Close) : Except DecodeError Unit :=
  if fields ≤ items then
    match close with
    | .comma _ => .error (source.leftover fields items)
    | close => checkClose close
  else checkClose close

def decode (initial : σ) : Decoder σ
  | source, .object members close => do
    let inside ← source.enter
    let s ← shape.readMembers inside members initial
    checkClose close
    match shape.firstMissing? s with
    | some (name, _) => .error (.data s!"missing field `{name}`")
    | none => .ok s
  | source, .array items close => do
    let inside ← source.enter
    let (s, extra) ← readInOrder inside shape.fields items initial
    if extra ≠ 0 then .error (source.leftover shape.fields.length items.length)
    else
      closeInOrder source shape.fields.length items.length close
      match shape.firstMissing? s with
      | some (_, i) =>
        .error (.data s!"invalid length {i}, expected {shape.title} with {elements shape.fields.length}")
      | none => .ok s
  | _, d => .error (d.mismatch shape.title)

end RecordShape

end Document

/-! ## Whole texts -/

def decodeText {α : Type} (read : Document.Decoder α) (text : String) : Except DecodeError α := do
  let (d, rest) := Document.ofText text.toList
  let a ← read (.text depthLimit) d
  match rest.map Document.skipBlanks with
  | some [] => .ok a
  | _ => .error .malformed

def decodeValue {α : Type} (read : Document.Decoder α) (j : Json) : Except DecodeError α :=
  read .value (Document.ofJson j)

def parse (text : String) : Except DecodeError Json :=
  decodeText (fun source d => d.toJson source) text

end Json
end Demarcate
