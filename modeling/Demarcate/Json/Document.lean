import Demarcate.Json.Literal
/-!
# Documents — JSON text with its faults in place

Reading typed data from a text reports the first thing wrong with it in the order of the text, be that a fault of the
grammar or a value of the wrong kind, and a value that nobody asks for is passed over with fewer demands than one that
is read.  A `Document` is the text's structure with every fault where it stands, so that decoding is a walk over a
tree: `Document.ofText` never fails.  The scan stops at the first place that cannot even be passed over; what was read
before is the tree, and the fault is its last leaf.
-/
namespace Demarcate
namespace Json

/-- What stands after the last item of an array or field of an object. -/
inductive Close where
  | closed
  /-- A comma, and after it no item. -/
  | comma (fault : Fault)
  /-- Neither a comma nor the bracket. -/
  | missing (fault : Fault)
  deriving DecidableEq

inductive Document where
  | null
  | bool (b : Bool)
  | number (n : Except Fault Number)
  | string (s : Except Fault String)
  | array (items : List Document) (close : Close)
  | object (members : List (Except Fault String × Document)) (close : Close)
  /-- A place that cannot be passed over. -/
  | broken (read skipped : Fault)

namespace Document

def isBlank (c : Char) : Bool := c = ' ' || c = '\n' || c = '\t' || c = '\r'

def skipBlanks (cs : List Char) : List Char := cs.dropWhile isBlank

/-- Reads the rest of a literal name such as `true`. -/
def scanWord (doc : Document) : (word cs : List Char) → Document × Option (List Char)
  | [], cs => (doc, some cs)
  | _ :: _, [] => (.broken .truncated .truncated, none)
  | w :: ws, c :: cs => if w = c then scanWord doc ws cs else (.broken .malformed .malformed, none)

/-- The fault of a text that should go on: it ended, or it holds something else. -/
def faultAt : List Char → Fault
  | [] => .truncated
  | _ :: _ => .malformed

/-! Each scan returns the text after what it read, or `none` once it is stuck. -/

mutual
/-- The value at the head of a text that starts with no blank. -/
def scanValue : (fuel : Nat) → List Char → Document × Option (List Char)
  | 0, _ => (.broken .malformed .malformed, none)
  | fuel + 1, cs =>
    match cs with
    | [] => (.broken .truncated .truncated, none)
    | 'n' :: rest => scanWord .null "ull".toList rest
    | 't' :: rest => scanWord (.bool true) "rue".toList rest
    | 'f' :: rest => scanWord (.bool false) "alse".toList rest
    | '"' :: rest =>
      match scanString [] none none rest with
      | .token s rest => (.string s, some rest)
      | .stuck read skipped => (.broken read skipped, none)
    | '[' :: rest =>
      let (items, close, rest) := scanItems fuel true (skipBlanks rest)
      (.array items close, rest)
    | '\x7b' :: rest =>
      let (members, close, rest) := scanMembers fuel true (skipBlanks rest)
      (.object members close, rest)
    | c :: _ =>
      if c = '-' ∨ c.isDigit then
        match scanNumber cs with
        | .token n rest => (.number n, some rest)
        | .stuck read skipped => (.broken read skipped, none)
      else (.broken .malformed .malformed, none)

/-- The items of an array, `first` before the first of them. -/
def scanItems : (fuel : Nat) → (first : Bool) → List Char → List Document × Close × Option (List Char)
  | 0, _, _ => ([], .missing .malformed, none)
  | fuel + 1, first, cs =>
    match cs with
    | [] => ([], .missing .truncated, none)
    | ']' :: rest => ([], .closed, some rest)
    | c :: rest =>
      if first then
        scanItem fuel cs
      else if c = ',' then
        match skipBlanks rest with
        | [] => ([], .comma .truncated, none)
        | ']' :: _ => ([], .comma .malformed, none)
        | next => scanItem fuel next
      else ([], .missing .malformed, none)

def scanItem : (fuel : Nat) → List Char → List Document × Close × Option (List Char)
  | 0, _ => ([], .missing .malformed, none)
  | fuel + 1, cs =>
    match scanValue fuel cs with
    | (d, none) => ([d], .closed, none)
    | (d, some rest) =>
      let (ds, close, rest) := scanItems fuel false (skipBlanks rest)
      (d :: ds, close, rest)

/-- The fields of an object, `first` before the first of them. -/
def scanMembers : (fuel : Nat) → (first : Bool) → List Char →
    List (Except Fault String × Document) × Close × Option (List Char)
  | 0, _, _ => ([], .missing .malformed, none)
  | fuel + 1, first, cs =>
    match cs with
    | [] => ([], .missing .truncated, none)
    | '\x7d' :: rest => ([], .closed, some rest)
    | c :: rest =>
      if first then
        scanMember fuel cs
      else if c = ',' then
        match skipBlanks rest with
        | [] => ([], .comma .truncated, none)
        | '\x7d' :: _ => ([], .comma .malformed, none)
        | next => scanMember fuel next
      else ([], .missing .malformed, none)

def scanMember : (fuel : Nat) → List Char → List (Except Fault String × Document) × Close × Option (List Char)
  | 0, _ => ([], .missing .malformed, none)
  | fuel + 1, cs =>
    match cs with
    | '"' :: rest =>
      match scanString [] none none rest with
      | .stuck read skipped => ([(.error read, .broken skipped skipped)], .closed, none)
      | .token key rest =>
        match skipBlanks rest with
        | ':' :: rest =>
          match scanValue fuel (skipBlanks rest) with
          | (d, none) => ([(key, d)], .closed, none)
          | (d, some rest) =>
            let (ms, close, rest) := scanMembers fuel false (skipBlanks rest)
            ((key, d) :: ms, close, rest)
        | rest => ([(key, .broken (faultAt rest) (faultAt rest))], .closed, none)
    | rest => ([], .missing (faultAt rest), none)
end

/-- A whole text: its document, and the text after it if the scan got there. -/
def ofText (cs : List Char) : Document × Option (List Char) :=
  let cs := skipBlanks cs
  scanValue (3 * cs.length + 3) cs

mutual
/-- The document of a value, in which nothing is wrong. -/
def ofJson : Json → Document
  | .null => .null
  | .bool b => .bool b
  | .number n => .number (.ok n)
  | .string s => .string (.ok s)
  | .array items => .array (ofItems items) .closed
  | .object fields => .object (ofFields fields) .closed

def ofItems : List Json → List Document
  | [] => []
  | j :: js => ofJson j :: ofItems js

def ofFields : List (String × Json) → List (Except Fault String × Document)
  | [] => []
  | (k, j) :: js => (.ok k, ofJson j) :: ofFields js
end

end Document
end Json
end Demarcate
