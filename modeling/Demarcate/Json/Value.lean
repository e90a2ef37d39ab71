import Demarcate.SortedMap
import Demarcate.Decimal.Binary64
/-!
# JSON values

A value keeps the two kinds of number apart: an integer that fits 64 bits, signed or unsigned, and a double.  The
fields of an object are a list of pairs, so that a record can be written with its fields in an order of its own; in a
value that was read they are sorted by key and no key is repeated (`Json.object`).
-/
namespace Demarcate

namespace Json

inductive Number where
  | int (n : Int)
  | float (x : Binary64)
  deriving DecidableEq

/-- Whether two numbers are equal: numbers of two kinds never are, and the two zeros among the doubles are. -/
def Number.agrees : Number → Number → Bool
  | .int m, .int n => m == n
  | .float x, .float y => x.agrees y
  | _, _ => false

end Json

inductive Json where
  | null
  | bool (b : Bool)
  | number (n : Json.Number)
  | string (s : String)
  | array (items : List Json)
  | object (fields : List (String × Json))

namespace Json

instance : Inhabited Json := ⟨.null⟩

def ofInt (n : Int) : Json := .number (.int n)

/-- The object of a list of fields, sorted by key; of several fields with one key the last counts. -/
def ofFields (fields : List (String × Json)) : Json := .object (SortedMap.ofList fields).entries

/-! ## Equality

Values are compared as numbers compare, so two zeros of opposite sign are equal although they are written apart. -/

mutual
def agrees : Json → Json → Bool
  | .null, .null => true
  | .bool a, .bool b => a == b
  | .number a, .number b => a.agrees b
  | .string a, .string b => a == b
  | .array a, .array b => agreeItems a b
  | .object a, .object b => agreeFields a b
  | _, _ => false

def agreeItems : List Json → List Json → Bool
  | [], [] => true
  | a :: as, b :: bs => a.agrees b && agreeItems as bs
  | _, _ => false

def agreeFields : List (String × Json) → List (String × Json) → Bool
  | [], [] => true
  | (k, a) :: as, (l, b) :: bs => k == l && a.agrees b && agreeFields as bs
  | _, _ => false
end

/-! ## Depth and order -/

mutual
/-- How many arrays and objects stand inside one another. -/
def depth : Json → Nat
  | .array items => depthItems items + 1
  | .object fields => depthFields fields + 1
  | _ => 0

def depthItems : List Json → Nat
  | [] => 0
  | a :: as => max a.depth (depthItems as)

def depthFields : List (String × Json) → Nat
  | [] => 0
  | (_, a) :: as => max a.depth (depthFields as)
end

/-! ## Looking into a value -/

mutual
def texts : Json → List String
  | .string s => [s]
  | .array items => textsOfItems items
  | .object fields => textsOfFields fields
  | _ => []

def textsOfItems : List Json → List String
  | [] => []
  | a :: as => a.texts ++ textsOfItems as

def textsOfFields : List (String × Json) → List String
  | [] => []
  | (k, a) :: as => k :: (a.texts ++ textsOfFields as)
end

def field? (j : Json) (name : String) : Option Json :=
  match j with
  | .object fields => (fields.find? fun f => f.1 == name).map (·.2)
  | _ => none

def string? : Json → Option String
  | .string s => some s
  | _ => none

def bool? : Json → Option Bool
  | .bool b => some b
  | _ => none

def nat? : Json → Option Nat
  | .number (.int (.ofNat n)) => some n
  | _ => none

def items? : Json → Option (List Json)
  | .array items => some items
  | _ => none

def fields? : Json → Option (List (String × Json))
  | .object fields => some fields
  | _ => none

end Json
end Demarcate
