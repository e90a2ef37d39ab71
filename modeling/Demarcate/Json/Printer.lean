import Demarcate.Json.Value
import Demarcate.Decimal.Shortest
/-!
# Printing JSON

Two layouts of one value: `Json.compact` without a blank, and `Json.pretty` with every item on a line of its own, two
spaces deeper than the bracket around it.  An empty array or object is two brackets in both.  A string escapes the
quotation mark, the backslash and the control characters, and nothing else.
-/
namespace Demarcate
namespace Json

def hexDigit (n : Nat) : Char := "0123456789abcdef".toList.getD n '0'

/-- How a character stands inside a string. -/
def escapeChar (c : Char) : List Char :=
  if c = '"' then ['\\', '"']
  else if c = '\\' then ['\\', '\\']
  else if c = '\n' then ['\\', 'n']
  else if c = '\r' then ['\\', 'r']
  else if c = '\t' then ['\\', 't']
  else if c = '\x08' then ['\\', 'b']
  else if c = '\x0c' then ['\\', 'f']
  else if c.toNat < 32 then ['\\', 'u', '0', '0', hexDigit (c.toNat / 16), hexDigit (c.toNat % 16)]
  else [c]

def quote (s : String) : List Char := '"' :: (s.toList.flatMap escapeChar ++ ['"'])

def Number.print : Number → List Char
  | .int (.ofNat n) => Nat.toDigits 10 n
  | .int (.negSucc n) => '-' :: Nat.toDigits 10 (n + 1)
  | .float x => x.render

/-! ## Without blanks -/

mutual
def compact : Json → List Char
  | .null => "null".toList
  | .bool true => "true".toList
  | .bool false => "false".toList
  | .number n => n.print
  | .string s => quote s
  | .array [] => ['[', ']']
  | .array (a :: as) => '[' :: (a.compact ++ compactItems as)
  | .object [] => ['\x7b', '\x7d']
  | .object ((k, a) :: as) => '\x7b' :: (quote k ++ ':' :: (a.compact ++ compactFields as))

/-- The items after the first, and the bracket. -/
def compactItems : List Json → List Char
  | [] => [']']
  | a :: as => ',' :: (a.compact ++ compactItems as)

/-- The fields after the first, and the bracket. -/
def compactFields : List (String × Json) → List Char
  | [] => ['\x7d']
  | (k, a) :: as => ',' :: (quote k ++ ':' :: (a.compact ++ compactFields as))
end

/-! ## One item a line -/

/-- A line's end and the blanks before the next line's text. -/
def newline (indent : Nat) : List Char := '\n' :: List.replicate (2 * indent) ' '

mutual
/-- The value inside `indent` brackets. -/
def pretty (indent : Nat) : Json → List Char
  | .null => "null".toList
  | .bool true => "true".toList
  | .bool false => "false".toList
  | .number n => n.print
  | .string s => quote s
  | .array [] => ['[', ']']
  | .array (a :: as) => '[' :: (newline (indent + 1) ++ (a.pretty (indent + 1) ++ prettyItems indent as))
  | .object [] => ['\x7b', '\x7d']
  | .object ((k, a) :: as) =>
    '\x7b' :: (newline (indent + 1) ++ (quote k ++ ':' :: ' ' :: (a.pretty (indent + 1) ++ prettyFields indent as)))

def prettyItems (indent : Nat) : List Json → List Char
  | [] => newline indent ++ [']']
  | a :: as => ',' :: (newline (indent + 1) ++ (a.pretty (indent + 1) ++ prettyItems indent as))

def prettyFields (indent : Nat) : List (String × Json) → List Char
  | [] => newline indent ++ ['\x7d']
  | (k, a) :: as =>
    ',' :: (newline (indent + 1) ++ (quote k ++ ':' :: ' ' :: (a.pretty (indent + 1) ++ prettyFields indent as)))
end

def toText (j : Json) : String := String.ofList j.compact

def toPrettyText (j : Json) : String := String.ofList (j.pretty 0)

end Json
end Demarcate
