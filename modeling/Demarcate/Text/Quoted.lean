import Demarcate.Text.Unshown
/-!
# Quoted — a text inside a message

A text that a message quotes stands between quotation marks, with the characters that would be lost or misread written
as escapes: the mark, the backslash, NUL, tab and the line ends by a letter, and a character without a shape of its own
by its code point.
-/
namespace Demarcate.Text

/-- A code point in hexadecimal, between braces. -/
def byNumber (c : Char) : List Char :=
  '\\' :: 'u' :: '\x7b' :: (Nat.toDigits 16 c.toNat ++ ['\x7d'])

/-- How a character stands in a quoted text. -/
def escape (c : Char) : List Char :=
  if c = '\x00' then ['\\', '0']
  else if c = '\t' then ['\\', 't']
  else if c = '\r' then ['\\', 'r']
  else if c = '\n' then ['\\', 'n']
  else if c = '\\' then ['\\', '\\']
  else if c = '"' then ['\\', '"']
  else if isUnshown c then byNumber c
  else [c]

/-- A text between quotation marks. -/
def quoted (s : String) : String :=
  String.ofList ('"' :: (s.toList.flatMap escape ++ ['"']))

end Demarcate.Text
