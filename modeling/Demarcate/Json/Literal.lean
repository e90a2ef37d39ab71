import Demarcate.Json.Value
/-!
# Strings and numbers in JSON text

A token may be sound enough to be passed over and still not be readable: a string with half of a surrogate pair, a
number past the greatest double.  So scanning a token answers twice, with what reading finds and with where the text
goes on; only a token that cannot even be passed over ends the scan (`Scan.stuck`), and then it says what reading and
what passing over would report.
-/
namespace Demarcate
namespace Json

/-- What is wrong with a text: it breaks the grammar, or it ends too early. -/
inductive Fault where
  | malformed
  | truncated
  deriving DecidableEq

/-- A scanned token of type `α` and the text after it, or the faults of a token that cannot be passed over. -/
inductive Scan (α : Type) where
  | token (found : Except Fault α) (rest : List Char)
  | stuck (read skipped : Fault)

/-! ## Strings -/

def hexValue? (c : Char) : Option Nat :=
  if '0' ≤ c ∧ c ≤ '9' then some (c.toNat - '0'.toNat)
  else if 'a' ≤ c ∧ c ≤ 'f' then some (c.toNat - 'a'.toNat + 10)
  else if 'A' ≤ c ∧ c ≤ 'F' then some (c.toNat - 'A'.toNat + 10)
  else none

def hex4? (a b c d : Char) : Option Nat := do
  return (((← hexValue? a) * 16 + (← hexValue? b)) * 16 + (← hexValue? c)) * 16 + (← hexValue? d)

/-- What a backslash and `c` stand for, the hexadecimal escapes apart. -/
def unescape? (c : Char) : Option Char :=
  if c = '"' then some '"'
  else if c = '\\' then some '\\'
  else if c = '/' then some '/'
  else if c = 'b' then some '\x08'
  else if c = 'f' then some '\x0c'
  else if c = 'n' then some '\n'
  else if c = 'r' then some '\r'
  else if c = 't' then some '\t'
  else none

def isHighSurrogate (n : Nat) : Bool := 0xD800 ≤ n && n < 0xDC00
def isLowSurrogate (n : Nat) : Bool := 0xDC00 ≤ n && n < 0xE000

/-- A hexadecimal escape with fewer than four bytes after it ends too early, else it is malformed. -/
def shortEscape (rest : List Char) : Fault :=
  if rest.foldl (fun n c => n + c.utf8Size) 0 < 4 then .truncated else .malformed

/-- A string after its first quotation mark.  `acc` holds the characters read so far, the last first; `high` the upper
half of a surrogate pair that waits for its lower half; `bad` the fault that reading has met. -/
def scanString (acc : List Char) (high : Option Nat) (bad : Option Fault) : List Char → Scan String
  | [] => .stuck (bad.getD .truncated) .truncated
  | '"' :: rest =>
    match bad, high with
    | some f, _ => .token (.error f) rest
    | none, some _ => .token (.error .malformed) rest
    | none, none => .token (.ok (String.ofList acc.reverse)) rest
  | '\\' :: 'u' :: a :: b :: c :: d :: rest =>
    match hex4? a b c d with
    | none => .stuck (bad.getD .malformed) .malformed
    | some n =>
      match high with
      | some h =>
        if isLowSurrogate n then
          scanString (Char.ofNat (0x10000 + (h - 0xD800) * 0x400 + (n - 0xDC00)) :: acc) none bad rest
        else scanString acc none (some (bad.getD .malformed)) rest
      | none =>
        if isHighSurrogate n then scanString acc (some n) bad rest
        else if isLowSurrogate n then scanString acc none (some (bad.getD .malformed)) rest
        else scanString (Char.ofNat n :: acc) none bad rest
  | ['\\'] => .stuck (bad.getD .truncated) .truncated
  | '\\' :: c :: rest =>
    let bad := if high.isSome && c != 'u' then some (bad.getD .malformed) else bad
    if c = 'u' then .stuck (bad.getD (shortEscape rest)) (shortEscape rest)
    else match unescape? c with
      | none => .stuck (bad.getD .malformed) .malformed
      | some x => scanString (x :: acc) none bad rest
  | c :: rest =>
    let bad := if high.isSome then some (bad.getD .malformed) else bad
    if c.toNat < 32 then .stuck (bad.getD .malformed) .malformed
    else scanString (c :: acc) none bad rest

/-! ## Numbers

Digits are taken into a 64-bit integer as long as they fit; of the digits after that only their number counts before
the point, and nothing behind it. -/

/-- The greatest integer that digits are taken into. -/
def greatestWord : Nat := 18446744073709551615

def digitValue (c : Char) : Nat := c.toNat - '0'.toNat

/-- Takes digits into `n` while they fit.  Returns the integer, how many digits it took, and how many were left. -/
def takeDigits (n : Nat) : List Char → Nat × Nat × Nat
  | [] => (n, 0, 0)
  | c :: rest =>
    if greatestWord < n * 10 + digitValue c then (n, 0, rest.length + 1)
    else
      let (m, taken, left) := takeDigits (n * 10 + digitValue c) rest
      (m, taken + 1, left)

/-- The parts of a number's text. -/
structure Numeral where
  negative : Bool
  whole : List Char
  fraction : Option (List Char)
  exponent : Option (Bool × List Char)

/-- The greatest exponent that is still told apart. -/
def greatestExponent : Nat := 2147483647

/-- The sum held between the least and the greatest 32-bit integer. -/
def clampExponent (e : Int) : Int := max (-2147483648) (min 2147483647 e)

/-- The number that a numeral stands for; `none` for one past the greatest double. -/
def Numeral.value? (n : Numeral) : Option Number :=
  let (whole, _, dropped) := takeDigits 0 n.whole
  match n.fraction, n.exponent with
  | none, none =>
    if dropped ≠ 0 then (Binary64.ofDecimal n.negative whole dropped).map .float
    else if !n.negative then some (.int whole)
    else if 1 ≤ whole ∧ whole ≤ 9223372036854775808 then some (.int (-whole))
    else (Binary64.ofNat true whole).map .float
  | fraction, exponent =>
    let (significand, taken, _) := takeDigits whole (fraction.getD [])
    let start : Int := dropped - taken
    match exponent with
    | none => (Binary64.ofDecimal n.negative significand start).map .float
    | some (negated, digits) =>
      let e := digits.foldl (fun e c => e * 10 + digitValue c) 0
      if greatestExponent < e then
        if significand ≠ 0 && !negated then none
        else some (.float ⟨n.negative, 0, Binary64.leastExponent⟩)
      else
        let e := clampExponent (if negated then start - e else start + e)
        (Binary64.ofDecimal n.negative significand e).map .float

/-- At least one digit, or the fault of a text with none. -/
def scanDigits (cs : List Char) : Except Fault (List Char × List Char) :=
  match cs.span Char.isDigit with
  | ([], []) => .error .truncated
  | ([], _ :: _) => .error .malformed
  | (ds, rest) => .ok (ds, rest)

/-- The digits before the point: a zero stands alone. -/
def scanWhole : List Char → Except Fault (List Char × List Char)
  | '0' :: c :: rest => if c.isDigit then .error .malformed else .ok (['0'], c :: rest)
  | cs => scanDigits cs

def scanExponent : List Char → Except Fault (Option (Bool × List Char) × List Char)
  | c :: rest =>
    if c = 'e' ∨ c = 'E' then
      let (negated, rest) := match rest with
        | '+' :: rest => (false, rest)
        | '-' :: rest => (true, rest)
        | rest => (false, rest)
      (scanDigits rest).map fun (ds, rest) => (some (negated, ds), rest)
    else .ok (none, c :: rest)
  | [] => .ok (none, [])

def scanNumeral (cs : List Char) : Except Fault (Numeral × List Char) := do
  let (negative, cs) := match cs with
    | '-' :: rest => (true, rest)
    | cs => (false, cs)
  let (whole, cs) ← scanWhole cs
  let (fraction, cs) ← match cs with
    | '.' :: rest => (scanDigits rest).map fun (ds, rest) => (some ds, rest)
    | cs => .ok (none, cs)
  let (exponent, cs) ← scanExponent cs
  return (⟨negative, whole, fraction, exponent⟩, cs)

/-- A number.  One that has no digit where it needs one is malformed where it is passed over, also at the text's end. -/
def scanNumber (cs : List Char) : Scan Number :=
  match scanNumeral cs with
  | .error f => .stuck f .malformed
  | .ok (n, rest) =>
    match n.value? with
    | some x => .token (.ok x) rest
    | none => .token (.error .malformed) rest

end Json
end Demarcate
