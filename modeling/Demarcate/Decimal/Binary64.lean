/-!
# Binary64 — finite doubles as exact values

A double is held as the number it denotes, `± significand · 2 ^ exponent`, so that multiplying, dividing and rounding
are arithmetic on `Nat` and nothing depends on the machine's own floats.  `roundRatio` is the only place that rounds:
to the nearest double, a tie to the even significand, and to `none` where the result is past the greatest double.
-/
namespace Demarcate

/-- A finite double.  Its significand has 53 bits, fewer only at the least exponent. -/
structure Binary64 where
  negative : Bool
  significand : Nat
  exponent : Int
  deriving DecidableEq, Inhabited

namespace Binary64

/-- The exponent of the subnormal doubles. -/
def leastExponent : Int := -1074

def greatestExponent : Int := 971

/-- Two to the power of `e`, and one for a negative `e`. -/
def twoTo (e : Int) : Nat := Nat.pow 2 e.toNat

/-- Ten to the power of `e`, and one for a negative `e`. -/
def tenTo (e : Int) : Nat := Nat.pow 10 e.toNat

/-- The least significand of 53 bits. -/
def leastFull : Nat := 4503599627370496

def divRound (n d : Nat) : Nat :=
  let q := n / d
  let r := n % d
  if 2 * r > d || (2 * r == d && q % 2 == 1) then q + 1 else q

/-- The greatest `e` with `2 ^ e * d ≤ n`, for positive `n` and `d`. -/
def log2Ratio (n d : Nat) : Int :=
  let e : Int := n.log2 - d.log2
  let fits := if 0 ≤ e then d * twoTo e ≤ n else d ≤ n * twoTo (-e)
  if fits then e else e - 1

/-- The double nearest to `n / d`, for positive `d`; `none` past the greatest double. -/
def roundRatio (negative : Bool) (n d : Nat) : Option Binary64 :=
  if n = 0 then some ⟨negative, 0, leastExponent⟩
  else
    let e := max leastExponent (log2Ratio n d - 52)
    let q := if 0 ≤ e then divRound n (d * twoTo e) else divRound (n * twoTo (-e)) d
    let (q, e) := if q = 2 * leastFull then (leastFull, e + 1) else (q, e)
    if greatestExponent < e then none else some ⟨negative, q, e⟩

def ofNat (negative : Bool) (n : Nat) : Option Binary64 := roundRatio negative n 1

/-- The magnitude as a quotient of natural numbers. -/
def ratio (x : Binary64) : Nat × Nat :=
  if 0 ≤ x.exponent then (x.significand * twoTo x.exponent, 1)
  else (x.significand, twoTo (-x.exponent))

def mul (x y : Binary64) : Option Binary64 :=
  let (a, b) := x.ratio
  let (c, d) := y.ratio
  roundRatio (x.negative != y.negative) (a * c) (b * d)

def div (x y : Binary64) : Option Binary64 :=
  let (a, b) := x.ratio
  let (c, d) := y.ratio
  roundRatio (x.negative != y.negative) (a * d) (b * c)

/-- Whether two doubles denote one number: the two zeros do. -/
def agrees (x y : Binary64) : Bool :=
  x == y || (x.significand == 0 && y.significand == 0)

/-! ## Decimal literals

A literal's digits become a 64-bit integer, that integer a double, and the double is multiplied or divided by a power
of ten that is itself a double.  Each step rounds, so the result may be one place off the nearest double. -/

/-- The greatest power of ten that is kept as a double. -/
def greatestPower : Nat := 308

def powerOfTen (k : Nat) : Binary64 := (roundRatio false (tenTo k) 1).getD default

/-- `x · 10 ^ e` in at most `steps` divisions by the greatest power; four take every 64-bit integer to zero. -/
def scaleWithin : (steps : Nat) → Binary64 → (e : Int) → Option Binary64
  | steps, x, e =>
    if e.natAbs ≤ greatestPower then
      if 0 ≤ e then x.mul (powerOfTen e.natAbs) else x.div (powerOfTen e.natAbs)
    else if x.significand = 0 then some x
    else if 0 ≤ e then none
    else match steps with
      | 0 => some ⟨x.negative, 0, leastExponent⟩
      | steps + 1 => match x.div (powerOfTen greatestPower) with
        | some y => scaleWithin steps y (e + greatestPower)
        | none => none

/-- The double that the digits of `significand` with the exponent `e` stand for; `none` past the greatest double. -/
def ofDecimal (negative : Bool) (significand : Nat) (e : Int) : Option Binary64 := do
  let x ← ofNat false significand
  let y ← scaleWithin 4 x e
  return { y with negative := negative }

end Binary64
end Demarcate
