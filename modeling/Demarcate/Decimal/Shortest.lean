import Demarcate.Decimal.Binary64
/-!
# Shortest — the fewest digits that read back

`Binary64.shortest` finds the decimal with the fewest digits inside the interval of reals that round to a double, and
of those the nearest to it.  If a point of a decimal grid lies in the interval, so does one of the double's two
neighbours on that grid, so it is enough to test these for one digit, two digits, up to seventeen.  `Binary64.render`
writes the digits: with a point from `1e-5` up to below `1e16`, with an exponent outside.
-/
namespace Demarcate
namespace Binary64

/-- Whether `a · 10 ^ p` is less than `n / d`, equal to it or greater. -/
def compareDecimal (a : Nat) (p : Int) (n d : Nat) : Ordering :=
  compare (a * tenTo p * d) (n * tenTo (-p))

/-- The greatest `p` with `10 ^ p ≤ n / d`, for positive `n` and `d`. -/
def log10Ratio (n d : Nat) : Int :=
  if d ≤ n then ((Nat.toDigits 10 (n / d)).length : Int) - 1
  else
    let places := (List.range 400).find? fun j : Nat => decide (d ≤ n * tenTo (j + 1))
    Int.negSucc (places.getD 0)

/-- The interval of reals that round to `x`, in quarters of its last place: its least and its greatest point. -/
def quarters (x : Binary64) : Nat × Nat :=
  let low := if x.significand = leastFull ∧ leastExponent < x.exponent then 4 * x.significand - 1
    else 4 * x.significand - 2
  (low, 4 * x.significand + 2)

def quarterRatio (x : Binary64) (m : Nat) : Nat × Nat :=
  let e := x.exponent - 2
  (m * twoTo e, twoTo (-e))

/-- Whether `a · 10 ^ p` rounds to `x`; the ends of the interval do for an even significand. -/
def roundsTo (x : Binary64) (a : Nat) (p : Int) : Bool :=
  let (low, high) := x.quarters
  let (ln, ld) := x.quarterRatio low
  let (hn, hd) := x.quarterRatio high
  let even := x.significand % 2 == 0
  let above := compareDecimal a p ln ld
  let below := compareDecimal a p hn hd
  (above == .gt || (even && above == .eq)) && (below == .lt || (even && below == .eq))

/-- Of the two neighbours of `x` on the grid of `10 ^ p`, the one that rounds to `x`; of both, the nearer. -/
def gridPoint (x : Binary64) (p : Int) : Option Nat :=
  let (n, d) := x.ratio
  let n' := n * tenTo (-p)
  let d' := d * tenTo p
  let q := n' / d'
  let nearest := divRound n' d'
  let other := if nearest = q then q + 1 else q
  if x.roundsTo nearest p then some nearest
  else if x.roundsTo other p then some other
  else none

/-- Drops the zeros at the end of a number's digits, counting them. -/
def dropZeros : (fuel a : Nat) → Nat × Nat
  | 0, a => (a, 0)
  | fuel + 1, a =>
    if a ≠ 0 ∧ a % 10 = 0 then
      let (b, k) := dropZeros fuel (a / 10)
      (b, k + 1)
    else (a, 0)

/-- The shortest decimal `a · 10 ^ p` that rounds to `x`, for `x` other than zero. -/
def shortest (x : Binary64) : Nat × Int :=
  let (n, d) := x.ratio
  let top := log10Ratio n d
  let hit := (List.range 17).findSome? fun (k : Nat) => (x.gridPoint (top - k)).map fun a => (a, top - k)
  let (a, p) := hit.getD (n, 0)
  let (a, zeros) := dropZeros 20 a
  (a, p + zeros)

/-! ## Layout -/

def leastFixed : Int := -5

def greatestFixed : Int := 15

/-- The digits `ds`, the first of them at the decimal exponent `e`, with a point or an exponent. -/
def layout (ds : List Char) (e : Int) : List Char :=
  let n := ds.length
  if leastFixed ≤ e ∧ e ≤ greatestFixed then
    if 0 ≤ e then
      let whole := e.toNat + 1
      if n ≤ whole then ds ++ List.replicate (whole - n) '0' ++ ['.', '0']
      else ds.take whole ++ '.' :: ds.drop whole
    else '0' :: '.' :: List.replicate ((-e).toNat - 1) '0' ++ ds
  else
    let tail := if n ≤ 1 then [] else '.' :: ds.drop 1
    ds.take 1 ++ tail ++ 'e' :: (if 0 ≤ e then '+' else '-') :: Nat.toDigits 10 e.natAbs

/-- The text of a double: the shortest decimal that reads back, never without a point or an exponent. -/
def render (x : Binary64) : List Char :=
  let magnitude :=
    if x.significand = 0 then ['0', '.', '0']
    else
      let (a, p) := x.shortest
      let ds := Nat.toDigits 10 a
      layout ds (p + ds.length - 1)
  if x.negative then '-' :: magnitude else magnitude

end Binary64
end Demarcate
