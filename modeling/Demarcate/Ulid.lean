/-!
# Ulid — identifiers that sort by age

A session, a transaction and a generated row key are each named by a 128-bit number whose upper 48 bits are a time in
milliseconds and whose lower 80 bits tell apart what one millisecond issued.  It is written in 26 digits of Crockford's
base 32, so that the order of the texts is the order of the numbers.  Identifiers are issued by counting: the `n`-th is
`Ulid.issued n`, and no two are alike.
-/
namespace Demarcate

structure Ulid where
  value : Nat
  deriving DecidableEq, Inhabited

namespace Ulid

instance : Ord Ulid := ⟨fun a b => compare a.value b.value⟩

instance : Std.TransOrd Ulid where
  eq_swap {a b} :=
    show compare a.value b.value = (compare b.value a.value).swap from Std.OrientedCmp.eq_swap
  isLE_trans {a b c} hab hbc :=
    show (compare a.value c.value).isLE = true from
      Std.TransCmp.isLE_trans (show (compare a.value b.value).isLE = true from hab) hbc

instance : Std.LawfulEqOrd Ulid where
  compare_self := Std.compare_self (α := Nat)
  eq_of_compare {a b} h := by
    cases a; cases b
    exact congrArg _ (Std.LawfulEqOrd.eq_of_compare (α := Nat) h)

/-- The digits of Crockford's base 32: the letters I, L, O and U are left out. -/
def alphabet : List Char := "0123456789ABCDEFGHJKMNPQRSTVWXYZ".toList

/-- The last `width` base-32 digits of `n`, the most significant first. -/
def digits : (width n : Nat) → List Char
  | 0, _ => []
  | width + 1, n => digits width (n / 32) ++ [alphabet.getD (n % 32) '0']

theorem length_digits : ∀ (width n : Nat), (digits width n).length = width
  | 0, _ => rfl
  | width + 1, n => by simp [digits, length_digits width]

/-- The number of digits in an identifier's text. -/
def width : Nat := 26

/-- The identifier's text in upper case, as memory transactions are named. -/
def text (u : Ulid) : String := String.ofList (digits width u.value)

/-- The identifier's text in lower case, as branches and generated keys are named. -/
def lowerText (u : Ulid) : String := String.ofList ((digits width u.value).map Char.toLower)

/-- The moment from which identifiers are counted, in milliseconds. -/
def epoch : Nat := 1767225600000

/-- How many identifiers one millisecond has: eighty bits tell them apart. -/
def perMillisecond : Nat := 1208925819614629174706176

/-- The `n`-th identifier issued. -/
def issued (n : Nat) : Ulid := ⟨epoch * perMillisecond + n⟩

/-- The number that digits in upper case write; `none` if one of them is no digit. -/
def valueOf? : (digits : List Char) → (value : Nat) → Option Nat
  | [], n => some n
  | c :: cs, n => if alphabet.contains c then valueOf? cs (32 * n + alphabet.idxOf c) else none

/-- The count of the identifier, one of the first `limit`, that digits in upper case write. -/
def issuedIn? (limit : Nat) (digits : List Char) : Option Nat := do
  let n ← valueOf? digits 0
  if digits.length = width ∧ (issued 0).value ≤ n ∧ n < (issued limit).value then some (n - (issued 0).value) else none

theorem issued_inj {m n : Nat} (h : issued m = issued n) : m = n := by
  have := congrArg Ulid.value h
  simp only [issued] at this
  omega

end Ulid
end Demarcate
