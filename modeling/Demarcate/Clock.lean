/-!
# Clock — readings of the clock as text

A row keeps its times as RFC 3339 text.  The clock is read by counting: the `n`-th reading is `Clock.stamp n`, and a
later reading is a different text, since the fraction of the second carries the count.
-/
namespace Demarcate.Clock

/-- The decimal digits of `n`, with zeros in front up to nine places. -/
def nanos (n : Nat) : List Char :=
  let ds := Nat.toDigits 10 n
  List.replicate (9 - ds.length) '0' ++ ds

/-- What stands before the count. -/
def lead : List Char := "2026-01-01T00:00:00.".toList

/-- What stands after it. -/
def tail : List Char := "+00:00".toList

/-- The text of the `n`-th reading. -/
def stamp (n : Nat) : String := String.ofList (lead ++ nanos n ++ tail)

/-- The number that digits write. -/
def valueOf (cs : List Char) : Nat := cs.foldl (fun n c => 10 * n + (c.toNat - '0'.toNat)) 0

/-- The count of the reading that a text shows. -/
def reading? (text : String) : Option Nat :=
  let cs := text.toList
  let n := valueOf ((cs.drop lead.length).take (cs.length - lead.length - tail.length))
  if stamp n = text then some n else none

theorem stamp_of_reading? {text : String} {n : Nat} (h : reading? text = some n) : stamp n = text := by
  simp only [reading?] at h
  split at h
  · rename_i hs
    exact Option.some.inj h ▸ hs
  · cases h

end Demarcate.Clock
