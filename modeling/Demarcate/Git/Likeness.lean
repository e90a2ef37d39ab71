/-!
# Likeness — how much two texts have in common

A text is taken apart into runs: its lines without the blanks in front of them and without carriage returns, a long line
in pieces, and none of them empty.  Each run counts by a hash of it, and two texts are as alike as their runs are the
same, wherever they stand.  Of a text with many runs a sample of the least and one of the greatest hashes is kept
(`Fingerprint`), and a text with very few runs is not compared (`Fingerprint.ofText?`).
-/
namespace Demarcate.Git

/-! ## Runs -/

/-- The hash of a run so far, and where in the text it stands. -/
structure RunScan where
  hash : UInt32
  length : Nat := 0
  /-- Whether blanks are passed over, as they are in front of a line. -/
  atLineStart : Bool := true
  /-- Whether a run has ended and no byte of the next line was met. -/
  afterRun : Bool := false
  hashes : List UInt32 := []

namespace RunScan

def startHash : UInt32 := 2327633648

def longest : Nat := 80

def isBlank (b : UInt8) : Bool := b = 32 || b = 9 || b = 12 || b = 13 || b = 11

def endsRun (b : UInt8) : Bool := b = 10 || b = 0

def isPassedOver (s : RunScan) (b : UInt8) : Bool := if s.atLineStart then isBlank b else b = 13

/-- Ends the run, if it is one. -/
def finish (s : RunScan) : RunScan :=
  if s.length = 0 then { s with hash := startHash }
  else { s with hash := startHash, length := 0, afterRun := true, hashes := s.hash :: s.hashes }

/-- Takes in one byte. -/
def step (s : RunScan) (b : UInt8) : RunScan :=
  if s.afterRun && endsRun b then s
  else if s.isPassedOver b then { s with afterRun := false }
  else
    let s := { s with afterRun := false, atLineStart := b = 10 }
    if endsRun b then s.finish
    else
      let s := { s with hash := s.hash * 31 + b.toUInt32, length := s.length + 1 }
      if s.length = longest then s.finish else s

end RunScan

def runHashes (bytes : List UInt8) : List UInt32 :=
  (bytes.foldl RunScan.step { hash := RunScan.startHash }).finish.hashes.reverse

/-! ## Samples -/

def insertAscending (h : UInt32) : List UInt32 → List UInt32
  | [] => [h]
  | x :: xs => if h ≤ x then h :: x :: xs else x :: insertAscending h xs

/-- How many hashes a sample can have. -/
def sampleSize : Nat := 127

/-- Offers a hash to a sample of great ones, which ascends.  A full sample gives up its least hash for a greater one,
and has room for the next hash, whatever that is. -/
def offerHash (sample : List UInt32) (h : UInt32) : List UInt32 :=
  if sample.length < sampleSize then insertAscending h sample
  else match sample with
    | [] => []
    | least :: others => if least < h then others else sample

def sampleOf (hashes : List UInt32) : List UInt32 := hashes.foldl offerHash []

def shared : List UInt32 → List UInt32 → Nat
  | [], _ => 0
  | h :: hs, others => if others.contains h then shared hs (others.erase h) + 1 else shared hs others

/-- The part of two samples that they share, in percent. -/
def sharedPart (a b : List UInt32) : Nat := 100 * (2 * shared a b) / (a.length + b.length)

structure Fingerprint where
  /-- A sample of the least hashes, by their complements. -/
  least : List UInt32
  greatest : List UInt32

namespace Fingerprint

/-- How many runs a text must have to be compared. -/
def fewestRuns : Nat := 4

def ofText? (text : String) : Option Fingerprint :=
  let hashes := runHashes text.toUTF8.toList
  let f : Fingerprint := ⟨sampleOf (hashes.map (~~~·)), sampleOf hashes⟩
  if f.least.length < fewestRuns then none else some f

/-- How alike two texts are, in percent.  Where the first has room in its sample, one sample tells all. -/
def likeness (a b : Fingerprint) : Nat :=
  if a.least.length < sampleSize then sharedPart a.least b.least
  else (sharedPart a.least b.least + sharedPart a.greatest b.greatest) / 2

end Fingerprint

/-- How alike two texts are, in percent; nothing where one of them is not compared. -/
def likeness (a b : String) : Nat :=
  match Fingerprint.ofText? a, Fingerprint.ofText? b with
  | some f, some g => f.likeness g
  | _, _ => 0

end Demarcate.Git
