import Demarcate.Git.Likeness
import Demarcate.Git.Tree
/-!
# Rename — files that went from one path to another

A side of a merge that took a file away and put a like one elsewhere has renamed it.  Files with the same text are
paired first, in the order of their paths; then every pair that is more alike than what its two files are paired with
takes their place.  Only a pair that is alike by half counts in the end (`renames`).
-/
namespace Demarcate.Git

structure Rename where
  source : Path
  target : Path
  likeness : Nat

namespace Rename

/-- Whether two renames have a file in common. -/
def meets (a b : Rename) : Bool := a.source == b.source || a.target == b.target

/-- Puts a rename in place of those that it has a file in common with, if it is more alike than each. -/
def offer (rs : List Rename) (r : Rename) : List Rename :=
  let met := rs.filter r.meets
  if 0 < r.likeness && met.all (·.likeness < r.likeness) then r :: rs.filter fun x => !r.meets x else rs

/-- Pairs each target with the first source left that has its text. -/
def sameText (old new : Path → Option String) : (sources targets : List Path) → List Rename
  | _, [] => []
  | sources, t :: ts =>
    match sources.find? fun s => old s == new t && new t != some "" with
    | some s => ⟨s, t, 100⟩ :: sameText old new (sources.erase s) ts
    | none => sameText old new sources ts

/-- The likeness by which a pair counts as renamed. -/
def threshold : Nat := 50

end Rename

/-- The renames of a side, by the files before and after, among sorted paths. -/
def renames (old new : Path → Option String) (paths : List Path) : List Rename :=
  let sources := paths.filter fun p => (old p).isSome && (new p).isNone
  let targets := paths.filter fun p => (old p).isNone && (new p).isSome
  let like (s t : Path) : Rename := ⟨s, t, likeness ((old s).getD "") ((new t).getD "")⟩
  let found := sources.foldl (fun rs s => targets.foldl (fun rs t => Rename.offer rs (like s t)) rs)
    (Rename.sameText old new sources targets)
  found.filter fun r => Rename.threshold ≤ r.likeness

end Demarcate.Git
