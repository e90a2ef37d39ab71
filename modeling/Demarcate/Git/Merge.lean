import Demarcate.Git.Rename
/-!
# Merge — two trees that grew from one

Each of two sides changed a base.  A path on which both differ from the base is an overlap, and nothing is merged.
Without one, every path is taken from the side that changed it.  That can leave a file of one side where the other has a
folder; such a file is a clash, and nothing is merged either, unless the file was only renamed: then the folder takes
its place.  A merged tree is made of its files, so a folder without a file is not in it.
-/
namespace Demarcate.Git
namespace Tree

def differAt (a b : Tree) (p : Path) : Bool := fileAt? a p != fileAt? b p

/-- The paths of the files of some trees, in order, each once. -/
def pathsOf (ts : List Tree) : List Path :=
  (SortedMap.ofList (ts.flatMap fun t => (files t).map fun f => (f.1, ()))).keys

/-- The paths that both sides changed, in order. -/
def overlaps (base ours theirs : Tree) : List Path :=
  (pathsOf [base, ours, theirs]).filter fun p => differAt base ours p && differAt base theirs p

/-- What is at a path when each side's changes are taken. -/
def mergedAt? (base ours theirs : Tree) (p : Path) : Option String :=
  if differAt base theirs p then fileAt? theirs p else fileAt? ours p

/-- The files among sorted paths that the next path has as a folder.  `inside` is the last of them while the paths are
below it, and `previous` the path before. -/
def clashesFrom (added : Path → Bool) : (inside previous : Option Path) → List Path → List Path
  | _, _, [] => []
  | some d, _, p :: rest =>
    if d.isAbove p then clashesFrom added (some d) (some p) rest else clashesFrom added none (some p) rest
  | none, some q, p :: rest =>
    if added q && added p && q.isAbove p then q :: clashesFrom added (some q) (some p) rest
    else clashesFrom added none (some p) rest
  | none, none, p :: rest => clashesFrom added none (some p) rest

/-- The paths that a side changed or the other one did, in the order of their texts. -/
def touched (base ours theirs : Tree) : List Path :=
  ((pathsOf [base, ours, theirs]).filter fun p => differAt base ours p || differAt base theirs p).mergeSort
    fun p q => (compare p.text q.text).isLE

/-- The paths that one of the two sides renamed a file to. -/
def renamedTo (base ours theirs : Tree) : List Path :=
  [ours, theirs].flatMap fun side =>
    (renames (fileAt? base) (fileAt? side) (touched base ours theirs)).map (·.target)

/-- The files put by one side where the other put a file below, in the order of their texts, without the renamed. -/
def clashes (base ours theirs : Tree) : List Path :=
  match clashesFrom (fun p => (mergedAt? base ours theirs p).isSome) none none (touched base ours theirs) with
  | [] => []
  | ps =>
    let renamed := renamedTo base ours theirs
    ps.filter fun p => !renamed.contains p

/-- The tree with the changes of both sides, in a base without overlaps and clashes.  A path comes before those below
it, whose folder takes its place. -/
def joined (base ours theirs : Tree) : Tree :=
  (pathsOf [base, ours, theirs]).foldl (fun t p =>
    match mergedAt? base ours theirs p with
    | some text => putAt text t p
    | none => t) []

/-- The merged tree, or the paths that stand against it. -/
def merge (base ours theirs : Tree) : Except (List Path) Tree :=
  match overlaps base ours theirs with
  | [] =>
    match clashes base ours theirs with
    | [] => .ok (joined base ours theirs)
    | ps => .error ps
  | ps => .error ps

end Tree
end Demarcate.Git
