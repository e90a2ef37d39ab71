import Demarcate.Git.Commit
import Demarcate.Git.Merge
import Demarcate.Git.RefName
import Demarcate.Row.Codec
/-!
# Repository — rows under version control

A repository is its commits and its references.  The tree of a commit has a folder for every table and in it a file for
every row.  The branch `main` holds the committed rows; a transaction has a branch of its own, begun at the tip of
`main`, and every change makes one commit on the branch that it is made on.  `merge` brings a transaction's branch back:
it moves `main` along the branch where `main` still stands at the base, and otherwise joins the two trees, provided that
they changed different rows.

A function that fails leaves the repository as it was, so only its success returns one.
-/
namespace Demarcate.Git

inductive Target where
  | commit (id : CommitId)
  /-- Something that no history starts from. -/
  | blob
  deriving DecidableEq

structure Repository where
  /-- What tells its commits from those of other repositories. -/
  number : Nat := 0
  commits : Array Commit := #[]
  refs : SortedMap String Target := ∅
  /-- The branch that a working copy would be on, unless there is a reference `HEAD`. -/
  head : String := "refs/heads/master"

inductive MergeOutcome where
  /-- The transaction wrote nothing. -/
  | unchanged
  /-- `main` stood at the base and moved to the transaction's commit. -/
  | fastForward (id : CommitId)
  /-- `main` had moved; a new commit joins the two histories. -/
  | merged (id : CommitId)
  /-- Both sides changed these files, and `main` is as it was. -/
  | conflict (paths : List Path)

namespace Repository

/-! ## Commits and references -/

def commit? (r : Repository) (id : CommitId) : Option Commit :=
  if id.store = r.number then (r.commits[id.index]?).filter Commit.isReadable else none

def treeAt (r : Repository) (id : CommitId) : Except StorageError Tree :=
  match r.commit? id with
  | some c => .ok c.tree
  | none => .error .git

/-- Keeps a commit, which no reference points at yet. -/
def add (r : Repository) (c : Commit) : CommitId × Repository :=
  (⟨r.number, r.commits.size⟩, { r with commits := r.commits.push c })

def target? (r : Repository) (name : String) : Option Target := do r.refs.get? (← RefName.normal? name)

/-- The branch that a working copy would be on; `none` where that is no branch. -/
def headBranch? (r : Repository) : Option String := if r.refs.contains RefName.head then none else some r.head

/-- The tip of a branch, which has to be a commit that can be read. -/
def resolve (r : Repository) (name : String) : Except StorageError CommitId :=
  match r.target? name with
  | some (.commit id) => if (r.commit? id).isSome then .ok id else .error (.refNotFound name)
  | _ => .error (.refNotFound name)

/-- Makes a reference, or moves it if `replace` allows that. -/
def setRef (r : Repository) (name : String) (t : Target) (replace : Bool) : Except StorageError Repository :=
  match RefName.normal? name with
  | none => .error .git
  | some n =>
    if (RefName.occupied ++ r.refs.keys).any (RefName.clash n) || (r.refs.contains n && !replace) then .error .git
    else .ok { r with refs := r.refs.insert n t }

/-- Moves a branch, provided that it is still where it was. -/
def advance (r : Repository) (name : String) (expected next : CommitId) : Except StorageError Repository := do
  if (← r.resolve name) = expected then r.setRef name (.commit next) true
  else .error (.concurrentModification (String.ofList (name.toList.drop "refs/heads/".length)))

/-- Deletes a reference.  `HEAD` stays. -/
def deleteRef (r : Repository) (name : String) : Except StorageError Repository :=
  match RefName.normal? name with
  | some n =>
    if n = RefName.head then .error .git
    else if r.refs.contains n then .ok { r with refs := r.refs.erase n } else .error (.refNotFound name)
  | none => .error (.refNotFound name)

/-- The transactions that have a branch, in order. -/
def transactionIds (r : Repository) : List String := r.refs.keys.filterMap RefName.transaction?

def tip (r : Repository) : Except StorageError CommitId := r.resolve RefName.main

def transactionTip (r : Repository) (id : String) : Except StorageError CommitId :=
  r.resolve (RefName.ofTransaction id)

/-- An author as a commit shows it. -/
def stamp (s : Signature) : Except StorageError Signature :=
  match s.stamp? with
  | some shown => .ok shown
  | none => .error .git

/-! ## A new repository -/

/-- Gives a repository its first commit, of an empty tree, which has to be one that can be read.  It must not have a
`main`. -/
def start (r : Repository) (s : Signature) : Except StorageError Repository := do
  let author ← stamp s
  let (id, r) := r.add ⟨[], [], "initialize document store", author⟩
  let _ ← r.treeAt id
  let r ← r.setRef RefName.main (.commit id) false
  return { r with head := RefName.main, refs := r.refs.erase RefName.head }

/-! ## Reading -/

/-- What a tree has in the place of a row's file. -/
def entryAt? (t : Tree) (s : Slot) : Option Node :=
  (t.folder? s.table.text).bind fun rows => Tree.find? rows s.key.fileName

def rowIn (t : Tree) (s : Slot) : Except StorageError (Option Row) :=
  match entryAt? t s with
  | none => .ok none
  | some (.file text) => (Row.decode text s.key).map some
  | some (.folder _) => .error .git

/-- The row of an entry in a table's folder; `none` for an entry that no row is kept in. -/
def entryRow (name : String) (n : Node) : Except StorageError (Option Row) :=
  match RowKey.stem? name with
  | none => .ok none
  | some stem =>
    match RowKey.parse stem, n with
    | .error e, _ => .error (.invalidName e)
    | .ok key, .file text => (Row.decode text key).map some
    | .ok _, .folder _ => .error .git

def rowsOf : List (String × Node) → Except StorageError (List Row)
  | [] => .ok []
  | (name, n) :: rest => do
    let row? ← entryRow name n
    let rows ← rowsOf rest
    return row?.toList ++ rows

/-- The rows of a tree's table in order of key.  Its first entry that cannot be read is the error. -/
def tableIn (t : Tree) (table : TableName) : Except StorageError (List Row) :=
  match t.folder? table.text with
  | none => .ok []
  | some entries => do
    let rows ← rowsOf (Tree.inOrder entries)
    return (SortedMap.ofList (rows.map fun row => (row.key, row))).values

def readRow (r : Repository) (s : Slot) (id : CommitId) : Except StorageError (Option Row) := do
  rowIn (← r.treeAt id) s

def scanTable (r : Repository) (table : TableName) (id : CommitId) : Except StorageError (List Row) := do
  tableIn (← r.treeAt id) table

/-! ## Writing -/

/-- A tree with a row in its slot, or without one.  The folder of a table goes with its last entry.

The names are taken to be validated ones, which every tree takes (`Slot.Allowed.nameOk`).  Of names that were only read
a tree refuses some, such as an empty one, `.`, `..`, `.git` and those with a slash; that is not looked at here. -/
def withRow (t : Tree) (s : Slot) (row : Option Row) : Tree :=
  let rows := (t.folder? s.table.text).getD []
  match row with
  | some row => t.insert s.table.text (.folder (Tree.insert rows s.key.fileName (.file row.encode)))
  | none =>
    match Tree.erase rows s.key.fileName with
    | [] => t.erase s.table.text
    | rest => t.insert s.table.text (.folder rest)

/-- A row is written in its slot and nowhere else. -/
theorem entryAt?_withRow (t : Tree) (s s' : Slot) (row : Option Row) :
    entryAt? (withRow t s row) s' =
      if s' = s then row.map fun row => .file row.encode else entryAt? t s' := by
  have hs : s' = s ↔ s'.table.text = s.table.text ∧ s'.key.fileName = s.key.fileName := by
    constructor
    · rintro rfl; exact ⟨rfl, rfl⟩
    · rintro ⟨ht, hk⟩
      cases s; cases s'
      exact congr (congrArg _ (TableName.text_inj ht)) (RowKey.fileName_inj hk)
  cases row with
  | some row =>
    simp only [withRow, entryAt?, Tree.folder?_insert_folder]
    by_cases ht : s'.table.text = s.table.text
    · by_cases hk : s'.key.fileName = s.key.fileName <;> simp [hs, ht, hk, Tree.find?_insert]
      cases t.folder? s.table.text <;> simp [Tree.find?, SortedMap.findEntry]
    · simp [hs, ht]
  | none =>
    -- what another name of the table's folder has is not changed by the erasure
    have hother : ∀ name, name ≠ s.key.fileName →
        Tree.find? (Tree.erase ((t.folder? s.table.text).getD []) s.key.fileName) name =
          (t.folder? s.table.text).bind fun rows => Tree.find? rows name := by
      intro name hne
      rw [Tree.find?_erase, if_neg hne]
      cases t.folder? s.table.text <;> simp [Tree.find?, SortedMap.findEntry]
    simp only [withRow, entryAt?]
    split
    · rename_i he
      rw [Tree.folder?_erase]
      by_cases ht : s'.table.text = s.table.text
      · by_cases hk : s'.key.fileName = s.key.fileName
        · simp [hs, ht, hk]
        · have := hother _ hk
          rw [he] at this
          simpa [hs, ht, hk, Tree.find?, SortedMap.findEntry] using this
      · simp [hs, ht]
    · rw [Tree.folder?_insert_folder]
      by_cases ht : s'.table.text = s.table.text
      · by_cases hk : s'.key.fileName = s.key.fileName
        · simp [hs, ht, hk, Tree.find?_erase]
        · simp [hs, ht, hk, hother _ hk]
      · simp [hs, ht]

/-- What the commit of a change says; a transaction is named in a paragraph of its own. -/
def changeMessage (s : Slot) (verb : String) (transaction : Option String) : String :=
  let line := verb ++ " " ++ s.table.text ++ "/" ++ s.key.text
  match transaction with
  | none => line
  | some id => line ++ "\n\nTransaction: " ++ id

/-- Makes the commit of a change to the rows of `parent`, which no reference points at yet.  The names are taken to be
validated ones, as in `withRow`. -/
def writeChange (r : Repository) (author : Signature) (now : String) (parent : CommitId) (table : TableName)
    (c : Change) (transaction : Option String) : Outcome StorageError (CommitId × Repository) := do
  let slot : Slot := ⟨table, c.key⟩
  let t ← Outcome.ofExcept (r.treeAt parent)
  let existing ← Outcome.ofExcept (rowIn t slot)
  let next ← c.resolve now table existing
  let author ← Outcome.ofExcept (stamp author)
  return r.add ⟨[parent], withRow t slot next, changeMessage slot c.verb transaction, author⟩

def commitTo (r : Repository) (author : Signature) (now : String) (branch : String) (table : TableName) (c : Change)
    (transaction : Option String) : Outcome StorageError (CommitId × Repository) := do
  let parent ← Outcome.ofExcept (r.resolve branch)
  let (id, r) ← r.writeChange author now parent table c transaction
  let r ← Outcome.ofExcept (r.advance branch parent id)
  return (id, r)

def commitToMain (r : Repository) (author : Signature) (now : String) (table : TableName) (c : Change) :
    Outcome StorageError (CommitId × Repository) :=
  r.commitTo author now RefName.main table c none

def commitToTransaction (r : Repository) (author : Signature) (now id : String) (table : TableName) (c : Change) :
    Outcome StorageError (CommitId × Repository) :=
  r.commitTo author now (RefName.ofTransaction id) table c (some id)

/-! ## Transactions -/

/-- Gives a transaction a branch at the tip of `main`.  Returns the tip, from which `merge` starts. -/
def branch (r : Repository) (id : String) : Except StorageError (CommitId × Repository) := do
  let base ← r.tip
  let r ← r.setRef (RefName.ofTransaction id) (.commit base) false
  return (base, r)

/-- Brings the changes of a transaction begun at `base` to `main`.  The branch stays. -/
def merge (r : Repository) (author : Signature) (id : String) (base : CommitId) :
    Except StorageError (MergeOutcome × Repository) := do
  let theirs ← r.transactionTip id
  if theirs = base then return (.unchanged, r)
  let ours ← r.tip
  if ours = base then
    let r ← r.advance RefName.main ours theirs
    return (.fastForward theirs, r)
  match Tree.merge (← r.treeAt base) (← r.treeAt ours) (← r.treeAt theirs) with
  | .error paths => return (.conflict paths, r)
  | .ok tree =>
    let author ← stamp author
    let (next, r) := r.add ⟨[ours, theirs], tree, "merge transaction " ++ id, author⟩
    let r ← r.advance RefName.main ours next
    return (.merged next, r)

/-! ## History -/

/-- The commits of a walk that goes on with `queue`, `fuel` of them at most.  `seen` were in the queue before. -/
def walk (r : Repository) : (fuel : Nat) → (queue seen : List CommitId) → List CommitId
  | 0, _, _ => []
  | _, [], _ => []
  | fuel + 1, id :: queue, seen =>
    let parents := ((r.commit? id).map (·.parents)).getD []
    let fresh := (parents.filter fun p => !seen.contains p).eraseDups
    id :: walk r fuel (queue ++ fresh) (seen ++ fresh)

/-- The summaries of the last commits of `main`, `limit` of them at most, the newest first. -/
def log (r : Repository) (limit : Nat) : Except StorageError (List String) := do
  let id ← r.tip
  let ids := r.walk (min limit r.commits.size) [id] [id]
  return (ids.filterMap r.commit?).map Commit.summary

end Repository
end Demarcate.Git
