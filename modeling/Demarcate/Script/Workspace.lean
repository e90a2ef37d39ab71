import Demarcate.Clock
import Demarcate.Git.Edit
import Demarcate.Script.Act
import Demarcate.Script.Step
/-!
# Workspace — steps on repositories

A workspace is a disk and the handles that steps opened on its repositories, by name.  Commits are shown by labels,
which count them in the order in which a directory's commits were first shown.  `RepoStep.perform` takes one step, and
a list of steps is taken to its end whatever becomes of them.
-/
namespace Demarcate.Script

open Git (CommitId Handle Repository)
open Act

structure Workspace where
  disk : Git.Disk := {}
  handles : SortedMap String Handle := ∅
  /-- The commits of a directory that were shown, in the order of their labels. -/
  labels : SortedMap String (List CommitId) := ∅
  /-- Where the transactions were begun. -/
  bases : SortedMap String CommitId := ∅
  /-- The count of the clock's next reading. -/
  readings : Nat := 0

/-! ## Steps -/

inductive RepoCall where
  | init (author : Git.Signature)
  | openRepository (author : Git.Signature)
  | openOrInit (author : Git.Signature)
  | makeFolder
  | close
  | head
  | begin (id : String)
  | transactionHead (id : String)
  | write (kind : WriteKind) (transaction : Option String) (table : String) (row : RowSpec)
  | delete (transaction : Option String) (table key : String)
  | merge (id : String) (base : Option String)
  | abandon (id : String)
  | transactionIds
  | cleanup
  | log (limit : Nat) (sorted : Bool)
  | get (label : Option String) (table key : String)
  | scan (label : Option String) (table : String)
  | keys (label : Option String) (table : String)
  | blob (label : Option String) (file : String)
  | commit (label : Option String)
  | headRef
  | putFile (branch file : String) (text : Option String) (message : String)
  | point (ref : String) (pointee : Git.Pointee)
  | unknown

structure RepoStep where
  /-- The name of the handle that the step uses. -/
  repo : String := "r"
  /-- The directory, as it is shown. -/
  path : String
  call : RepoCall

/-- How a transaction was brought back, its commit by its label. -/
inductive MergeReply where
  | unchanged
  | fastForward (label : Nat)
  | merged (label : Nat)
  | conflict (paths : List Git.Path)

inductive RepoReply where
  | nothing
  | text (t : String)
  | texts (ts : List String)
  | branch (name : Option String)
  | flag (b : Bool)
  | count (n : Nat)
  | label (n : Nat)
  | row (r : Option Row)
  | rows (rs : List Row)
  /-- The rows, their keys and versions alone. -/
  | keys (rs : List Row)
  | merge (m : MergeReply)
  | commit (label : Nat) (parents : List Nat) (c : Git.Commit)

/-! ## What there is in a workspace -/

namespace RepoStep

variable (step : RepoStep)

def handle : Act Workspace Handle := do
  match (← state).handles.get? step.repo with
  | some h => return h
  | none => misuse "no such repository"

def setHandle (h : Handle) : Act Workspace Unit :=
  update fun w => { w with handles := w.handles.insert step.repo h }

/-- The repository that a handle is on. -/
def repositoryOf (h : Handle) : Act Workspace Repository := do return (← state).disk.repository h.site

def setRepository (h : Handle) (r : Repository) : Act Workspace Unit :=
  update fun w => { w with disk := w.disk.setRepository h.site r }

/-- The label of a commit; one that was not shown before gets the next. -/
def labelOf (id : CommitId) : Act Workspace Nat := fun w =>
  let shown := (w.labels.get? step.path).getD []
  let w' := if shown.contains id then w else { w with labels := w.labels.insert step.path (shown ++ [id]) }
  (.value (shown.idxOf id), w')

def labelsOf : List CommitId → Act Workspace (List Nat)
  | [] => return []
  | id :: ids => do
    let n ← step.labelOf id
    return n :: (← labelsOf ids)

/-- The text of a label. -/
def labelText (n : Nat) : String := "c" ++ toString n

/-- The commit of a label. -/
def labelled (label : String) : Act Workspace CommitId := do
  let shown := ((← state).labels.get? step.path).getD []
  match shown.zipIdx.find? fun e => labelText e.2 == label with
  | some (id, _) => return id
  | none => misuse "no such commit"

/-- The commit that a step reads: the labelled one, or the tip of `main`. -/
def commitAt (label : Option String) : Act Workspace CommitId := do
  match label with
  | some label => step.labelled label
  | none =>
    let h ← step.handle
    lift .storage (← repositoryOf h).tip

/-- The directory of the repository that is at the step's path. -/
def siteThere : Act Workspace Git.Path := do
  match (← state).disk.find? (Git.siteOf step.path) with
  | some site => return site
  | none => fail (.storage .git)

def repositoryThere : Act Workspace Repository := do return (← state).disk.repository (← step.siteThere)

/-- An edit of the repository at the step's path. -/
def edit (f : Repository → Except StorageError Repository) : Act Workspace RepoReply := do
  let site ← step.siteThere
  let r ← lift .storage (f ((← state).disk.repository site))
  update fun w => { w with disk := w.disk.setRepository site r }
  return .nothing

/-! ## Taking a step -/

/-- Keeps a handle that was opened. -/
def keepHandle (opened : Except StorageError Handle) : Act Workspace RepoReply := do
  let h ← lift .storage opened
  step.setHandle h
  return .text (h.path ++ " " ++ h.describe)

def readClock : Act Workspace String := fun w =>
  (.value (Clock.stamp w.readings), { w with readings := w.readings + 1 })

/-- Makes a change on `main` or in a transaction. -/
def change (transaction : Option String) (table : TableName) (c : Change) : Act Workspace RepoReply := do
  let h ← step.handle
  let r ← repositoryOf h
  let now ← readClock
  let outcome := match transaction with
    | some id => r.commitToTransaction h.author now id table c
    | none => r.commitToMain h.author now table c
  match outcome with
  | .value (id, r) =>
    setRepository h r
    return .label (← step.labelOf id)
  | .failed e => fail (.storage e)
  | .unwound text => unwind text

def merge (id : String) (base : Option String) : Act Workspace RepoReply := do
  let base ← match base, (← state).bases.get? id with
    | some label, _ => step.labelled label
    | none, some base => pure base
    | none, none => misuse "no base"
  let h ← step.handle
  let (outcome, r) ← lift .storage ((← repositoryOf h).merge h.author id base)
  setRepository h r
  match outcome with
  | .unchanged => return .merge .unchanged
  | .fastForward id => return .merge (.fastForward (← step.labelOf id))
  | .merged id => return .merge (.merged (← step.labelOf id))
  | .conflict paths => return .merge (.conflict paths)

def scan (label : Option String) (table : String) : Act Workspace (List Row) := do
  let id ← step.commitAt label
  let table ← tableOf table
  let r ← repositoryOf (← step.handle)
  lift .storage (r.scanTable table id)

def commitThere (label : Option String) : Act Workspace RepoReply := do
  let id ← step.commitAt label
  let r ← step.repositoryThere
  match r.commit? id with
  | none => fail (.storage .git)
  | some c =>
    let n ← step.labelOf id
    return .commit n (← step.labelsOf c.parents) c

def blobThere (label : Option String) (file : String) : Act Workspace RepoReply := do
  let id ← step.commitAt label
  let r ← step.repositoryThere
  let tree ← lift .storage (r.treeAt id)
  match Git.Tree.fileAt? tree (Git.Path.ofText file) with
  | some text => return .text text
  | none => fail (.storage .git)

def begin (id : String) : Act Workspace RepoReply := do
  let h ← step.handle
  let (base, h, r) ← lift .storage (h.begin (← repositoryOf h) id)
  setRepository h r
  step.setHandle h
  update fun w => { w with bases := w.bases.insert id base }
  return .label (← step.labelOf base)

def abandon (id : String) : Act Workspace RepoReply := do
  let h ← step.handle
  let (r, h) := h.abandon (← repositoryOf h) id
  step.setHandle h
  setRepository h (← lift .storage r)
  return .nothing

def cleanup : Act Workspace RepoReply := do
  let h ← step.handle
  let (n, r) := h.cleanup (← repositoryOf h)
  setRepository h r
  return .count n

def log (limit : Nat) (sorted : Bool) : Act Workspace RepoReply := do
  let r ← repositoryOf (← step.handle)
  let lines ← lift .storage (r.log limit)
  return .texts (if sorted then lines.mergeSort fun a b => (compare a b).isLE else lines)

def perform : Act Workspace RepoReply := do
  match step.call with
  | .init author =>
    let (opened, disk) := Handle.initAt (← state).disk step.path author
    update fun w => { w with disk }
    step.keepHandle opened
  | .openRepository author => step.keepHandle (Handle.openAt (← state).disk step.path author)
  | .openOrInit author =>
    let (opened, disk) := Handle.openOrInitAt (← state).disk step.path author
    update fun w => { w with disk }
    step.keepHandle opened
  | .makeFolder =>
    update fun w => { w with disk := w.disk.makeFolder (Git.siteOf step.path) }
    return .nothing
  | .close =>
    let was := (← state).handles.contains step.repo
    update fun w => { w with handles := w.handles.erase step.repo }
    return .flag was
  | .head => return .label (← step.labelOf (← step.commitAt none))
  | .begin id => step.begin id
  | .transactionHead id =>
    let r ← repositoryOf (← step.handle)
    return .label (← step.labelOf (← lift .storage (r.transactionTip id)))
  | .write kind transaction table row =>
    let table ← tableOf table
    let now ← readClock
    let row ← lift .storage (row.build now)
    step.change transaction table (kind.change row)
  | .delete transaction table key =>
    let table ← tableOf table
    step.change transaction table (.delete (← keyOf key))
  | .merge id base => step.merge id base
  | .abandon id => step.abandon id
  | .transactionIds => return .texts (← repositoryOf (← step.handle)).transactionIds
  | .cleanup => step.cleanup
  | .log limit sorted => step.log limit sorted
  | .get label table key =>
    let id ← step.commitAt label
    let table ← tableOf table
    let key ← keyOf key
    let r ← repositoryOf (← step.handle)
    return .row (← lift .storage (r.readRow ⟨table, key⟩ id))
  | .scan label table => return .rows (← step.scan label table)
  | .keys label table => return .keys (← step.scan label table)
  | .blob label file => step.blobThere label file
  | .commit label => step.commitThere label
  | .headRef => return .branch (← step.repositoryThere).headBranch?
  | .putFile branch file text message =>
    step.edit fun r => r.putFile branch (Git.Path.ofText file) text message
  | .point ref pointee => step.edit fun r => r.point ref pointee
  | .unknown => misuse "unknown step"

end RepoStep

/-- Takes every step, and returns what each had to report. -/
def takeSteps : List RepoStep → Workspace → List (Outcome Failure RepoReply)
  | [], _ => []
  | step :: steps, w =>
    let (result, w) := step.perform w
    result :: takeSteps steps w

end Demarcate.Script
