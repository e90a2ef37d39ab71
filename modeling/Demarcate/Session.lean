import Demarcate.Clock
import Demarcate.Git.Disk
import Demarcate.Memory
/-!
# Session — one way to work on either kind of store

A session reads and changes the rows of a store, in memory or under version control.  Outside a transaction a change
takes effect at once.  `Session.begin` gives a session a twin that is inside one; the twin's changes take effect
together, by `commit`, or not at all, by `rollback`, and `abort` is what is left to do when the work in between unwound.
A transaction in memory that unwound keeps its writes, which only its own sessions see.

All sessions share one state, `Stores`: the stores themselves, and which identifier and which reading of the clock come
next.
-/
namespace Demarcate

open Git (CommitId)

structure Stores where
  memories : Array Memory.Store := #[]
  disk : Git.Disk := {}
  /-- The opened repositories. -/
  handles : Array Git.Handle := #[]
  /-- The count of the next identifier. -/
  issued : Nat := 0
  /-- The count of the clock's next reading. -/
  readings : Nat := 0

namespace Stores

def issue (st : Stores) : Ulid × Stores := (Ulid.issued st.issued, { st with issued := st.issued + 1 })

def readClock (st : Stores) : String × Stores := (Clock.stamp st.readings, { st with readings := st.readings + 1 })

def memory (st : Stores) (i : Nat) : Memory.Store := st.memories.getD i {}

def setMemory (st : Stores) (i : Nat) (m : Memory.Store) : Stores :=
  { st with memories := st.memories.setIfInBounds i m }

def addMemory (st : Stores) : Nat × Stores := (st.memories.size, { st with memories := st.memories.push {} })

/-- An opened repository's handle. -/
def handle (st : Stores) (i : Nat) : Git.Handle := st.handles.getD i ⟨"", [], default, ∅⟩

def setHandle (st : Stores) (i : Nat) (h : Git.Handle) : Stores :=
  { st with handles := st.handles.setIfInBounds i h }

def addHandle (st : Stores) (h : Git.Handle) : Nat × Stores :=
  (st.handles.size, { st with handles := st.handles.push h })

/-- The repository that a handle is on. -/
def repository (st : Stores) (i : Nat) : Git.Repository := st.disk.repository (st.handle i).site

def setRepository (st : Stores) (i : Nat) (r : Git.Repository) : Stores :=
  { st with disk := st.disk.setRepository (st.handle i).site r }

/-! ## Transactions of an opened repository -/

/-- Begins a transaction on a repository under a given name.  Returns its base. -/
def beginBranch (st : Stores) (i : Nat) (id : String) : Except StorageError CommitId × Stores :=
  match (st.handle i).begin (st.repository i) id with
  | .ok (base, h, r) => (.ok base, (st.setRepository i r).setHandle i h)
  | .error e => (.error e, st)

def abandonBranch (st : Stores) (i : Nat) (id : String) : Except StorageError Unit × Stores :=
  match (st.handle i).abandon (st.repository i) id with
  | (.ok r, h) => (.ok (), (st.setRepository i r).setHandle i h)
  | (.error e, h) => (.error e, st.setHandle i h)

def mergeBranch (st : Stores) (i : Nat) (id : String) (base : CommitId) :
    Except StorageError Git.MergeOutcome × Stores :=
  match (st.repository i).merge (st.handle i).author id base with
  | .ok (outcome, r) => (.ok outcome, st.setRepository i r)
  | .error e => (.error e, st)

/-- Deletes the branches that the handle knows of no running transaction for, and counts them. -/
def cleanup (st : Stores) (i : Nat) : Nat × Stores :=
  let (n, r) := (st.handle i).cleanup (st.repository i)
  (n, st.setRepository i r)

end Stores

/-! ## Sessions -/

/-- The transaction on a repository that a session is in. -/
structure Git.Transaction where
  id : Ulid
  base : CommitId
  deriving DecidableEq

inductive Session where
  | memory (id : Ulid) (store : Nat) (transaction : Option Ulid)
  | git (id : Ulid) (handle : Nat) (transaction : Option Git.Transaction)
  deriving DecidableEq

namespace Session

def id : Session → Ulid
  | .memory id _ _ => id
  | .git id _ _ => id

def isInTransaction : Session → Bool
  | .memory _ _ tx => tx.isSome
  | .git _ _ tx => tx.isSome

/-- The name of the transaction that the session is in. -/
def transaction? : Session → Option String
  | .memory _ _ tx => tx.map Ulid.text
  | .git _ _ tx => tx.map fun tx => tx.id.lowerText

/-- How many slots the session has written and not committed, for a session in memory. -/
def pendingWrites? (st : Stores) : Session → Option Nat
  | .memory _ store tx => some ((st.memory store).pendingWrites tx)
  | .git _ _ _ => none

/-! ### Rows -/

/-- The commit that a session reads from. -/
def snapshot (r : Git.Repository) (tx : Option Git.Transaction) : Except StorageError CommitId :=
  match tx with
  | some tx => r.transactionTip tx.id.lowerText
  | none => r.tip

def get (st : Stores) (s : Session) (slot : Slot) : Except StorageError (Option Row) :=
  match s with
  | .memory _ store tx => .ok ((st.memory store).get tx slot)
  | .git _ handle tx => do
    let r := st.repository handle
    r.readRow slot (← snapshot r tx)

def scan (st : Stores) (s : Session) (table : TableName) : Except StorageError (List Row) :=
  match s with
  | .memory _ store tx => .ok ((st.memory store).scan tx table)
  | .git _ handle tx => do
    let r := st.repository handle
    r.scanTable table (← snapshot r tx)

/-- Makes a change on a repository, in a transaction or on `main`. -/
def applyGit (st : Stores) (handle : Nat) (now : String) (tx : Option Git.Transaction) (table : TableName)
    (c : Change) : Outcome StorageError (CommitId × Git.Repository) :=
  let r := st.repository handle
  let author := (st.handle handle).author
  match tx with
  | some tx => r.commitToTransaction author now tx.id.lowerText table c
  | none => r.commitToMain author now table c

/-- Makes a change at the next reading of the clock.  A change that fails or unwinds leaves every store as it was. -/
def apply (st : Stores) (s : Session) (table : TableName) (c : Change) : Outcome StorageError Unit × Stores :=
  let (now, st) := st.readClock
  match s with
  | .memory _ store tx =>
    match (st.memory store).apply now tx table c with
    | .value m => (.value (), st.setMemory store m)
    | .failed e => (.failed e, st)
    | .unwound text => (.unwound text, st)
  | .git _ handle tx =>
    match applyGit st handle now tx table c with
    | .value (_, r) => (.value (), st.setRepository handle r)
    | .failed e => (.failed e, st)
    | .unwound text => (.unwound text, st)

/-! ### Transactions -/

/-- Begins a transaction.  Returns the session's twin inside it. -/
def begin (st : Stores) : Session → Except ResourceError Session × Stores
  | .memory _ _ (some _) | .git _ _ (some _) => (.error .nestedTransaction, st)
  | .memory id store none =>
    let (tx, st) := st.issue
    (.ok (.memory id store (some tx)), st.setMemory store ((st.memory store).begin tx))
  | .git id handle none =>
    let (tx, st) := st.issue
    match st.beginBranch handle tx.lowerText with
    | (.ok base, st) => (.ok (.git id handle (some ⟨tx, base⟩)), st)
    | (.error e, st) => (.error (.storage e), st)

/-- Gives up a transaction's branch, whether or not it is still there. -/
def dropBranch (st : Stores) (handle : Nat) (tx : Git.Transaction) : Stores :=
  (st.abandonBranch handle tx.id.lowerText).2

def commit (st : Stores) : Session → Except ResourceError Unit × Stores
  | .memory _ store (some tx) =>
    match (st.memory store).commit tx with
    | (.ok (), m) => (.ok (), st.setMemory store m)
    | (.error slots, m) => (.error (.conflict tx.text (slots.map Slot.path)), st.setMemory store m)
  | .git _ handle (some tx) =>
    match st.mergeBranch handle tx.id.lowerText tx.base with
    | (.error e, st) => (.error (.storage e), dropBranch st handle tx)
    | (.ok (.conflict paths), st) =>
      (.error (.conflict tx.id.lowerText (paths.map Git.Path.text)), dropBranch st handle tx)
    | (.ok _, st) => (.ok (), dropBranch st handle tx)
  | _ => (.ok (), st)

/-- Ends a transaction without its changes. -/
def rollback (st : Stores) : Session → Stores
  | .memory _ store (some tx) => st.setMemory store ((st.memory store).discard tx)
  | .git _ handle (some tx) => dropBranch st handle tx
  | _ => st

/-- Ends a transaction whose work unwound. -/
def abort (st : Stores) : Session → Stores
  | .git _ handle (some tx) => dropBranch st handle tx
  | _ => st

end Session
end Demarcate
