import Demarcate.Git.Repository
import Demarcate.Text.Quoted
/-!
# Disk — repositories by directory, and handles on them

A repository lives in a directory and stays there.  It is used through handles, of which there may be several; a handle
has the signature of its commits and remembers the transactions that were begun through it and not yet given up, which
are the ones that `Handle.cleanup` spares.

A directory can hold a repository that was never started, when the signature of its first commit was refused.
-/
namespace Demarcate.Git

/-- A directory that a path leads to: blank components and dots do not count, two dots lead out again. -/
def siteOf (path : String) : Path :=
  ((Path.ofText path).foldl (fun (out : Path) part =>
    if part = "" || part = "." then out
    else if part = ".." then out.drop 1
    else part :: out) []).reverse

/-- Whether the file system takes the names of a directory and of those above it. -/
def siteOk (site : Path) : Bool := site.all fun part => part.utf8ByteSize ≤ 255 && !part.contains '\x00'

/-- Where a repository keeps its files, inside its directory. -/
def dotGit : String := ".git"

structure Disk where
  repositories : SortedMap Path Repository := ∅
  folders : SortedMap Path Unit := ∅

namespace Disk

/-- The repository in a directory, or a new one with a number that no other has. -/
def repository (d : Disk) (site : Path) : Repository :=
  (d.repositories.get? site).getD { number := d.repositories.size }

def setRepository (d : Disk) (site : Path) (r : Repository) : Disk :=
  { d with repositories := d.repositories.insert site r }

/-- The directory whose files a path inside a repository leads to. -/
def outOfDotGit (site : Path) : Path := if site.getLast? = some dotGit then site.dropLast else site

/-- The repository that opening a directory finds. -/
def find? (d : Disk) (site : Path) : Option Path :=
  if d.repositories.contains site then some site
  else if d.repositories.contains (outOfDotGit site) then some (outOfDotGit site)
  else none

def isFolder (d : Disk) (site : Path) : Bool :=
  let made := d.folders.keys ++ d.repositories.keys.map (· ++ [dotGit])
  made.any fun p => p == site || site.isAbove p

def makeFolder (d : Disk) (site : Path) : Disk := { d with folders := d.folders.insert site () }

end Disk

structure Handle where
  /-- The path as it was given, for messages. -/
  path : String
  site : Path
  author : Signature
  /-- The transactions begun through the handle and not given up. -/
  live : SortedMap String Unit := ∅

namespace Handle

/-! ## Opening -/

def openAt (d : Disk) (path : String) (author : Signature) : Except StorageError Handle :=
  match d.find? (siteOf path) with
  | some site => .ok { path, site, author }
  | none => .error (.notInitialized path)

/-- Makes a repository in a directory and starts it.  It stays there, not started, where that fails. -/
def initAt (d : Disk) (path : String) (author : Signature) : Except StorageError Handle × Disk :=
  let site := Disk.outOfDotGit (siteOf path)
  if !siteOk site then (.error .git, d)
  else
    let r := d.repository site
    match r.start author with
    | .ok r => (.ok { path, site, author }, d.setRepository site r)
    | .error e => (.error e, d.setRepository site r)

def openOrInitAt (d : Disk) (path : String) (author : Signature) : Except StorageError Handle × Disk :=
  if d.isFolder (siteOf path ++ [dotGit]) then (openAt d path author, d) else initAt d path author

/-- How a handle shows itself. -/
def describe (h : Handle) : String := "GitRepository \x7b path: " ++ Text.quoted h.path ++ " \x7d"

/-! ## Transactions

Each takes the repository that the handle is on, and returns what has become of it and of the handle. -/

/-- Begins a transaction.  Returns its base. -/
def begin (h : Handle) (r : Repository) (id : String) : Except StorageError (CommitId × Handle × Repository) := do
  let (base, r) ← r.branch id
  return (base, { h with live := h.live.insert id () }, r)

/-- Gives a transaction up: the handle forgets it, whether or not it has a branch to delete. -/
def abandon (h : Handle) (r : Repository) (id : String) : Except StorageError Repository × Handle :=
  (r.deleteRef (RefName.ofTransaction id), { h with live := h.live.erase id })

def deleteBranches : List String → Repository → Nat × Repository
  | [], r => (0, r)
  | id :: ids, r =>
    match r.deleteRef (RefName.ofTransaction id) with
    | .ok r =>
      let (n, r) := deleteBranches ids r
      (n + 1, r)
    | .error _ => deleteBranches ids r

/-- Deletes the branches of the transactions that the handle did not begin or has given up. -/
def cleanup (h : Handle) (r : Repository) : Nat × Repository :=
  deleteBranches (r.transactionIds.filter fun id => !h.live.contains id) r

end Handle
end Demarcate.Git
