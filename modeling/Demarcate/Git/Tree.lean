import Demarcate.SortedMap
import Demarcate.Git.Path
/-!
# Tree — the files of one commit

A tree is a list of named entries, each a file with its text or a folder with a tree of its own.  `find?_insert` and
`find?_erase` say what the two changes of a tree do to its look-up, and a path is followed look-up by look-up
(`fileAt?`).  A folder may be empty: taking away its last entry leaves it where it is.

The order of the entries is that of their names.  Where a listing shows another order, by name with a folder's taken as
if a slash ended it, it is sorted for the listing (`inOrder`, `listing`).
-/
namespace Demarcate.Git

inductive Node where
  | file (text : String)
  | folder (entries : List (String × Node))

abbrev Tree := List (String × Node)

namespace Tree

def find? (t : Tree) (name : String) : Option Node := SortedMap.findEntry name t

def insert (t : Tree) (name : String) (n : Node) : Tree := SortedMap.insertEntry name n t

def erase (t : Tree) (name : String) : Tree := t.filter fun e => compare name e.1 != .eq

theorem find?_insert (t : Tree) (name other : String) (n : Node) :
    find? (insert t name n) other = if other = name then some n else find? t other := by
  simp only [find?, insert, SortedMap.findEntry_insertEntry, Std.LawfulEqCmp.compare_eq_iff_eq]

theorem find?_erase (t : Tree) (name other : String) :
    find? (erase t name) other = if other = name then none else find? t other := by
  simp only [find?, erase, SortedMap.findEntry_filter, Std.LawfulEqCmp.compare_eq_iff_eq]

/-- The tree of a folder; `none` for a file and for a name without an entry. -/
def folder? (t : Tree) (name : String) : Option Tree :=
  match find? t name with
  | some (.folder entries) => some entries
  | _ => none

theorem folder?_insert_folder (t : Tree) (name other : String) (entries : Tree) :
    folder? (insert t name (.folder entries)) other = if other = name then some entries else folder? t other := by
  simp only [folder?, find?_insert]
  by_cases h : other = name <;> simp [h]

theorem folder?_erase (t : Tree) (name other : String) :
    folder? (erase t name) other = if other = name then none else folder? t other := by
  simp only [folder?, find?_erase]
  by_cases h : other = name <;> simp [h]

/-! ## Paths -/

def nodeAt? : Tree → Path → Option Node
  | _, [] => none
  | t, [name] => find? t name
  | t, name :: rest => (folder? t name).bind fun sub => nodeAt? sub rest

def fileAt? (t : Tree) (p : Path) : Option String :=
  match nodeAt? t p with
  | some (.file text) => some text
  | _ => none

/-- Puts a file at a path.  Folders are made on the way, also in the place of a file. -/
def putAt (text : String) : Tree → Path → Tree
  | t, [] => t
  | t, [name] => insert t name (.file text)
  | t, name :: rest => insert t name (.folder (putAt text ((folder? t name).getD []) rest))

/-- Takes away what is at a path.  The folders on the way stay. -/
def removeAt : Tree → Path → Tree
  | t, [] => t
  | t, [name] => erase t name
  | t, name :: rest => insert t name (.folder (removeAt ((folder? t name).getD []) rest))

mutual
def files : List (String × Node) → List (Path × String)
  | [] => []
  | (name, n) :: rest => filesBelow name n ++ files rest

def filesBelow (name : String) : Node → List (Path × String)
  | .file text => [([name], text)]
  | .folder entries => (files entries).map fun f => (name :: f.1, f.2)
end

/-! ## Listings -/

/-- The text that an entry is sorted by. -/
def sortText : String × Node → String
  | (name, .file _) => name
  | (name, .folder _) => name ++ "/"

/-- The entries in the order of a listing. -/
def inOrder (t : Tree) : Tree := t.mergeSort fun a b => (compare (sortText a) (sortText b)).isLE

mutual
/-- Every file by its path and every folder by its path and a slash, each with its mode. -/
def described : List (String × Node) → List (String × String)
  | [] => []
  | (name, n) :: rest => describedBelow name n ++ described rest

def describedBelow (name : String) : Node → List (String × String)
  | .file _ => [(name, "100644")]
  | .folder entries =>
    (name ++ "/", "40000") :: (described entries).map fun d => (name ++ "/" ++ d.1, d.2)
end

/-- A line for every file and folder, a folder before what is in it. -/
def listing (t : Tree) : List String :=
  ((described t).mergeSort fun a b => (compare a.1 b.1).isLE).map fun d => d.1 ++ " " ++ d.2

end Tree
end Demarcate.Git
