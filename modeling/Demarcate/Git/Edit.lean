import Demarcate.Git.Disk
/-!
# Edit — changes that others make to a repository

A repository can be changed by anyone who can reach its directory.  `putFile` commits a file of any name that a tree can
have to any branch there is, and `point` sets and deletes any reference.
-/
namespace Demarcate.Git

/-- What a reference can be pointed at. -/
inductive Pointee where
  | main
  | blob
  | nothing
  deriving DecidableEq

namespace Repository

def editor : Signature := ⟨"raw", "raw@x"⟩

/-- The names of the folder that a repository is kept in, the second one where names are short. -/
def ownNames : List (List Char) := [".git", "git~1"].map String.toList

/-- Whether a name, in lower case, leads to the folder that the repository is kept in on some file system: with a part
of it, or with blanks and dots behind. -/
def leadsInside (name : List Char) : Bool :=
  ownNames.any fun own =>
    let rest := name.drop own.length
    own.isPrefixOf name && (rest.head? == some '\\' || rest.head? == some ':' || rest.all fun c => c = ' ' || c = '.')

/-- Whether an entry of a tree can have a name. -/
def nameOk (name : String) : Bool :=
  name != "" && name != "." && name != ".." && !name.contains '\x00' && !leadsInside (name.toList.map Char.toLower)

/-- Commits a file to a branch, or takes away what is at its path if there is no text. -/
def putFile (r : Repository) (branch : String) (path : Path) (text : Option String) (message : String) :
    Except StorageError Repository := do
  let name := "refs/heads/" ++ branch
  let parent ← (r.resolve name).mapError fun _ => .git
  let tree ← r.treeAt parent
  if !path.all nameOk || message.contains '\x00' then .error .git
  else
    let tree ← match text, Tree.nodeAt? tree path with
      | some text, _ => .ok (Tree.putAt text tree path)
      | none, some _ => .ok (Tree.removeAt tree path)
      | none, none => .error .git
    let (id, r) := r.add ⟨[parent], tree, message, editor⟩
    r.setRef name (.commit id) true

/-- Points a reference at the tip of `main` or at something that is no commit, or deletes it. -/
def point (r : Repository) (name : String) : Pointee → Except StorageError Repository
  | .main =>
    match r.tip with
    | .ok id => r.setRef name (.commit id) true
    | .error _ => .error .git
  | .blob => r.setRef name .blob true
  | .nothing => (r.deleteRef name).mapError fun _ => .git

end Repository
end Demarcate.Git
