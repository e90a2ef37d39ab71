import Demarcate.Git.Path
/-!
# RefName — names of branches

A reference is found under a path such as `refs/heads/main`, which is also the path of a file that holds it.  The name
is well formed if each of its components is (`componentOk`); the empty ones between two slashes do not count, so that
several texts are one name (`normal?`).  A name outside every folder, such as `HEAD`, is written in capitals, and no
folder at the top is.  Since a file cannot be where a folder is, no name may be above another one (`clash`).
-/
namespace Demarcate.Git
namespace RefName

/-- The committed data. -/
def main : String := "refs/heads/main"

/-- What the names of all transaction branches begin with. -/
def transactions : String := "refs/heads/tx/"

def ofTransaction (id : String) : String := transactions ++ id

/-- The reference to what a working copy would be on. -/
def head : String := "HEAD"

/-- The short name of `head`. -/
def headSign : String := "@"

def charOk (c : Char) : Bool :=
  32 < c.toNat && c.toNat ≠ 127 && !(['~', '^', ':', '\\', '?', '[', '*'].contains c)

/-- Whether `a` and `b` stand side by side. -/
def hasPair (a b : Char) : List Char → Bool
  | x :: y :: rest => (x == a && y == b) || hasPair a b (y :: rest)
  | _ => false

/-- Whether a component has only good characters, no two dots or `@` and brace side by side, and not the ending of a
lock. -/
def componentOk (cs : List Char) : Bool :=
  cs.all charOk && !hasPair '.' '.' cs && !hasPair '@' '\x7b' cs && !".lock".toList.isSuffixOf cs

/-- Whether the file system takes a component; a lock's name is five bytes longer. -/
def lengthOk (isLast : Bool) (cs : List Char) : Bool :=
  (String.ofList cs).utf8ByteSize ≤ if isLast then 250 else 255

def lengthsOk : List (List Char) → Bool
  | [] => true
  | [cs] => lengthOk true cs
  | cs :: rest => lengthOk false cs && lengthsOk rest

def greatestLength : Nat := 1023

/-- A name's first component without the caret that it may begin with, which sets apart what is to be left out. -/
def withoutCaret : List Char → List Char
  | '^' :: cs => cs
  | cs => cs

/-- Whether a component is written in capitals, with underscores only between them, as names outside every folder
are. -/
def isCapitals (cs : List Char) : Bool :=
  !cs.isEmpty && (withoutCaret cs).all (fun c => c.isUpper || c == '_') &&
    cs.head? != some '_' && cs.getLast? != some '_'

/-- The components of a name, if it is well formed. -/
def components? (name : String) : Option (List (List Char)) :=
  let (first, others) := Path.components name.toList
  let kept := (first :: others).filter fun cs => !cs.isEmpty
  let last := others.getLastD first
  if first.isEmpty || last.isEmpty || last.getLast? == some '.' then none
  else if (first :: others).any fun cs => cs.head? == some '.' then none
  else if !(withoutCaret first :: others).all componentOk then none
  else if isCapitals first != others.isEmpty then none
  else if lengthsOk kept then some kept
  else none

/-- The one text of a name; `none` if it is not well formed. -/
def normal? (name : String) : Option String := do
  if name = headSign then return head
  let text := "/".intercalate ((← components? name).map String.ofList)
  if text.utf8ByteSize ≤ greatestLength then some text else none

/-- Files that stand among the references from the beginning, above none of which a name can be. -/
def occupied : List String := ["config", "description", "hooks/README.sample", "info/exclude"]

/-- Whether one of two names would be a folder of the other. -/
def clash (a b : String) : Bool :=
  let p := Path.ofText a
  let q := Path.ofText b
  p.isAbove q || q.isAbove p

/-- The transaction whose branch has the name. -/
def transaction? (name : String) : Option String :=
  let cs := name.toList
  let lead := transactions.toList
  if lead.isPrefixOf cs then some (String.ofList (cs.drop lead.length)) else none

end RefName
end Demarcate.Git
