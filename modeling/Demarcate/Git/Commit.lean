import Demarcate.Git.Signature
import Demarcate.Git.Tree
/-!
# Commit — one step of a history

A commit has a tree, a message, an author and the commits before it.  A log shows of its message the first paragraph on
one line (`summary`).  The author stands on one line of a commit, so one whose name or address has a line's end in it
makes a commit that is kept and can never be read again (`isReadable`).
-/
namespace Demarcate.Git

/-- A commit's store, and its place among the commits of the store in the order in which they were made. -/
structure CommitId where
  store : Nat
  index : Nat
  deriving DecidableEq, Inhabited

structure Commit where
  parents : List CommitId
  tree : Tree
  message : String
  author : Signature

namespace Commit

/-- Whether the author's parts are each on one line. -/
def isReadable (c : Commit) : Bool := !(c.author.name.contains '\n' || c.author.email.contains '\n')

def isBlank (c : Char) : Bool := c = ' ' || c = '\t' || c = '\r' || c = '\x0b' || c = '\x0c'

/-- Whether a text goes on with an empty line or ends. -/
def endsParagraph (cs : List Char) : Bool :=
  match cs.dropWhile isBlank with
  | [] => true
  | c :: _ => c = '\n'

/-- How a run of separators stands in a summary: as it is within a line, and as a blank where a line ends in it. -/
def joinWords (run : List Char) : List Char := if run.contains '\n' then [' '] else run

/-- The first paragraph of a message, each line's end replaced by a blank.  `run` holds, in reverse order, the
separators since the last word; those at the end are dropped. -/
def summaryFrom (run : List Char) : List Char → List Char
  | [] => []
  | c :: cs =>
    if c = '\n' && endsParagraph cs then []
    else if c = '\n' || isBlank c then summaryFrom (c :: run) cs
    else joinWords run.reverse ++ c :: summaryFrom [] cs

/-- A message as it is read: without the empty lines before it. -/
def body (message : String) : List Char := message.toList.dropWhile fun c => c = '\n'

def summary (c : Commit) : String := String.ofList (summaryFrom [] (body c.message))

end Commit
end Demarcate.Git
