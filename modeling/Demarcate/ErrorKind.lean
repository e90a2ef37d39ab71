/-!
# ErrorKind — kinds of error as dotted paths

An error's kind is a path such as `storage.row_not_found`.  `parent?` cuts the path at its last dot; `isWithin` asks
whether a kind is an ancestor's own or begins with the ancestor and a dot.
-/
namespace Demarcate

structure ErrorKind where
  text : String
  deriving DecidableEq, Inhabited

namespace ErrorKind

/-- What stands before the last dot. -/
def beforeLastDot : List Char → Option (List Char)
  | [] => none
  | c :: cs =>
    match beforeLastDot cs with
    | some before => some (c :: before)
    | none => if c = '.' then some [] else none

/-- The enclosing kind; `none` for a kind without a dot. -/
def parent? (k : ErrorKind) : Option ErrorKind :=
  (beforeLastDot k.text.toList).map fun cs => ⟨String.ofList cs⟩

/-- What is left of `cs` after `lead`, if it begins so. -/
def afterLead : (lead cs : List Char) → Option (List Char)
  | [], cs => some cs
  | _ :: _, [] => none
  | l :: ls, c :: cs => if l = c then afterLead ls cs else none

/-- Whether the kind is `ancestor` or nested below it. -/
def isWithin (k ancestor : ErrorKind) : Bool :=
  match afterLead ancestor.text.toList k.text.toList with
  | some [] => true
  | some (c :: _) => c == '.'
  | none => false

/-- The kinds above `k`, the nearest first, `fuel` of them at most. -/
def parentsWithin : (fuel : Nat) → ErrorKind → List ErrorKind
  | 0, _ => []
  | fuel + 1, k =>
    match k.parent? with
    | some p => p :: parentsWithin fuel p
    | none => []

/-- The kinds above `k`, the nearest first: a kind has fewer of them than characters. -/
def parents (k : ErrorKind) : List ErrorKind := parentsWithin k.text.length k

end ErrorKind
end Demarcate
