/-!
# Path — where a file lives

A path is the list of its components, the outermost first.  Paths are ordered component by component
(`compare` on lists); as text, with a slash between the components, they are ordered by their characters.
-/
namespace Demarcate.Git

abbrev Path := List String

namespace Path

/-- What stands before the first slash, and what stands between and after the others. -/
def components : List Char → List Char × List (List Char)
  | [] => ([], [])
  | c :: cs =>
    let (first, others) := components cs
    if c = '/' then ([], first :: others) else (c :: first, others)

/-- The components of a text, the empty ones included. -/
def ofText (s : String) : Path :=
  let (first, others) := components s.toList
  (first :: others).map String.ofList

def text (p : Path) : String := "/".intercalate p

/-- Whether `p` is a proper beginning of `q`, so that `q` can only be there where `p` is a folder. -/
def isAbove : (p q : Path) → Bool
  | [], _ :: _ => true
  | a :: p, b :: q => a == b && isAbove p q
  | _, [] => false

theorem isAbove_iff {p q : Path} : isAbove p q = true ↔ ∃ r, r ≠ [] ∧ q = p ++ r := by
  induction p generalizing q with
  | nil => cases q <;> simp [isAbove]
  | cons a p ih =>
    cases q with
    | nil => simp [isAbove]
    | cons b q =>
      simp only [isAbove, Bool.and_eq_true, beq_iff_eq, ih, List.cons_append, List.cons.injEq]
      constructor
      · rintro ⟨rfl, r, hr, rfl⟩; exact ⟨r, hr, rfl, rfl⟩
      · rintro ⟨r, hr, rfl, rfl⟩; exact ⟨rfl, r, hr, rfl⟩

end Path
end Demarcate.Git
