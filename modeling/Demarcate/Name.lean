import Demarcate.SortedMap
import Demarcate.Ulid
/-!
# Name — names of tables, rows and data sources

A table is a directory and a row a file in a store on disk, so both kinds of name are held to the letters that every
file system takes, and a data source's name to the same.  A rejected text reports the first failing rule in the order
empty, too long, bad start, bad character, reserved.  Lengths are counted in UTF-8 bytes, positions in code points.
-/
namespace Demarcate

inductive NameError where
  | empty
  | tooLong (bytes : Nat)
  | badStart (char : Char)
  | badChar (char : Char) (position : Nat)
  | reserved (name : String)
  deriving DecidableEq

def NameError.message : NameError → String
  | .empty => "name cannot be empty"
  | .tooLong bytes => s!"name too long: {bytes} characters"
  | .badStart char => s!"name cannot start with '{char}'"
  | .badChar char position => s!"invalid character '{char}' at position {position}"
  | .reserved name => s!"'{name}' is a reserved name"

/-! ## The rules -/

namespace NameRule

/-- ASCII letters, digits, the underscore and the hyphen. -/
def allowed (c : Char) : Bool := c.isAlphanum || c == '_' || c == '-'

/-- The first character of `cs` that is not allowed, with its position counted from `start`. -/
def firstBad : List Char → (start : Nat) → Option (Char × Nat)
  | [], _ => none
  | c :: rest, start => if allowed c then firstBad rest (start + 1) else some (c, start)

def checkChars (s : String) : Except NameError Unit :=
  match firstBad s.toList 0 with
  | some (c, i) => .error (.badChar c i)
  | none => .ok ()

def checkLength (limit : Nat) (s : String) : Except NameError Unit :=
  if s.utf8ByteSize = 0 then .error .empty
  else if limit < s.utf8ByteSize then .error (.tooLong s.utf8ByteSize)
  else .ok ()

/-- A table's name starts with a letter or an underscore. -/
def startsWell : List Char → Except NameError Unit
  | [] => .ok ()
  | c :: _ => if c.isAlpha || c == '_' then .ok () else .error (.badStart c)

/-- The names, in lower case, that a table may not have. -/
def reservedTables : List String := ["_meta", "_system", "_git"]

def notReserved (s : String) : Except NameError Unit :=
  if reservedTables.contains (String.ofList (s.toList.map Char.toLower)) then .error (.reserved s) else .ok ()

end NameRule

open NameRule

/-! ## Tables -/

structure TableName where
  text : String
  deriving DecidableEq, Inhabited

namespace TableName

instance : Ord TableName := ⟨fun a b => compare a.text b.text⟩

instance : Std.TransOrd TableName where
  eq_swap {a b} :=
    show compare a.text b.text = (compare b.text a.text).swap from Std.OrientedCmp.eq_swap
  isLE_trans {a b c} hab hbc :=
    show (compare a.text c.text).isLE = true from
      Std.TransCmp.isLE_trans (show (compare a.text b.text).isLE = true from hab) hbc

instance : Std.LawfulEqOrd TableName where
  compare_self := Std.compare_self (α := String)
  eq_of_compare {a b} h := by
    cases a; cases b
    exact congrArg _ (Std.LawfulEqOrd.eq_of_compare (α := String) h)

theorem text_inj {t u : TableName} (h : t.text = u.text) : t = u := by
  cases t; cases u
  exact congrArg _ h

def parse (s : String) : Except NameError TableName := do
  checkLength 64 s
  startsWell s.toList
  checkChars s
  notReserved s
  return ⟨s⟩

end TableName

/-! ## Rows -/

structure RowKey where
  text : String
  deriving DecidableEq, Inhabited

namespace RowKey

instance : Ord RowKey := ⟨fun a b => compare a.text b.text⟩

instance : Std.TransOrd RowKey where
  eq_swap {a b} :=
    show compare a.text b.text = (compare b.text a.text).swap from Std.OrientedCmp.eq_swap
  isLE_trans {a b c} hab hbc :=
    show (compare a.text c.text).isLE = true from
      Std.TransCmp.isLE_trans (show (compare a.text b.text).isLE = true from hab) hbc

instance : Std.LawfulEqOrd RowKey where
  compare_self := Std.compare_self (α := String)
  eq_of_compare {a b} h := by
    cases a; cases b
    exact congrArg _ (Std.LawfulEqOrd.eq_of_compare (α := String) h)

def parse (s : String) : Except NameError RowKey := do
  checkLength 128 s
  checkChars s
  return ⟨s⟩

def generate (u : Ulid) : RowKey := ⟨u.lowerText⟩

/-- What a row's file name has after the key. -/
def fileSuffix : String := ".json"

def fileName (k : RowKey) : String := k.text ++ fileSuffix

theorem fileName_inj {k l : RowKey} (h : k.fileName = l.fileName) : k = l := by
  have : k.text.toList ++ fileSuffix.toList = l.text.toList ++ fileSuffix.toList := by
    simpa only [fileName, String.toList_append] using congrArg String.toList h
  cases k; cases l
  exact congrArg _ (String.toList_inj.1 (List.append_cancel_right this))

/-- A file name less the suffix of row files; `none` for other files. -/
def stem? (file : String) : Option String :=
  let cs := file.toList
  let n := cs.length - fileSuffix.length
  if fileSuffix.length ≤ cs.length && cs.drop n == fileSuffix.toList then some (String.ofList (cs.take n)) else none

end RowKey

structure Slot where
  table : TableName
  key : RowKey
  deriving DecidableEq, Inhabited

namespace Slot

instance : Ord Slot := ⟨fun a b => (compare a.table b.table).then (compare a.key b.key)⟩

theorem compare_eq (a b : Slot) :
    compare a b = compareLex (compareOn Slot.table) (compareOn Slot.key) a b := rfl

instance : Std.TransOrd Slot where
  eq_swap {a b} := by
    rw [compare_eq, compare_eq]
    exact Std.OrientedCmp.eq_swap
  isLE_trans {a b c} := by
    rw [compare_eq, compare_eq, compare_eq]
    exact Std.TransCmp.isLE_trans

instance : Std.LawfulEqOrd Slot where
  compare_self {a} := Ordering.then_eq_eq.2 ⟨Std.compare_self, Std.compare_self⟩
  eq_of_compare {a b} h := by
    obtain ⟨ht, hk⟩ := Ordering.then_eq_eq.1 h
    cases a; cases b
    rw [Slot.mk.injEq]
    exact ⟨Std.LawfulEqOrd.eq_of_compare ht, Std.LawfulEqOrd.eq_of_compare hk⟩

/-- The path of the row's file, for names that have been validated.  A name that was only read may have a slash in it,
or be empty or `..`.  Joining paths has rules of its own for these, and they are left out here. -/
def path (s : Slot) : String := s.table.text ++ "/" ++ s.key.fileName

end Slot

/-! ## Data sources -/

structure BackendName where
  text : String
  deriving DecidableEq, Inhabited

namespace BackendName

instance : Ord BackendName := ⟨fun a b => compare a.text b.text⟩

instance : Std.TransOrd BackendName where
  eq_swap {a b} :=
    show compare a.text b.text = (compare b.text a.text).swap from Std.OrientedCmp.eq_swap
  isLE_trans {a b c} hab hbc :=
    show (compare a.text c.text).isLE = true from
      Std.TransCmp.isLE_trans (show (compare a.text b.text).isLE = true from hab) hbc

instance : Std.LawfulEqOrd BackendName where
  compare_self := Std.compare_self (α := String)
  eq_of_compare {a b} h := by
    cases a; cases b
    exact congrArg _ (Std.LawfulEqOrd.eq_of_compare (α := String) h)

def parse (s : String) : Except NameError BackendName := do
  checkLength 64 s
  checkChars s
  return ⟨s⟩

/-- The data source a definition uses that names none. -/
def default : BackendName := ⟨"default"⟩

def isDefault (b : BackendName) : Bool := b == default

end BackendName

end Demarcate
