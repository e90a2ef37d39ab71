import Demarcate.Error
import Demarcate.Outcome
/-!
# Row — rows and what a change makes of them

A row has its key, the columns, and three facts about its history: a version, counted from the one its insert gave it,
and the times of its creation and of its last change.  A change says which row it is about and whether that row must,
must not or may be there; `Change.resolve` is the row that takes its place.
-/
namespace Demarcate

structure Row where
  key : RowKey
  version : Nat
  createdAt : String
  updatedAt : String
  columns : SortedMap String Json

namespace Row

/-- The greatest version that a row can have. -/
def greatestVersion : Nat := 18446744073709551615

/-- A row of version 1, created and changed at `now`. -/
def new (now : String) (key : RowKey) (columns : SortedMap String Json) : Row :=
  ⟨key, 1, now, now, columns⟩

/-- The row of a JSON value, which has to be an object. -/
def ofJson (now : String) (key : RowKey) : Json → Except StorageError Row
  | .object fields => .ok (new now key (SortedMap.ofList fields))
  | _ => .error (.schemaViolation "row data must be a JSON object")

/-- Whether two rows are equal, their numbers compared as numbers. -/
def agrees (a b : Row) : Bool :=
  a.key == b.key && a.version == b.version && a.createdAt == b.createdAt && a.updatedAt == b.updatedAt &&
    Json.agreeFields a.columns.entries b.columns.entries

/-- What unwinds a change of a row that has the greatest version. -/
def overflowText : String := "attempt to add with overflow"

/-- The next version of `previous`, with the columns of `next`, changed at `now`. -/
def succeed (now : String) (previous next : Row) : Outcome StorageError Row :=
  if previous.version < greatestVersion then
    .value { next with version := previous.version + 1, createdAt := previous.createdAt, updatedAt := now }
  else .unwound overflowText

/-- Whether the row was changed since its creation. -/
def touched (r : Row) : Bool := r.createdAt != r.updatedAt

end Row

/-! ## Changes -/

inductive Change where
  /-- The row must not be there. -/
  | insert (row : Row)
  /-- The row must be there. -/
  | update (row : Row)
  | upsert (row : Row)
  /-- The row must be there. -/
  | delete (key : RowKey)

namespace Change

def key : Change → RowKey
  | .insert row | .update row | .upsert row => row.key
  | .delete key => key

def verb : Change → String
  | .insert _ => "insert"
  | .update _ => "update"
  | .upsert _ => "upsert"
  | .delete _ => "delete"

/-- The row that replaces `existing` in `table`, or `none` where the row goes away. -/
def resolve (now : String) (table : TableName) :
    Change → (existing : Option Row) → Outcome StorageError (Option Row)
  | .insert row, some _ => .failed (.rowAlreadyExists ⟨table, row.key⟩)
  | .insert row, none => .value (some row)
  | .update row, some previous => (Row.succeed now previous row).bind fun r => .value (some r)
  | .update row, none => .failed (.rowNotFound ⟨table, row.key⟩)
  | .upsert row, some previous => (Row.succeed now previous row).bind fun r => .value (some r)
  | .upsert row, none => .value (some row)
  | .delete _, some _ => .value none
  | .delete key, none => .failed (.rowNotFound ⟨table, key⟩)

end Change
end Demarcate
