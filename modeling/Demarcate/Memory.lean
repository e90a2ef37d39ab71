import Demarcate.Row
import Demarcate.Ulid
/-!
# Memory — tables held in memory

A store is its committed tables and, for every transaction begun on it, a write set.  Outside a transaction a change
is resolved against the committed row and takes effect at once.  Inside one it is resolved against what the
transaction sees and stays in the write set, which remembers for every slot the committed row of the first write to it.
A commit takes effect whole if each of these rows is still the committed one, and otherwise not at all.

A transaction that was committed or discarded keeps an empty write set: a session that is still used writes into it, and
nobody else reads it.
-/
namespace Demarcate
namespace Memory

/-- Committed rows by table and key.  No table is empty. -/
abbrev Tables := SortedMap TableName (SortedMap RowKey Row)

namespace Tables

def row? (tables : Tables) (s : Slot) : Option Row := do (← tables.get? s.table).get? s.key

def rowsOf (tables : Tables) (t : TableName) : SortedMap RowKey Row := (tables.get? t).getD ∅

/-- Puts a row into its table, or takes it out, and a table with its last row. -/
def put (tables : Tables) (s : Slot) : Option Row → Tables
  | some row => tables.insert s.table ((tables.rowsOf s.table).insert s.key row)
  | none =>
    match tables.get? s.table with
    | none => tables
    | some rows =>
      let rows := rows.erase s.key
      if rows.isEmpty then tables.erase s.table else tables.insert s.table rows

/-- A row is put into its slot and nowhere else. -/
theorem row?_put (tables : Tables) (s s' : Slot) (row : Option Row) :
    (tables.put s row).row? s' = if s' = s then row else tables.row? s' := by
  have hs : s' = s ↔ s'.table = s.table ∧ s'.key = s.key := by
    cases s; cases s'; simp
  cases row with
  | some row =>
    simp only [put, row?, SortedMap.get?_insert, rowsOf]
    by_cases ht : s'.table = s.table
    · by_cases hk : s'.key = s.key <;> simp [hs, ht, hk, SortedMap.get?_insert]
      cases tables.get? s.table <;> simp
    · simp [hs, ht]
  | none =>
    simp only [put]
    cases hrows : tables.get? s.table with
    | none =>
      by_cases h : s' = s
      · simp [h, row?, hrows]
      · simp [h]
    | some rows =>
      by_cases he : (rows.erase s.key).isEmpty
      · simp only [he, if_true, row?, SortedMap.get?_erase]
        by_cases ht : s'.table = s.table
        · -- the table goes with its last row, so no other key of it had one
          have hnone := SortedMap.isEmpty_iff.1 he s'.key
          rw [SortedMap.get?_erase] at hnone
          by_cases hk : s'.key = s.key
          · simp [hs, ht, hk]
          · simp [hs, ht, hk, hrows] at hnone ⊢
            exact hnone.symm
        · simp [hs, ht]
      · simp only [if_neg he, row?, SortedMap.get?_insert]
        by_cases ht : s'.table = s.table
        · by_cases hk : s'.key = s.key <;> simp [hs, ht, hk, hrows, SortedMap.get?_erase]
        · simp [hs, ht]

end Tables

/-- Whether two rows, or absences of a row, are equal. -/
def sameRow : Option Row → Option Row → Bool
  | some a, some b => a.agrees b
  | none, none => true
  | _, _ => false

structure PendingWrite where
  read : Option Row
  write : Option Row

abbrev WriteSet := SortedMap Slot PendingWrite

structure Store where
  tables : Tables := ∅
  writeSets : SortedMap Ulid WriteSet := ∅

namespace Store

def writeSet (st : Store) (tx : Ulid) : WriteSet := (st.writeSets.get? tx).getD ∅

def setWriteSet (st : Store) (tx : Ulid) (ws : WriteSet) : Store :=
  { st with writeSets := st.writeSets.insert tx ws }

def tableNames (st : Store) : List TableName := st.tables.keys

/-! ## Reading

`tx` is the transaction that the session is in, if it is in one. -/

/-- The row that a session sees. -/
def get (st : Store) (tx : Option Ulid) (s : Slot) : Option Row :=
  match tx.bind fun tx => (st.writeSet tx).get? s with
  | some pending => pending.write
  | none => st.tables.row? s

/-- A table's rows with the writes of a write set laid over them. -/
def overlay (t : TableName) (rows : SortedMap RowKey Row) : List (Slot × PendingWrite) → SortedMap RowKey Row
  | [] => rows
  | (s, pending) :: rest =>
    if s.table = t then
      match pending.write with
      | some row => overlay t (rows.insert s.key row) rest
      | none => overlay t (rows.erase s.key) rest
    else overlay t rows rest

def scan (st : Store) (tx : Option Ulid) (t : TableName) : List Row :=
  let rows := st.tables.rowsOf t
  match tx with
  | none => rows.values
  | some tx => (overlay t rows (st.writeSet tx).entries).values

/-! ## Writing -/

def applyDirectly (now : String) (st : Store) (t : TableName) (c : Change) : Outcome StorageError Store :=
  let s : Slot := ⟨t, c.key⟩
  (c.resolve now t (st.tables.row? s)).bind fun row => .value { st with tables := st.tables.put s row }

def applyBuffered (now : String) (st : Store) (tx : Ulid) (t : TableName) (c : Change) :
    Outcome StorageError Store :=
  let s : Slot := ⟨t, c.key⟩
  let ws := st.writeSet tx
  match ws.get? s with
  | some pending =>
    (c.resolve now t pending.write).bind fun row =>
      .value (st.setWriteSet tx (ws.insert s { pending with write := row }))
  | none =>
    let read := st.tables.row? s
    (c.resolve now t read).bind fun row => .value (st.setWriteSet tx (ws.insert s ⟨read, row⟩))

def apply (now : String) (st : Store) (tx : Option Ulid) (t : TableName) (c : Change) : Outcome StorageError Store :=
  match tx with
  | none => st.applyDirectly now t c
  | some tx => st.applyBuffered now tx t c

/-! ## Transactions -/

def begin (st : Store) (tx : Ulid) : Store := st.setWriteSet tx ∅

/-- Ends a transaction without its writes. -/
def discard (st : Store) (tx : Ulid) : Store := st.setWriteSet tx ∅

/-- The slots of a write set whose committed row is no longer the one that was read. -/
def stale (tables : Tables) (ws : WriteSet) : List Slot :=
  (ws.entries.filter fun e => !sameRow (tables.row? e.1) e.2.read).map (·.1)

/-- Ends a transaction: its writes take effect, or the slots that stand against them are returned. -/
def commit (st : Store) (tx : Ulid) : Except (List Slot) Unit × Store :=
  let ws := st.writeSet tx
  let st := st.discard tx
  match stale st.tables ws with
  | [] => (.ok (), { st with tables := ws.entries.foldl (fun tables e => tables.put e.1 e.2.write) st.tables })
  | slots => (.error slots, st)

def pendingWrites (st : Store) (tx : Option Ulid) : Nat :=
  match tx with
  | none => 0
  | some tx => (st.writeSet tx).size

end Store
end Memory
end Demarcate
