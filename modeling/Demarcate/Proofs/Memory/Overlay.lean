import Demarcate.Proofs.Memory.History
import Demarcate.Proofs.Traffic
/-!
# Overlay — a transaction in memory as tables of its own

A transaction in memory sees the committed tables with its write set laid over them, and works on them as somebody who
is alone with them does (`Lays.perform`).  Its commit makes them the committed ones, wherever the rows that the write
set has read are still there (`commit_undisturbed`).
-/
namespace Demarcate

/-! ## Rows agree with themselves -/

theorem Binary64.agrees_refl (x : Binary64) : x.agrees x = true := by
  unfold agrees
  simp

namespace Json

theorem Number.agrees_refl (n : Number) : n.agrees n = true := by
  cases n with
  | int n => exact beq_self_eq_true n
  | float x => exact Binary64.agrees_refl x

mutual
theorem agrees_refl : ∀ j : Json, j.agrees j = true
  | .null => rfl
  | .bool b => beq_self_eq_true b
  | .number n => Number.agrees_refl n
  | .string s => beq_self_eq_true s
  | .array items => agreeItems_refl items
  | .object fields => agreeFields_refl fields

theorem agreeItems_refl : ∀ items : List Json, agreeItems items items = true
  | [] => rfl
  | a :: as => by
    show (a.agrees a && agreeItems as as) = true
    rw [agrees_refl a, agreeItems_refl as]
    rfl

theorem agreeFields_refl : ∀ fields : List (String × Json), agreeFields fields fields = true
  | [] => rfl
  | (k, a) :: as => by
    show (k == k && a.agrees a && agreeFields as as) = true
    rw [beq_self_eq_true, agrees_refl a, agreeFields_refl as]
    rfl
end

end Json

namespace Memory

open Traffic (Operation Answer)

theorem sameRow_refl (row? : Option Row) : sameRow row? row? = true := by
  cases row? with
  | none => rfl
  | some row =>
    unfold sameRow Row.agrees
    simp only [beq_self_eq_true, Json.agreeFields_refl, Bool.and_self]

/-! ## Tables with writes laid over them -/

theorem overlay_cons (t : TableName) (rows : SortedMap RowKey Row) (e : Slot × PendingWrite)
    (rest : List (Slot × PendingWrite)) : Store.overlay t rows (e :: rest) =
      Store.overlay t (if t = e.1.table then rows.place e.1.key e.2.write else rows) rest := by
  obtain ⟨s, p⟩ := e
  simp only [Store.overlay]
  by_cases ht : s.table = t
  · rw [if_pos ht, if_pos ht.symm]
    cases p.write <;> rfl
  · rw [if_neg ht, if_neg (Ne.symm ht)]

/-- **What a transaction scans** is a table of the tables that its writes make. -/
theorem overlay_eq (t : TableName) : ∀ (entries : List (Slot × PendingWrite)) (tables : Tables),
    Store.overlay t (tables.rowsOf t) entries = (tables.putAll (writesOf entries)).rowsOf t
  | [], _ => rfl
  | e :: rest, tables => by
    show _ = ((tables.put e.1 e.2.write).putAll (writesOf rest)).rowsOf t
    rw [← overlay_eq t rest, Tables.rowsOf_put, overlay_cons]
    by_cases ht : t = e.1.table
    · rw [if_pos ht, if_pos ht, ht]
    · rw [if_neg ht, if_neg ht]

namespace Tables

/-- What somebody does who is alone with tables. -/
def perform (tables : Tables) (op : Operation) : Answer × Tables :=
  let (answer, m) := (⟨tables, ∅⟩ : Store).perform none op
  (answer, m.tables)

variable {tables : Tables} {reading : Nat} {t : TableName} {c : Change}

theorem perform_value {row : Option Row}
    (h : c.resolve (Clock.stamp reading) t (tables.row? ⟨t, c.key⟩) = .value row) :
    tables.perform (.change reading t c) = (.changed (.value ()), tables.put ⟨t, c.key⟩ row) := by
  unfold perform Store.perform
  simp only [apply_none_eq _ ⟨tables, ∅⟩ t c row h]

theorem perform_failed {e : StorageError}
    (h : c.resolve (Clock.stamp reading) t (tables.row? ⟨t, c.key⟩) = .failed e) :
    tables.perform (.change reading t c) = (.changed (.failed e), tables) := by
  simp only [perform, Store.perform, Store.apply, Store.applyDirectly, h, Outcome.bind]

theorem perform_unwound {text : String}
    (h : c.resolve (Clock.stamp reading) t (tables.row? ⟨t, c.key⟩) = .unwound text) :
    tables.perform (.change reading t c) = (.changed (.unwound text), tables) := by
  simp only [perform, Store.perform, Store.apply, Store.applyDirectly, h, Outcome.bind]

end Tables

namespace Store

/-- The tables are committed, and the transaction's write set, which has read its rows there, makes others of them. -/
structure Lays (m : Store) (u : Ulid) (before now : Tables) : Prop where
  committed : m.tables = before
  reads : ∀ s p, (m.writeSet u).get? s = some p → p.read = before.row? s
  laid : (m.writeSet u).laidOver before = now

theorem lays_begin (m : Store) (u : Ulid) : (m.begin u).Lays u m.tables m.tables := by
  have hempty : (m.begin u).writeSet u = ∅ := (writeSet_setWriteSet ..).trans (if_pos rfl)
  refine ⟨rfl, fun s p hp => ?_, ?_⟩
  · rw [hempty] at hp
    cases hp
  · rw [hempty]
    rfl

/-- The committed row that a slot had when the transaction first wrote there, or has. -/
def firstRead (m : Store) (u : Ulid) (s : Slot) : Option Row :=
  match (m.writeSet u).get? s with
  | some p => p.read
  | none => m.tables.row? s

/-- A change in a transaction is resolved against the row that the transaction sees. -/
theorem apply_inside (m : Store) (u : Ulid) (now : String) (t : TableName) (c : Change) :
    m.apply now (some u) t c = (c.resolve now t (m.get (some u) ⟨t, c.key⟩)).bind fun row =>
      .value (m.setWriteSet u ((m.writeSet u).insert ⟨t, c.key⟩ ⟨m.firstRead u ⟨t, c.key⟩, row⟩)) := by
  unfold apply applyBuffered get firstRead
  simp only [Option.bind_some]
  cases (m.writeSet u).get? ⟨t, c.key⟩ <;> rfl

/-- A slot in the write set was there before, or the change has put it there. -/
theorem slot_of_perform {m : Store} {u : Ulid} {op : Operation} {s : Slot}
    (h : (((m.perform (some u) op).2.writeSet u).get? s).isSome = true) :
    ((m.writeSet u).get? s).isSome = true ∨ ∃ reading t c, op = .change reading t c ∧
      (m.perform (some u) op).1 = .changed (.value ()) ∧ s = ⟨t, c.key⟩ := by
  cases op with
  | get s => exact .inl h
  | scan t => exact .inl h
  | count t => exact .inl h
  | change reading t c =>
    have happly := apply_inside m u (Clock.stamp reading) t c
    cases hc : c.resolve (Clock.stamp reading) t (m.get (some u) ⟨t, c.key⟩) with
    | failed e =>
      rw [hc] at happly
      simp only [perform, happly, Outcome.bind] at h
      exact .inl h
    | unwound text =>
      rw [hc] at happly
      simp only [perform, happly, Outcome.bind] at h
      exact .inl h
    | value row =>
      rw [hc] at happly
      simp only [perform, happly, Outcome.bind, writeSet_setWriteSet, if_true, SortedMap.get?_insert] at h ⊢
      split at h
      · rename_i hs
        exact .inr ⟨reading, t, c, rfl, trivial, hs⟩
      · exact .inl h

/-- **A commit that nothing stands against**: the slots that were written still have the rows that were read there. -/
theorem commit_undisturbed {m : Store} {u : Ulid}
    (h : ∀ s p, (m.writeSet u).get? s = some p → m.tables.row? s = p.read) :
    m.commit u = (.ok (), { m.discard u with tables := (m.writeSet u).laidOver m.tables }) := by
  obtain ⟨-, hcommit⟩ | ⟨slot, slots, hcommit⟩ := commit_cases m u
  · exact hcommit
  · have hstale : stale m.tables (m.writeSet u) = [] :=
      stale_eq_nil_iff.2 fun s p hp => h s p hp ▸ sameRow_refl _
    have hdiscard : stale (m.discard u).tables (m.writeSet u) = [] := hstale
    unfold commit at hcommit
    simp only at hcommit
    rw [hdiscard] at hcommit
    cases hcommit

namespace Lays

variable {m : Store} {u : Ulid} {before now : Tables} (h : m.Lays u before now)

include h

theorem get (s : Slot) : m.get (some u) s = now.row? s := by
  have hlaid := WriteSet.row?_laidOver (m.writeSet u) before s
  rw [h.laid] at hlaid
  cases hw : (m.writeSet u).get? s with
  | none =>
    rw [hw] at hlaid
    simp only [Store.get, Option.bind_some, hw, h.committed]
    exact hlaid.symm
  | some p =>
    rw [hw] at hlaid
    simp only [Store.get, Option.bind_some, hw]
    exact hlaid.symm

theorem scan (t : TableName) : m.scan (some u) t = (now.rowsOf t).values := by
  unfold Store.scan
  simp only
  rw [h.committed, overlay_eq, ← h.laid]
  rfl

/-- Nothing changes for the transaction while its tables and its write set stay. -/
theorem congr {m' : Store} (htables : m'.tables = m.tables) (hset : m'.writeSet u = m.writeSet u) :
    m'.Lays u before now :=
  ⟨htables.trans h.committed, by rw [hset]; exact h.reads, by rw [hset]; exact h.laid⟩

/-- A write that is taken in is put last, and its row was read where the others were. -/
theorem written (s : Slot) (row : Option Row) :
    (m.setWriteSet u ((m.writeSet u).insert s ⟨m.firstRead u s, row⟩)).Lays u before (now.put s row) := by
  have hset : (m.setWriteSet u ((m.writeSet u).insert s ⟨m.firstRead u s, row⟩)).writeSet u =
      (m.writeSet u).insert s ⟨m.firstRead u s, row⟩ := (writeSet_setWriteSet ..).trans (if_pos rfl)
  refine ⟨h.committed, fun s' q hq => ?_, ?_⟩
  · rw [hset, SortedMap.get?_insert] at hq
    split at hq
    · rename_i hs
      cases hq
      show m.firstRead u s = before.row? s'
      unfold firstRead
      rw [hs, h.committed]
      split
      · rename_i q hw
        exact h.reads s q hw
      · rfl
    · exact h.reads s' q hq
  · rw [hset, WriteSet.laidOver_insert, h.laid]

/-- **A transaction works as somebody who is alone with its tables.** -/
theorem perform (op : Operation) : (m.perform (some u) op).1 = (now.perform op).1 ∧
    (m.perform (some u) op).2.Lays u before (now.perform op).2 := by
  cases op with
  | get s => exact ⟨by simp only [Store.perform, h.get]; rfl, h⟩
  | scan t => exact ⟨by simp only [Store.perform, h.scan]; rfl, h⟩
  | count t => exact ⟨by simp only [Store.perform, h.scan]; rfl, h⟩
  | change reading t c =>
    have happly := apply_inside m u (Clock.stamp reading) t c
    rw [h.get] at happly
    cases hc : c.resolve (Clock.stamp reading) t (now.row? ⟨t, c.key⟩) with
    | value row =>
      rw [hc] at happly
      simp only [Store.perform, happly, Outcome.bind, Tables.perform_value hc, true_and]
      exact h.written ⟨t, c.key⟩ row
    | failed e =>
      rw [hc] at happly
      simp only [Store.perform, happly, Outcome.bind, Tables.perform_failed hc, true_and]
      exact h
    | unwound text =>
      rw [hc] at happly
      simp only [Store.perform, happly, Outcome.bind, Tables.perform_unwound hc, true_and]
      exact h

/-- The commit makes the transaction's tables the committed ones. -/
theorem commit : m.commit u = (.ok (), { m.discard u with tables := now }) := by
  rw [commit_undisturbed fun s p hp => ?_, h.committed, h.laid]
  rw [h.committed, h.reads s p hp]

end Lays
end Store
end Memory
end Demarcate
