import Demarcate.Proofs.Exercise
/-!
# Undated — answers but for the times in them

Of times a change only says which one goes into its row.  So tables whose rows differ in nothing but their times answer
alike but for these times, also to tasks that differ in the readings of the clock, the times of the rows they put and
the sessions that do them (`expected_congr`).
-/
namespace Demarcate

open Engine (Demarcated)
open Memory (Tables)
open Traffic (Answer Operation)

/-! ## Without times -/

def Row.undated (row : Row) : Row := { row with createdAt := "", updatedAt := "" }

def Change.undated : Change → Change
  | .insert row => .insert row.undated
  | .update row => .update row.undated
  | .upsert row => .upsert row.undated
  | .delete key => .delete key

def Traffic.Operation.undated : Operation → Operation
  | .change _ t c => .change 0 t c.undated
  | op => op

def Traffic.Answer.undated : Answer → Answer
  | .row r => .row (r.map (Option.map Row.undated))
  | .rows r => .rows (r.map (List.map Row.undated))
  | a => a

def Engine.Demarcated.map {α β : Type} (f : α → β) : Demarcated α → Demarcated β
  | .refused e => .refused e
  | .ended outcome a => .ended outcome (f a)

namespace Exercise

/-- The sessions that are at work are left out with the times. -/
def Item.undated : Item → Item
  | .operate op => .operate op.undated
  | .nest ops v => .nest (ops.map Operation.undated) v
  | .look _ q => .look default q

def Task.undated : Task → Task
  | .operate _ op => .operate default op.undated
  | .scope _ items v => .scope default (items.map Item.undated) v

def Note.undated : Note → Note
  | .answer a => .answer a.undated
  | .nested d => .nested (d.map (List.map Answer.undated))

def Reply.undated : Reply → Reply
  | .answer a => .answer a.undated
  | .scope d => .scope (d.map (List.map Note.undated))

end Exercise

/-! ## Changes -/

/-- What a change comes to, but for times, depends on no time. -/
theorem Change.resolve_undated (c : Change) (now now' : String) (t : TableName) (existing : Option Row) :
    (c.undated.resolve now' t (existing.map Row.undated)).bind (fun row => .value (row.map Row.undated)) =
      (c.resolve now t existing).bind fun row => .value (row.map Row.undated) := by
  have hsucceed : ∀ previous next : Row,
      ((Row.succeed now' previous.undated next.undated).bind fun row => .value (some row)).bind
          (fun row => (.value (row.map Row.undated) : Outcome StorageError (Option Row))) =
        ((Row.succeed now previous next).bind fun row => .value (some row)).bind
          fun row => .value (row.map Row.undated) := by
    intro previous next
    unfold Row.succeed
    by_cases hversion : previous.version < Row.greatestVersion
    · rw [if_pos hversion, if_pos (show previous.undated.version < _ from hversion)]
      rfl
    · rw [if_neg hversion, if_neg (show ¬ previous.undated.version < _ from hversion)]
  cases c with
  | insert row => cases existing <;> rfl
  | delete key => cases existing <;> rfl
  | update row =>
    cases existing with
    | none => rfl
    | some previous => exact hsucceed previous row
  | upsert row =>
    cases existing with
    | none => rfl
    | some previous => exact hsucceed previous row

/-! ## Tables -/

namespace SortedMap

variable {κ α β : Type} [Ord κ] [Std.TransOrd κ] [Std.LawfulEqOrd κ] [DecidableEq κ]

theorem mapValues_place (f : α → β) (m : SortedMap κ α) (k : κ) (v : Option α) :
    (m.place k v).mapValues f = (m.mapValues f).place k (v.map f) := by
  apply ext_get?
  intro k'
  rw [get?_mapValues, get?_place, get?_place, get?_mapValues]
  split <;> rfl

omit [Std.TransOrd κ] [Std.LawfulEqOrd κ] [DecidableEq κ] in
theorem values_mapValues (f : α → β) (m : SortedMap κ α) : (m.mapValues f).values = m.values.map f := by
  unfold values mapValues
  simp only [List.map_map, Function.comp_def]

omit [Std.TransOrd κ] [Std.LawfulEqOrd κ] [DecidableEq κ] in
theorem isEmpty_mapValues (f : α → β) (m : SortedMap κ α) : (m.mapValues f).isEmpty = m.isEmpty := by
  unfold isEmpty mapValues
  exact List.isEmpty_map

end SortedMap

namespace Memory.Tables

def undated (tables : Tables) : Tables := tables.mapValues (SortedMap.mapValues Row.undated)

theorem rowsOf_undated (tables : Tables) (t : TableName) :
    tables.undated.rowsOf t = (tables.rowsOf t).mapValues Row.undated := by
  unfold rowsOf undated
  rw [SortedMap.get?_mapValues]
  cases tables.get? t <;> rfl

theorem row?_undated (tables : Tables) (s : Slot) : tables.undated.row? s = (tables.row? s).map Row.undated := by
  unfold row? undated
  rw [SortedMap.get?_mapValues]
  cases tables.get? s.table with
  | none => rfl
  | some rows => exact SortedMap.get?_mapValues Row.undated rows s.key

theorem undated_put (tables : Tables) (s : Slot) (row : Option Row) :
    (tables.put s row).undated = tables.undated.put s (row.map Row.undated) := by
  apply SortedMap.ext_get?
  intro t
  have hat : ∀ ts : Tables, ts.undated.get? t = (ts.get? t).map (SortedMap.mapValues Row.undated) :=
    fun ts => SortedMap.get?_mapValues ..
  rw [hat, get?_put, get?_put, hat, rowsOf_undated, ← SortedMap.mapValues_place]
  split
  · unfold settled
    rw [SortedMap.isEmpty_mapValues]
    split <;> rfl
  · rfl

theorem undated_undated (tables : Tables) : tables.undated.undated = tables.undated := by
  apply SortedMap.ext_get?
  intro t
  unfold undated
  rw [SortedMap.get?_mapValues, SortedMap.get?_mapValues]
  cases tables.get? t with
  | none => rfl
  | some rows =>
    refine congrArg some (SortedMap.ext_get? fun k => ?_)
    rw [SortedMap.get?_mapValues, SortedMap.get?_mapValues]
    cases rows.get? k <;> rfl

/-- **What is done to tables** is, but for times, what is done without times to the tables without times. -/
theorem perform_undated (tables : Tables) (op : Operation) :
    (tables.undated.perform op.undated).1.undated = (tables.perform op).1.undated ∧
      (tables.undated.perform op.undated).2.undated = (tables.perform op).2.undated := by
  cases op with
  | get s =>
    refine ⟨?_, undated_undated tables⟩
    show Answer.row (.ok ((tables.undated.row? s).map Row.undated)) = .row (.ok ((tables.row? s).map Row.undated))
    rw [row?_undated, Option.map_map]
    rfl
  | scan t =>
    refine ⟨?_, undated_undated tables⟩
    show Answer.rows (.ok ((tables.undated.rowsOf t).values.map Row.undated)) =
      .rows (.ok ((tables.rowsOf t).values.map Row.undated))
    rw [rowsOf_undated, SortedMap.values_mapValues, List.map_map]
    rfl
  | count t =>
    refine ⟨?_, undated_undated tables⟩
    show Answer.count (.ok (tables.undated.rowsOf t).values.length) = .count (.ok (tables.rowsOf t).values.length)
    rw [rowsOf_undated, SortedMap.values_mapValues, List.length_map]
  | change reading t c =>
    have hkey : c.undated.key = c.key := by cases c <;> rfl
    have hrow : tables.undated.row? ⟨t, c.undated.key⟩ = (tables.row? ⟨t, c.key⟩).map Row.undated := by
      rw [hkey, row?_undated]
    have hresolve := c.resolve_undated (Clock.stamp reading) (Clock.stamp 0) t (tables.row? ⟨t, c.key⟩)
    rw [← hrow] at hresolve
    show (tables.undated.perform (.change 0 t c.undated)).1.undated = _ ∧
      (tables.undated.perform (.change 0 t c.undated)).2.undated = _
    cases hc : c.resolve (Clock.stamp reading) t (tables.row? ⟨t, c.key⟩) with
    | value row =>
      cases hc' : c.undated.resolve (Clock.stamp 0) t (tables.undated.row? ⟨t, c.undated.key⟩) with
      | value row' =>
        rw [hc, hc'] at hresolve
        have hsame : row'.map Row.undated = row.map Row.undated := Outcome.value.inj hresolve
        rw [perform_value hc, perform_value hc', undated_put, undated_put, undated_undated, hsame, hkey]
        exact ⟨rfl, rfl⟩
      | failed e => rw [hc, hc'] at hresolve; cases hresolve
      | unwound text => rw [hc, hc'] at hresolve; cases hresolve
    | failed e =>
      cases hc' : c.undated.resolve (Clock.stamp 0) t (tables.undated.row? ⟨t, c.undated.key⟩) with
      | value row' => rw [hc, hc'] at hresolve; cases hresolve
      | failed e' =>
        rw [hc, hc'] at hresolve
        have hsame : e' = e := Outcome.failed.inj hresolve
        rw [perform_failed hc, perform_failed hc', undated_undated, hsame]
        exact ⟨rfl, rfl⟩
      | unwound text => rw [hc, hc'] at hresolve; cases hresolve
    | unwound text =>
      cases hc' : c.undated.resolve (Clock.stamp 0) t (tables.undated.row? ⟨t, c.undated.key⟩) with
      | value row' => rw [hc, hc'] at hresolve; cases hresolve
      | failed e' => rw [hc, hc'] at hresolve; cases hresolve
      | unwound text' =>
        rw [hc, hc'] at hresolve
        have hsame : text' = text := Outcome.unwound.inj hresolve
        rw [perform_unwound hc, perform_unwound hc', undated_undated, hsame]
        exact ⟨rfl, rfl⟩

/-- Tables that differ in times alone answer alike but for times, and differ in times alone afterwards. -/
theorem perform_congr {tables tables' : Tables} {op op' : Operation} (htables : tables.undated = tables'.undated)
    (hop : op.undated = op'.undated) : (tables.perform op).1.undated = (tables'.perform op').1.undated ∧
      (tables.perform op).2.undated = (tables'.perform op').2.undated := by
  have hleft := tables.perform_undated op
  have hright := tables'.perform_undated op'
  rw [htables, hop] at hleft
  exact ⟨hleft.1.symm.trans hright.1, hleft.2.symm.trans hright.2⟩

end Memory.Tables

/-! ## Exercises -/

namespace Exercise

theorem Item.expected_congr {before before' now now' : Tables} (hbefore : before.undated = before'.undated)
    (hnow : now.undated = now'.undated) {item item' : Item} (hitem : item.undated = item'.undated) :
    (item.expected before now).1.undated = (item'.expected before' now').1.undated ∧
      (item.expected before now).2.undated = (item'.expected before' now').2.undated := by
  cases item with
  | operate op =>
    cases item' with
    | operate op' =>
      obtain ⟨hanswer, hafter⟩ := Tables.perform_congr hnow (Item.operate.inj hitem)
      exact ⟨congrArg Note.answer hanswer, hafter⟩
    | nest ops v => cases hitem
    | look id q => cases hitem
  | nest ops v =>
    cases item' with
    | operate op => cases hitem
    | nest ops' v' => exact ⟨rfl, hnow⟩
    | look id q => cases hitem
  | look id q =>
    cases item' with
    | operate op => cases hitem
    | nest ops v => cases hitem
    | look id' q' =>
      obtain ⟨-, rfl⟩ := Item.look.inj hitem
      exact ⟨congrArg Note.answer (Tables.perform_congr hbefore rfl).1, hnow⟩

theorem Item.expectedAll_congr {before before' : Tables} (hbefore : before.undated = before'.undated) :
    ∀ {items items' : List Item} {now now' : Tables}, now.undated = now'.undated →
      items.map Item.undated = items'.map Item.undated →
        (expectedAll before items now).1.map Note.undated = (expectedAll before' items' now').1.map Note.undated ∧
          (expectedAll before items now).2.undated = (expectedAll before' items' now').2.undated
  | [], [], _, _, hnow, _ => ⟨rfl, hnow⟩
  | [], _ :: _, _, _, _, hitems => by cases hitems
  | _ :: _, [], _, _, _, hitems => by cases hitems
  | item :: items, item' :: items', now, now', hnow, hitems => by
    obtain ⟨hitem, hitems⟩ := List.cons.inj hitems
    obtain ⟨hnote, hnow⟩ := Item.expected_congr hbefore hnow hitem
    obtain ⟨hnotes, hafter⟩ := expectedAll_congr hbefore hnow hitems
    exact ⟨List.cons_eq_cons.2 ⟨hnote, hnotes⟩, hafter⟩

theorem Task.expected_congr {tables tables' : Tables} (htables : tables.undated = tables'.undated) {task task' : Task}
    (htask : task.undated = task'.undated) :
    (task.expected tables).1.undated = (task'.expected tables').1.undated ∧
      (task.expected tables).2.undated = (task'.expected tables').2.undated := by
  cases task with
  | operate id op =>
    cases task' with
    | operate id' op' =>
      obtain ⟨hanswer, hafter⟩ := Tables.perform_congr htables (Task.operate.inj htask).2
      exact ⟨congrArg Reply.answer hanswer, hafter⟩
    | scope id' items v => cases htask
  | scope id items v =>
    cases task' with
    | operate id' op => cases htask
    | scope id' items' v' =>
      obtain ⟨-, hitems, rfl⟩ := Task.scope.inj htask
      obtain ⟨hnotes, hnow⟩ := Item.expectedAll_congr htables htables hitems
      refine ⟨congrArg (fun notes => Reply.scope (.ended (ending v) notes)) hnotes, ?_⟩
      cases v with
      | commit => exact hnow
      | rollback => exact htables
      | unwind text => exact htables

/-- **Tasks that differ in times and sessions alone are answered alike but for times.** -/
theorem expected_congr : ∀ {tasks tasks' : List Task} {tables tables' : Tables}, tables.undated = tables'.undated →
    tasks.map Task.undated = tasks'.map Task.undated →
      (expected tasks tables).map Reply.undated = (expected tasks' tables').map Reply.undated
  | [], [], _, _, _, _ => rfl
  | [], _ :: _, _, _, _, htasks => by cases htasks
  | _ :: _, [], _, _, _, htasks => by cases htasks
  | task :: tasks, task' :: tasks', tables, tables', htables, htasks => by
    obtain ⟨htask, htasks⟩ := List.cons.inj htasks
    obtain ⟨hreply, hafter⟩ := Task.expected_congr htables htask
    exact List.cons_eq_cons.2 ⟨hreply, expected_congr hafter htasks⟩

end Exercise
end Demarcate
