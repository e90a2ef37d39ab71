import Demarcate.Memory
/-!
# Tables — writes put one after the other

Putting a row into its slot settles the slot's table and no other (`get?_put`).  So of two writes to one slot the last
one counts (`put_put`), and writes to different slots can change places (`put_comm`).  A write set holds one write for
each slot, the last one, in an order of its own; putting them is putting every write in the order in which they were
made, because a write that is added to the set is one that is put last (`putAll_insert`).
-/
namespace Demarcate

namespace SortedMap

variable {κ α : Type} [Ord κ] [Std.TransOrd κ] [Std.LawfulEqOrd κ] [DecidableEq κ]

/-- Puts a value under a key, or takes the key out. -/
def place (m : SortedMap κ α) (k : κ) : Option α → SortedMap κ α
  | some v => m.insert k v
  | none => m.erase k

theorem get?_place (m : SortedMap κ α) (k k' : κ) (v : Option α) :
    (m.place k v).get? k' = if k' = k then v else m.get? k' := by
  cases v with
  | some v => exact get?_insert m k k' v
  | none => exact get?_erase m k k'

theorem place_place (m : SortedMap κ α) (k : κ) (v w : Option α) : (m.place k v).place k w = m.place k w := by
  apply ext_get?
  intro k'
  rw [get?_place, get?_place, get?_place]
  by_cases hk : k' = k <;> simp [hk]

theorem place_comm (m : SortedMap κ α) {k l : κ} (h : k ≠ l) (v w : Option α) :
    (m.place k v).place l w = (m.place l w).place k v := by
  apply ext_get?
  intro k'
  rw [get?_place, get?_place, get?_place, get?_place]
  by_cases hl : k' = l
  · have hk : k' ≠ k := fun hk => h (hk.symm.trans hl)
    simp [hl, hl ▸ hk]
  · simp [hl]

omit [Std.TransOrd κ] [Std.LawfulEqOrd κ] [DecidableEq κ] in
theorem isEmpty_eq_true_iff {m : SortedMap κ α} : m.isEmpty = true ↔ m = ∅ := by
  cases m with | mk l hl =>
    cases l with
    | nil => simp [isEmpty]; rfl
    | cons e l =>
      simp only [isEmpty, List.isEmpty_cons, Bool.false_eq_true, false_iff]
      intro h
      have := congrArg SortedMap.entries h
      cases this

omit [DecidableEq κ] in
theorem isEmpty_insert (m : SortedMap κ α) (k : κ) (v : α) : (m.insert k v).isEmpty = false := by
  rw [← Bool.not_eq_true, isEmpty_iff]
  intro h
  classical
  have := h k
  rw [get?_insert] at this
  simp at this

end SortedMap

namespace Memory
namespace Tables

/-- A table with these rows, which there is not if it has none. -/
def settled (rows : SortedMap RowKey Row) : Option (SortedMap RowKey Row) := if rows.isEmpty then none else some rows

theorem getD_settled (rows : SortedMap RowKey Row) : (settled rows).getD ∅ = rows := by
  unfold settled
  split
  · rename_i h
    rw [SortedMap.isEmpty_eq_true_iff.1 h]
    rfl
  · rfl

/-- **A write settles its own table and leaves the others.** -/
theorem get?_put (tables : Tables) (s : Slot) (row : Option Row) (t : TableName) :
    (tables.put s row).get? t =
      if t = s.table then settled ((tables.rowsOf s.table).place s.key row) else tables.get? t := by
  cases row with
  | some row =>
    simp only [put, SortedMap.get?_insert, SortedMap.place, settled, SortedMap.isEmpty_insert]
    rfl
  | none =>
    simp only [put, SortedMap.place]
    cases hrows : tables.get? s.table with
    | none =>
      by_cases ht : t = s.table
      · subst ht
        rw [if_pos rfl, hrows]
        simp only [rowsOf, hrows]
        rfl
      · rw [if_neg ht]
    | some rows =>
      have hof : tables.rowsOf s.table = rows := by simp [rowsOf, hrows]
      rw [hof]
      unfold settled
      by_cases he : (rows.erase s.key).isEmpty = true
      · simp only [he, if_true, SortedMap.get?_erase]
      · simp only [he, Bool.false_eq_true, if_false, SortedMap.get?_insert]

theorem rowsOf_put (tables : Tables) (s : Slot) (row : Option Row) (t : TableName) :
    (tables.put s row).rowsOf t = if t = s.table then (tables.rowsOf s.table).place s.key row else tables.rowsOf t := by
  unfold rowsOf
  rw [get?_put]
  split
  · exact getD_settled _
  · rfl

theorem put_put (tables : Tables) (s : Slot) (row row' : Option Row) :
    (tables.put s row).put s row' = tables.put s row' := by
  apply SortedMap.ext_get?
  intro t
  rw [get?_put, get?_put, get?_put, rowsOf_put, if_pos rfl, SortedMap.place_place]
  by_cases ht : t = s.table <;> simp [ht]

theorem put_comm (tables : Tables) {s s' : Slot} (h : s ≠ s') (row row' : Option Row) :
    (tables.put s row).put s' row' = (tables.put s' row').put s row := by
  apply SortedMap.ext_get?
  intro t
  rw [get?_put, get?_put, get?_put, get?_put, rowsOf_put, rowsOf_put]
  by_cases ht : s.table = s'.table
  · have hk : s.key ≠ s'.key := fun hk => h (by cases s; cases s'; simp_all)
    simp only [ht, if_true]
    by_cases htt : t = s'.table
    · simp only [htt, if_true]
      rw [SortedMap.place_comm _ hk]
    · simp only [htt, if_false]
  · have ht' : s'.table ≠ s.table := Ne.symm ht
    simp only [ht, ht', if_false]
    by_cases hts : t = s.table
    · simp [hts, ht]
    · simp [hts]

/-! ## Several writes -/

/-- Puts writes one after the other. -/
def putAll (tables : Tables) (writes : List (Slot × Option Row)) : Tables :=
  writes.foldl (fun tables w => tables.put w.1 w.2) tables

theorem putAll_put_comm : ∀ (writes : List (Slot × Option Row)) (tables : Tables) (s : Slot) (row : Option Row),
    (∀ w ∈ writes, s ≠ w.1) → (tables.put s row).putAll writes = (tables.putAll writes).put s row
  | [], _, _, _, _ => rfl
  | w :: writes, tables, s, row, h => by
    show ((tables.put s row).put w.1 w.2).putAll writes = ((tables.put w.1 w.2).putAll writes).put s row
    rw [put_comm tables (h w List.mem_cons_self)]
    exact putAll_put_comm writes _ s row fun v hv => h v (List.mem_cons_of_mem _ hv)

theorem putAll_comm : ∀ (writes others : List (Slot × Option Row)) (tables : Tables),
    (∀ w ∈ writes, ∀ o ∈ others, w.1 ≠ o.1) → (tables.putAll writes).putAll others =
      (tables.putAll others).putAll writes
  | [], _, _, _ => rfl
  | w :: writes, others, tables, h => by
    show ((tables.put w.1 w.2).putAll writes).putAll others = ((tables.putAll others).put w.1 w.2).putAll writes
    rw [putAll_comm writes others _ fun v hv => h v (List.mem_cons_of_mem _ hv),
      putAll_put_comm others tables w.1 w.2 (h w List.mem_cons_self)]

end Tables

/-! ## The writes of a write set -/

def writesOf (entries : List (Slot × PendingWrite)) : List (Slot × Option Row) := entries.map fun e => (e.1, e.2.write)

theorem mem_writesOf {entries : List (Slot × PendingWrite)} {s : Slot}
    (h : ∀ e ∈ entries, compare s e.1 = .lt) : ∀ w ∈ writesOf entries, s ≠ w.1 := by
  intro w hw heq
  obtain ⟨e, he, rfl⟩ := List.mem_map.1 hw
  have := h e he
  rw [heq] at this
  simp at this

theorem putAll_insertEntry (s : Slot) (p : PendingWrite) : ∀ (entries : List (Slot × PendingWrite)) (tables : Tables),
    entries.Pairwise (fun a b => compare a.1 b.1 = .lt) →
      tables.putAll (writesOf (SortedMap.insertEntry s p entries)) =
        (tables.putAll (writesOf entries)).put s p.write
  | [], _, _ => rfl
  | e :: rest, tables, h => by
    obtain ⟨hhead, htail⟩ := List.pairwise_cons.1 h
    unfold SortedMap.insertEntry
    split
    · rename_i hlt
      refine Tables.putAll_put_comm _ tables s p.write (mem_writesOf fun x hx => ?_)
      rcases List.mem_cons.1 hx with rfl | hx
      · exact hlt
      · exact Std.TransCmp.lt_trans hlt (hhead x hx)
    · rename_i heq
      obtain rfl := Std.LawfulEqOrd.eq_of_compare heq
      show (tables.put e.1 p.write).putAll (writesOf rest) =
        ((tables.put e.1 e.2.write).putAll (writesOf rest)).put e.1 p.write
      have hne := mem_writesOf hhead
      rw [Tables.putAll_put_comm _ _ _ _ hne, Tables.putAll_put_comm _ _ _ _ hne, Tables.put_put]
    · exact putAll_insertEntry s p rest (tables.put e.1 e.2.write) htail

namespace WriteSet

/-- The tables with a write set's rows in them. -/
def laidOver (ws : WriteSet) (tables : Tables) : Tables := tables.putAll (writesOf ws.entries)

/-- **A write that a write set takes in is put last.** -/
theorem laidOver_insert (ws : WriteSet) (tables : Tables) (s : Slot) (p : PendingWrite) :
    laidOver (ws.insert s p) tables = (laidOver ws tables).put s p.write :=
  putAll_insertEntry s p ws.entries tables ws.sorted

theorem row?_putAll_writesOf (s : Slot) : ∀ (entries : List (Slot × PendingWrite)) (tables : Tables),
    entries.Pairwise (fun a b => compare a.1 b.1 = .lt) →
      (tables.putAll (writesOf entries)).row? s =
        match SortedMap.findEntry s entries with
        | some p => p.write
        | none => tables.row? s
  | [], _, _ => rfl
  | e :: rest, tables, h => by
    obtain ⟨hhead, htail⟩ := List.pairwise_cons.1 h
    show ((tables.put e.1 e.2.write).putAll (writesOf rest)).row? s = _
    rw [row?_putAll_writesOf s rest _ htail, Tables.row?_put]
    by_cases hs : s = e.1
    · subst hs
      rw [SortedMap.findEntry_eq_none_of_lt hhead]
      simp [SortedMap.findEntry]
    · have : compare s e.1 ≠ .eq := fun hc => hs (Std.LawfulEqOrd.eq_of_compare hc)
      simp [SortedMap.findEntry, this, hs]

/-- What is in a slot once a write set is laid over the tables. -/
theorem row?_laidOver (ws : WriteSet) (tables : Tables) (s : Slot) :
    (laidOver ws tables).row? s =
      match ws.get? s with
      | some p => p.write
      | none => tables.row? s :=
  row?_putAll_writesOf s ws.entries tables ws.sorted

/-- **Write sets with no slot in common can change places.** -/
theorem laidOver_comm {ws ws' : WriteSet} (h : ∀ s, (ws.get? s).isSome = true → ws'.get? s = none) (tables : Tables) :
    ws'.laidOver (ws.laidOver tables) = ws.laidOver (ws'.laidOver tables) := by
  refine Tables.putAll_comm _ _ tables fun w hw w' hw' heq => ?_
  obtain ⟨e, he, rfl⟩ := List.mem_map.1 hw
  obtain ⟨e', he', rfl⟩ := List.mem_map.1 hw'
  have hat : ws.get? e.1 = some e.2 := SortedMap.get?_eq_some_iff.2 he
  have hat' : ws'.get? e'.1 = some e'.2 := SortedMap.get?_eq_some_iff.2 he'
  have hnone := h e.1 (by rw [hat]; rfl)
  rw [show e.1 = e'.1 from heq, hat'] at hnone
  cases hnone

end WriteSet
end Memory
end Demarcate
