import Demarcate.Proofs.Memory.Tables
/-!
# History — the serial order of what happened to a store

Sessions change one store side by side, outside of transactions or in one of any number that overlap.  A history
(`History`) keeps, beside the store, the changes that succeeded: those of a transaction that is under way for itself,
and the committed ones in one list, in which a change outside of transactions stands where it was made and the changes
of a transaction stand together where it was committed.

`replays_serial`: made again in the order of that list, one by one and outside of transactions, each at the clock's
reading it had, the committed changes all succeed, come to the same rows, and lead to the same tables.  What carries the
proof is `Buffers`: wherever the rows that a write set has read are still there, the changes that went into it can be
replayed, and they lead to the tables with the write set laid over them.
-/
namespace Demarcate
namespace Memory

/-! ## What happens to a store -/

inductive Event where
  | begin (tx : Ulid)
  /-- A session makes a change at a reading of the clock, in a transaction or outside of one. -/
  | change (tx : Option Ulid) (now : String) (table : TableName) (c : Change)
  | commit (tx : Ulid)
  | rollback (tx : Ulid)
  /-- The work in a transaction unwinds. -/
  | unwind (tx : Ulid)

/-- A change that succeeded, with the reading at which it was made and the row that it left in its slot. -/
structure Done where
  now : String
  table : TableName
  change : Change
  row : Option Row

def Done.slot (d : Done) : Slot := ⟨d.table, d.change.key⟩

structure History where
  store : Store
  /-- The transactions under way, each with its changes that succeeded, the first one first. -/
  running : SortedMap Ulid (List Done) := ∅
  /-- The committed changes in their serial order. -/
  serial : List Done := []

namespace History

/-- A change outside of transactions is committed at once; one in a transaction waits with it.  A session that is still
used after its transaction has ended changes nothing that is kept here. -/
def change (h : History) (tx : Option Ulid) (now : String) (table : TableName) (c : Change) : History :=
  match h.store.apply now tx table c with
  | .value st =>
    let done : Done := ⟨now, table, c, st.get tx ⟨table, c.key⟩⟩
    match tx with
    | none => { h with store := st, serial := h.serial ++ [done] }
    | some tx =>
      match h.running.get? tx with
      | some before => { h with store := st, running := h.running.insert tx (before ++ [done]) }
      | none => { h with store := st }
  | _ => h

/-- A transaction ends once: what is not under way cannot end. -/
def step (h : History) : Event → History
  | .begin tx => { h with store := h.store.begin tx, running := h.running.insert tx [] }
  | .change tx now table c => h.change tx now table c
  | .commit tx =>
    match h.running.get? tx with
    | none => h
    | some done =>
      match h.store.commit tx with
      | (.ok (), st) => { store := st, running := h.running.erase tx, serial := h.serial ++ done }
      | (.error _, st) => { h with store := st, running := h.running.erase tx }
  | .rollback tx =>
    match h.running.get? tx with
    | none => h
    | some _ => { h with store := h.store.discard tx, running := h.running.erase tx }
  | .unwind tx => { h with running := h.running.erase tx }

/-- The history of events on a store in which no transaction is under way. -/
def of (st : Store) (events : List Event) : History := events.foldl step { store := st }

end History

/-! ## Replaying changes -/

/-- `Replays tables done tables'`: made one after the other on `tables`, outside of transactions and each at its own
reading, the changes `done` succeed, leave the rows that they left before, and lead to `tables'`. -/
inductive Replays : Tables → List Done → Tables → Prop where
  | nil (tables : Tables) : Replays tables [] tables
  | cons {tables tables' : Tables} {d : Done} {done : List Done} {st : Store}
      (succeeds : Store.apply d.now ⟨tables, ∅⟩ none d.table d.change = .value st)
      (sameRow : st.get none d.slot = d.row) (rest : Replays st.tables done tables') :
      Replays tables (d :: done) tables'

theorem Replays.append {a b c : Tables} {ds es : List Done} (h₁ : Replays a ds b) (h₂ : Replays b es c) :
    Replays a (ds ++ es) c := by
  induction h₁ with
  | nil => exact h₂
  | cons hs hr _ ih => exact .cons hs hr (ih h₂)

theorem apply_none_eq (now : String) (st : Store) (t : TableName) (c : Change) (row : Option Row)
    (h : c.resolve now t (st.tables.row? ⟨t, c.key⟩) = .value row) :
    st.apply now none t c = .value { st with tables := st.tables.put ⟨t, c.key⟩ row } := by
  simp only [Store.apply, Store.applyDirectly, h, Outcome.bind]

theorem apply_none_value {now : String} {st st' : Store} {t : TableName} {c : Change}
    (h : st.apply now none t c = .value st') :
    ∃ row, c.resolve now t (st.tables.row? ⟨t, c.key⟩) = .value row ∧
      st' = { st with tables := st.tables.put ⟨t, c.key⟩ row } := by
  simp only [Store.apply, Store.applyDirectly] at h
  cases hr : c.resolve now t (st.tables.row? ⟨t, c.key⟩) with
  | value row =>
    simp only [hr, Outcome.bind, Outcome.value.injEq] at h
    exact ⟨row, rfl, h.symm⟩
  | failed e => simp [hr, Outcome.bind] at h
  | unwound text => simp [hr, Outcome.bind] at h

theorem Replays.single {tables : Tables} {d : Done}
    (h : d.change.resolve d.now d.table (tables.row? d.slot) = .value d.row) :
    Replays tables [d] (tables.put d.slot d.row) := by
  refine .cons (apply_none_eq d.now ⟨tables, ∅⟩ d.table d.change d.row h) ?_ (.nil _)
  simp only [Store.get, Option.bind_none]
  exact (Tables.row?_put tables d.slot d.slot d.row).trans (if_pos rfl)

/-! ## Rows that are the same to a change -/

/-- Rows that agree resolve a change alike: it reads of the old row only the version and the time of creation. -/
theorem resolve_of_sameRow {a b : Option Row} (h : sameRow a b = true) (now : String) (t : TableName) (c : Change) :
    c.resolve now t a = c.resolve now t b := by
  cases a with
  | none =>
    cases b with
    | none => rfl
    | some b => simp [sameRow] at h
  | some a =>
    cases b with
    | none => simp [sameRow] at h
    | some b =>
      simp only [sameRow, Row.agrees, Bool.and_eq_true, beq_iff_eq] at h
      obtain ⟨⟨⟨⟨-, hv⟩, hc⟩, -⟩, -⟩ := h
      have hs : ∀ next, Row.succeed now a next = Row.succeed now b next := fun next => by
        simp only [Row.succeed, hv, hc]
      cases c <;> simp only [Change.resolve, hs]

theorem stale_eq_nil_iff {tables : Tables} {ws : WriteSet} :
    Store.stale tables ws = [] ↔ ∀ s p, ws.get? s = some p → sameRow (tables.row? s) p.read = true := by
  unfold Store.stale
  rw [List.map_eq_nil_iff, List.filter_eq_nil_iff]
  constructor
  · intro h s p hp
    simpa using h (s, p) (SortedMap.get?_eq_some_iff.1 hp)
  · intro h e he
    simpa using h e.1 e.2 (SortedMap.get?_eq_some_iff.2 he)

/-! ## Write sets -/

theorem writeSet_setWriteSet (st : Store) (tx tx' : Ulid) (ws : WriteSet) :
    (st.setWriteSet tx ws).writeSet tx' = if tx' = tx then ws else st.writeSet tx' := by
  simp only [Store.writeSet, Store.setWriteSet, SortedMap.get?_insert]
  split <;> rfl

/-- A transaction sees its own last write. -/
theorem get_setWriteSet_insert (st : Store) (tx : Ulid) (s : Slot) (p : PendingWrite) :
    (st.setWriteSet tx ((st.writeSet tx).insert s p)).get (some tx) s = p.write := by
  simp [Store.get, writeSet_setWriteSet, SortedMap.get?_insert]

/-- **What a change in a transaction does**: it is resolved against what the transaction sees in its slot, and its row
stays in the write set beside the committed row of the first write. -/
theorem applyBuffered_value {now : String} {st st' : Store} {tx : Ulid} {t : TableName} {c : Change}
    (h : st.apply now (some tx) t c = .value st') :
    ∃ p : PendingWrite, st' = st.setWriteSet tx ((st.writeSet tx).insert ⟨t, c.key⟩ p) ∧
      c.resolve now t (st.get (some tx) ⟨t, c.key⟩) = .value p.write ∧
      p.read = match (st.writeSet tx).get? ⟨t, c.key⟩ with
        | some q => q.read
        | none => st.tables.row? ⟨t, c.key⟩ := by
  simp only [Store.apply, Store.applyBuffered] at h
  cases hq : (st.writeSet tx).get? ⟨t, c.key⟩ with
  | some q =>
    rw [hq] at h
    cases hr : c.resolve now t q.write with
    | value row =>
      simp only [hr, Outcome.bind, Outcome.value.injEq] at h
      exact ⟨⟨q.read, row⟩, h.symm, by simp [Store.get, hq, hr], rfl⟩
    | failed e => simp [hr, Outcome.bind] at h
    | unwound text => simp [hr, Outcome.bind] at h
  | none =>
    rw [hq] at h
    cases hr : c.resolve now t (st.tables.row? ⟨t, c.key⟩) with
    | value row =>
      simp only [hr, Outcome.bind, Outcome.value.injEq] at h
      exact ⟨⟨st.tables.row? ⟨t, c.key⟩, row⟩, h.symm, by simp [Store.get, hq, hr], rfl⟩
    | failed e => simp [hr, Outcome.bind] at h
    | unwound text => simp [hr, Outcome.bind] at h

/-- **What a commit does**: the write set is emptied, and laid over the tables if they still have the rows that it has
read. -/
theorem commit_cases (st : Store) (tx : Ulid) :
    (Store.stale st.tables (st.writeSet tx) = [] ∧
      st.commit tx = (.ok (), { st.discard tx with tables := (st.writeSet tx).laidOver st.tables })) ∨
      ∃ slot slots, st.commit tx = (.error (slot :: slots), st.discard tx) := by
  unfold Store.commit
  simp only
  cases hst : Store.stale st.tables (st.writeSet tx) with
  | cons slot slots =>
    have hstale : Store.stale (st.discard tx).tables (st.writeSet tx) = slot :: slots := hst
    rw [hstale]
    exact .inr ⟨slot, slots, rfl⟩
  | nil =>
    have hstale : Store.stale (st.discard tx).tables (st.writeSet tx) = [] := hst
    have hover : (st.writeSet tx).entries.foldl (fun tables e => tables.put e.1 e.2.write) (st.discard tx).tables =
        (st.writeSet tx).laidOver st.tables := by
      rw [WriteSet.laidOver, Tables.putAll, writesOf, List.foldl_map]
      rfl
    rw [hstale]
    refine .inl ⟨rfl, ?_⟩
    simp only
    rw [hover]

/-- **The changes that went into a write set can be replayed** on all tables that still have the rows it has read, and
lead to these tables with the write set laid over them. -/
def Buffers (ws : WriteSet) (done : List Done) : Prop :=
  ∀ tables : Tables, Store.stale tables ws = [] → Replays tables done (ws.laidOver tables)

theorem buffers_empty : Buffers ∅ [] := fun tables _ => .nil tables

theorem Buffers.snoc {ws : WriteSet} {done : List Done} (h : Buffers ws done) {d : Done} {p : PendingWrite}
    {committed : Tables} (hrow : p.write = d.row)
    (hread : p.read = match ws.get? d.slot with
      | some q => q.read
      | none => committed.row? d.slot)
    (hresolve : d.change.resolve d.now d.table
      (match ws.get? d.slot with
        | some q => q.write
        | none => committed.row? d.slot) = .value d.row) :
    Buffers (ws.insert d.slot p) (done ++ [d]) := by
  intro tables hstale
  rw [stale_eq_nil_iff] at hstale
  have hp := hstale d.slot p (by rw [SortedMap.get?_insert, if_pos rfl])
  -- the rows that the smaller write set has read are among those that the larger one has
  have hold : Store.stale tables ws = [] := by
    rw [stale_eq_nil_iff]
    intro s q hq
    by_cases hs : s = d.slot
    · subst hs
      rw [hq] at hread
      simp only at hread
      rw [← hread]
      exact hp
    · exact hstale s q (by rw [SortedMap.get?_insert, if_neg hs, hq])
  rw [WriteSet.laidOver_insert, hrow]
  refine (h tables hold).append (.single ?_)
  rw [WriteSet.row?_laidOver]
  cases hq : ws.get? d.slot with
  | some q =>
    rw [hq] at hresolve
    exact hresolve
  | none =>
    rw [hq] at hresolve hread
    simp only at hresolve hread
    rw [hread] at hp
    exact (resolve_of_sameRow hp _ _ _).trans hresolve

/-! ## The run -/

/-- What every moment of a history that began with `tables` satisfies. -/
structure Serial (tables : Tables) (h : History) : Prop where
  committed : Replays tables h.serial h.store.tables
  underway : ∀ tx done, h.running.get? tx = some done → Buffers (h.store.writeSet tx) done

theorem Serial.ended {tables : Tables} {h : History} (hs : Serial tables h) (tx : Ulid) {st : Store}
    (htables : st.tables = h.store.tables) (hsets : ∀ tx', tx' ≠ tx → st.writeSet tx' = h.store.writeSet tx') :
    Serial tables { h with store := st, running := h.running.erase tx } where
  committed := htables ▸ hs.committed
  underway tx' done hd := by
    rw [SortedMap.get?_erase] at hd
    by_cases htx : tx' = tx
    · simp [htx] at hd
    · rw [if_neg htx] at hd
      rw [hsets tx' htx]
      exact hs.underway tx' done hd

theorem Serial.change {tables : Tables} {h : History} (hs : Serial tables h) (tx : Option Ulid) (now : String)
    (t : TableName) (c : Change) : Serial tables (h.change tx now t c) := by
  unfold History.change
  cases ha : h.store.apply now tx t c with
  | failed e => exact hs
  | unwound text => exact hs
  | value st =>
    cases tx with
    | none =>
      obtain ⟨row, hr, rfl⟩ := apply_none_value ha
      have hrow : (h.store.tables.put ⟨t, c.key⟩ row).row? ⟨t, c.key⟩ = row :=
        (Tables.row?_put _ _ _ _).trans (if_pos rfl)
      simp only [Store.get, Option.bind_none, hrow]
      exact ⟨hs.committed.append (.single (d := ⟨now, t, c, row⟩) hr), hs.underway⟩
    | some tx =>
      obtain ⟨p, rfl, hp, hread⟩ := applyBuffered_value ha
      have hrow := get_setWriteSet_insert h.store tx ⟨t, c.key⟩ p
      have hothers : ∀ tx' done, tx' ≠ tx → h.running.get? tx' = some done →
          Buffers ((h.store.setWriteSet tx ((h.store.writeSet tx).insert ⟨t, c.key⟩ p)).writeSet tx') done := by
        intro tx' done htx hd
        rw [writeSet_setWriteSet, if_neg htx]
        exact hs.underway tx' done hd
      simp only
      cases hb : h.running.get? tx with
      | none =>
        refine ⟨hs.committed, fun tx' done hd => hothers tx' done (fun htx => ?_) hd⟩
        rw [htx, hb] at hd
        cases hd
      | some before =>
        refine ⟨hs.committed, fun tx' done hd => ?_⟩
        rw [SortedMap.get?_insert] at hd
        by_cases htx : tx' = tx
        · subst htx
          rw [if_pos rfl, Option.some.injEq] at hd
          subst hd
          rw [writeSet_setWriteSet, if_pos rfl]
          refine (hs.underway tx' before hb).snoc (d := ⟨now, t, c, _⟩) hrow.symm hread ?_
          rw [hrow, ← hp]
          rfl
        · rw [if_neg htx] at hd
          exact hothers tx' done htx hd

theorem Serial.step {tables : Tables} {h : History} (hs : Serial tables h) (e : Event) : Serial tables (h.step e) := by
  cases e with
  | begin tx =>
    refine ⟨hs.committed, fun tx' done hd => ?_⟩
    simp only [History.step] at hd ⊢
    rw [Store.begin, writeSet_setWriteSet]
    rw [SortedMap.get?_insert] at hd
    by_cases htx : tx' = tx
    · rw [if_pos htx, Option.some.injEq] at hd
      rw [if_pos htx, ← hd]
      exact buffers_empty
    · rw [if_neg htx] at hd ⊢
      exact hs.underway tx' done hd
  | change tx now t c => exact hs.change tx now t c
  | commit tx =>
    have hsets : ∀ tx', tx' ≠ tx → (h.store.discard tx).writeSet tx' = h.store.writeSet tx' := fun tx' htx => by
      rw [Store.discard, writeSet_setWriteSet, if_neg htx]
    simp only [History.step]
    cases hd : h.running.get? tx with
    | none => exact hs
    | some done =>
      simp only
      obtain ⟨hst, hcommit⟩ | ⟨slot, slots, hcommit⟩ := commit_cases h.store tx
      · rw [hcommit]
        have hreplay := hs.underway tx done hd h.store.tables hst
        have hended : Serial tables { h with store := h.store.discard tx, running := h.running.erase tx } :=
          hs.ended tx rfl hsets
        exact ⟨hs.committed.append hreplay, hended.underway⟩
      · rw [hcommit]
        exact hs.ended tx rfl hsets
  | rollback tx =>
    simp only [History.step]
    cases hd : h.running.get? tx with
    | none => exact hs
    | some done =>
      exact hs.ended tx rfl fun tx' htx => by rw [Store.discard, writeSet_setWriteSet, if_neg htx]
  | unwind tx => exact hs.ended tx rfl fun _ _ => rfl

/-- **Committed changes are serial**: however sessions and overlapping transactions have changed a store, its tables are
those that the committed changes lead to when they are made again in their serial order, outside of transactions. -/
theorem replays_serial (st : Store) (events : List Event) :
    Replays st.tables (History.of st events).serial (History.of st events).store.tables := by
  suffices h : ∀ (events : List Event) (h : History), Serial st.tables h → Serial st.tables (events.foldl .step h) from
    (h events _ ⟨.nil _, fun tx done hd => by cases hd⟩).committed
  intro events
  induction events with
  | nil => exact fun h hs => hs
  | cons e events ih => exact fun h hs => ih (h.step e) (hs.step e)

end Memory
end Demarcate
