import Demarcate.Proofs.Lineage
import Demarcate.Proofs.Memory.Keeping
/-!
# Lineages — the rows of a store in memory and their ledger

The ledger that is told from the answers has the lineages of all rows that are committed on a store in memory, and of
those that the write sets of running transactions hold (`Ledger.OfTables`).  Every step keeps that (`OfTables.step`): a
change is resolved against a row that has the ledger's lineage, and a commit lays a write set over the tables as the
ledger does.
-/
namespace Demarcate

open Lineage (Bounded)

/-- The row has come about as the lineage says, with versions that a row can have. -/
def Lineage.Of (l? : Option Lineage) (row? : Option Row) : Prop := row? = l?.map Lineage.row ∧ Bounded l?

theorem Lineage.Of.extend {l? : Option Lineage} {existing row? : Option Row} (h : Of l? existing) {reading : Nat}
    {t : TableName} {c : Change} (hc : c.Versioned)
    (hrow : c.resolve (Clock.stamp reading) t existing = .value row?) : Of (extend reading c l?) row? := by
  have hheading : existing.map Row.heading = l?.map fun l => l.row.heading := by
    rw [h.1, Option.map_map]
    rfl
  exact ⟨resolve_extend hheading hrow, bounded_extend hheading hc hrow⟩

namespace Memory

open Traffic (Answer Operation)

/-- **What an operation does**: a change succeeds, or everything stays. -/
theorem Store.perform_cases (m : Store) (tx : Option Ulid) (op : Operation) :
    (∃ reading t c m', op = .change reading t c ∧ m.apply (Clock.stamp reading) tx t c = .value m' ∧
      m.perform tx op = (.changed (.value ()), m')) ∨
      (m.perform tx op).1.isDone = false ∧ (m.perform tx op).2 = m := by
  cases op with
  | get s => exact .inr ⟨rfl, rfl⟩
  | scan t => exact .inr ⟨rfl, rfl⟩
  | count t => exact .inr ⟨rfl, rfl⟩
  | change reading t c =>
    unfold perform
    simp only
    cases ha : m.apply (Clock.stamp reading) tx t c with
    | value m' => exact .inl ⟨reading, t, c, m', rfl, ha, rfl⟩
    | failed e => exact .inr ⟨rfl, rfl⟩
    | unwound text => exact .inr ⟨rfl, rfl⟩

/-- The tables have the rows of the lineages, and no others. -/
def Tables.Tell (tables : Tables) (lineages : Slot → Option Lineage) : Prop :=
  ∀ s, Lineage.Of (lineages s) (tables.row? s)

/-- The writes are the rows of the lineages, or their absence. -/
def WriteSet.Tell (ws : WriteSet) (own : Slot → Option (Option Lineage)) : Prop :=
  ∀ s, (ws.get? s = none ∧ own s = none) ∨ ∃ p l?, ws.get? s = some p ∧ own s = some l? ∧ Lineage.Of l? p.write

variable {tables : Tables} {ws : WriteSet} {lineages : Slot → Option Lineage} {own : Slot → Option (Option Lineage)}

theorem Tables.Tell.put (h : tables.Tell lineages) {s : Slot} {row : Option Row} {l? : Option Lineage}
    (hrow : Lineage.Of l? row) : (tables.put s row).Tell (Function.update lineages s l?) := by
  intro s'
  rw [row?_put, Function.update_apply]
  split
  · exact hrow
  · exact h s'

theorem WriteSet.tell_empty : WriteSet.Tell ∅ fun _ => none := fun _ => .inl ⟨rfl, rfl⟩

theorem WriteSet.Tell.insert (h : WriteSet.Tell ws own) {s : Slot} {p : PendingWrite} {l? : Option Lineage}
    (hrow : Lineage.Of l? p.write) : WriteSet.Tell (ws.insert s p) (Function.update own s (some l?)) := by
  intro s'
  rw [SortedMap.get?_insert, Function.update_apply]
  split
  · exact .inr ⟨p, l?, rfl, rfl, hrow⟩
  · exact h s'

/-- **A write set is laid over the tables** as its lineages are over theirs. -/
theorem Tables.Tell.laidOver (h : tables.Tell lineages) (hws : WriteSet.Tell ws own) (s : Slot) :
    Lineage.Of ((own s).getD (lineages s)) ((ws.laidOver tables).row? s) := by
  rw [WriteSet.row?_laidOver]
  obtain ⟨hget, hown⟩ | ⟨p, l?, hget, hown, hrow⟩ := hws s
  · rw [hget, hown]
    exact h s
  · rw [hget, hown]
    exact hrow

end Memory

/-! ## The steps -/

namespace Traffic

/-- The ledger has the lineages of the rows that are committed on the store `i`, and of those in the write sets of
running transactions. -/
structure Ledger.OfTables (i : Nat) (L : Ledger) (k : Traffic) : Prop where
  regular : k.Regular
  source : k.source = .memory i
  main : (k.stores.memory i).tables.Tell L.main
  own : ∀ n tx, k.running? n = some tx → Memory.WriteSet.Tell ((k.stores.memory i).writeSet (Ulid.issued n)) (L.own n)

namespace Ledger.OfTables

variable {i : Nat} {L : Ledger} {k : Traffic} (h : L.OfTables i k)

include h

/-- What a step leads to keeps the ledger, if what it does to the tables and to the write sets does. -/
theorem next {e : Event} {L' : Ledger} {m : Memory.Store} (hstore : (k.step e).stores.memory i = m)
    (hmain : m.tables.Tell L'.main)
    (hown : ∀ n tx, (k.step e).running? n = some tx → Memory.WriteSet.Tell (m.writeSet (Ulid.issued n)) (L'.own n)) :
    L'.OfTables i (k.step e) :=
  ⟨h.regular.step e, (h.regular.later e).source.trans h.source, hstore ▸ hmain, hstore ▸ hown⟩

/-- What runs after a step that begins nothing ran before it, and is not ended by it. -/
theorem running {e : Event} {n : Nat} {tx : Session} (hs : (k.step e).running? n = some tx)
    (he : ∀ through, e ≠ .begin through) : k.running? n = some tx ∧ ∀ v, e ≠ .finish n v := by
  obtain hs | ⟨id, hb, -⟩ := h.regular.running_step hs
  · exact hs
  · exact absurd hb (he _)

/-- A step at which nothing is done keeps the ledger. -/
theorem idle {e : Event} (he : ∀ through, e ≠ .begin through)
    (hstore : (k.step e).stores.memory i = k.stores.memory i) : L.OfTables i (k.step e) :=
  h.next hstore h.main fun n tx hs => h.own n tx (h.running hs he).1

theorem session (id : Ulid) {op : Operation} (hop : Event.Versioned (.operate (.session id) op)) (late : Bool) :
    (L.enter (.memory i) ⟨.operate (.session id) op, (k.react (.operate (.session id) op)).1, late⟩).OfTables i
      (k.step (.operate (.session id) op)) := by
  obtain ⟨hanswer, hstore⟩ :=
    operate_memory (h.regular.isIn_memory h.source) (session?_memory h.source id) op
  rw [hanswer]
  obtain ⟨reading, t, c, m, rfl, happly, hperform⟩ | ⟨hdone, hsame⟩ := (k.stores.memory i).perform_cases none op
  · rw [hperform] at hstore ⊢
    obtain ⟨row, hrow, rfl⟩ := Memory.apply_none_value happly
    refine h.next hstore (h.main.put ((h.main ⟨t, c.key⟩).extend hop hrow)) fun n tx hs => ?_
    exact h.own n tx (h.running hs nofun).1
  · rw [enter_operate hdone]
    exact h.idle nofun (hstore.trans hsame)

theorem handle (n : Nat) {op : Operation} (hop : Event.Versioned (.operate (.handle n) op)) (late : Bool) :
    (L.enter (.memory i) ⟨.operate (.handle n) op, (k.react (.operate (.handle n) op)).1, late⟩).OfTables i
      (k.step (.operate (.handle n) op)) := by
  cases hs : k.session? (.handle n) with
  | none =>
    have hreact := react_operate_none hs op
    rw [hreact, enter_nothing]
    exact h.idle nofun (by unfold Traffic.step; rw [hreact])
  | some s =>
  obtain ⟨id, rfl⟩ := h.regular.twin_memory h.source hs
  obtain ⟨hanswer, hstore⟩ := operate_memory (h.regular.isIn_memory h.source) hs op
  rw [hanswer]
  obtain ⟨reading, t, c, m, rfl, happly, hperform⟩ | ⟨hdone, hsame⟩ :=
    (k.stores.memory i).perform_cases (some (Ulid.issued n)) op
  · rw [hperform] at hstore ⊢
    obtain ⟨p, rfl, hresolve, -⟩ := Memory.applyBuffered_value happly
    refine h.next hstore h.main fun n' tx hrun => ?_
    obtain ⟨hran, -⟩ := h.running hrun nofun
    show Memory.WriteSet.Tell _ (Function.update L.own n _ n')
    rw [Memory.writeSet_setWriteSet, Function.update_apply]
    by_cases hn : n' = n
    · subst hn
      rw [if_pos rfl, if_pos rfl]
      have hws := h.own n' tx hran
      rw [Memory.Store.get_seen] at hresolve
      exact hws.insert ((h.main.laidOver hws ⟨t, c.key⟩).extend hop hresolve)
    · rw [if_neg fun heq => hn (Ulid.issued_inj heq), if_neg hn]
      exact h.own n' tx hran
  · rw [enter_operate hdone]
    exact h.idle nofun (hstore.trans hsame)

theorem begin (through : Through) (late : Bool) :
    (L.enter (.memory i) ⟨.begin through, (k.react (.begin through)).1, late⟩).OfTables i
      (k.step (.begin through)) := by
  cases through with
  | handle n =>
    rw [h.regular.step_begin_inside]
    cases hs : k.handles.get? n with
    | none =>
      rw [@react_begin_none k (.handle n) hs]
      exact h
    | some s =>
      rw [h.regular.react_begin_inside hs]
      exact h
  | session id =>
    obtain ⟨hanswer, hstore⟩ := begin_memory (h.regular.isIn_memory h.source) (session?_memory h.source id)
    rw [hanswer]
    refine h.next hstore h.main fun n tx hs => ?_
    show Memory.WriteSet.Tell _ (Function.update L.own k.stores.issued _ n)
    unfold Memory.Store.begin
    rw [Memory.writeSet_setWriteSet, Function.update_apply]
    by_cases hn : n = k.stores.issued
    · subst hn
      rw [if_pos rfl, if_pos rfl]
      exact Memory.WriteSet.tell_empty
    · rw [if_neg fun heq => hn (Ulid.issued_inj heq), if_neg hn]
      obtain ⟨hs, -⟩ | ⟨_, -, hnew, -⟩ := h.regular.running_step hs
      · exact h.own n tx hs
      · exact absurd hnew hn

theorem finish (n : Nat) (v : Engine.Verdict) (late : Bool) :
    (L.enter (.memory i) ⟨.finish n v, (k.react (.finish n v)).1, late⟩).OfTables i (k.step (.finish n v)) := by
  cases hs : k.running? n with
  | none =>
    have hreact := react_finish_none hs v
    rw [hreact, enter_nothing]
    exact h.idle nofun (by unfold Traffic.step; rw [hreact])
  | some s =>
  obtain ⟨id, rfl⟩ := h.regular.twin_memory h.source (running?_eq_some_iff.1 hs).1
  obtain ⟨hanswer, hstore, -⟩ := finish_memory (h.regular.isIn_memory h.source) hs v
  obtain ⟨hothers, hcases⟩ := (k.stores.memory i).finish_cases (Ulid.issued n) v
  have hown : ∀ m tx, (k.step (.finish n v)).running? m = some tx →
      Memory.WriteSet.Tell (((k.stores.memory i).finish (Ulid.issued n) v).2.writeSet (Ulid.issued m)) (L.own m) := by
    intro m tx hrun
    obtain ⟨hran, hne⟩ := h.running hrun nofun
    rw [hothers _ fun heq => hne v (by rw [Ulid.issued_inj heq])]
    exact h.own m tx hran
  rw [hanswer, enter_finish]
  obtain ⟨hcommitted, htables⟩ | ⟨hcommitted, htables⟩ := hcases
  · rw [if_pos hcommitted]
    refine h.next hstore (fun slot => ?_) hown
    have hlanded : L.landed (.memory i) n slot = (L.own n slot).getD (L.main slot) := by
      unfold landed
      cases L.own n slot <;> rfl
    show Lineage.Of (L.landed (.memory i) n slot) _
    rw [hlanded, htables]
    exact h.main.laidOver (h.own n _ hs) slot
  · rw [hcommitted, if_neg Bool.false_ne_true]
    exact h.next hstore (by rw [htables]; exact h.main) hown

/-- **Every step keeps the ledger**, with what it is answered. -/
theorem step {e : Event} (he : e.Versioned) (late : Bool) :
    (L.enter (.memory i) ⟨e, (k.react e).1, late⟩).OfTables i (k.step e) := by
  cases e with
  | operate through op =>
    cases through with
    | session id => exact h.session id he late
    | handle n => exact h.handle n he late
  | begin through => exact h.begin through late
  | finish n v => exact h.finish n v late
  | sweep =>
    have hreact := react_sweep_memory h.source
    rw [hreact, enter_nothing]
    exact h.idle nofun (by unfold Traffic.step; rw [hreact])

omit h

/-- **The ledger is kept by a whole run**, from what was answered in it. -/
theorem run (events : List Event) : ∀ {L : Ledger} {k : Traffic}, L.OfTables i k → (∀ e ∈ events, e.Versioned) →
    ((k.trace events).foldl (Ledger.enter (.memory i)) L).OfTables i (k.run events) := by
  induction events with
  | nil => exact fun h _ => h
  | cons e events ih =>
    intro L k h he
    have hstep := h.step (he e List.mem_cons_self) (k.isLate e)
    exact ih hstep fun e' hmem => he e' (List.mem_cons_of_mem _ hmem)

end Ledger.OfTables
end Traffic
end Demarcate
