import Demarcate.Proofs.Conflicts
import Demarcate.Proofs.Drafting
import Demarcate.Proofs.Git.Names
import Demarcate.Proofs.Memory.Lineages
/-!
# Bookkeeping — what a store in memory holds, and what it counts

However sessions and transactions come one between another, no table of a store in memory is empty, so the tables that
are listed are those with rows (`Store.Kept`).  Both ways of changing the tables put rows into them one after the other,
and putting settles its table.  What a transaction counts as pending is one slot for each that it has written with
success (`Tallied`), also where it has put back what was there.
-/
namespace Demarcate
namespace Memory

open Traffic (Operation)

/-! ## Tables with rows -/

/-- Every table has a row. -/
def Tables.Settled (tables : Tables) : Prop := ∀ t rows, tables.get? t = some rows → rows.isEmpty = false

namespace Tables.Settled

variable {tables : Tables} (h : tables.Settled)

include h

theorem put (s : Slot) (row : Option Row) : (tables.put s row).Settled := by
  intro t rows hrows
  rw [get?_put] at hrows
  split at hrows
  · unfold settled at hrows
    split at hrows
    · cases hrows
    · rename_i hne
      cases hrows
      exact Bool.not_eq_true _ ▸ hne
  · exact h t rows hrows

omit h in
theorem putAll (writes : List (Slot × Option Row)) : ∀ {tables : Tables}, tables.Settled →
    (tables.putAll writes).Settled := by
  induction writes with
  | nil => exact id
  | cons w writes ih => exact fun h => ih (h.put w.1 w.2)

/-- A table is there where it has a row. -/
theorem mem_keys_iff {t : TableName} : t ∈ tables.keys ↔ ∃ key row, tables.row? ⟨t, key⟩ = some row := by
  rw [SortedMap.mem_keys_iff]
  constructor
  · rintro ⟨rows, hrows⟩
    have hne := h t rows hrows
    have hsome : ¬ ∀ key, rows.get? key = none := fun hnone => by
      rw [SortedMap.isEmpty_iff.2 hnone] at hne
      cases hne
    obtain ⟨key, hkey⟩ := Classical.not_forall.1 hsome
    obtain ⟨row, hrow⟩ := Option.ne_none_iff_exists'.1 hkey
    exact ⟨key, row, by rw [row?, hrows]; exact hrow⟩
  · rintro ⟨key, row, hrow⟩
    obtain ⟨rows, hrows, -⟩ := Option.bind_eq_some_iff.1 hrow
    exact ⟨rows, hrows⟩

end Tables.Settled

/-- **No table is empty**, whatever is done to a store in memory. -/
theorem closed_settled : Store.Closed fun m => m.tables.Settled where
  fresh := nofun
  emptied h _ := h
  apply {m m' now tx t c} h ha := by
    cases tx with
    | none =>
      obtain ⟨row, -, rfl⟩ := apply_none_value ha
      exact h.put _ row
    | some u =>
      obtain ⟨p, rfl, -⟩ := applyBuffered_value ha
      exact h
  commit {m} h u := by
    obtain ⟨-, hcommit⟩ | ⟨slot, slots, hcommit⟩ := commit_cases m u
    · rw [hcommit]
      exact .putAll _ h
    · rw [hcommit]
      exact h

/-- What holds of a store in memory at any moment. -/
structure Store.Kept (m : Store) : Prop where
  /-- No table is empty. -/
  settled : m.tables.Settled
  /-- So the tables that are listed are those with a row. -/
  listed : ∀ t, t ∈ m.tableNames ↔ ∃ key row, m.tables.row? ⟨t, key⟩ = some row
  ordered : m.tableNames.Pairwise fun a b => compare a b = .lt
  once : m.tableNames.Nodup
  /-- Every row is under its own key, be it committed, recorded by a transaction or to be written by one. -/
  keyed : m.Keyed

theorem Store.Kept.of_closed {m : Store} (hsettled : m.tables.Settled) (hkeyed : m.Keyed) : m.Kept :=
  ⟨hsettled, fun _ => hsettled.mem_keys_iff, m.tables.keys_sorted, m.tables.nodup_keys, hkeyed⟩

namespace Store

variable {Q : Store → Prop} {m : Store}

theorem Closed.perform (hQ : Closed Q) (h : Q m) (tx : Option Ulid) (op : Operation) : Q (m.perform tx op).2 := by
  obtain ⟨reading, t, c, m', -, ha, hperform⟩ | ⟨-, hsame⟩ := m.perform_cases tx op
  · rw [hperform]
    exact hQ.apply h ha
  · rw [hsame]
    exact h

theorem Closed.finish (hQ : Closed Q) (h : Q m) (u : Ulid) (v : Engine.Verdict) : Q (m.finish u v).2 := by
  cases v with
  | unwind text => exact h
  | rollback => exact hQ.emptied h u
  | commit =>
    have hcommit := hQ.commit h u
    unfold Store.finish
    simp only
    generalize m.commit u = committed at hcommit
    obtain ⟨slots | ⟨⟩, m'⟩ := committed <;> exact hcommit

end Store
end Memory

namespace Traffic

variable {Q : Memory.Store → Prop} {k : Traffic} {i : Nat}

/-- **What everything done to a store in memory keeps, a step keeps.** -/
theorem Regular.closed_step (h : k.Regular) (hk : k.source = .memory i) (hQ : Memory.Store.Closed Q)
    (hm : Q (k.stores.memory i)) (e : Event) : Q ((k.step e).stores.memory i) := by
  have hmove := h.memoryMove hk e
  generalize (k.step e).stores.memory i = m at hmove
  cases hmove with
  | idle _ hstore => exact hstore ▸ hm
  | outside hstore => exact hstore ▸ hQ.perform hm _ _
  | inside hanswer hstore => exact hstore ▸ hQ.perform hm _ _
  | begin hstore => exact hstore ▸ hQ.emptied hm _
  | finish hrunning hstore => exact hstore ▸ hQ.finish hm _ _

theorem Regular.closed_run (hQ : Memory.Store.Closed Q) (events : List Event) : ∀ {k : Traffic}, k.Regular →
    k.source = .memory i → Q (k.stores.memory i) → Q ((k.run events).stores.memory i) := by
  induction events with
  | nil => exact fun _ _ hm => hm
  | cons e events ih =>
    exact fun h hk hm => ih (h.step e) ((h.later e).source.trans hk) (h.closed_step hk hQ hm e)

/-! ## Pending writes -/

/-- A change of the row in the slot has succeeded in the `n`-th transaction. -/
def Entry.Writes (entry : Entry) (n : Nat) (s : Slot) : Prop :=
  ∃ reading t c, entry.event = .operate (.handle n) (.change reading t c) ∧ entry.answer = .changed (.value ()) ∧
    s = ⟨t, c.key⟩

theorem wrote_cons {n : Nat} {entry : Entry} {entries : List Entry} {s : Slot} :
    Wrote n (entry :: entries) s ↔ entry.Writes n s ∨ Wrote n entries s := by
  simp only [Wrote, Entry.Writes, List.mem_cons, or_and_right, exists_or, exists_eq_left]

theorem Answer.isDone_iff {a : Answer} : a.isDone = true ↔ a = .changed (.value ()) := by
  refine ⟨fun h => ?_, fun h => h ▸ rfl⟩
  unfold isDone at h
  split at h
  · rfl
  · cases h

theorem Operation.slot?_eq_some_iff {op : Operation} {s : Slot} :
    op.slot? = some s ↔ ∃ reading t c, op = .change reading t c ∧ s = ⟨t, c.key⟩ := by
  cases op with
  | change reading t c =>
    refine ⟨fun h => ⟨reading, t, c, rfl, (Option.some.inj h).symm⟩, ?_⟩
    rintro ⟨_, _, _, ⟨⟩, rfl⟩
    rfl
  | get s' => exact ⟨nofun, nofun⟩
  | scan t => exact ⟨nofun, nofun⟩
  | count t => exact ⟨nofun, nofun⟩

theorem writes_iff {e : Event} {n : Nat} {s : Slot} (late : Bool) :
    k.writes n s e = true ↔ Entry.Writes ⟨e, (k.react e).1, late⟩ n s := by
  constructor
  · intro h
    by_cases hown : ∃ op, e = .operate (.handle n) op
    · obtain ⟨op, rfl⟩ := hown
      obtain ⟨hslot, hdone⟩ := (Bool.and_eq_true ..).mp h
      obtain ⟨-, hslot⟩ := (Bool.and_eq_true ..).mp hslot
      obtain ⟨reading, t, c, rfl, hs⟩ := Operation.slot?_eq_some_iff.1 (of_decide_eq_true hslot)
      exact ⟨reading, t, c, rfl, Answer.isDone_iff.1 hdone, hs⟩
    · rw [writes_of_ne (fun op heq => hown ⟨op, heq⟩)] at h
      cases h
  · rintro ⟨reading, t, c, rfl, hanswer, rfl⟩
    have hanswer : (k.react (.operate (.handle n) (.change reading t c))).1 = .changed (.value ()) := hanswer
    simp only [writes, hanswer, Operation.slot?, Answer.isDone, decide_true, Bool.and_self]

/-- The slots of each running transaction's write set are those that it has written. -/
structure Tallied (i : Nat) (written : Nat → Slot → Prop) (k : Traffic) : Prop where
  regular : k.Regular
  source : k.source = .memory i
  slots : ∀ n tx, k.running? n = some tx →
    ∀ s, ((k.stores.memory i).recorded? (Ulid.issued n) s).isSome = true ↔ written n s
  /-- What has not begun has written nothing. -/
  fresh : ∀ n, k.stores.issued ≤ n → ∀ s, ¬ written n s

namespace Tallied

variable {written : Nat → Slot → Prop}

theorem congr (h : Tallied i written k) {written' : Nat → Slot → Prop} (hiff : ∀ n s, written n s ↔ written' n s) :
    Tallied i written' k :=
  ⟨h.regular, h.source, fun n tx hs s => (h.slots n tx hs s).trans (hiff n s),
    fun n hn s hwritten => h.fresh n hn s ((hiff n s).2 hwritten)⟩

/-- At first nothing runs. -/
theorem start {st : Stores} (hin : (Source.memory i).IsIn st) : Tallied i (fun _ _ => False) (on (.memory i) st) :=
  ⟨regular_on hin, rfl, fun _ _ hs => (nomatch hs), fun _ _ _ hwritten => hwritten⟩

/-- **A step adds** the slot that it writes to those of its transaction. -/
theorem step (h : Tallied i written k) (e : Event) (late : Bool) :
    Tallied i (fun n s => written n s ∨ Entry.Writes ⟨e, (k.react e).1, late⟩ n s) (k.step e) where
  regular := h.regular.step e
  source := (h.regular.later e).source.trans h.source
  slots n tx hs s := by
    obtain ⟨hrunning, he⟩ | ⟨id, rfl, rfl, hmade⟩ := h.regular.running_step hs
    · have hunderway : Underway i n k := ⟨h.regular, h.source, tx, hrunning⟩
      rw [hunderway.step he s, Option.isSome_or, Bool.or_eq_true, h.slots n tx hrunning s, ← writes_iff]
      split <;> simp only [*, Option.isSome_some, Option.isSome_none, Bool.false_eq_true]
    · -- it begins under an identifier that no change has been made under
      have hbegin := (begin_memory (h.regular.isIn_memory h.source) (session?_memory h.source id)).1
      rw [(Underway.begin h.regular h.source hbegin).2 s]
      simp only [Option.isSome_none, Bool.false_eq_true, false_iff, not_or]
      exact ⟨h.fresh _ (Nat.le_refl _) s, fun ⟨_, _, _, hevent, _⟩ => nomatch hevent⟩
  fresh n hn s := by
    rintro (hwritten | ⟨reading, t, c, hevent, hanswer, -⟩)
    · exact h.fresh n (Nat.le_trans (h.regular.later e).issued hn) s hwritten
    · -- there is no session inside it, so nothing is done
      obtain rfl : e = .operate (.handle n) (.change reading t c) := hevent
      have hnone : k.session? (.handle n) = none := by
        refine Option.eq_none_iff_forall_ne_some.2 fun tx htx => ?_
        have hlt := (h.regular.twins n tx htx).1
        have hissued := (h.regular.later (.operate (.handle n) (.change reading t c))).issued
        omega
      rw [react_operate_none hnone] at hanswer
      cases hanswer

/-- The slots are told from the answers of a whole run. -/
theorem run (events : List Event) : ∀ {written : Nat → Slot → Prop} {k : Traffic}, Tallied i written k →
    Tallied i (fun n s => written n s ∨ Wrote n (k.trace events) s) (k.run events) := by
  induction events with
  | nil => exact fun h => h.congr fun n s => (or_iff_left fun ⟨_, hmem, _⟩ => List.not_mem_nil hmem).symm
  | cons e events ih =>
    intro written k h
    refine (ih (h.step e (k.isLate e))).congr fun n s => ?_
    rw [trace, wrote_cons, or_assoc]

/-- The slots that a running transaction has written, each of them once, are as many as it counts. -/
theorem pending (h : Tallied i written k) {n : Nat} {tx : Session} (hs : k.running? n = some tx) :
    ∃ slots : List Slot, slots.Nodup ∧ (∀ s, s ∈ slots ↔ written n s) ∧
      tx.pendingWrites? k.stores = some slots.length := by
  obtain ⟨id, rfl⟩ := h.regular.twin_memory h.source (running?_eq_some_iff.1 hs).1
  refine ⟨((k.stores.memory i).writeSet (Ulid.issued n)).keys, SortedMap.nodup_keys _, fun s => ?_, ?_⟩
  · rw [SortedMap.mem_keys_iff, ← h.slots n _ hs s]
    unfold Memory.Store.recorded?
    rw [Option.isSome_map, Option.isSome_iff_exists]
  · unfold SortedMap.keys
    rw [List.length_map]
    rfl

end Tallied

/-- **What a store in memory holds, and what its transactions count.**  However changes that take effect at once,
changes in transactions, commits, refused commits and other ends come one between another, no table is empty and every
row is under its own key.  A running transaction counts as pending the slots that it has changed with success, each of
them once, whatever has come of these changes. -/
theorem store_keeps_its_books {st : Stores} (hst : st.Reachable) {i : Nat} (hin : (Source.memory i).IsIn st)
    (events : List Event) :
    let last := (on (.memory i) st).run events
    (last.stores.memory i).Kept ∧ ∀ n tx, last.running? n = some tx → ∃ slots : List Slot, slots.Nodup ∧
      (∀ s, s ∈ slots ↔ Wrote n ((on (.memory i) st).trace events) s) ∧
      tx.pendingWrites? last.stores = some slots.length := by
  intro last
  have hregular : (on (.memory i) st).Regular := regular_on hin
  have hsettled : (last.stores.memory i).tables.Settled :=
    Regular.closed_run Memory.closed_settled events hregular rfl (hst.every_memory Memory.closed_settled i)
  have hkeyed : (last.stores.memory i).Keyed :=
    Regular.closed_run Memory.closed_keyed events hregular rfl (hst.every_memory Memory.closed_keyed i)
  have htallied := ((Tallied.start hin).run events).congr fun _ _ => iff_of_eq (false_or _)
  exact ⟨.of_closed hsettled hkeyed, fun n tx => htallied.pending⟩

/-- A row is inserted and deleted in one transaction: nothing comes of it, and it is one write. -/
theorem insert_and_delete_is_pending :
    let row : Row := ⟨⟨"x"⟩, 1, "t", "t", ∅⟩
    let events : List Event := [.begin (.session ⟨0⟩), .operate (.handle 0) (.change 0 ⟨"notes"⟩ (.insert row)),
      .operate (.handle 0) (.change 0 ⟨"notes"⟩ (.delete ⟨"x"⟩))]
    let last := (on (.memory 0) (Stores.addMemory {}).2).run events
    (Stores.addMemory {}).2.Reachable ∧ (Source.memory 0).IsIn (Stores.addMemory {}).2 ∧
      ∃ tx, last.running? 0 = some tx ∧ ∃ slots : List Slot, slots.Nodup ∧
        (∀ s, s ∈ slots ↔ Wrote 0 ((on (.memory 0) (Stores.addMemory {}).2).trace events) s) ∧
        tx.pendingWrites? last.stores = some slots.length ∧ slots.length = 1 := by
  intro row events last
  have hst : (Stores.addMemory {}).2.Reachable := .addMemory (.new 0 0)
  have hin : (Source.memory 0).IsIn (Stores.addMemory {}).2 := Nat.zero_lt_one
  have hrunning : last.running? 0 = some (.memory ⟨0⟩ 0 (some (Ulid.issued 0))) := rfl
  obtain ⟨-, hpending⟩ := store_keeps_its_books hst hin events
  obtain ⟨slots, hnodup, hslots, hcount⟩ := hpending 0 _ hrunning
  have hone : (Session.memory ⟨0⟩ 0 (some (Ulid.issued 0))).pendingWrites? last.stores = some 1 := by decide +kernel
  exact ⟨hst, hin, _, hrunning, slots, hnodup, hslots, hcount, Option.some.inj (hcount.symm.trans hone)⟩

end Traffic
end Demarcate
