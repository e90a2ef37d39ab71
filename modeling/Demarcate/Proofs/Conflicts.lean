import Demarcate.Proofs.Alongside
import Demarcate.Proofs.Memory.Overlay
/-!
# Conflicts — which commits in memory are refused

A transaction in memory records, for each slot that it writes, the row that was committed there when it first wrote it.
Later writes keep the record, and a change that fails makes none; what others do does not touch it (`Underway.step`).
So at any moment the records are what can be read off what has happened (`found?`), and a commit is refused for exactly
the slots whose committed row is another one by then (`conflict_is_exact`).
-/
namespace Demarcate

open Traffic (Operation Answer)

/-! ## What a transaction has recorded -/

namespace Traffic

/-- The slot whose row is to be changed. -/
def Operation.slot? : Operation → Option Slot
  | .change _ t c => some ⟨t, c.key⟩
  | _ => none

/-- A change has succeeded. -/
def Answer.isDone : Answer → Bool
  | .changed (.value ()) => true
  | _ => false

end Traffic

namespace Memory.Store

/-- The committed row that a transaction has recorded of a slot, if it has written there. -/
def recorded? (m : Store) (u : Ulid) (s : Slot) : Option (Option Row) := ((m.writeSet u).get? s).map PendingWrite.read

theorem firstRead_eq (m : Store) (u : Ulid) (s : Slot) :
    m.firstRead u s = (m.recorded? u s).getD (m.tables.row? s) := by
  unfold firstRead recorded?
  cases (m.writeSet u).get? s <;> rfl

/-- **What a transaction does adds to its records** the committed row of a slot that it writes for the first time. -/
theorem recorded?_perform (m : Store) (u : Ulid) (op : Operation) (s : Slot) :
    (m.perform (some u) op).2.recorded? u s = (m.recorded? u s).or
      (if op.slot? = some s ∧ (m.perform (some u) op).1.isDone = true then some (m.tables.row? s) else none) := by
  cases op with
  | get s' => exact Option.or_none.symm
  | scan t => exact Option.or_none.symm
  | count t => exact Option.or_none.symm
  | change reading t c =>
    simp only [perform, apply_inside]
    cases c.resolve (Clock.stamp reading) t (m.get (some u) ⟨t, c.key⟩) with
    | failed e =>
      simp only [Outcome.bind, Answer.isDone, Bool.false_eq_true, and_false, if_false, Option.or_none]
    | unwound text =>
      simp only [Outcome.bind, Answer.isDone, Bool.false_eq_true, and_false, if_false, Option.or_none]
    | value row =>
      simp only [Outcome.bind, Operation.slot?, Answer.isDone, and_true, Option.some.injEq]
      unfold recorded?
      rw [writeSet_setWriteSet, if_pos rfl, SortedMap.get?_insert]
      by_cases hs : s = ⟨t, c.key⟩
      · subst hs
        rw [if_pos rfl, if_pos rfl, firstRead_eq]
        unfold recorded?
        cases (m.writeSet u).get? ⟨t, c.key⟩ <;> rfl
      · rw [if_neg hs, if_neg (Ne.symm hs), Option.or_none]

/-! ## The slots that stand against a commit -/

theorem mem_stale {tables : Tables} {ws : WriteSet} {s : Slot} :
    s ∈ stale tables ws ↔ ∃ p, ws.get? s = some p ∧ sameRow (tables.row? s) p.read = false := by
  unfold stale
  simp only [List.mem_map, List.mem_filter, Bool.not_eq_eq_eq_not, Bool.not_true]
  constructor
  · rintro ⟨⟨s', p⟩, ⟨hmem, hrow⟩, rfl⟩
    exact ⟨p, SortedMap.get?_eq_some_iff.2 hmem, hrow⟩
  · rintro ⟨p, hp, hrow⟩
    exact ⟨(s, p), ⟨SortedMap.get?_eq_some_iff.1 hp, hrow⟩, rfl⟩

/-- They come in order, by table and then by key, each of them once. -/
theorem stale_sorted (tables : Tables) (ws : WriteSet) :
    (stale tables ws).Pairwise fun a b => compare a b = .lt :=
  List.pairwise_map.2 (ws.sorted.filter _)

/-- **A commit is refused** for the slots that stand against it, and the writes are discarded then. -/
theorem commit_eq (m : Store) (u : Ulid) :
    (stale m.tables (m.writeSet u) = [] ∧ (m.commit u).1 = .ok ()) ∨
      (stale m.tables (m.writeSet u) ≠ [] ∧
        m.commit u = (.error (stale m.tables (m.writeSet u)), m.discard u)) := by
  have hdiscard : stale (m.discard u).tables (m.writeSet u) = stale m.tables (m.writeSet u) := rfl
  unfold commit
  simp only [hdiscard]
  cases stale m.tables (m.writeSet u) with
  | nil => exact .inl ⟨rfl, rfl⟩
  | cons slot slots => exact .inr ⟨List.cons_ne_nil _ _, rfl⟩

end Memory.Store

theorem Session.stores_refused {st : Stores} {i : Nat} {u : Ulid} {slots : List Slot} {m : Memory.Store} (id : Ulid)
    (h : (st.memory i).commit u = (.error slots, m)) :
    (Engine.finish { stores := st } (.memory id i (some u)) .commit).2.stores = st.setMemory i m := by
  rw [Session.finish_commit, Session.commit_memory, h]

/-! ## What can be read off what has happened -/

namespace Traffic

/-- The event is a change of the slot's row that succeeds in the `n`-th transaction. -/
def writes (k : Traffic) (n : Nat) (s : Slot) : Event → Bool
  | .operate (.handle m) op => m = n && op.slot? = some s && (k.react (.operate (.handle m) op)).1.isDone
  | _ => false

/-- The row that was committed in the slot when the `n`-th transaction first changed it with success; `none` if it never
did. -/
def found? (i n : Nat) (s : Slot) (k : Traffic) : List Event → Option (Option Row)
  | [] => none
  | e :: events =>
    if k.writes n s e then some ((k.stores.memory i).tables.row? s) else found? i n s (k.step e) events

variable {k : Traffic} {i n : Nat}

theorem writes_of_ne {e : Event} (h : ∀ op, e ≠ .operate (.handle n) op) (s : Slot) : k.writes n s e = false := by
  cases e with
  | operate through op =>
    cases through with
    | session id => rfl
    | handle m =>
      have hm : m ≠ n := fun heq => h op (by rw [heq])
      show (decide (m = n) && _ && _) = false
      rw [decide_eq_false hm, Bool.false_and, Bool.false_and]
  | begin through => rfl
  | finish m v => rfl
  | sweep => rfl

/-- The `n`-th transaction is under way on a store in memory. -/
structure Underway (i n : Nat) (k : Traffic) : Prop where
  regular : k.Regular
  source : k.source = .memory i
  running : ∃ s, k.running? n = some s

namespace Underway

/-- A transaction begins with nothing recorded. -/
theorem begin (h : k.Regular) (hk : k.source = .memory i) {through : Through}
    (hbegin : (k.react (.begin through)).1 = .begun (.ok n)) :
    Underway i n (k.step (.begin through)) ∧
      ∀ s, ((k.step (.begin through)).stores.memory i).recorded? (Ulid.issued n) s = none := by
  obtain ⟨id, tx, rfl, rfl, -, hrunning⟩ := h.running_begun hbegin
  obtain ⟨-, hstore⟩ := begin_memory (h.isIn_memory hk) (session?_memory hk id)
  refine ⟨⟨h.step _, (h.later _).source.trans hk, tx, hrunning⟩, fun s => ?_⟩
  rw [hstore]
  unfold Memory.Store.begin Memory.Store.recorded?
  rw [Memory.writeSet_setWriteSet, if_pos rfl]
  rfl

variable (h : Underway i n k)

include h

theorem next {e : Event} (he : ∀ v, e ≠ .finish n v) : Underway i n (k.step e) :=
  have ⟨s, hs⟩ := h.running
  ⟨h.regular.step e, (h.regular.later e).source.trans h.source, s, h.regular.running_kept hs he⟩

/-- **What a step adds to the records** is the committed row of the slot that the transaction writes in it, if the slot
has no record yet. -/
theorem step {e : Event} (he : ∀ v, e ≠ .finish n v) (s : Slot) :
    ((k.step e).stores.memory i).recorded? (Ulid.issued n) s =
      ((k.stores.memory i).recorded? (Ulid.issued n) s).or
        (if k.writes n s e then some ((k.stores.memory i).tables.row? s) else none) := by
  -- where the transaction does nothing, its write set stays, whatever comes of the tables
  have hsame : ∀ m : Memory.Store, (∀ op, e ≠ .operate (.handle n) op) →
      m.writeSet (Ulid.issued n) = (k.stores.memory i).writeSet (Ulid.issued n) →
      m.recorded? (Ulid.issued n) s = ((k.stores.memory i).recorded? (Ulid.issued n) s).or
        (if k.writes n s e then some ((k.stores.memory i).tables.row? s) else none) := fun m hne hset => by
    rw [writes_of_ne hne, if_neg Bool.false_ne_true, Option.or_none]
    unfold Memory.Store.recorded?
    rw [hset]
  obtain ⟨tx, hs⟩ := h.running
  have hmove := h.regular.memoryMove h.source e
  by_cases hown : ∃ op, e = .operate (.handle n) op
  · obtain ⟨op, rfl⟩ := hown
    have hsession : k.session? (.handle n) = some tx := (running?_eq_some_iff.1 hs).1
    obtain ⟨id, rfl⟩ := h.regular.twin_memory h.source hsession
    obtain ⟨hanswer, hstore⟩ := operate_memory (h.regular.isIn_memory h.source) hsession op
    rw [hstore, Memory.Store.recorded?_perform]
    simp only [writes, hanswer, decide_true, Bool.true_and, Bool.and_eq_true, decide_eq_true_eq]
  have hne : ∀ op, e ≠ .operate (.handle n) op := fun op heq => hown ⟨op, heq⟩
  generalize (k.step e).stores.memory i = m at hmove
  cases hmove with
  | idle _ hm => exact hsame m hne (by rw [hm])
  | outside hm => exact hsame m hne (by rw [hm, Memory.Store.writeSet_perform_none])
  | @inside n' op hanswer hm =>
    have hn : n' ≠ n := fun heq => hne op (by rw [heq])
    obtain ⟨-, hothers⟩ := (k.stores.memory i).perform_inside (Ulid.issued n') op
    exact hsame m hne (by rw [hm, hothers _ fun heq => hn (Ulid.issued_inj heq).symm])
  | begin hm =>
    have hlt := (h.regular.twins n tx (running?_eq_some_iff.1 hs).1).1
    refine hsame m hne ?_
    rw [hm]
    unfold Memory.Store.begin
    rw [Memory.writeSet_setWriteSet, if_neg fun heq => by have := Ulid.issued_inj heq; omega]
  | @finish n' v hrunning hm =>
    have hn : n' ≠ n := fun heq => he v (by rw [heq])
    obtain ⟨hothers, -⟩ := (k.stores.memory i).finish_cases (Ulid.issued n') v
    exact hsame m hne (by rw [hm, hothers _ fun heq => hn (Ulid.issued_inj heq).symm])

/-- **What a transaction has recorded** of a slot is what it had recorded before, and otherwise what it has found
there. -/
theorem run (s : Slot) (events : List Event) (hopen : ∀ v, .finish n v ∉ events) :
    Underway i n (k.run events) ∧ ((k.run events).stores.memory i).recorded? (Ulid.issued n) s =
      ((k.stores.memory i).recorded? (Ulid.issued n) s).or (found? i n s k events) := by
  induction events generalizing k with
  | nil => exact ⟨h, Option.or_none.symm⟩
  | cons e events ih =>
    have he : ∀ v, e ≠ .finish n v := fun v heq => hopen v (heq ▸ List.mem_cons_self)
    obtain ⟨hlast, hrecorded⟩ := ih (h.next he) fun v hmem => hopen v (List.mem_cons_of_mem _ hmem)
    refine ⟨hlast, ?_⟩
    show (((k.step e).run events).stores.memory i).recorded? (Ulid.issued n) s = _
    rw [hrecorded, h.step he, Option.or_assoc]
    rw [found?]
    split <;> rfl

/-- **How a commit ends.**  It is refused for the slots that stand against it, if there are any, and then nothing but
the transaction's own writes goes. -/
theorem commit :
    let store := k.stores.memory i
    let slots := Memory.Store.stale store.tables (store.writeSet (Ulid.issued n))
    (k.react (.finish n .commit)).1 = .ended (if slots = [] then .value () else
        .failed (.conflict (Ulid.issued n).text (slots.map Slot.path))) ∧
      (slots ≠ [] → (k.step (.finish n .commit)).stores =
        k.stores.setMemory i (store.discard (Ulid.issued n))) := by
  intro store slots
  obtain ⟨tx, hs⟩ := h.running
  obtain ⟨id, rfl⟩ := h.regular.twin_memory h.source (running?_eq_some_iff.1 hs).1
  obtain ⟨hanswer, -⟩ := finish_memory (h.regular.isIn_memory h.source) hs .commit
  rw [hanswer]
  obtain ⟨hslots, hcommit⟩ | ⟨hslots, hcommit⟩ := store.commit_eq (Ulid.issued n)
  · refine ⟨?_, fun hne => absurd hslots hne⟩
    rw [if_pos hslots]
    unfold Memory.Store.finish
    generalize store.commit (Ulid.issued n) = committed at hcommit
    obtain ⟨result, m⟩ := committed
    cases hcommit
    rfl
  · refine ⟨?_, fun _ => ?_⟩
    · rw [if_neg hslots]
      unfold Memory.Store.finish
      rw [hcommit]
    · unfold Traffic.step
      rw [react_finish hs]
      exact Session.stores_refused id hcommit

end Underway

/-- **A commit in memory is refused for exactly the rows that have changed** since the transaction first wrote them.
Whatever others do, the slots that it names are those whose committed row is not the one that was committed when the
transaction first changed the slot with success: each once, by table and then by key.  Where there is one, no table is
changed, and only the transaction's own writes go. -/
theorem conflict_is_exact (h : k.Regular) (hk : k.source = .memory i) {through : Through}
    (hbegin : (k.react (.begin through)).1 = .begun (.ok n)) (events : List Event)
    (hopen : ∀ v, .finish n v ∉ events) :
    let begun := k.step (.begin through)
    let last := begun.run events
    let store := last.stores.memory i
    ∃ slots : List Slot, slots.Pairwise (fun a b => compare a b = .lt) ∧
      (∀ s, s ∈ slots ↔
        ∃ row, found? i n s begun events = some row ∧ Memory.sameRow (store.tables.row? s) row = false) ∧
      (∀ s, found? i n s begun events = some (store.tables.row? s) → s ∉ slots) ∧
      (last.react (.finish n .commit)).1 = .ended (if slots = [] then .value () else
        .failed (.conflict (Ulid.issued n).text (slots.map Slot.path))) ∧
      (slots ≠ [] → (last.step (.finish n .commit)).stores =
        last.stores.setMemory i (store.discard (Ulid.issued n))) := by
  intro begun last store
  obtain ⟨hbegun, hempty⟩ := Underway.begin h hk hbegin
  have hlast : Underway i n last := (hbegun.run default events hopen).1
  have hfound : ∀ s, store.recorded? (Ulid.issued n) s = found? i n s begun events := fun s => by
    have hrecorded := (hbegun.run s events hopen).2
    rw [hempty, Option.none_or] at hrecorded
    exact hrecorded
  have hmem : ∀ s, s ∈ Memory.Store.stale store.tables (store.writeSet (Ulid.issued n)) ↔
      ∃ row, found? i n s begun events = some row ∧ Memory.sameRow (store.tables.row? s) row = false := fun s => by
    rw [Memory.Store.mem_stale, ← hfound s]
    unfold Memory.Store.recorded?
    constructor
    · rintro ⟨p, hp, hrow⟩
      exact ⟨p.read, by rw [hp]; rfl, hrow⟩
    · rintro ⟨row, hread, hrow⟩
      obtain ⟨p, hp, rfl⟩ := Option.map_eq_some_iff.1 hread
      exact ⟨p, hp, hrow⟩
  refine ⟨_, Memory.Store.stale_sorted _ _, hmem, fun s hs hslot => ?_, hlast.commit⟩
  obtain ⟨row, hrow, hdiffers⟩ := (hmem s).1 hslot
  cases hs.symm.trans hrow
  rw [Memory.sameRow_refl] at hdiffers
  cases hdiffers

/-- A row stands against a commit that was inserted beside the transaction, where it had inserted one. -/
theorem insert_beside_conflicts :
    let row : Row := ⟨⟨"x"⟩, 1, "t", "t", ∅⟩
    let insertion : Operation := .change 0 ⟨"notes"⟩ (.insert row)
    let begun := (on (.memory 0) (Stores.addMemory {}).2).step (.begin (.session ⟨0⟩))
    let last := begun.run [.operate (.handle 0) insertion, .operate (.session ⟨0⟩) insertion]
    ∃ slots : List Slot, ⟨⟨"notes"⟩, ⟨"x"⟩⟩ ∈ slots ∧ (last.react (.finish 0 .commit)).1 =
      .ended (.failed (.conflict (Ulid.issued 0).text (slots.map Slot.path))) := by
  intro row insertion begun last
  have hin : (Source.memory 0).IsIn (Stores.addMemory {}).2 := Nat.zero_lt_one
  obtain ⟨slots, -, hmem, -, hanswer, -⟩ := conflict_is_exact (regular_on hin) rfl
    (rfl : ((on (.memory 0) (Stores.addMemory {}).2).react (.begin (.session ⟨0⟩))).1 = .begun (.ok 0))
    [.operate (.handle 0) insertion, .operate (.session ⟨0⟩) insertion] (by simp)
  have hslot : ⟨⟨"notes"⟩, ⟨"x"⟩⟩ ∈ slots := (hmem _).2 ⟨none, rfl, by decide +kernel⟩
  rw [if_neg (List.ne_nil_of_mem hslot)] at hanswer
  exact ⟨slots, hslot, hanswer⟩

end Traffic
end Demarcate
