import Demarcate.Proofs.Memory.Overlay
/-!
# Exercise — tasks that a source is given, and what tables make of them

A task is an operation by itself, or a transaction with the operations in it and its verdict (`Task.run`).  While a
transaction is open others only read, and a transaction may be tried inside it.  Somebody who has nothing but tables
can say what is answered (`Task.expected`): a transaction works on tables of its own, which take the place of the others
if it is committed.

A source that keeps to tables in each single step (`Follows`) answers every exercise as they do (`Follows.run`).
-/
namespace Demarcate

open Engine (Demarcated Verdict)
open Memory (Tables)
open Traffic (Answer Operation)

namespace Engine

variable {α : Type} {e : Engine}

theorem count_unplanned (he : e.plan = none) (c : ProviderCall) : e.count c = (none, e) := by
  unfold count
  rw [he]

/-- Where no faults are planned the stores alone say how a transaction ends. -/
theorem finish_unplanned (he : e.plan = none) (tx : Session) (v : Verdict) : e.finish tx v =
    ((finish { stores := e.stores } tx v).1, { e with stores := (finish { stores := e.stores } tx v).2.stores }) := by
  have hnone : ({ stores := e.stores } : Engine).plan = none := rfl
  cases v with
  | unwind text => rfl
  | rollback =>
    unfold finish
    rw [count_unplanned he .rollback, count_unplanned hnone .rollback]
  | commit =>
    rw [Session.finish_commit]
    unfold finish
    rw [count_unplanned he .commit]
    simp only
    generalize tx.commit e.stores = done
    obtain ⟨made, stores⟩ := done
    cases made <;> rfl

theorem transact_refused (he : e.plan = none) {s : Session} {err : ResourceError}
    (hb : s.begin e.stores = (.error err, e.stores)) (work : Session → Engine → (Verdict × α) × Engine) :
    e.transact s work = (.refused err, e) := by
  unfold transact
  rw [count_unplanned he]
  simp only
  rw [hb]

theorem transact_begun (he : e.plan = none) {s tx : Session} {stores : Stores}
    (hb : s.begin e.stores = (.ok tx, stores)) (work : Session → Engine → (Verdict × α) × Engine) {v : Verdict} {a : α}
    {e' : Engine} (hwork : work tx { e with stores } = ((v, a), e')) :
    e.transact s work = (.ended (e'.finish tx v).1 a, (e'.finish tx v).2) := by
  unfold transact
  rw [count_unplanned he]
  simp only
  rw [hb]
  simp only
  rw [hwork]

end Engine

namespace Exercise

/-! ## Tasks -/

inductive Look where
  | get (s : Slot)
  | scan (t : TableName)
  | count (t : TableName)

def Look.operation : Look → Operation
  | .get s => .get s
  | .scan t => .scan t
  | .count t => .count t

/-- What happens while a transaction is open. -/
inductive Item where
  /-- Something is done through the transaction's handle. -/
  | operate (op : Operation)
  /-- A transaction is tried inside the transaction. -/
  | nest (ops : List Operation) (v : Verdict)
  /-- Another session reads. -/
  | look (id : Ulid) (q : Look)

inductive Task where
  | operate (id : Ulid) (op : Operation)
  | scope (id : Ulid) (items : List Item) (v : Verdict)

inductive Note where
  | answer (a : Answer)
  | nested (d : Demarcated (List Answer))

inductive Reply where
  | answer (a : Answer)
  | scope (d : Demarcated (List Note))

/-! ## On a source -/

def perform (e : Engine) (s : Session) (op : Operation) : Answer × Engine :=
  let (answer, stores) := s.perform e.stores op
  (answer, { e with stores })

def performAll (s : Session) : List Operation → Engine → List Answer × Engine
  | [], e => ([], e)
  | op :: ops, e =>
    let (answer, e) := perform e s op
    let (answers, e) := performAll s ops e
    (answer :: answers, e)

/-- The work of a transaction that is tried inside another one. -/
def nestedWork (ops : List Operation) (v : Verdict) (inner : Session) (e : Engine) :
    (Verdict × List Answer) × Engine :=
  let (answers, e) := performAll inner ops e
  ((v, answers), e)

def Item.run (source : Source) (tx : Session) (e : Engine) : Item → Note × Engine
  | .operate op =>
    let (answer, e) := perform e tx op
    (.answer answer, e)
  | .nest ops v =>
    let (d, e) := e.transact tx (nestedWork ops v)
    (.nested d, e)
  | .look id q =>
    let (answer, e) := perform e (source.session id) q.operation
    (.answer answer, e)

def Item.runAll (source : Source) (tx : Session) : List Item → Engine → List Note × Engine
  | [], e => ([], e)
  | item :: items, e =>
    let (note, e) := item.run source tx e
    let (notes, e) := runAll source tx items e
    (note :: notes, e)

/-- The work of a transaction. -/
def scopeWork (source : Source) (items : List Item) (v : Verdict) (tx : Session) (e : Engine) :
    (Verdict × List Note) × Engine :=
  let (notes, e) := Item.runAll source tx items e
  ((v, notes), e)

def Task.run (source : Source) (e : Engine) : Task → Reply × Engine
  | .operate id op =>
    let (answer, e) := perform e (source.session id) op
    (.answer answer, e)
  | .scope id items v =>
    let (d, e) := e.transact (source.session id) (scopeWork source items v)
    (.scope d, e)

/-- What is answered to one task after the other. -/
def run (source : Source) : List Task → Engine → List Reply
  | [], _ => []
  | task :: tasks, e => (task.run source e).1 :: run source tasks (task.run source e).2

/-! ## On tables -/

/-- `before` are the tables that everybody else sees, `now` those of the transaction. -/
def Item.expected (before now : Tables) : Item → Note × Tables
  | .operate op => (.answer (now.perform op).1, (now.perform op).2)
  | .nest _ _ => (.nested (.refused .nestedTransaction), now)
  | .look _ q => (.answer (before.perform q.operation).1, now)

def Item.expectedAll (before : Tables) : List Item → Tables → List Note × Tables
  | [], now => ([], now)
  | item :: items, now =>
    let (note, now) := item.expected before now
    let (notes, now) := expectedAll before items now
    (note :: notes, now)

def ending : Verdict → Outcome ResourceError Unit
  | .unwind text => .unwound text
  | _ => .value ()

/-- The tables that a transaction leaves. -/
def left (before now : Tables) : Verdict → Tables
  | .commit => now
  | _ => before

def Task.expected (tables : Tables) : Task → Reply × Tables
  | .operate _ op => (.answer (tables.perform op).1, (tables.perform op).2)
  | .scope _ items v =>
    let (notes, now) := Item.expectedAll tables items tables
    (.scope (.ended (ending v) notes), left tables now v)

def expected : List Task → Tables → List Reply
  | [], _ => []
  | task :: tasks, tables => (task.expected tables).1 :: expected tasks (task.expected tables).2

/-! ## Sources that keep to tables -/

/-- Whatever is done outside of a nested transaction. -/
def Item.All (fits : Operation → Prop) : Item → Prop
  | .operate op => fits op
  | _ => True

def Task.All (fits : Operation → Prop) : Task → Prop
  | .operate _ op => fits op
  | .scope _ items _ => ∀ item ∈ items, item.All fits

/-- Each step on the source is one on tables: between the tasks the source is `idle`, and while a transaction is open it
is `inside`, with the tables that others see and those of the transaction. -/
structure Follows (source : Source) (fits : Operation → Prop) (idle : Stores → Tables → Prop)
    (inside : Session → Stores → Tables → Tables → Prop) : Prop where
  operate : ∀ {st tables} (id : Ulid) {op : Operation}, idle st tables → fits op →
    ((source.session id).perform st op).1 = (tables.perform op).1 ∧
      idle ((source.session id).perform st op).2 (tables.perform op).2
  begin : ∀ {st tables} (id : Ulid), idle st tables →
    ∃ tx st', (source.session id).begin st = (.ok tx, st') ∧ inside tx st' tables tables
  proceed : ∀ {tx st before now} {op : Operation}, inside tx st before now → fits op →
    (tx.perform st op).1 = (now.perform op).1 ∧ inside tx (tx.perform st op).2 before (now.perform op).2
  nest : ∀ {tx st before now}, inside tx st before now → tx.begin st = (.error .nestedTransaction, st)
  look : ∀ {tx st before now} (id : Ulid) (q : Look), inside tx st before now →
    (source.session id).perform st q.operation = ((before.perform q.operation).1, st)
  finish : ∀ {tx st before now} (v : Verdict), inside tx st before now →
    (Engine.finish { stores := st } tx v).1 = ending v ∧
      idle (Engine.finish { stores := st } tx v).2.stores (left before now v)

namespace Follows

variable {source : Source} {fits : Operation → Prop} {idle : Stores → Tables → Prop}
  {inside : Session → Stores → Tables → Tables → Prop} (h : Follows source fits idle inside) {e : Engine}

include h

theorem item (he : e.plan = none) {tx : Session} {before now : Tables} (hinside : inside tx e.stores before now)
    {item : Item} (hfits : item.All fits) : (item.run source tx e).1 = (item.expected before now).1 ∧
      (item.run source tx e).2.plan = none ∧
      inside tx (item.run source tx e).2.stores before (item.expected before now).2 := by
  cases item with
  | operate op =>
    obtain ⟨hanswer, hafter⟩ := h.proceed hinside hfits
    exact ⟨congrArg Note.answer hanswer, he, hafter⟩
  | nest ops v =>
    have hrefused : Item.run source tx e (.nest ops v) = (.nested (.refused .nestedTransaction), e) := by
      show (Note.nested (e.transact tx (nestedWork ops v)).1, (e.transact tx (nestedWork ops v)).2) = _
      rw [Engine.transact_refused he (h.nest hinside)]
    rw [hrefused]
    exact ⟨rfl, he, hinside⟩
  | look id q =>
    unfold Item.run perform
    simp only
    rw [h.look id q hinside]
    exact ⟨rfl, he, hinside⟩

theorem items {tx : Session} {before : Tables} {items : List Item} (hfits : ∀ item ∈ items, item.All fits) :
    ∀ {e : Engine} {now : Tables}, e.plan = none → inside tx e.stores before now →
      (Item.runAll source tx items e).1 = (Item.expectedAll before items now).1 ∧
        (Item.runAll source tx items e).2.plan = none ∧
        inside tx (Item.runAll source tx items e).2.stores before (Item.expectedAll before items now).2 := by
  induction items with
  | nil => exact fun he hinside => ⟨rfl, he, hinside⟩
  | cons item items ih =>
    intro e now he hinside
    obtain ⟨hnote, he', hinside'⟩ := h.item he hinside (hfits item List.mem_cons_self)
    obtain ⟨hnotes, hrest⟩ := ih (fun item hi => hfits item (List.mem_cons_of_mem _ hi)) he' hinside'
    refine ⟨?_, hrest⟩
    show (item.run source tx e).1 :: (Item.runAll source tx items (item.run source tx e).2).1 = _
    rw [hnote, hnotes]
    rfl

/-- **A task is answered as on tables**, and leaves what is left of them. -/
theorem task (he : e.plan = none) {tables : Tables} (hidle : idle e.stores tables) {task : Task}
    (hfits : task.All fits) : (task.run source e).1 = (task.expected tables).1 ∧ (task.run source e).2.plan = none ∧
      idle (task.run source e).2.stores (task.expected tables).2 := by
  cases task with
  | operate id op =>
    obtain ⟨hanswer, hafter⟩ := h.operate id hidle hfits
    exact ⟨congrArg Reply.answer hanswer, he, hafter⟩
  | scope id items v =>
    obtain ⟨tx, st', hbegin, hinside⟩ := h.begin id hidle
    have he' : ({ e with stores := st' } : Engine).plan = none := he
    obtain ⟨hnotes, hplan, hdone⟩ := h.items hfits he' hinside
    obtain ⟨hending, hleft⟩ := h.finish v hdone
    have hdone : Task.run source e (.scope id items v) = _ := congrArg (fun d => (Reply.scope d.1, d.2))
      (Engine.transact_begun he hbegin (scopeWork source items v) rfl)
    rw [hdone, Engine.finish_unplanned hplan, hnotes, hending]
    exact ⟨rfl, hplan, hleft⟩

/-- **A source that keeps to tables step by step answers every exercise as they do.** -/
theorem run {tasks : List Task} (hfits : ∀ task ∈ tasks, task.All fits) : ∀ {e : Engine} {tables : Tables},
    e.plan = none → idle e.stores tables → Exercise.run source tasks e = expected tasks tables := by
  induction tasks with
  | nil => exact fun _ _ => rfl
  | cons task tasks ih =>
    intro e tables he hidle
    obtain ⟨hreply, he', hidle'⟩ := h.task he hidle (hfits task List.mem_cons_self)
    show (task.run source e).1 :: Exercise.run source tasks (task.run source e).2 = _
    rw [hreply, ih (fun task ht => hfits task (List.mem_cons_of_mem _ ht)) he' hidle']
    rfl

end Follows

end Exercise
end Demarcate
