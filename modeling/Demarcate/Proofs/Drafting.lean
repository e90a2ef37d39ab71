import Demarcate.Proofs.Alongside
import Demarcate.Proofs.Git.Drafts
import Demarcate.Proofs.Memory.Overlay
/-!
# Drafting — what transactions have written while nothing is committed

From the moment at which a transaction begins, and for as long as nothing is committed (`Event.Quiet`), what the
transaction has written stands beside the rows that were committed then, which are the committed ones still.  On a store
in memory it is in the transaction's write set (`DraftsTables`), on a repository on the transaction's branch
(`DraftsBranch`).  In both it is in the slots of the changes that have succeeded (`Wrote`) and in no others.
-/
namespace Demarcate

open Git (CommitId branchOf)
open Memory (Tables)

namespace Traffic

def Operation.IsRead : Operation → Prop
  | .change _ _ _ => False
  | _ => True

theorem Operation.IsRead.memory {op : Operation} (h : op.IsRead) (m : Memory.Store) (tx : Option Ulid) :
    (m.perform tx op).2 = m := by
  cases op with
  | change reading t c => exact h.elim
  | get s => rfl
  | scan t => rfl
  | count t => rfl

theorem Operation.IsRead.view {op : Operation} (h : op.IsRead) (v : Git.View) (tx : Option Git.Transaction) :
    (v.perform tx op).2 = v := by
  cases op with
  | change reading t c => exact h.elim
  | get s => rfl
  | scan t => rfl
  | count t => rfl

/-- The event commits nothing and ends none of the transactions. -/
def Event.Quiet (ns : List Nat) : Event → Prop
  | .operate (.session _) op => op.IsRead
  | .finish n v => n ∉ ns ∧ v ≠ .commit
  | _ => True

/-- The `n`-th transaction has begun. -/
def Began (n : Nat) (entries : List Entry) : Prop :=
  ∃ e ∈ entries, (∃ through, e.event = .begin through) ∧ e.answer = .begun (.ok n)

/-- A change of the row in the slot has succeeded in the `n`-th transaction. -/
def Wrote (n : Nat) (entries : List Entry) (s : Slot) : Prop :=
  ∃ e ∈ entries, ∃ reading t c, e.event = .operate (.handle n) (.change reading t c) ∧ e.answer = .changed (.value ()) ∧
    s = ⟨t, c.key⟩

variable {k last : Traffic} {ns : List Nat} {i n : Nat} {written : Slot → Prop}

theorem Wrote.mem {events : List Event} {s : Slot} (h : Wrote n (k.trace events) s) :
    ∃ reading t c, .operate (.handle n) (.change reading t c) ∈ events ∧ s = ⟨t, c.key⟩ := by
  obtain ⟨e, he, reading, t, c, hevent, -, hs⟩ := h
  obtain ⟨before, after, heq, -⟩ := mem_trace he
  refine ⟨reading, t, c, ?_, hs⟩
  rw [heq, ← hevent]
  exact List.mem_append_right _ List.mem_cons_self

/-- **What is kept by every step at which nothing is committed** is kept by a run of them, if what the transaction
writes in the run is among the slots. -/
theorem run_quiet {P : Traffic → Prop} (hregular : ∀ {k}, P k → k.Regular)
    (hstep : ∀ {k e}, P k → Later (k.step e) last → e.Quiet ns →
      (∀ reading t c, e = .operate (.handle n) (.change reading t c) → (k.react e).1 = .changed (.value ()) →
        written ⟨t, c.key⟩) → P (k.step e)) (events : List Event) :
    ∀ {k : Traffic}, P k → k.run events = last → (∀ e ∈ events, e.Quiet ns) →
      (∀ s, Wrote n (k.trace events) s → written s) → P last := by
  induction events with
  | nil => exact fun h hlast _ _ => hlast ▸ h
  | cons e events ih =>
    intro k h hlast hquiet hwrote
    have hrun : (k.step e).run events = last := hlast
    refine ih (hstep h ?_ (hquiet e List.mem_cons_self) fun reading t c he hanswer => ?_) hrun
      (fun e' he' => hquiet e' (List.mem_cons_of_mem _ he')) fun s ⟨entry, hmem, hs⟩ => ?_
    · exact hrun ▸ ((hregular h).step e).later_run events
    · exact hwrote _ ⟨_, List.mem_cons_self, reading, t, c, he, hanswer, rfl⟩
    · exact hwrote s ⟨entry, List.mem_cons_of_mem _ hmem, hs⟩

/-- The moment at which a transaction has begun, and what has happened since. -/
theorem Began.split {events : List Event} (h : Began n (k.trace events)) : ∃ before through after,
    events = before ++ .begin through :: after ∧ ((k.run before).react (.begin through)).1 = .begun (.ok n) ∧
      k.run events = ((k.run before).step (.begin through)).run after ∧
      ∀ s, Wrote n (((k.run before).step (.begin through)).trace after) s → Wrote n (k.trace events) s := by
  obtain ⟨entry, hmem, ⟨through, hevent⟩, hanswer⟩ := h
  obtain ⟨before, after, heq, hreact⟩ := mem_trace hmem
  rw [hevent] at heq hreact
  refine ⟨before, through, after, heq, hreact.symm.trans hanswer, ?_, fun s ⟨e, he, hs⟩ => ⟨e, ?_, hs⟩⟩
  · rw [heq, run_append]
    rfl
  · rw [heq, trace_append]
    exact List.mem_append_right _ (List.mem_cons_of_mem _ he)

theorem Event.Quiet.ne_finish {e : Event} (h : e.Quiet ns) (hn : n ∈ ns) (v : Engine.Verdict) : e ≠ .finish n v := by
  rintro rfl
  exact h.1 hn

theorem isCommitted_of_ne {v : Engine.Verdict} (hv : v ≠ .commit) (outcome : Outcome ResourceError Unit) :
    isCommitted v outcome = false := by
  cases v with
  | commit => exact absurd rfl hv
  | rollback => rfl
  | unwind text => rfl

/-! ## On a store in memory -/

/-- The transaction has written, over the committed tables, in some slots. -/
structure DraftsTables (i n : Nat) (tables : Tables) (written : Slot → Prop) (k : Traffic) : Prop where
  regular : k.Regular
  source : k.source = .memory i
  running : ∃ s, k.running? n = some s
  lays : ∃ now, (k.stores.memory i).Lays (Ulid.issued n) tables now
  slots : ∀ s, (((k.stores.memory i).writeSet (Ulid.issued n)).get? s).isSome = true → written s

namespace DraftsTables

variable {tables : Tables}

/-- A transaction begins with nothing written. -/
theorem begin (h : k.Regular) (hk : k.source = .memory i) {through : Through}
    (hbegin : (k.react (.begin through)).1 = .begun (.ok n)) (written : Slot → Prop) :
    DraftsTables i n (k.stores.memory i).tables written (k.step (.begin through)) := by
  obtain ⟨id, tx, rfl, rfl, -, hrunning⟩ := h.running_begun hbegin
  obtain ⟨-, hstore⟩ := begin_memory (h.isIn_memory hk) (session?_memory hk id)
  refine ⟨h.step _, (h.later _).source.trans hk, ⟨tx, hrunning⟩, ?_, fun s hs => ?_⟩
  · rw [hstore]
    exact ⟨_, Memory.Store.lays_begin ..⟩
  · rw [hstore] at hs
    unfold Memory.Store.begin at hs
    rw [Memory.writeSet_setWriteSet, if_pos rfl] at hs
    cases hs

variable (h : DraftsTables i n tables written k)

include h

theorem step {e : Event} (hn : n ∈ ns) (hquiet : e.Quiet ns) (hwrites : ∀ reading t c,
      e = .operate (.handle n) (.change reading t c) → (k.react e).1 = .changed (.value ()) → written ⟨t, c.key⟩) :
    DraftsTables i n tables written (k.step e) := by
  obtain ⟨s, hs⟩ := h.running
  obtain ⟨now, hlays⟩ := h.lays
  suffices hstore : (∃ now, ((k.step e).stores.memory i).Lays (Ulid.issued n) tables now) ∧ ∀ s,
      ((((k.step e).stores.memory i).writeSet (Ulid.issued n)).get? s).isSome = true → written s from
    ⟨h.regular.step e, (h.regular.later e).source.trans h.source,
      ⟨s, h.regular.running_kept hs (hquiet.ne_finish hn)⟩, hstore.1, hstore.2⟩
  have hsame : ∀ m : Memory.Store, m.tables = (k.stores.memory i).tables →
      m.writeSet (Ulid.issued n) = (k.stores.memory i).writeSet (Ulid.issued n) →
      (∃ now, m.Lays (Ulid.issued n) tables now) ∧
        ∀ s, ((m.writeSet (Ulid.issued n)).get? s).isSome = true → written s :=
    fun m htables hset => ⟨⟨now, hlays.congr htables hset⟩, by rw [hset]; exact h.slots⟩
  have hmove := h.regular.memoryMove h.source e
  generalize (k.step e).stores.memory i = m at hmove
  cases hmove with
  | idle _ hm => exact hsame m (by rw [hm]) (by rw [hm])
  | @outside id op hm =>
    rw [Operation.IsRead.memory hquiet] at hm
    exact hsame m (by rw [hm]) (by rw [hm])
  | @inside n' op hanswer hm =>
    obtain ⟨htables, hothers⟩ := (k.stores.memory i).perform_inside (Ulid.issued n') op
    by_cases hown : n' = n
    · subst hown
      rw [hm]
      refine ⟨⟨_, (hlays.perform op).2⟩, fun s hs => ?_⟩
      obtain hbefore | ⟨reading, t, c, rfl, hchanged, rfl⟩ := Memory.Store.slot_of_perform hs
      · exact h.slots s hbefore
      · exact hwrites reading t c rfl (hanswer.trans hchanged)
    · exact hsame m (by rw [hm, htables]) (by rw [hm, hothers _ fun heq => hown (Ulid.issued_inj heq).symm])
  | begin hm =>
    have hlt := (h.regular.twins n s (running?_eq_some_iff.1 hs).1).1
    refine hsame m (by rw [hm]; rfl) ?_
    rw [hm]
    unfold Memory.Store.begin
    rw [Memory.writeSet_setWriteSet, if_neg fun heq => by have := Ulid.issued_inj heq; omega]
  | @finish n' v hrunning hm =>
    obtain ⟨hothers, hcases⟩ := (k.stores.memory i).finish_cases (Ulid.issued n') v
    obtain ⟨hcommitted, -⟩ | ⟨-, htables⟩ := hcases
    · rw [isCommitted_of_ne hquiet.2] at hcommitted
      cases hcommitted
    · have hne : n ≠ n' := fun heq => hquiet.1 (heq ▸ hn)
      exact hsame m (by rw [hm, htables]) (by rw [hm, hothers _ fun heq => hne (Ulid.issued_inj heq)])

theorem run (hn : n ∈ ns) (events : List Event) (hquiet : ∀ e ∈ events, e.Quiet ns)
    (hwrote : ∀ s, Wrote n (k.trace events) s → written s) : DraftsTables i n tables written (k.run events) :=
  run_quiet (fun h => h.regular) (fun h _ hquiet hwrites => h.step hn hquiet hwrites) events h rfl hquiet hwrote

end DraftsTables

/-- **What a transaction on a store in memory has written** is in its write set, read where the tables are still. -/
theorem drafts_tables (h : k.Regular) (hk : k.source = .memory i) (hn : n ∈ ns) {events : List Event}
    (hquiet : ∀ e ∈ events, e.Quiet ns) (hbegan : Began n (k.trace events)) :
    DraftsTables i n ((k.run events).stores.memory i).tables (Wrote n (k.trace events)) (k.run events) := by
  obtain ⟨before, through, after, rfl, hbegin, hrun, hwrote⟩ := hbegan.split
  have hsource := (h.later_run before).source.trans hk
  have hlast := (DraftsTables.begin (h.run before) hsource hbegin _).run hn after
    (fun e he => hquiet e (List.mem_append_right _ (List.mem_cons_of_mem _ he))) hwrote
  rw [← hrun] at hlast
  obtain ⟨now, hlays⟩ := hlast.lays
  rw [hlays.committed]
  exact hlast

/-! ## On a repository -/

/-- The transaction's branch has the files of some slots beside those of `main`, which is at the transaction's base. -/
structure DraftsBranch (i n : Nat) (base : CommitId) (before : Git.Commit) (written : Slot → Prop) (k : Traffic) :
    Prop where
  tended : k.Tended i
  running : ∃ id, k.running? n = some (.git id i (some ⟨Ulid.issued n, base⟩))
  author : (k.stores.view i).handle.author.Unbroken
  main : (k.stores.view i).At Git.RefName.main base before
  drafts : ∃ head c, (k.stores.view i).Drafts ⟨Ulid.issued n, base⟩ written before head c

/-- Where nothing is committed, `main` stays. -/
theorem Tended.spares_main (h : k.Tended i) {e : Event} (hquiet : e.Quiet ns) :
    Git.Repository.Spares Git.RefName.main (k.stores.view i).repository ((k.step e).stores.view i).repository := by
  cases h.move e with
  | idle _ hview =>
    rw [hview]
    exact .refl ..
  | @perform through op tx hacts hview =>
    rw [hview]
    cases through with
    | session id =>
      rw [Operation.IsRead.view hquiet]
      exact .refl ..
    | handle m =>
      obtain ⟨id, base, -, rfl⟩ := hacts
      exact .of_moves (Git.View.moves_perform _ _ op).1 (Git.branchOf_ne_main _).symm
  | begin hissued hbranch hview =>
    rw [hview]
    exact .of_moves (Session.moves_branch hbranch) (Git.branchOf_ne_main _).symm
  | @finish m v s r b hs hmoves hnamed hview =>
    obtain ⟨id, base, -, -, hend, -⟩ := h.finish hs v
    rw [hend, Git.View.finish_uncommitted (isCommitted_of_ne hquiet.2 _)]
    exact .of_moves (Git.View.moves_drop ..) (Git.branchOf_ne_main _).symm
  | sweep hview =>
    rw [hview]
    exact Git.View.sweep_spares h.orderly.named fun id hid => absurd hid.symm (Git.RefName.ofTransaction_ne_main id)

namespace DraftsBranch

variable {base : CommitId} {before : Git.Commit}

/-- A transaction begins with nothing written. -/
theorem begin (h : k.Tended i) (hauthor : (k.stores.view i).handle.author.Unbroken) {through : Through}
    (hbegin : (k.react (.begin through)).1 = .begun (.ok n)) (hn : (k.step (.begin through)).Numbered)
    (written : Slot → Prop) : ∃ base before, DraftsBranch i n base before written (k.step (.begin through)) := by
  obtain ⟨id, base, hmade, hview, hrunning⟩ := h.begins hbegin
  obtain ⟨before, hmain, hdrafts⟩ := Git.View.drafts_begin hmade written
  have hquiet : Event.Quiet [] (.begin through) := trivial
  refine ⟨base, before, h.step hn, ⟨id, hrunning⟩, ?_, hmain.spared (h.spares_main hquiet), base, before, ?_⟩
  · rw [h.author_step]
    exact hauthor
  · rw [hview]
    exact hdrafts

variable (h : DraftsBranch i n base before written k)

include h

theorem step {e : Event} (hnumbered : (k.step e).Numbered) (hn : n ∈ ns) (hquiet : e.Quiet ns)
    (hwrites : ∀ reading t c, e = .operate (.handle n) (.change reading t c) →
      (k.react e).1 = .changed (.value ()) → written ⟨t, c.key⟩) :
    DraftsBranch i n base before written (k.step e) := by
  obtain ⟨id, hs⟩ := h.running
  obtain ⟨head, c, hdrafts⟩ := h.drafts
  have hrunning := h.tended.regular.running_kept hs (hquiet.ne_finish hn)
  refine ⟨h.tended.step hnumbered, ⟨id, hrunning⟩, ?_, h.main.spared (h.tended.spares_main hquiet), ?_⟩
  · rw [h.tended.author_step]
    exact h.author
  by_cases hown : ∃ op, e = .operate (.handle n) op
  · obtain ⟨op, rfl⟩ := hown
    have hsession : k.session? (.handle n) = some (.git id i (some ⟨Ulid.issued n, base⟩)) :=
      (running?_eq_some_iff.1 hs).1
    obtain ⟨tx, ⟨id', base', hhandle, rfl⟩, hanswer, hview⟩ := h.tended.operate hsession op
    obtain hsame := Option.some.inj (hhandle.symm.trans (running?_eq_some_iff.1 hs).1)
    cases hsame
    rw [hview]
    exact hdrafts.perform h.tended.orderly.named h.author op fun reading t change hop hchanged =>
      hwrites reading t change (by rw [hop]) (hanswer.trans hchanged)
  · have hspares := h.tended.spares_running hnumbered hs ⟨_, hrunning⟩ fun op he => hown ⟨op, he⟩
    exact ⟨head, c, hdrafts.spared hspares (h.tended.author_step e)⟩

theorem run (hn : n ∈ ns) (events : List Event) (hnumbered : (k.run events).Numbered)
    (hquiet : ∀ e ∈ events, e.Quiet ns) (hwrote : ∀ s, Wrote n (k.trace events) s → written s) :
    DraftsBranch i n base before written (k.run events) :=
  run_quiet (fun h => h.tended.regular)
    (fun h hlater hquiet hwrites => h.step (hnumbered.of_later hlater) hn hquiet hwrites) events h rfl hquiet hwrote

end DraftsBranch

/-- **What a transaction on a repository has written** is on its branch, which began where `main` is still. -/
theorem drafts_branch (h : k.Tended i) (hauthor : (k.stores.view i).handle.author.Unbroken) (hn : n ∈ ns)
    {events : List Event} (hnumbered : (k.run events).Numbered) (hquiet : ∀ e ∈ events, e.Quiet ns)
    (hbegan : Began n (k.trace events)) :
    ∃ base before, DraftsBranch i n base before (Wrote n (k.trace events)) (k.run events) := by
  obtain ⟨before, through, after, rfl, hbegin, hrun, hwrote⟩ := hbegan.split
  rw [hrun] at hnumbered ⊢
  have hregular := h.regular.run before
  have hbegun := hnumbered.of_later ((hregular.step _).later_run after)
  have hbefore := hbegun.of_later (hregular.later _)
  have hauthor' : ((k.run before).stores.view i).handle.author.Unbroken := by
    rw [h.author_run before hbefore]
    exact hauthor
  obtain ⟨base, c, hdrafts⟩ := DraftsBranch.begin (h.run before hbefore) hauthor' hbegin hbegun _
  exact ⟨base, c, hdrafts.run hn after hnumbered
    (fun e he => hquiet e (List.mem_append_right _ (List.mem_cons_of_mem _ he))) hwrote⟩

end Traffic
end Demarcate
