import Demarcate.Proofs.Drafting
import Demarcate.Proofs.Snapshot
/-!
# Commuting — transactions that have written different rows

Transactions that have all begun and written before any of them is committed, each in rows of its own, can be committed
in any order (`disjoint_transactions_commute`): every commit succeeds, and in the end there is what each of them has
written, and else what there was.

In memory a commit lays the transaction's write set over the tables, and write sets without a common slot can change
places (`GathersTables`).  On a repository the first commit moves `main` along a branch and the later ones are joined,
each from an older base than the last; but at every moment `main` has the files of the transactions committed so far and
else those of their common base (`GathersBranches`), so nothing stands against the next.
-/
namespace Demarcate

open Git (CommitId branchAt branchOf)
open Memory (PendingWrite Tables WriteSet)
open Demarcate.Git.Tree (fileAt?)

/-! ## What is committed -/

/-- The tables of a store in memory, or the tree that `main` leads to. -/
inductive Committed where
  | tables (t : Tables)
  | tree (t : Git.Tree)

def Committed.row? : Committed → Slot → Except StorageError (Option Row)
  | .tables t, s => .ok (t.row? s)
  | .tree t, s => Git.Repository.rowIn t s

def Committed.rows : Committed → TableName → Except StorageError (List Row)
  | .tables t, name => .ok (t.rowsOf name).values
  | .tree t, name => Git.Repository.tableIn t name

namespace Source

def committed (st : Stores) : Source → Except StorageError Committed
  | .memory i => .ok (.tables (st.memory i).tables)
  | .git i => do
    let r := st.repository i
    return .tree (← r.treeAt (← r.tip))

/-- A session outside of transactions reads what is committed. -/
theorem get_eq (src : Source) (st : Stores) (id : Ulid) (s : Slot) :
    (src.session id).get st s = src.committed st >>= fun c => c.row? s := by
  cases src with
  | memory i => rfl
  | git i =>
    show (do (st.repository i).readRow s (← (st.repository i).tip)) = (do
      return Committed.tree (← (st.repository i).treeAt (← (st.repository i).tip))) >>= fun c => c.row? s
    unfold Git.Repository.readRow
    cases (st.repository i).tip with
    | error e => rfl
    | ok tip => cases h : (st.repository i).treeAt tip <;> simp only [ok_bind, h] <;> rfl

theorem scan_eq (src : Source) (st : Stores) (id : Ulid) (t : TableName) :
    (src.session id).scan st t = src.committed st >>= fun c => c.rows t := by
  cases src with
  | memory i => rfl
  | git i =>
    show (do (st.repository i).scanTable t (← (st.repository i).tip)) = (do
      return Committed.tree (← (st.repository i).treeAt (← (st.repository i).tip))) >>= fun c => c.rows t
    unfold Git.Repository.scanTable
    cases (st.repository i).tip with
    | error e => rfl
    | ok tip => cases h : (st.repository i).treeAt tip <;> simp only [ok_bind, h] <;> rfl

end Source

namespace Memory

/-- The tables with write sets laid over them, one after the other. -/
def layAll (sets : Nat → WriteSet) (tables : Tables) (order : List Nat) : Tables :=
  order.foldl (fun tables n => (sets n).laidOver tables) tables

variable {sets : Nat → WriteSet} {s : Slot}

theorem row?_layAll_of_none : ∀ {order : List Nat} {tables : Tables}, (∀ n ∈ order, (sets n).get? s = none) →
    (layAll sets tables order).row? s = tables.row? s
  | [], _, _ => rfl
  | n :: order, tables, h => by
    have hrest : (layAll sets tables (n :: order)).row? s = ((sets n).laidOver tables).row? s :=
      row?_layAll_of_none fun m hm => h m (List.mem_cons_of_mem _ hm)
    rw [hrest, WriteSet.row?_laidOver, h n List.mem_cons_self]

theorem row?_layAll_of_mem {n : Nat} {p : PendingWrite} (hp : (sets n).get? s = some p) :
    ∀ {order : List Nat} {tables : Tables}, (∀ m ∈ order, m ≠ n → (sets m).get? s = none) →
      (layAll sets tables order).row? s = if n ∈ order then p.write else tables.row? s
  | [], _, _ => rfl
  | m :: order, tables, h => by
    have hrest : (layAll sets tables (m :: order)).row? s =
        if n ∈ order then p.write else ((sets m).laidOver tables).row? s :=
      row?_layAll_of_mem hp fun m' hm' => h m' (List.mem_cons_of_mem _ hm')
    rw [hrest, WriteSet.row?_laidOver]
    by_cases hmn : m = n
    · rw [hmn, hp]
      simp
    · rw [h m List.mem_cons_self hmn]
      simp [Ne.symm hmn]

end Memory

namespace Traffic

/-! ## Commits one after the other -/

def commits (order : List Nat) : List Event := order.map fun n => .finish n .commit

/-- **What every commit succeeds in and keeps**, a row of them succeeds in and keeps.  Some transactions are done, and
the others are still to come. -/
theorem run_commits {P : (done rest : List Nat) → Traffic → Prop}
    (hstep : ∀ {done n rest k}, P done (n :: rest) k → (k.react (.finish n .commit)).1 = .ended (.value ()) ∧
      P (done ++ [n]) rest (k.step (.finish n .commit))) (order : List Nat) : ∀ {done k}, P done order k →
    (∀ e ∈ k.trace (commits order), e.answer = .ended (.value ())) ∧ P (done ++ order) [] (k.run (commits order)) := by
  induction order with
  | nil =>
    intro done k h
    rw [List.append_nil]
    exact ⟨(fun e he => by cases he), h⟩
  | cons n order ih =>
    intro done k h
    obtain ⟨hanswer, hnext⟩ := hstep h
    obtain ⟨hanswers, hlast⟩ := ih hnext
    rw [List.append_assoc] at hlast
    refine ⟨fun e he => ?_, hlast⟩
    obtain rfl | he := List.mem_cons.1 he
    · exact hanswer
    · exact hanswers e he

/-- What the transactions have written is committed as they saw it, and all else is as it was. -/
structure Gathered (ns : List Nat) (written : Nat → Slot → Prop) (k last : Traffic) : Prop where
  brought : ∀ n ∈ ns, ∀ s, written n s → ∀ tx, k.handles.get? n = some tx → ∀ id,
    (k.source.session id).get last.stores s = tx.get k.stores s
  kept : ∀ s, (∀ n ∈ ns, ¬ written n s) → ∀ id,
    (k.source.session id).get last.stores s = (k.source.session id).get k.stores s

/-- No two of the transactions have written one row. -/
def Apart (ns : List Nat) (written : Nat → Slot → Prop) : Prop :=
  ∀ m ∈ ns, ∀ n ∈ ns, m ≠ n → ∀ s, written m s → ¬ written n s

/-- What holds of the transactions that are done does not hold of one that is still to come. -/
theorem not_mem_done {ns done rest : List Nat} {n : Nat} (hperm : (done ++ n :: rest).Perm ns) (hnodup : ns.Nodup) :
    n ∈ ns ∧ n ∉ done ∧ n ∉ rest ∧ (∀ m ∈ done, m ∈ ns) ∧ ((done ++ [n]) ++ rest).Perm ns := by
  have hdone := hperm.nodup_iff.2 hnodup
  obtain ⟨-, hrest, happart⟩ := List.nodup_append.1 hdone
  refine ⟨hperm.mem_iff.1 (List.mem_append_right _ List.mem_cons_self), fun hn => ?_, (List.nodup_cons.1 hrest).1,
    fun m hm => hperm.mem_iff.1 (List.mem_append_left _ hm), ?_⟩
  · exact happart n hn n List.mem_cons_self rfl
  · rw [List.append_assoc]
    exact hperm

/-! ## On a store in memory -/

/-- The write sets that are done are laid over the tables, and the others are still there. -/
structure GathersTables (i : Nat) (tables : Tables) (sets : Nat → WriteSet) (ns done rest : List Nat) (k : Traffic) :
    Prop where
  perm : (done ++ rest).Perm ns
  regular : k.Regular
  source : k.source = .memory i
  running : ∀ n ∈ rest, ∃ s, k.running? n = some s
  gathered : (k.stores.memory i).tables = Memory.layAll sets tables done
  waiting : ∀ n ∈ rest, (k.stores.memory i).writeSet (Ulid.issued n) = sets n

section Memory

variable {i : Nat} {tables : Tables} {sets : Nat → WriteSet} {ns : List Nat}
  (hreads : ∀ n ∈ ns, ∀ s p, (sets n).get? s = some p → p.read = tables.row? s)
  (happart : ∀ m ∈ ns, ∀ n ∈ ns, m ≠ n → ∀ s, ((sets m).get? s).isSome = true → (sets n).get? s = none)

include hreads happart

theorem GathersTables.step (hnodup : ns.Nodup) {done rest : List Nat} {n : Nat} {k : Traffic}
    (h : GathersTables i tables sets ns done (n :: rest) k) :
    (k.react (.finish n .commit)).1 = .ended (.value ()) ∧
      GathersTables i tables sets ns (done ++ [n]) rest (k.step (.finish n .commit)) := by
  obtain ⟨hn, hdone, hrest, hsub, hperm⟩ := not_mem_done h.perm hnodup
  obtain ⟨s, hs⟩ := h.running n List.mem_cons_self
  obtain ⟨id, rfl⟩ := h.regular.twin_memory h.source (running?_eq_some_iff.1 hs).1
  obtain ⟨hanswer, hstore, -⟩ := finish_memory (h.regular.isIn_memory h.source) hs .commit
  have hset := h.waiting n List.mem_cons_self
  have hcommit := Memory.Store.commit_undisturbed (m := k.stores.memory i) (u := Ulid.issued n) fun s p hp => by
    rw [hset] at hp
    rw [h.gathered, hreads n hn s p hp, Memory.row?_layAll_of_none]
    intro m hm
    cases hm' : (sets m).get? s with
    | none => rfl
    | some q =>
      have hnone := happart m (hsub m hm) n hn (fun heq => hdone (heq ▸ hm)) s (by rw [hm']; rfl)
      rw [hp] at hnone
      cases hnone
  have hfinish : (k.stores.memory i).finish (Ulid.issued n) .commit = (.value (),
      { (k.stores.memory i).discard (Ulid.issued n) with
        tables := ((k.stores.memory i).writeSet (Ulid.issued n)).laidOver (k.stores.memory i).tables }) := by
    unfold Memory.Store.finish
    rw [hcommit]
  rw [hfinish] at hanswer hstore
  refine ⟨hanswer, hperm, h.regular.step _, (h.regular.later _).source.trans h.source, fun m hm => ?_, ?_,
    fun m hm => ?_⟩
  · obtain ⟨t, ht⟩ := h.running m (List.mem_cons_of_mem _ hm)
    refine ⟨t, h.regular.running_kept ht fun v he => ?_⟩
    cases he
    exact hrest hm
  · rw [hstore]
    show ((k.stores.memory i).writeSet (Ulid.issued n)).laidOver (k.stores.memory i).tables = _
    rw [hset, h.gathered]
    unfold Memory.layAll
    rw [List.foldl_append]
    rfl
  · rw [hstore, ← h.waiting m (List.mem_cons_of_mem _ hm)]
    show ((k.stores.memory i).discard (Ulid.issued n)).writeSet (Ulid.issued m) = _
    unfold Memory.Store.discard
    rw [Memory.writeSet_setWriteSet, if_neg]
    intro heq
    obtain rfl := Ulid.issued_inj heq
    exact hrest hm

omit hreads in
/-- In whatever order they are laid over the tables, the write sets make the same of them. -/
theorem layAll_perm {order : List Nat} (hperm : order.Perm ns) :
    Memory.layAll sets tables order = Memory.layAll sets tables ns := by
  refine hperm.foldl_eq' (fun m hm n hn t => ?_) tables
  by_cases hmn : m = n
  · rw [hmn]
  · exact WriteSet.laidOver_comm (happart m (hperm.mem_iff.1 hm) n (hperm.mem_iff.1 hn) hmn) t

end Memory

/-! ## On a repository -/

theorem Numbered.finish {k : Traffic} (h : k.Regular) (hn : k.Numbered) (n : Nat) (v : Engine.Verdict) :
    (k.step (.finish n v)).Numbered := by
  have hissued := h.issued_step (e := .finish n v) fun through he => by cases he
  unfold Numbered
  rw [hissued]
  exact hn

/-- `main` has the files of the transactions that are done, and else those of the base, and the branches of the others
are still there. -/
structure GathersBranches (i : Nat) (base : CommitId) (before : Git.Commit) (written : Nat → Slot → Prop)
    (drafts : Nat → Git.Commit) (ns done rest : List Nat) (k : Traffic) : Prop where
  perm : (done ++ rest).Perm ns
  tended : k.Tended i
  numbered : k.Numbered
  running : ∀ n ∈ rest, ∃ id, k.running? n = some (.git id i (some ⟨Ulid.issued n, base⟩))
  gathered : ∃ tip ours, (k.stores.view i).At Git.RefName.main tip ours ∧ ∀ s,
    (∀ n ∈ done, written n s → fileAt? ours.tree (Git.pathOf s) = fileAt? (drafts n).tree (Git.pathOf s)) ∧
      ((∀ n ∈ done, ¬ written n s) → fileAt? ours.tree (Git.pathOf s) = fileAt? before.tree (Git.pathOf s))
  waiting : ∀ n ∈ rest, ∃ head,
    (k.stores.view i).Drafts ⟨Ulid.issued n, base⟩ (written n) before head (drafts n)

namespace GathersBranches

variable {i : Nat} {base : CommitId} {before : Git.Commit} {written : Nat → Slot → Prop} {drafts : Nat → Git.Commit}
  {ns : List Nat}

theorem step (happart : Apart ns written) (hnodup : ns.Nodup) {done rest : List Nat} {n : Nat} {k : Traffic}
    (h : GathersBranches i base before written drafts ns done (n :: rest) k) :
    (k.react (.finish n .commit)).1 = .ended (.value ()) ∧
      GathersBranches i base before written drafts ns (done ++ [n]) rest (k.step (.finish n .commit)) := by
  obtain ⟨hn, hdone, hrest, hsub, hperm⟩ := not_mem_done h.perm hnodup
  obtain ⟨id, hs⟩ := h.running n List.mem_cons_self
  obtain ⟨head, hdrafts⟩ := h.waiting n List.mem_cons_self
  obtain ⟨tip, ours, hmain, hfiles⟩ := h.gathered
  obtain ⟨id', base', hsame, hanswer, hview, -⟩ := h.tended.finish hs .commit
  cases hsame
  simp only [Git.View.finish] at hanswer hview
  have hothers : ∀ m ∈ done, ∀ s, written m s → ¬ written n s := fun m hm =>
    happart m (hsub m hm) n hn fun heq => hdone (heq ▸ hm)
  obtain ⟨hok, tip', ours', hmain', hfiles'⟩ := hdrafts.commit h.tended.orderly hmain fun s hs =>
    (hfiles s).2 fun m hm hms => hothers m hm s hms hs
  have hnumbered := h.numbered.finish h.tended.regular n .commit
  have hkept : ∀ m ∈ rest, ∀ s, k.running? m = some s → (k.step (.finish n .commit)).running? m = some s := by
    intro m hm s hs
    refine h.tended.regular.running_kept hs fun v he => ?_
    cases he
    exact hrest hm
  refine ⟨?_, hperm, h.tended.step hnumbered, hnumbered, fun m hm => ?_, ⟨tip', ours', ?_, fun s => ⟨?_, ?_⟩⟩,
    fun m hm => ?_⟩
  · rw [hanswer, hok]
    rfl
  · obtain ⟨id, hs⟩ := h.running m (List.mem_cons_of_mem _ hm)
    exact ⟨id, hkept m hm _ hs⟩
  · rw [hview]
    exact hmain'
  · intro m hm hms
    obtain hm | hm := List.mem_append.1 hm
    · exact ((hfiles' s).2 (hothers m hm s hms)).trans ((hfiles s).1 m hm hms)
    · obtain rfl := List.mem_singleton.1 hm
      exact (hfiles' s).1 hms
  · intro hnone
    exact ((hfiles' s).2 (hnone n (List.mem_append_right _ (List.mem_singleton_self n)))).trans
      ((hfiles s).2 fun m hm => hnone m (List.mem_append_left _ hm))
  · obtain ⟨head, hwaiting⟩ := h.waiting m (List.mem_cons_of_mem _ hm)
    obtain ⟨id, hs⟩ := h.running m (List.mem_cons_of_mem _ hm)
    exact ⟨head, hwaiting.spared (h.tended.spares_running hnumbered hs ⟨_, hkept m hm _ hs⟩ fun op he => by cases he)
      (h.tended.author_step _)⟩

theorem mem_iff {done : List Nat} {k : Traffic} (h : GathersBranches i base before written drafts ns done [] k)
    {n : Nat} : n ∈ done ↔ n ∈ ns := by
  have hperm := h.perm
  rw [List.append_nil] at hperm
  exact hperm.mem_iff

/-- When all are done, `main` has the same tree, whatever the order was. -/
theorem tree_eq {done done' : List Nat} {k k' : Traffic}
    (h : GathersBranches i base before written drafts ns done [] k)
    (h' : GathersBranches i base before written drafts ns done' [] k') {tip tip' : CommitId} {ours ours' : Git.Commit}
    (hmain : (k.stores.view i).At Git.RefName.main tip ours)
    (hmain' : (k'.stores.view i).At Git.RefName.main tip' ours') : ours.tree = ours'.tree := by
  obtain ⟨tip₁, ours₁, hmain₁, hfiles⟩ := h.gathered
  obtain ⟨tip₂, ours₂, hmain₂, hfiles'⟩ := h'.gathered
  obtain ⟨rfl, rfl⟩ := hmain.unique hmain₁
  obtain ⟨rfl, rfl⟩ := hmain'.unique hmain₂
  refine (h.tended.orderly.commit? hmain.commit).eq_of_files (h'.tended.orderly.commit? hmain'.commit) fun s => ?_
  by_cases hwritten : ∃ n ∈ ns, written n s
  · obtain ⟨n, hn, hs⟩ := hwritten
    exact ((hfiles s).1 n (h.mem_iff.2 hn) hs).trans ((hfiles' s).1 n (h'.mem_iff.2 hn) hs).symm
  · have hleft := (hfiles s).2 fun n hn hs => hwritten ⟨n, h.mem_iff.1 hn, hs⟩
    have hright := (hfiles' s).2 fun n hn hs => hwritten ⟨n, h'.mem_iff.1 hn, hs⟩
    exact hleft.trans hright.symm

/-- When all are done, `main` has what they have written, and else what it had. -/
theorem gathered_all {k last : Traffic} (htended : k.Tended i)
    (hmain : (k.stores.view i).At Git.RefName.main base before)
    (hbranches : ∀ n ∈ ns, DraftsBranch i n base before (written n) k)
    (hdrafts : ∀ n ∈ ns, ∃ head, (k.stores.view i).Drafts ⟨Ulid.issued n, base⟩ (written n) before head (drafts n))
    {done : List Nat} (h : GathersBranches i base before written drafts ns done [] last) :
    Gathered ns written k last := by
  obtain ⟨tip, ours, hlast, hfiles⟩ := h.gathered
  have hlaid := h.tended.orderly.commit? hlast.commit
  have hsource : ∀ id, k.source.session id = .git id i none := fun id => by
    rw [htended.source]
    rfl
  have hafter : (last.stores.view i).At (branchAt none) tip ours := hlast
  have hbefore : (k.stores.view i).At (branchAt none) base before := hmain
  refine ⟨fun n hn s hs tx htx id => ?_, fun s hnone id => ?_⟩
  · obtain ⟨id', hrunning⟩ := (hbranches n hn).running
    obtain rfl := Option.some.inj (htx.symm.trans (running?_eq_some_iff.1 hrunning).1)
    obtain ⟨head, hdraft⟩ := hdrafts n hn
    have hat : (k.stores.view i).At (branchAt (some ⟨Ulid.issued n, base⟩)) head (drafts n) := hdraft.branch
    rw [hsource, Session.get_view, Session.get_view, hafter.read h.tended.orderly.named,
      hat.read htended.orderly.named]
    exact hlaid.rowIn_congr (htended.orderly.commit? hat.commit) ((hfiles s).1 n (h.mem_iff.2 hn) hs)
  · rw [hsource, Session.get_view, Session.get_view, hafter.read h.tended.orderly.named,
      hbefore.read htended.orderly.named]
    exact hlaid.rowIn_congr (htended.orderly.commit? hmain.commit) ((hfiles s).2 fun n hn => hnone n (h.mem_iff.1 hn))

end GathersBranches

/-! ## In any order -/

/-- All commits succeed, whatever their order, and bring what the transactions have written and the same content. -/
def Commute (ns : List Nat) (written : Nat → Slot → Prop) (k : Traffic) (content : Except StorageError Committed) :
    Prop :=
  ∀ order : List Nat, order.Perm ns → (∀ e ∈ k.trace (commits order), e.answer = .ended (.value ())) ∧
    k.Gathered ns written (k.run (commits order)) ∧ k.source.committed (k.run (commits order)).stores = content

section

variable {k : Traffic} {i : Nat} {ns : List Nat} {written : Nat → Slot → Prop}

/-- Write sets that are laid over the tables bring what the transactions have written. -/
theorem gathered_layAll (happart : Apart ns written) (hk : k.source = .memory i) (hregular : k.Regular)
    (hempty : ∀ n ∈ ns, ∀ s, ¬ written n s → ((k.stores.memory i).writeSet (Ulid.issued n)).get? s = none)
    {order : List Nat} (hperm : order.Perm ns) {last : Traffic}
    (hlast : (last.stores.memory i).tables = Memory.layAll (fun n => (k.stores.memory i).writeSet (Ulid.issued n))
      (k.stores.memory i).tables order) : Gathered ns written k last := by
  have hsource : ∀ id, k.source.session id = .memory id i none := fun id => by
    rw [hk]
    rfl
  have hrow : ∀ id s, (Session.memory id i none).get last.stores s = .ok ((last.stores.memory i).tables.row? s) :=
    fun _ _ => rfl
  refine ⟨fun n hn s hs tx htx id => ?_, fun s hnone id => ?_⟩
  · obtain ⟨id', rfl⟩ := hregular.twin_memory hk htx
    have hothers : ∀ m ∈ order, m ≠ n → ((k.stores.memory i).writeSet (Ulid.issued m)).get? s = none :=
      fun m hm hmn => hempty m (hperm.mem_iff.1 hm) s (happart n hn m (hperm.mem_iff.1 hm) (Ne.symm hmn) s hs)
    rw [hsource, hrow, hlast]
    show _ = Except.ok ((k.stores.memory i).get (some (Ulid.issued n)) s)
    unfold Memory.Store.get
    simp only [Option.bind_some]
    cases hp : ((k.stores.memory i).writeSet (Ulid.issued n)).get? s with
    | some p => rw [Memory.row?_layAll_of_mem hp hothers, if_pos (hperm.mem_iff.2 hn)]
    | none =>
      refine congrArg Except.ok (Memory.row?_layAll_of_none fun m hm => ?_)
      by_cases hmn : m = n
      · exact hmn ▸ hp
      · exact hothers m hm hmn
  · rw [hsource, hrow, hlast]
    exact congrArg Except.ok (Memory.row?_layAll_of_none fun m hm =>
      hempty m (hperm.mem_iff.1 hm) s (hnone m (hperm.mem_iff.1 hm)))

theorem commute_memory (hnodup : ns.Nodup) (happart : Apart ns written) (hk : k.source = .memory i)
    (hregular : k.Regular)
    (hdrafts : ∀ n ∈ ns, DraftsTables i n (k.stores.memory i).tables (written n) k) :
    ∃ content, k.Commute ns written content := by
  let sets : Nat → WriteSet := fun n => (k.stores.memory i).writeSet (Ulid.issued n)
  have hreads : ∀ n ∈ ns, ∀ s p, (sets n).get? s = some p → p.read = (k.stores.memory i).tables.row? s := by
    intro n hn s p hp
    obtain ⟨now, hlays⟩ := (hdrafts n hn).lays
    exact hlays.reads s p hp
  have hempty : ∀ n ∈ ns, ∀ s, ¬ written n s → (sets n).get? s = none := fun n hn s hs =>
    Option.not_isSome_iff_eq_none.1 fun hsome => hs ((hdrafts n hn).slots s hsome)
  have hsets : ∀ m ∈ ns, ∀ n ∈ ns, m ≠ n → ∀ s, ((sets m).get? s).isSome = true → (sets n).get? s = none :=
    fun m hm n hn hmn s hs => hempty n hn s (happart m hm n hn hmn s ((hdrafts m hm).slots s hs))
  refine ⟨.ok (.tables (Memory.layAll sets (k.stores.memory i).tables ns)), fun order hperm => ?_⟩
  have hstart : GathersTables i (k.stores.memory i).tables sets ns [] order k :=
    ⟨hperm, hregular, hk, fun n hn => (hdrafts n (hperm.mem_iff.1 hn)).running, rfl, fun _ _ => rfl⟩
  obtain ⟨hanswers, hlast⟩ := run_commits (fun h => h.step hreads hsets hnodup) order hstart
  have htables : ((k.run (commits order)).stores.memory i).tables =
      Memory.layAll sets (k.stores.memory i).tables order := hlast.gathered
  refine ⟨hanswers, gathered_layAll happart hk hregular hempty hperm htables, ?_⟩
  rw [hk, ← layAll_perm hsets hperm, ← htables]
  rfl

theorem committed_of_at {st : Stores} {tip : CommitId} {ours : Git.Commit}
    (hmain : (st.view i).At Git.RefName.main tip ours) (hnamed : (st.view i).repository.WellNamed) :
    (Source.git i).committed st = .ok (.tree ours.tree) := by
  have htip : (st.repository i).tip = .ok tip := hmain.resolve hnamed
  have htree : (st.repository i).treeAt tip = .ok ours.tree := Git.Repository.treeAt_eq hmain.commit
  unfold Source.committed
  simp only [htip, htree, ok_bind]
  rfl

/-- Where nothing was committed meanwhile, all branches have begun where the first of them has. -/
theorem common_base {first : Nat} {rest : List Nat} (hns : ns = first :: rest)
    (hdrafts : ∀ n ∈ ns, ∃ base before, DraftsBranch i n base before (written n) k) :
    ∃ base before, (k.stores.view i).At Git.RefName.main base before ∧
      ∀ n ∈ ns, DraftsBranch i n base before (written n) k := by
  obtain ⟨base, before, hfirst⟩ := hdrafts first (hns ▸ List.mem_cons_self)
  refine ⟨base, before, hfirst.main, fun n hn => ?_⟩
  obtain ⟨base', before', h⟩ := hdrafts n hn
  obtain ⟨rfl, rfl⟩ := hfirst.main.unique h.main
  exact h

theorem commute_git (hnodup : ns.Nodup) (happart : Apart ns written) (hnumbered : k.Numbered) (htended : k.Tended i)
    (hdrafts : ∀ n ∈ ns, ∃ base before, DraftsBranch i n base before (written n) k) :
    ∃ content, k.Commute ns written content := by
  cases hns : ns with
  | nil =>
    refine ⟨k.source.committed k.stores, fun order hperm => ?_⟩
    obtain rfl := hperm.eq_nil
    exact ⟨fun e he => (by cases he), ⟨fun n hn => (by cases hn), fun s _ id => rfl⟩, rfl⟩
  | cons first rest =>
    obtain ⟨base, before, hmain, hbranches⟩ := common_base hns hdrafts
    rw [← hns]
    have hdraft : ∀ n, ∃ c, n ∈ ns → ∃ head,
        (k.stores.view i).Drafts ⟨Ulid.issued n, base⟩ (written n) before head c := fun n => by
      by_cases hn : n ∈ ns
      · obtain ⟨head, c, h⟩ := (hbranches n hn).drafts
        exact ⟨c, fun _ => ⟨head, h⟩⟩
      · exact ⟨before, fun h => absurd h hn⟩
    obtain ⟨drafts, hdraft⟩ := Classical.axiomOfChoice hdraft
    have hrun : ∀ order : List Nat, order.Perm ns →
        (∀ e ∈ k.trace (commits order), e.answer = .ended (.value ())) ∧
          GathersBranches i base before written drafts ns order [] (k.run (commits order)) := fun order hperm =>
      have hstart : GathersBranches i base before written drafts ns [] order k :=
        ⟨hperm, htended, hnumbered, fun n hn => (hbranches n (hperm.mem_iff.1 hn)).running,
          ⟨base, before, hmain, fun s => ⟨fun n hn => (by cases hn), fun _ => rfl⟩⟩,
          fun n hn => hdraft n (hperm.mem_iff.1 hn)⟩
      run_commits (fun h => h.step happart hnodup) order hstart
    obtain ⟨-, hall⟩ := hrun ns (.refl ns)
    obtain ⟨tip, ours, hat, -⟩ := hall.gathered
    refine ⟨.ok (.tree ours.tree), fun order hperm => ?_⟩
    obtain ⟨hanswers, hlast⟩ := hrun order hperm
    obtain ⟨tip', ours', hat', -⟩ := hlast.gathered
    refine ⟨hanswers, hlast.gathered_all htended hmain hbranches hdraft, ?_⟩
    rw [htended.source, committed_of_at hat' hlast.tended.orderly.named, hlast.tree_eq hall hat' hat]

end

/-- Where the store is a repository, transactions have branches of their own, and commits that are made can be read. -/
def Workable (k : Traffic) : Prop :=
  ∀ i, k.source = .git i → k.Numbered ∧ (k.stores.handle i).author.Unbroken

/-- **Transactions that have written different rows can be committed in any order**, if all of them have begun and
written before, and nothing else was written since the first of them began. -/
theorem disjoint_transactions_commute {st : Stores} (hst : st.Reachable) {source : Source} (hin : source.IsIn st)
    (before work : List Event) {ns : List Nat} (hnodup : ns.Nodup) :
    let was := (on source st).run before
    let k := was.run work
    let written := fun n => Wrote n (was.trace work)
    k.Workable → (∀ n ∈ ns, Began n (was.trace work)) → (∀ e ∈ work, e.Quiet ns) → Apart ns written →
      ∃ content, k.Commute ns written content ∧ ∀ order : List Nat, order.Perm ns → ∀ id,
        (∀ s, (source.session id).get (k.run (commits order)).stores s = content >>= fun c => c.row? s) ∧
          ∀ t, (source.session id).scan (k.run (commits order)).stores t = content >>= fun c => c.rows t := by
  intro was k written hworkable hbegan hquiet happart
  have hwas : was.Regular := (regular_on hin).run before
  have hk : k.Regular := hwas.run work
  have hsource : was.source = source := ((regular_on hin).later_run before).source
  have hsource' : k.source = source := (hwas.later_run work).source.trans hsource
  suffices hcommute : ∃ content, k.Commute ns written content by
    obtain ⟨content, hcommute⟩ := hcommute
    refine ⟨content, hcommute, fun order hperm id => ⟨fun s => ?_, fun t => ?_⟩⟩
    · obtain ⟨-, -, hcontent⟩ := hcommute order hperm
      rw [source.get_eq, ← hcontent, hsource']
    · obtain ⟨-, -, hcontent⟩ := hcommute order hperm
      rw [source.scan_eq, ← hcontent, hsource']
  cases source with
  | memory i => exact commute_memory hnodup happart hsource' hk fun n hn =>
      drafts_tables hwas hsource hn hquiet (hbegan n hn)
  | git i =>
    obtain ⟨hnumbered, hauthor⟩ := hworkable i hsource'
    have htended : was.Tended i := (tended_on hst hin).run before (hnumbered.of_later (hwas.later_run work))
    have hauthor' : (was.stores.view i).handle.author.Unbroken := by
      rw [← htended.author_run work hnumbered]
      exact hauthor
    exact commute_git hnodup happart hnumbered (htended.run work hnumbered) fun n hn =>
      drafts_branch htended hauthor' hn hnumbered hquiet (hbegan n hn)

/-- In two transactions a session inserts a row each, after both have begun. -/
def twoInserts : List Event :=
  [.begin (.session ⟨0⟩), .begin (.session ⟨1⟩),
    .operate (.handle 0) (.change 0 ⟨"notes"⟩ (.insert ⟨⟨"x"⟩, 1, "t", "t", ∅⟩)),
    .operate (.handle 1) (.change 0 ⟨"notes"⟩ (.insert ⟨⟨"y"⟩, 1, "t", "t", ∅⟩))]

theorem began_twoInserts {k : Traffic} (h : (k.react (.begin (.session ⟨0⟩))).1 = .begun (.ok 0))
    (h' : ((k.step (.begin (.session ⟨0⟩))).react (.begin (.session ⟨1⟩))).1 = .begun (.ok 1)) :
    ∀ n ∈ [0, 1], Began n (k.trace twoInserts) := by
  intro n hn
  simp only [List.mem_cons, List.not_mem_nil, or_false] at hn
  rcases hn with rfl | rfl
  · exact ⟨_, List.mem_cons_self, ⟨_, rfl⟩, h⟩
  · exact ⟨_, List.mem_cons_of_mem _ List.mem_cons_self, ⟨_, rfl⟩, h'⟩

/-- A change that succeeds is written in its transaction. -/
theorem wrote_of_answer {k : Traffic} {n reading : Nat} {t : TableName} {c : Change} (before : List Event)
    (h : ((k.run before).react (.operate (.handle n) (.change reading t c))).1 = .changed (.value ()))
    (after : List Event) :
    Wrote n (k.trace (before ++ .operate (.handle n) (.change reading t c) :: after)) ⟨t, c.key⟩ := by
  induction before generalizing k with
  | nil => exact ⟨_, List.mem_cons_self, reading, t, c, rfl, h, rfl⟩
  | cons e before ih =>
    obtain ⟨entry, hmem, hwrote⟩ := ih h
    exact ⟨entry, List.mem_cons_of_mem _ hmem, hwrote⟩

theorem quiet_twoInserts : ∀ e ∈ twoInserts, e.Quiet [0, 1] := by
  intro e he
  unfold twoInserts at he
  simp only [List.mem_cons, List.not_mem_nil, or_false] at he
  rcases he with rfl | rfl | rfl | rfl <;> exact trivial

theorem apart_twoInserts (k : Traffic) : Apart [0, 1] fun n => Wrote n (k.trace twoInserts) := by
  have hkey : ∀ n s, Wrote n (k.trace twoInserts) s →
      (n = 0 ∧ s = ⟨⟨"notes"⟩, ⟨"x"⟩⟩) ∨ (n = 1 ∧ s = ⟨⟨"notes"⟩, ⟨"y"⟩⟩) := by
    intro n s hs
    obtain ⟨reading, t, c, hmem, rfl⟩ := hs.mem
    unfold twoInserts at hmem
    simp only [List.mem_cons, List.not_mem_nil, or_false, reduceCtorEq, false_or, Event.operate.injEq,
      Through.handle.injEq, Operation.change.injEq] at hmem
    rcases hmem with ⟨rfl, -, rfl, rfl⟩ | ⟨rfl, -, rfl, rfl⟩
    · exact .inl ⟨rfl, rfl⟩
    · exact .inr ⟨rfl, rfl⟩
  intro m _ n _ hmn s hm hn
  obtain ⟨rfl, rfl⟩ | ⟨rfl, rfl⟩ := hkey m s hm <;> obtain ⟨rfl, hs⟩ | ⟨rfl, hs⟩ := hkey n _ hn
  · exact hmn rfl
  · exact absurd hs (by decide)
  · exact absurd hs (by decide)
  · exact hmn rfl

section Ready

variable {k : Traffic} {i : Nat} {tables : Tables}

/-- On a repository one transaction begins after the other, and both see what `main` leads to. -/
theorem Ready.begin_both (h : k.Ready i tables) (hnone : k.stores.issued = 0)
    (hauthor : (k.stores.view i).handle.author.Usable) (id id' : Ulid) :
    let first := k.step (.begin (.session id))
    let second := first.step (.begin (.session id'))
    (k.react (.begin (.session id))).1 = .begun (.ok 0) ∧ (first.react (.begin (.session id'))).1 = .begun (.ok 1) ∧
      second.stores.issued = 2 ∧ second.Watches i 0 tables ∧ second.Watches i 1 tables := by
  intro first second
  obtain ⟨hfirst, hone, ⟨s, hs⟩, hready⟩ := h.begin id hnone (by decide)
  obtain ⟨hsecond, htwo, hruns, hready'⟩ := hready.begin id' hone (by decide)
  have hauthor₁ : (first.stores.view i).handle.author.Usable := (h.tended.author_step _).symm ▸ hauthor
  have hauthor₂ : (second.stores.view i).handle.author.Usable := (hready.tended.author_step _).symm ▸ hauthor₁
  have hwatches : first.Watches i 0 tables := ⟨hready.tended, ⟨s, hs⟩, hauthor₁, (h.tended.begun hfirst h.sees).2⟩
  have hkept : second.running? 0 = some s := hready.tended.regular.running_kept hs fun v he => by cases he
  exact ⟨hfirst, hsecond, htwo,
    hwatches.others _ (numbered_of_issued htwo (by decide)) ⟨s, hkept⟩ fun op he => (by cases he),
    hready'.tended, hruns, hauthor₂, (hready.tended.begun hsecond hready.sees).2⟩

/-- Both insertions are made then. -/
theorem Ready.twoInserts (h : k.Ready i ∅) (hnone : k.stores.issued = 0)
    (hauthor : (k.stores.view i).handle.author.Usable) :
    (k.run twoInserts).Numbered ∧ (∀ n ∈ [0, 1], Began n (k.trace twoInserts)) ∧
      Wrote 0 (k.trace twoInserts) ⟨⟨"notes"⟩, ⟨"x"⟩⟩ ∧ Wrote 1 (k.trace twoInserts) ⟨⟨"notes"⟩, ⟨"y"⟩⟩ := by
  obtain ⟨hfirst, hsecond, hissued, hwatches, hwatches'⟩ := h.begin_both hnone hauthor ⟨0⟩ ⟨1⟩
  let insert (key : String) : Operation := .change 0 ⟨"notes"⟩ (.insert ⟨⟨key⟩, 1, "t", "t", ∅⟩)
  let begun := (k.step (.begin (.session ⟨0⟩))).step (.begin (.session ⟨1⟩))
  let written := begun.step (.operate (.handle 0) (insert "x"))
  have hwritten : written.stores.issued = 2 :=
    (hwatches.tended.regular.issued_step fun through he => by cases he).trans hissued
  have hlast : (k.run Traffic.twoInserts).stores.issued = 2 :=
    ((hwatches.tended.regular.step _).issued_step fun through he => by cases he).trans hwritten
  -- the second transaction goes on with what it sees
  obtain ⟨s, hs⟩ := hwatches'.running
  have hkept : written.running? 1 = some s := hwatches'.tended.regular.running_kept hs fun v he => by cases he
  have hbeside : written.Watches i 1 ∅ := hwatches'.others _ (numbered_of_issued hwritten (by decide)) ⟨s, hkept⟩
    fun op he => by cases he
  have hx : (begun.react (.operate (.handle 0) (insert "x"))).1 = .changed (.value ()) :=
    hwatches.answer (m := ⟨∅, ∅⟩) rfl _
  have hy : (written.react (.operate (.handle 1) (insert "y"))).1 = .changed (.value ()) :=
    hbeside.answer (m := ⟨∅, ∅⟩) rfl _
  exact ⟨numbered_of_issued hlast (by decide), began_twoInserts hfirst hsecond,
    wrote_of_answer (Traffic.twoInserts.take 2) hx (Traffic.twoInserts.drop 3),
    wrote_of_answer (Traffic.twoInserts.take 3) hy []⟩

end Ready

/-- In a transaction a row is inserted. -/
def oneInsert : List Event :=
  [.begin (.session ⟨0⟩), .operate (.handle 0) (.change 0 ⟨"notes"⟩ (.insert ⟨⟨"x"⟩, 1, "t", "t", ∅⟩))]

theorem quiet_oneInsert : ∀ e ∈ oneInsert, e.Quiet [0] := by
  intro e he
  unfold oneInsert at he
  simp only [List.mem_cons, List.not_mem_nil, or_false] at he
  rcases he with rfl | rfl <;> exact trivial

section OpenedTwice

variable (author : Git.Signature)

theorem began_oneInsert : Began 0 ((on (.git 1) (Stores.openedTwice author)).trace oneInsert) := by
  obtain ⟨-, hbegin, -⟩ := begins_openedTwice author ⟨0⟩
  exact ⟨_, List.mem_cons_self, ⟨_, rfl⟩, hbegin⟩

theorem numbered_oneInsert : ((on (.git 1) (Stores.openedTwice author)).run oneInsert).Numbered := by
  obtain ⟨hi, -, hissued, -⟩ := begins_openedTwice author ⟨0⟩
  have hregular : (on (.git 1) (Stores.openedTwice author)).Regular := regular_on hi
  exact numbered_of_issued (((hregular.step _).issued_step fun through he => by cases he).trans hissued) (by decide)

variable {author}

theorem workable_openedTwice (hauthor : author.Unbroken) {events : List Event}
    (hn : ((on (.git 1) (Stores.openedTwice author)).run events).Numbered) :
    ((on (.git 1) (Stores.openedTwice author)).run events).Workable := by
  intro i hi
  have hin := Stores.size_openedTwice author
  have hregular : (on (.git 1) (Stores.openedTwice author)).Regular := regular_on hin
  have hsource : Source.git 1 = .git i := (hregular.later_run events).source.symm.trans hi
  cases hsource
  refine ⟨hn, ?_⟩
  have hkept : (((on (.git 1) (Stores.openedTwice author)).run events).stores.handle 1).author =
      ((Stores.openedTwice author).handle 1).author :=
    (tended_on (Stores.reachable_openedTwice author) hin).author_run events hn
  rw [hkept, Stores.handle_openedTwice]
  exact hauthor

end OpenedTwice

/-- Two transactions in memory, and two on a repository. -/
theorem inserts_commute :
    let was := on (.memory 0) (Stores.addMemory {}).2
    let was' := on (.git 1) (Stores.openedTwice .default)
    (Wrote 0 (was.trace twoInserts) ⟨⟨"notes"⟩, ⟨"x"⟩⟩ ∧ Wrote 1 (was.trace twoInserts) ⟨⟨"notes"⟩, ⟨"y"⟩⟩) ∧
      (∃ content, (was.run twoInserts).Commute [0, 1] (fun n => Wrote n (was.trace twoInserts)) content) ∧
      (Wrote 0 (was'.trace twoInserts) ⟨⟨"notes"⟩, ⟨"x"⟩⟩ ∧ Wrote 1 (was'.trace twoInserts) ⟨⟨"notes"⟩, ⟨"y"⟩⟩) ∧
      ∃ content, (was'.run twoInserts).Commute [0, 1] (fun n => Wrote n (was'.trace twoInserts)) content := by
  intro was was'
  have hin : (Source.memory 0).IsIn (Stores.addMemory {}).2 := Nat.zero_lt_one
  have hin' : (Source.git 1).IsIn (Stores.openedTwice .default) := Stores.size_openedTwice .default
  obtain ⟨content, hcommute, -⟩ := disjoint_transactions_commute (.addMemory (.new 0 0)) hin [] twoInserts
    (by decide : [0, 1].Nodup) (fun i hi => by cases hi) (began_twoInserts rfl rfl) quiet_twoInserts
    (apart_twoInserts _)
  have hauthor : (was'.stores.view 1).handle.author.Usable := by
    show ((Stores.openedTwice .default).handle 1).author.Usable
    rw [Stores.handle_openedTwice]
    exact Git.Signature.usable_default
  obtain ⟨hnumbered, hbegan, hwrote⟩ := (ready_openedTwice .default).twoInserts (Stores.issued_openedTwice _) hauthor
  obtain ⟨content', hcommute', -⟩ := disjoint_transactions_commute (Stores.reachable_openedTwice .default) hin' []
    twoInserts (by decide : [0, 1].Nodup) (workable_openedTwice Git.Signature.unbroken_default hnumbered) hbegan
    quiet_twoInserts (apart_twoInserts _)
  exact ⟨⟨wrote_of_answer (twoInserts.take 2) rfl (twoInserts.drop 3), wrote_of_answer (twoInserts.take 3) rfl []⟩,
    ⟨content, hcommute⟩, hwrote, content', hcommute'⟩

/-- Under a signature with the end of a line in it a row is written, and cannot be committed: the commit that was made
is found out when it is read. -/
theorem unreadable_draft_is_not_committed :
    let was := on (.git 1) (Stores.openedTwice ⟨"A\nB", "a@b"⟩)
    let k := was.run oneInsert
    (Stores.openedTwice ⟨"A\nB", "a@b"⟩).Reachable ∧ k.Numbered ∧ Began 0 (was.trace oneInsert) ∧
      (∀ e ∈ oneInsert, e.Quiet [0]) ∧ Wrote 0 (was.trace oneInsert) ⟨⟨"notes"⟩, ⟨"x"⟩⟩ ∧
      ∃ e, (k.react (.finish 0 .commit)).1 = .ended (.failed e) := by
  intro was k
  have hn : k.Numbered := numbered_oneInsert _
  have hbegan : Began 0 (was.trace oneInsert) := began_oneInsert _
  obtain ⟨hi, hbegin, -, s, hrunning⟩ := begins_openedTwice ⟨"A\nB", "a@b"⟩ ⟨0⟩
  have hwas : was.Tended 1 := tended_on (Stores.reachable_openedTwice _) hi
  let begun := was.step (.begin (.session ⟨0⟩))
  have hbegun : begun.Tended 1 := hwas.step (hn.of_later ((hwas.regular.step _).later _))
  have hsession : begun.session? (.handle 0) = some s := (running?_eq_some_iff.1 hrunning).1
  -- the insertion is answered as if all were well
  obtain ⟨tx, ⟨id, base, hhandle, rfl⟩, hanswer, hview⟩ := hbegun.operate hsession
    (.change 0 ⟨"notes"⟩ (.insert ⟨⟨"x"⟩, 1, "t", "t", ∅⟩))
  have hbranch : (begun.stores.view 1).Sees (branchAt (some ⟨Ulid.issued 0, base⟩)) ∅ :=
    (hwas.begun hbegin (Stores.sees_openedTwice _)).2
  obtain ⟨parent, before, message, -, hmade⟩ := hbranch.commitOn_eq hbegun.orderly.named (Clock.stamp 0) ⟨"notes"⟩
    (.insert ⟨⟨"x"⟩, 1, "t", "t", ∅⟩)
  have hauthor : Git.Repository.stamp (begun.stores.view 1).handle.author = .ok ⟨"A\nB", "a@b"⟩ := by
    have hsame : (begun.stores.view 1).handle.author = ((Stores.openedTwice ⟨"A\nB", "a@b"⟩).handle 1).author :=
      hwas.author_step _
    have hstamp : Git.Signature.stamp? ⟨"A\nB", "a@b"⟩ = some ⟨"A\nB", "a@b"⟩ := by decide +kernel
    rw [hsame, Stores.handle_openedTwice]
    exact Git.Repository.stamp_eq_ok_iff.2 hstamp
  rw [hauthor] at hmade
  simp only [Git.View.perform, Git.View.apply, hmade] at hanswer hview
  refine ⟨Stores.reachable_openedTwice _, hn, hbegan, quiet_oneInsert,
    ⟨_, List.mem_cons_of_mem _ List.mem_cons_self, 0, _, _, rfl, hanswer, rfl⟩, ?_⟩
  -- and the branch is at a commit that cannot be read
  have hlast : k.Tended 1 := hbegun.step hn
  have hrunning' : k.running? 0 = some s := hbegun.regular.running_kept hrunning fun v he => by cases he
  obtain ⟨id', base', rfl, hended, -⟩ := hlast.finish hrunning' .commit
  have hat : (k.stores.view 1).repository = _ := congrArg Git.View.repository hview
  have href : (k.stores.view 1).repository.refs.get? (branchOf (Ulid.issued 0)) =
      some (.commit (begun.stores.view 1).repository.next) := by
    rw [hat]
    exact (SortedMap.get?_insert ..).trans (if_pos rfl)
  have hnone : (k.stores.view 1).repository.commit? (begun.stores.view 1).repository.next = none := by
    have hline : '\n' ∈ "A\nB".toList := by decide
    rw [hat]
    exact Git.Repository.commit?_extend_unreadable _ _
      (Bool.eq_false_iff.2 fun hread => (Git.Commit.isReadable_iff.1 hread).1 hline)
  have hrefused : ∃ e, ((k.stores.view 1).commit ⟨Ulid.issued 0, base'⟩).1 = .error e :=
    Git.View.commit_unreadable href hnone
  obtain ⟨e, he⟩ := hrefused
  refine ⟨e, ?_⟩
  rw [hended]
  simp only [Git.View.finish, he]
  rfl

end Traffic
end Demarcate
