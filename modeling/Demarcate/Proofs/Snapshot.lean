import Demarcate.Proofs.Git.BranchNames
import Demarcate.Proofs.Git.Reading
import Demarcate.Proofs.Upkeep
/-!
# Snapshot — what a transaction on a repository sees

A transaction begins at the rows that `main` has then, and sees these rows with its own changes made on them, whatever
others do meanwhile (`transaction_sees_snapshot`).  The rows with the changes are those of a store in memory that nobody
else is on (`alone`), so what the transaction answers is what a session on that store does.

What carries the proof is `Sees`: the transaction's branch leads to a tree that reads as the tables of that store.  The
transaction's own changes move both alike (`Watches.sees_own`), and what others do leaves the branch (`Tended.spares`).
-/
namespace Demarcate

open Git (CommitId Reads branchAt branchOf)
open Memory (Tables History)

/-- Every slot and every table is read as the tables have it. -/
structure Session.Shows (st : Stores) (s : Session) (tables : Tables) : Prop where
  get : ∀ slot, s.get st slot = .ok (tables.row? slot)
  scan : ∀ t, s.scan st t = .ok (tables.rowsOf t).values

namespace Memory

/-- What is serial stays so. -/
theorem History.serial_subset (events : List Event) : ∀ {h : History} {d : Done}, d ∈ h.serial →
    d ∈ (events.foldl step h).serial := by
  have hstep : ∀ (h : History) (e : Event) {d : Done}, d ∈ h.serial → d ∈ (h.step e).serial := by
    intro h e d hd
    cases e with
    | begin tx => exact hd
    | change tx now t c =>
      simp only [step, change]
      split
      · cases tx with
        | none => exact List.mem_append_left _ hd
        | some tx =>
          simp only
          split <;> exact hd
      · exact hd
    | commit tx =>
      simp only [step]
      split
      · exact hd
      · split
        · exact List.mem_append_left _ hd
        · exact hd
    | rollback tx =>
      simp only [step]
      split <;> exact hd
    | unwind tx => exact hd
  induction events with
  | nil => exact id
  | cons e events ih => exact fun hd => ih (hstep _ e hd)

/-- A change that succeeds outside of transactions is serial at once. -/
theorem History.step_change {h : History} {now : String} {t : TableName} {c : Change} {row : Option Row}
    (hc : c.resolve now t (h.store.tables.row? ⟨t, c.key⟩) = .value row) :
    h.step (.change none now t c) = { h with
      store := { h.store with tables := h.store.tables.put ⟨t, c.key⟩ row }
      serial := h.serial ++ [⟨now, t, c, row⟩] } := by
  have hrow : (h.store.tables.put ⟨t, c.key⟩ row).row? ⟨t, c.key⟩ = row :=
    (Tables.row?_put ..).trans (if_pos rfl)
  simp only [step, change, apply_none_eq now h.store t c row hc, Store.get, Option.bind_none, hrow]

end Memory

namespace Git.View

open Traffic (Operation Answer)

/-- The branch leads to a tree that reads as the tables. -/
def Sees (v : View) (name : String) (tables : Tables) : Prop :=
  ∃ id c, v.repository.refs.get? name = some (.commit id) ∧ v.repository.commit? id = some c ∧ Reads c.tree tables

variable {v v' : View} {name : String} {tables : Tables}

theorem Sees.leads (h : v.Sees name tables) : ∃ id c, v.At name id c ∧ Reads c.tree tables := by
  obtain ⟨id, c, href, hc, hreads⟩ := h
  exact ⟨id, c, ⟨href, hc⟩, hreads⟩

theorem At.sees {id : CommitId} {c : Commit} (h : v.At name id c) (hreads : Reads c.tree tables) : v.Sees name tables :=
  ⟨id, c, h.ref, h.commit, hreads⟩

/-- What leaves a branch in its place leaves what is seen. -/
theorem Sees.spared (h : v.Sees name tables) (hs : Repository.Spares name v.repository v'.repository) :
    v'.Sees name tables := by
  obtain ⟨id, c, hat, hreads⟩ := h.leads
  exact (hat.spared hs).sees hreads

/-- **Beside `main` and other transactions' branches a transaction begins** whose branch is not there yet. -/
theorem Sees.begin_beside (h : v.Sees RefName.main tables) (hnamed : v.repository.WellNamed) {u : Ulid}
    (hothers : ∀ n t, v.repository.refs.get? n = some t → n = RefName.main ∨ ∃ w, n = branchOf w)
    (hnew : v.repository.refs.get? (branchOf u) = none) :
    ∃ base, (v.begin u).1 = .ok base ∧ (v.begin u).2.Sees RefName.main tables ∧
      ∀ n, (v.begin u).2.repository.refs.get? n =
        if n = branchOf u then some (.commit base) else v.repository.refs.get? n := by
  obtain ⟨base, c, hat, hreads⟩ := h.leads
  unfold View.begin
  rw [Repository.branch_beside (hat.resolve hnamed) hothers hnew]
  refine ⟨base, rfl, ⟨base, c, ?_, hat.commit, hreads⟩, fun n => SortedMap.get?_insert ..⟩
  exact (SortedMap.get?_insert ..).trans ((if_neg (branchOf_ne_main u).symm).trans hat.ref)

section Answers

variable {tx : Option Transaction} (h : v.Sees (branchAt tx) tables) (hnamed : v.repository.WellNamed)

include h hnamed

theorem Sees.read (s : Slot) : v.read tx s = .ok (tables.row? s) := by
  obtain ⟨id, c, hat, hreads⟩ := h.leads
  rw [hat.read hnamed, hreads.row]

theorem Sees.scan (t : TableName) : v.scan tx t = .ok (tables.rowsOf t).values := by
  obtain ⟨id, c, hat, hreads⟩ := h.leads
  rw [hat.scan hnamed, hreads.tableIn]

/-- A change is resolved against the row that is seen, and is made under an author who can be shown. -/
theorem Sees.commitOn_eq (now : String) (t : TableName) (c : Change) : ∃ id before message,
    Reads before tables ∧ v.commitOn now tx t c = (c.resolve now t (tables.row? ⟨t, c.key⟩) >>= fun row =>
      Outcome.ofExcept (Repository.stamp v.handle.author) >>= fun shown => pure (v.repository.next,
        v.repository.extend (branchAt tx) ⟨[id], Repository.withRow before ⟨t, c.key⟩ row, message, shown⟩)) := by
  obtain ⟨id, before, hat, hreads⟩ := h.leads
  refine ⟨id, before.tree, Repository.changeMessage ⟨t, c.key⟩ c.verb (tx.map fun tx => tx.id.lowerText), hreads, ?_⟩
  rw [View.commitOn_eq, Repository.commitTo_eq hnamed (hat.resolve hnamed) (hnamed.normal _ _ hat.ref) hat.commit,
    hreads.row]
  rfl

/-- **What a change comes to**: it is resolved against the row that is seen, and what it leaves is seen then. -/
theorem Sees.commitOn (hauthor : v.handle.author.Usable) (now : String) (t : TableName) (c : Change) :
    match c.resolve now t (tables.row? ⟨t, c.key⟩) with
    | .value row => ∃ id r, v.commitOn now tx t c = .value (id, r) ∧
        ((∀ r, row = some r → r.Legible) →
          View.Sees { v with repository := r } (branchAt tx) (tables.put ⟨t, c.key⟩ row))
    | .failed e => v.commitOn now tx t c = .failed e
    | .unwound text => v.commitOn now tx t c = .unwound text := by
  obtain ⟨shown, hshown, hline⟩ := hauthor
  obtain ⟨id, before, message, hreads, hmade⟩ := h.commitOn_eq hnamed now t c
  rw [hmade, Repository.stamp_eq_ok_iff.2 hshown]
  cases hc : c.resolve now t (tables.row? ⟨t, c.key⟩) with
  | failed e => rfl
  | unwound text => rfl
  | value row =>
    refine ⟨_, _, rfl, fun hlegible => ?_⟩
    refine ⟨v.repository.next, ⟨[id], Repository.withRow before ⟨t, c.key⟩ row, message, shown⟩, ?_, ?_, ?_⟩
    · exact (SortedMap.get?_insert ..).trans (if_pos rfl)
    · exact Repository.commit?_extend v.repository _ (Commit.isReadable_iff.2 hline)
    · refine hreads.withRow fun r hr => ⟨?_, hlegible r hr⟩
      rw [hr] at hc
      exact resolve_key hc

/-- **What is answered on the branch** is what is answered to somebody who is alone with the tables. -/
theorem Sees.answer (hauthor : v.handle.author.Usable) {m : Memory.Store} (hm : m.tables = tables) (op : Operation) :
    (v.perform tx op).1 = (m.perform none op).1 := by
  subst hm
  cases op with
  | get s =>
    simp only [perform, h.read hnamed]
    rfl
  | scan t =>
    simp only [perform, h.scan hnamed]
    rfl
  | count t =>
    simp only [perform, h.scan hnamed]
    rfl
  | change reading t c =>
    have hmade := h.commitOn hnamed hauthor (Clock.stamp reading) t c
    simp only [perform, apply, Memory.Store.perform, Memory.Store.apply, Memory.Store.applyDirectly]
    cases hc : c.resolve (Clock.stamp reading) t (m.tables.row? ⟨t, c.key⟩) with
    | failed e =>
      rw [hc] at hmade
      simp only at hmade
      rw [hmade]
      rfl
    | unwound text =>
      rw [hc] at hmade
      simp only at hmade
      rw [hmade]
      rfl
    | value row =>
      rw [hc] at hmade
      obtain ⟨id, r, hmade, -⟩ := hmade
      rw [hmade]
      rfl

end Answers

end Git.View

namespace Traffic

/-- A change that succeeded in the `n`-th transaction, as it would be made outside of transactions. -/
def ownChange? (n : Nat) (e : Entry) : Option Memory.Event :=
  match e.event, e.answer with
  | .operate (.handle m) (.change reading t c), .changed (.value ()) =>
    if m = n then some (.change none (Clock.stamp reading) t c) else none
  | _, _ => none

/-- The changes that succeeded in the `n`-th transaction, made on tables by somebody who is alone with them. -/
def alone (n : Nat) (tables : Tables) (entries : List Entry) : History :=
  History.of ⟨tables, ∅⟩ (entries.filterMap (ownChange? n))

/-- The transaction has not ended, and its branch leads to the tables. -/
structure Watches (k : Traffic) (i n : Nat) (tables : Tables) : Prop where
  tended : k.Tended i
  running : ∃ s, k.running? n = some s
  author : (k.stores.view i).handle.author.Usable
  sees : (k.stores.view i).Sees (branchOf (Ulid.issued n)) tables

/-- The rows that changes have left can all be read back. -/
def Legible (h : History) : Prop := ∀ d ∈ h.serial, ∀ row, d.row = some row → row.Legible

namespace Watches

variable {k : Traffic} {i n : Nat} {tables : Tables} (h : k.Watches i n tables)

include h

/-- The session inside the transaction answers from the transaction's branch. -/
theorem operate (op : Operation) : ∃ tx : Git.Transaction, tx.id = Ulid.issued n ∧
    (k.stores.view i).Sees (branchAt (some tx)) tables ∧
      (k.react (.operate (.handle n) op)).1 = ((k.stores.view i).perform (some tx) op).1 ∧
      (k.step (.operate (.handle n) op)).stores.view i = ((k.stores.view i).perform (some tx) op).2 := by
  obtain ⟨s, hs⟩ := h.running
  have hsession : k.session? (.handle n) = some s := (running?_eq_some_iff.1 hs).1
  obtain ⟨tx, ⟨id, base, -, rfl⟩, hanswer, hview⟩ := h.tended.operate hsession op
  have hat : ∀ u : Ulid, branchAt (some ⟨u, base⟩) = branchOf u := fun _ => rfl
  refine ⟨_, rfl, ?_, hanswer, hview⟩
  rw [hat]
  exact h.sees

/-- **What the transaction answers** is what is answered to somebody who is alone with the tables. -/
theorem answer {m : Memory.Store} (hm : m.tables = tables) (op : Operation) :
    (k.react (.operate (.handle n) op)).1 = (m.perform none op).1 := by
  obtain ⟨tx, -, hsees, hanswer, -⟩ := h.operate op
  rw [hanswer]
  exact hsees.answer h.tended.orderly.named h.author hm op

/-- What others do leaves what is seen. -/
theorem sees_of_others (e : Event) (hn : (k.step e).Numbered) (hrunning : ∃ s, (k.step e).running? n = some s)
    (hother : ∀ op, e ≠ .operate (.handle n) op) :
    ((k.step e).stores.view i).Sees (branchOf (Ulid.issued n)) tables := by
  obtain ⟨s, hs⟩ := h.running
  exact h.sees.spared (h.tended.spares_running hn hs hrunning hother)

theorem others (e : Event) (hn : (k.step e).Numbered) (hrunning : ∃ s, (k.step e).running? n = some s)
    (hother : ∀ op, e ≠ .operate (.handle n) op) : (k.step e).Watches i n tables :=
  ⟨h.tended.step hn, hrunning, (h.tended.author_step e).symm ▸ h.author, h.sees_of_others e hn hrunning hother⟩

/-- **What is seen moves with the transaction's own changes.** -/
theorem sees_own (op : Operation) (late : Bool) {m : History} (hm : m.store.tables = tables)
    (hlegible : Legible ((ownChange? n
      ⟨.operate (.handle n) op, (k.react (.operate (.handle n) op)).1, late⟩).toList.foldl History.step m)) :
    ((k.step (.operate (.handle n) op)).stores.view i).Sees (branchOf (Ulid.issued n))
      ((ownChange? n ⟨.operate (.handle n) op, (k.react (.operate (.handle n) op)).1, late⟩).toList.foldl
        History.step m).store.tables := by
  subst hm
  obtain ⟨tx, hid, hsees, hanswer, hview⟩ := h.operate op
  rw [← hid, hview]
  rw [hanswer] at hlegible ⊢
  cases op with
  | get s => exact hsees
  | scan t => exact hsees
  | count t => exact hsees
  | change reading t c =>
    have hmade := hsees.commitOn h.tended.orderly.named h.author (Clock.stamp reading) t c
    simp only [Git.View.perform, Git.View.apply] at hlegible ⊢
    cases hc : c.resolve (Clock.stamp reading) t (m.store.tables.row? ⟨t, c.key⟩) with
    | failed e =>
      rw [hc] at hmade
      simp only at hmade
      rw [hmade]
      exact hsees
    | unwound text =>
      rw [hc] at hmade
      simp only at hmade
      rw [hmade]
      exact hsees
    | value row =>
      rw [hc] at hmade
      obtain ⟨id, r, hmade, hnext⟩ := hmade
      rw [hmade] at hlegible ⊢
      have hown : ownChange? n ⟨.operate (.handle n) (.change reading t c), .changed (.value ()), late⟩ =
          some (.change none (Clock.stamp reading) t c) := if_pos rfl
      simp only [Git.View.after, hown, Option.toList_some, List.foldl_cons, List.foldl_nil,
        History.step_change hc] at hlegible ⊢
      exact hnext fun row' hr => hlegible _ (List.mem_append_right _ (List.mem_singleton_self _)) row' hr

/-- **What is seen stays so**, moved by the transaction's own changes and by nothing else. -/
theorem step (e : Event) (hn : (k.step e).Numbered) (hrunning : ∃ s, (k.step e).running? n = some s) {m : History}
    (hm : m.store.tables = tables)
    (hlegible : Legible ((ownChange? n ⟨e, (k.react e).1, k.isLate e⟩).toList.foldl History.step m)) :
    (k.step e).Watches i n
      ((ownChange? n ⟨e, (k.react e).1, k.isLate e⟩).toList.foldl History.step m).store.tables := by
  by_cases hown : ∃ op, e = .operate (.handle n) op
  · obtain ⟨op, rfl⟩ := hown
    refine ⟨h.tended.step hn, hrunning, ?_, h.sees_own op _ hm hlegible⟩
    rw [h.tended.author_step]
    exact h.author
  · have hnone : ownChange? n ⟨e, (k.react e).1, k.isLate e⟩ = none := by
      unfold ownChange?
      split
      · rename_i m reading t c he _
        exact if_neg fun heq => hown ⟨.change reading t c, by rw [← heq]; exact he⟩
      · rfl
    rw [hnone]
    exact hm ▸ h.others e hn hrunning fun op he => hown ⟨op, he⟩

end Watches

/-- What runs still has run all along. -/
theorem Watches.running_step {k : Traffic} {i n : Nat} {tables : Tables} (h : k.Watches i n tables) (e : Event)
    {k' : Traffic} (hlater : Later (k.step e) k') (hrunning : ∃ s, k'.running? n = some s) :
    ∃ s, (k.step e).running? n = some s := by
  obtain ⟨s, hs⟩ := h.running
  obtain ⟨s', hs'⟩ := hrunning
  refine ⟨s, running?_eq_some_iff.2 ⟨(h.tended.regular.later e).handles n s (running?_eq_some_iff.1 hs).1, ?_⟩⟩
  cases hf : (k.step e).fates.get? n with
  | none => rfl
  | some b =>
    have hnone := (running?_eq_some_iff.1 hs').2
    rw [hlater.fates n b hf] at hnone
    cases hnone

/-- **What is seen at the end** is what the transaction's own changes have made of what was seen. -/
theorem Watches.run {i n : Nat} (events : List Event) : ∀ {k : Traffic} {tables : Tables}, k.Watches i n tables →
    (k.run events).Numbered → (∃ s, (k.run events).running? n = some s) → ∀ {m : History}, m.store.tables = tables →
    Legible (((k.trace events).filterMap (ownChange? n)).foldl History.step m) →
    (k.run events).Watches i n (((k.trace events).filterMap (ownChange? n)).foldl History.step m).store.tables := by
  induction events with
  | nil => exact fun h _ _ _ hm _ => hm ▸ h
  | cons e events ih =>
    intro k tables h hn hrunning m hm hlegible
    have hlater := (h.tended.regular.step e).later_run events
    have hbetween := h.running_step e hlater hrunning
    have htrace : k.trace (e :: events) = ⟨e, (k.react e).1, k.isLate e⟩ :: (k.step e).trace events := rfl
    have hfold : ((k.trace (e :: events)).filterMap (ownChange? n)).foldl History.step m =
        (((k.step e).trace events).filterMap (ownChange? n)).foldl History.step
          ((ownChange? n ⟨e, (k.react e).1, k.isLate e⟩).toList.foldl History.step m) := by
      rw [htrace, List.filterMap_cons]
      cases ownChange? n ⟨e, (k.react e).1, k.isLate e⟩ <;> rfl
    rw [hfold] at hlegible ⊢
    refine ih (h.step e (hn.of_later hlater) hbetween hm fun d hd => ?_) hn hrunning rfl hlegible
    exact hlegible d (History.serial_subset _ hd)

/-- **The branch of a transaction is begun** at what `main` leads to. -/
theorem Tended.begun {k : Traffic} {i n : Nat} {tables : Tables} (h : k.Tended i) {through : Through}
    (hbegin : (k.react (.begin through)).1 = .begun (.ok n)) (hsees : (k.stores.view i).Sees Git.RefName.main tables) :
    (∃ s, (k.step (.begin through)).running? n = some s) ∧
      ((k.step (.begin through)).stores.view i).Sees (branchOf (Ulid.issued n)) tables := by
  obtain ⟨id, base, hmade, hview, hrunning⟩ := h.begins hbegin
  obtain ⟨c, hmain, hbranch⟩ := Git.View.begin_at hmade
  obtain ⟨tip, c', hat, hreads⟩ := hsees.leads
  obtain ⟨rfl, rfl⟩ := hmain.unique hat
  refine ⟨⟨_, hrunning⟩, ?_⟩
  rw [hview]
  exact hbranch.sees hreads

/-- There are `main` and branches of transactions, of which none is that of a transaction still to begin. -/
structure Ready (k : Traffic) (i : Nat) (tables : Tables) : Prop where
  tended : k.Tended i
  sees : (k.stores.view i).Sees Git.RefName.main tables
  others : ∀ n t, (k.stores.view i).repository.refs.get? n = some t →
    n = Git.RefName.main ∨ ∃ m < k.stores.issued, n = branchOf (Ulid.issued m)

/-- **There every session can begin a transaction**, and then the next one can. -/
theorem Ready.begin {k : Traffic} {i : Nat} {tables : Tables} (h : k.Ready i tables) (id : Ulid) {count : Nat}
    (hcount : k.stores.issued = count) (hlt : count < Ulid.perMillisecond) :
    (k.react (.begin (.session id))).1 = .begun (.ok count) ∧
      (k.step (.begin (.session id))).stores.issued = count + 1 ∧
      (∃ s, (k.step (.begin (.session id))).running? count = some s) ∧
      (k.step (.begin (.session id))).Ready i tables := by
  subst hcount
  have hnew : (k.stores.view i).repository.refs.get? (branchOf (Ulid.issued k.stores.issued)) = none := by
    cases hget : (k.stores.view i).repository.refs.get? (branchOf (Ulid.issued k.stores.issued)) with
    | none => rfl
    | some t =>
      obtain hmain | ⟨m, hm, heq⟩ := h.others _ t hget
      · exact absurd hmain (Git.branchOf_ne_main _)
      · have := Ulid.issued_inj (Git.branchOf_inj (Ulid.isProper_issued hlt)
          (Ulid.isProper_issued (Nat.lt_trans hm hlt)) heq)
        omega
  obtain ⟨base, hmade, hsees, hrefs⟩ := h.sees.begin_beside h.tended.orderly.named
    (fun n t hn => (h.others n t hn).imp_right fun ⟨m, _, heq⟩ => ⟨_, heq⟩) hnew
  obtain ⟨hanswer, hissued, hview, hrunning⟩ := h.tended.begins_session id hmade
  have htended : (k.step (.begin (.session id))).Tended i := h.tended.step (numbered_of_issued hissued hlt)
  refine ⟨hanswer, hissued, hrunning, htended, ?_, fun n t hn => ?_⟩
  · rw [hview]
    exact hsees
  · rw [hview, hrefs] at hn
    rw [hissued]
    split at hn
    · exact .inr ⟨_, Nat.lt_succ_self _, by assumption⟩
    · exact (h.others n t hn).imp_right fun ⟨m, hm, heq⟩ => ⟨m, Nat.lt_succ_of_lt hm, heq⟩

end Traffic

section Source

variable {st : Stores} {i : Nat} {id : Ulid} {tables : Tables}

/-- What is read of every slot and every table is what `main` leads to. -/
theorem Session.Shows.sees (h : Session.Shows st (.git id i none) tables)
    (horderly : (st.view i).repository.Orderly) : (st.view i).Sees Git.RefName.main tables := by
  have hread : ∀ s, (st.view i).read none s = .ok (tables.row? s) := fun s => get_view id none s ▸ h.get s
  have hscan : ∀ t, (st.view i).scan none t = .ok (tables.rowsOf t).values := fun t => scan_view id none t ▸ h.scan t
  unfold Git.View.read Git.Repository.readRow at hread
  unfold Git.View.scan Git.Repository.scanTable at hscan
  obtain ⟨tip, htip, htree⟩ := bind_ok (hread ⟨⟨""⟩, ⟨""⟩⟩)
  obtain ⟨t, ht, -⟩ := bind_ok htree
  obtain ⟨m, hm, href, hsome⟩ := Git.Repository.resolve_eq_ok_iff.1 htip
  rw [Git.RefName.normal?_main] at hm
  cases hm
  obtain ⟨c, hc⟩ := Option.isSome_iff_exists.1 hsome
  rw [Git.Repository.treeAt_eq hc] at ht
  cases ht
  simp only [htip, ok_bind, Git.Repository.treeAt_eq hc] at hread hscan
  exact ⟨tip, c, href, hc, .of_read (horderly.laid _ _ (Git.Repository.commit?_eq_some hc).2) hread
    fun t => ⟨_, hscan t⟩⟩

theorem Session.shows_of_sees (h : (st.view i).Sees Git.RefName.main tables)
    (hnamed : (st.view i).repository.WellNamed) : Session.Shows st (.git id i none) tables :=
  have hmain : (st.view i).Sees (branchAt none) tables := h
  ⟨hmain.read hnamed, hmain.scan hnamed⟩

end Source

/-! ## A repository that is opened twice -/

/-- The stores after a repository was made and opened again, under another signature. -/
def Stores.openedTwice (author : Git.Signature) : Stores :=
  ((openRepository {} { path := "data" }).2.openRepository
    { path := "data", createIfMissing := false, signature := author }).2

namespace Stores

open Git (Disk Handle Signature)

variable (author : Signature)

theorem reachable_openedTwice : (openedTwice author).Reachable :=
  .openRepository (.openRepository (.new 0 0) _) _

theorem siteOf_data : Git.siteOf "data" = ["data"] := by decide

theorem siteOk_data : Git.siteOk ["data"] = true := by
  simp only [Git.siteOk, List.all_cons, List.all_nil, String.contains_char_eq]
  decide

/-- A repository is made where there was none. -/
theorem open_data : ∃ r, ({} : Git.Repository).start .default = .ok r ∧ openRepository {} { path := "data" } =
    (.ok 0, { disk := Disk.setRepository {} ["data"] r, handles := #[⟨"data", ["data"], .default, ∅⟩] }) := by
  obtain ⟨r, hr⟩ := Git.Repository.start_usable 0 Signature.usable_default
  refine ⟨r, hr, ?_⟩
  have hinit : Handle.openOrInitAt {} "data" .default =
      (.ok ⟨"data", ["data"], .default, ∅⟩, Disk.setRepository {} ["data"] r) := by
    have hfolder : Disk.isFolder {} (Git.siteOf "data" ++ [Git.dotGit]) = false := by decide
    have hout : Disk.outOfDotGit ["data"] = ["data"] := by decide
    have hfresh : Disk.repository {} ["data"] = { number := 0 } := rfl
    unfold Handle.openOrInitAt Handle.initAt
    rw [hfolder, siteOf_data]
    simp only [hout, siteOk_data, hfresh, hr]
    rfl
  unfold openRepository
  simp only [if_true]
  rw [hinit]
  rfl

/-- It is found when it is opened again. -/
theorem reopen_data : ∃ r, ({} : Git.Repository).start .default = .ok r ∧
    (openRepository {} { path := "data" }).2.openRepository
      { path := "data", createIfMissing := false, signature := author } =
    (.ok 1, { disk := Disk.setRepository {} ["data"] r
              handles := #[⟨"data", ["data"], .default, ∅⟩, ⟨"data", ["data"], author, ∅⟩] }) := by
  obtain ⟨r, hr, hfirst⟩ := open_data
  refine ⟨r, hr, ?_⟩
  have hopen : Handle.openAt (Disk.setRepository {} ["data"] r) "data" author = .ok ⟨"data", ["data"], author, ∅⟩ := by
    have hfind : Disk.find? (Disk.setRepository {} ["data"] r) ["data"] = some ["data"] := by
      unfold Disk.find? Disk.setRepository SortedMap.contains
      simp only [SortedMap.get?_insert]
      rfl
    unfold Handle.openAt
    rw [siteOf_data, hfind]
  rw [hfirst]
  unfold openRepository
  simp only [Bool.false_eq_true, if_false]
  rw [hopen]
  rfl

theorem openedTwice_eq : ∃ r, ({} : Git.Repository).start .default = .ok r ∧ openedTwice author =
    { disk := Disk.setRepository {} ["data"] r
      handles := #[⟨"data", ["data"], .default, ∅⟩, ⟨"data", ["data"], author, ∅⟩] } := by
  obtain ⟨r, hr, hopen⟩ := reopen_data author
  exact ⟨r, hr, congrArg Prod.snd hopen⟩

/-- Seen from the second handle, `main` has no rows and nothing else is there. -/
theorem view_openedTwice : ∃ r, (openedTwice author).view 1 = ⟨r, ⟨"data", ["data"], author, ∅⟩⟩ ∧
    (∀ n t, r.refs.get? n = some t → n = Git.RefName.main) ∧ ∃ tip c, r.tip = .ok tip ∧
      r.refs.get? Git.RefName.main = some (.commit tip) ∧ r.commit? tip = some c ∧ c.tree = [] := by
  obtain ⟨r, hr, heq⟩ := openedTwice_eq author
  obtain ⟨-, -, -, hmain, hrefs⟩ := Git.Repository.start_fresh hr
  obtain ⟨c, hc, htree⟩ := Git.Repository.start_tip hr
  refine ⟨r, ?_, hrefs, _, c, ?_, hmain, hc, htree⟩
  · rw [heq]
    unfold view repository handle
    have hrepository : (Disk.setRepository {} ["data"] r).repository ["data"] = r := by
      unfold Disk.repository Disk.setRepository
      simp only [SortedMap.get?_insert]
      rfl
    exact congrArg (Git.View.mk · _) hrepository
  · exact Git.Repository.resolve_of_ref Git.RefName.normal?_main hmain hc

theorem sees_openedTwice : ((openedTwice author).view 1).Sees Git.RefName.main ∅ := by
  obtain ⟨r, hview, -, tip, c, -, hmain, hc, htree⟩ := view_openedTwice author
  rw [hview]
  exact ⟨tip, c, hmain, hc, htree ▸ Reads.nil⟩

theorem size_openedTwice : 1 < (openedTwice author).handles.size := by
  obtain ⟨r, -, heq⟩ := openedTwice_eq author
  rw [heq]
  exact Nat.lt_succ_self 1

theorem issued_openedTwice : (openedTwice author).issued = 0 := by
  obtain ⟨r, -, heq⟩ := openedTwice_eq author
  rw [heq]

theorem handle_openedTwice : (openedTwice author).handle 1 = ⟨"data", ["data"], author, ∅⟩ := by
  obtain ⟨r, -, heq⟩ := openedTwice_eq author
  rw [heq]
  rfl

theorem shows_openedTwice (id : Ulid) : Session.Shows (openedTwice author) (.git id 1 none) ∅ :=
  Session.shows_of_sees (sees_openedTwice author) ((reachable_openedTwice author).orderly 1).named

end Stores

namespace Traffic

theorem ready_openedTwice (author : Git.Signature) : (on (.git 1) (Stores.openedTwice author)).Ready 1 ∅ := by
  obtain ⟨r, hview, honly, -⟩ := Stores.view_openedTwice author
  refine ⟨tended_on (Stores.reachable_openedTwice author) (Stores.size_openedTwice author),
    Stores.sees_openedTwice author, fun n t hn => .inl (honly n t ?_)⟩
  have hrefs : ((Stores.openedTwice author).view 1).repository.refs = r.refs := by rw [hview]
  rw [← hrefs]
  exact hn

/-- A transaction begins there. -/
theorem begins_openedTwice (author : Git.Signature) (id : Ulid) :
    let was := on (.git 1) (Stores.openedTwice author)
    1 < (Stores.openedTwice author).handles.size ∧ (was.react (.begin (.session id))).1 = .begun (.ok 0) ∧
      (was.step (.begin (.session id))).stores.issued = 1 ∧
      ∃ s, (was.step (.begin (.session id))).running? 0 = some s := by
  intro was
  obtain ⟨hanswer, hnext, hrunning, -⟩ := (ready_openedTwice author).begin id (Stores.issued_openedTwice author)
    (by decide)
  exact ⟨Stores.size_openedTwice author, hanswer, hnext, hrunning⟩

/-- **A transaction sees a snapshot.**  Whatever others do on the repository, before the transaction begins and while
it runs, it is answered as its own successful changes have it, made on the rows that were there when it began. -/
theorem transaction_sees_snapshot {st : Stores} (hst : st.Reachable) {i : Nat} (hi : i < st.handles.size)
    (hauthor : (st.handle i).author.Usable) (before after : List Event) {id : Ulid} {tables : Tables}
    {through : Through} {n : Nat} :
    let was := (on (.git i) st).run before
    let begun := was.step (.begin through)
    let now := begun.run after
    let own := alone n tables (begun.trace after)
    now.Numbered → Session.Shows was.stores (.git id i none) tables →
    (was.react (.begin through)).1 = .begun (.ok n) → (∃ s, now.running? n = some s) → Legible own →
      ∀ op, (now.react (.operate (.handle n) op)).1 = (own.store.perform none op).1 := by
  intro was begun now own hn hshows hbegin hrunning hlegible op
  have hin : (Source.git i).IsIn st := hi
  have hregular := (regular_on hin).run before
  have hbegun : begun.Numbered := hn.of_later ((hregular.step _).later_run after)
  have hwas : was.Tended i := (tended_on hst hi).run before (hbegun.of_later (hregular.later _))
  have hauthors : (begun.stores.view i).handle.author = (st.handle i).author :=
    (hwas.author_step _).trans ((tended_on hst hi).author_run before (hbegun.of_later (hregular.later _)))
  obtain ⟨hstart, hsees⟩ := hwas.begun hbegin (hshows.sees hwas.orderly)
  have hwatches : begun.Watches i n tables :=
    ⟨hwas.step hbegun, hstart, by rw [hauthors]; exact hauthor, hsees⟩
  exact (hwatches.run after hn hrunning rfl hlegible).answer rfl op

/-- A row that is inserted beside a transaction is not seen in it. -/
theorem insert_beside_is_not_seen :
    let begun := (on (.git 1) (Stores.openedTwice .default)).step (.begin (.session ⟨0⟩))
    let now := begun.run [.operate (.session ⟨1⟩) (.change 0 ⟨"notes"⟩ (.insert ⟨⟨"x"⟩, 1, "t", "t", ∅⟩))]
    (now.react (.operate (.handle 0) (.get ⟨⟨"notes"⟩, ⟨"x"⟩⟩))).1 = .row (.ok none) := by
  intro begun now
  obtain ⟨hi, hbegin, hissued, hrunning⟩ := begins_openedTwice .default ⟨0⟩
  have hstep : now = { begun with stores := now.stores } ∧ now.stores.issued = begun.stores.issued := by
    show begun.step _ = { begun with stores := (begun.step _).stores } ∧ (begun.step _).stores.issued = _
    unfold step
    rw [react_operate rfl]
    exact ⟨rfl, (Session.steady_perform ..).issued⟩
  have hrunning' : ∃ s, now.running? 0 = some s := by
    rw [hstep.1]
    exact hrunning
  have hn : now.Numbered := numbered_of_issued (hstep.2.trans hissued) (by decide)
  have hauthor : ((Stores.openedTwice .default).handle 1).author.Usable := by
    rw [Stores.handle_openedTwice]
    exact Git.Signature.usable_default
  exact transaction_sees_snapshot (Stores.reachable_openedTwice .default) hi hauthor []
    [.operate (.session ⟨1⟩) (.change 0 ⟨"notes"⟩ (.insert ⟨⟨"x"⟩, 1, "t", "t", ∅⟩))] hn
    (Stores.shows_openedTwice .default ⟨0⟩) hbegin hrunning' (fun d hd => by cases hd) (.get ⟨⟨"notes"⟩, ⟨"x"⟩⟩)

/-- A signature that no commit can be made under is found out by the first change, and the transaction then fails it
where its rows have a place for it. -/
theorem unsigned_insert_fails :
    let begun := (on (.git 1) (Stores.openedTwice ⟨"", "a@b"⟩)).step (.begin (.session ⟨0⟩))
    let insert := Operation.change 0 ⟨"notes"⟩ (.insert ⟨⟨"x"⟩, 1, "t", "t", ∅⟩)
    Session.Shows (Stores.openedTwice ⟨"", "a@b"⟩) (.git ⟨0⟩ 1 none) ∅ ∧ begun.Numbered ∧
      (∃ s, begun.running? 0 = some s) ∧
      (begun.react (.operate (.handle 0) insert)).1 = .changed (.failed .git) ∧
      ((alone 0 ∅ (begun.trace [])).store.perform none insert).1 = .changed (.value ()) := by
  intro begun insert
  obtain ⟨hi, hbegin, hissued, s, hrunning⟩ := begins_openedTwice ⟨"", "a@b"⟩ ⟨0⟩
  have hwas := tended_on (Stores.reachable_openedTwice ⟨"", "a@b"⟩) hi
  have hn : begun.Numbered := numbered_of_issued hissued (by decide)
  have htended : begun.Tended 1 := hwas.step hn
  refine ⟨Stores.shows_openedTwice _ _, hn, ⟨s, hrunning⟩, ?_, rfl⟩
  have hsees := (hwas.begun hbegin (Stores.sees_openedTwice _)).2
  have hsession : begun.session? (.handle 0) = some s := (running?_eq_some_iff.1 hrunning).1
  obtain ⟨tx, ⟨id, base, -, rfl⟩, hanswer, -⟩ := htended.operate hsession insert
  have hauthor : Git.Repository.stamp (begun.stores.view 1).handle.author = .error .git := by
    have hsame : (begun.stores.view 1).handle.author = ((Stores.openedTwice ⟨"", "a@b"⟩).handle 1).author :=
      hwas.author_step _
    rw [hsame, Stores.handle_openedTwice]
    rfl
  have hbranch : (begun.stores.view 1).Sees (branchAt (some ⟨Ulid.issued 0, base⟩)) ∅ := hsees
  obtain ⟨_, _, _, -, hmade⟩ := hbranch.commitOn_eq htended.orderly.named (Clock.stamp 0) ⟨"notes"⟩
    (.insert ⟨⟨"x"⟩, 1, "t", "t", ∅⟩)
  rw [hanswer]
  show Answer.changed ((begun.stores.view 1).after (Git.View.commitOn ..)).1 = _
  rw [hmade, hauthor]
  rfl

end Traffic
end Demarcate
