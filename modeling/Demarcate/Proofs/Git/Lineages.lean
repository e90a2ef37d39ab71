import Demarcate.Proofs.Drafting
import Demarcate.Proofs.Lineage
/-!
# Lineages — the files of a repository and their ledger

The ledger that is told from the answers has the lineages of all rows whose files `main` and the branches of running
transactions have (`Ledger.OfBranches`).  The files have the very texts of these rows; a change reads its row back from
such a text, which has the version and the time of creation in it whatever the columns are.  A commit takes each file
from the branch where its text is another one than at the base, and else from `main` (`View.commit_lands`), as the
ledger does.
-/
namespace Demarcate

open Lineage (Bounded)

/-- What the file of a row is read as, or its absence. -/
def Lineage.reread (key : RowKey) : Option Lineage → Except StorageError (Option Row)
  | none => .ok none
  | some l => (Row.decode l.row.encode key).map some

theorem Lineage.reread_some (key : RowKey) (l : Lineage) :
    reread key (some l) = (Row.decode l.row.encode key).map some := rfl

/-- **A row that is read from its file has its lineage's version and times.** -/
theorem Lineage.reread_heading {key : RowKey} {l? : Option Lineage} {row? : Option Row} (hbounded : Bounded l?)
    (h : reread key l? = .ok row?) : row?.map Row.heading = l?.map fun l => l.row.heading := by
  cases l? with
  | none =>
    cases h
    rfl
  | some l =>
    have hversion : l.row.version ≤ Row.greatestVersion := hbounded l rfl
    rw [reread_some] at h
    obtain ⟨row, hrow, rfl⟩ := map_ok h
    exact congrArg some (Row.decode_heading hversion hrow)

/-- A row whose numbers are integers of 64 bits is read as it is. -/
theorem Lineage.reread_plain {key : RowKey} {l : Lineage} {row : Row} (hplain : l.row.Plain)
    (h : reread key (some l) = .ok (some row)) : row = l.row := by
  rw [reread_some] at h
  obtain ⟨_, hrow, hsome⟩ := map_ok h
  cases hsome
  by_cases hreadable : l.row.Readable
  · obtain ⟨hown, hothers⟩ := Row.decode_readable hplain hreadable
    by_cases hkey : key = l.row.key
    · rw [hkey, hown] at hrow
      cases hrow
      rfl
    · cases (hothers key hkey).symm.trans hrow
  · obtain ⟨e, he⟩ := Row.decode_unreadable hplain hreadable
    cases (he key).symm.trans hrow

namespace Git

open Demarcate.Git.Tree (Laid fileAt? differAt)
open Repository (rowIn withRow Spares Grown)

/-- The tree has the files of the rows that have come about as the lineages say, and no others of rows. -/
def Tree.Tells (t : Tree) (lineages : Slot → Option Lineage) : Prop :=
  ∀ s, fileAt? t (pathOf s) = Lineage.text? (lineages s) ∧ Bounded (lineages s)

namespace Tree.Tells

variable {t : Tree} {lineages : Slot → Option Lineage}

/-- **A row is read from its file**, if there is one. -/
theorem rowIn_eq (h : t.Tells lineages) (hlaid : Laid t) (s : Slot) :
    rowIn t s = Lineage.reread s.key (lineages s) := by
  obtain ⟨hfile, -⟩ := h s
  cases hl : lineages s with
  | none =>
    rw [hl] at hfile
    unfold rowIn
    rw [hlaid.entryAt?_eq, hfile]
    rfl
  | some l =>
    rw [hl] at hfile
    have hfile : fileAt? t (pathOf s) = some l.row.encode := hfile
    rw [rowIn_of_fileAt? hfile, Lineage.reread_some]

theorem withRow (h : t.Tells lineages) {s : Slot} {l? : Option Lineage} {row : Option Row}
    (hrow : row = l?.map Lineage.row) (hbounded : Bounded l?) :
    Tree.Tells (withRow t s row) (Function.update lineages s l?) := by
  intro s'
  rw [fileAt?_withRow, Function.update_apply]
  split
  · refine ⟨?_, hbounded⟩
    rw [hrow, Option.map_map]
    rfl
  · exact h s'

end Tree.Tells

namespace View

open Traffic (Operation Answer)

variable {v v' : View} {name : String} {lineages : Slot → Option Lineage}

/-- **What an operation does**: a change succeeds, or everything stays. -/
theorem perform_cases (v : View) (tx : Option Transaction) (op : Operation) :
    (∃ reading t c id r, op = .change reading t c ∧ v.commitOn (Clock.stamp reading) tx t c = .value (id, r) ∧
      v.perform tx op = (.changed (.value ()), { v with repository := r })) ∨
      (v.perform tx op).1.isDone = false ∧ (v.perform tx op).2 = v := by
  cases op with
  | get s => exact .inr ⟨rfl, rfl⟩
  | scan t => exact .inr ⟨rfl, rfl⟩
  | count t => exact .inr ⟨rfl, rfl⟩
  | change reading t c =>
    unfold perform apply
    simp only
    cases hmade : v.commitOn (Clock.stamp reading) tx t c with
    | value made => exact .inl ⟨reading, t, c, made.1, made.2, rfl, hmade, rfl⟩
    | failed e => exact .inr ⟨rfl, rfl⟩
    | unwound text => exact .inr ⟨rfl, rfl⟩

/-- A reference that stays leads to no other commit than before. -/
theorem At.of_spared (hsound : v.repository.Sound) {id : CommitId} {c : Commit} (h : v'.At name id c)
    (hs : Spares name v.repository v'.repository) : v.At name id c := by
  have href := hs.ref.symm.trans h.ref
  obtain ⟨hstore, hlt⟩ := hsound.refs name id href
  obtain ⟨-, hat⟩ := Repository.commit?_eq_some h.commit
  have hsame := hs.grown.commits _ _ (Array.getElem?_eq_getElem hlt)
  rw [hat, Option.some.injEq] at hsame
  refine ⟨href, ?_⟩
  have hread := h.commit
  unfold Repository.commit? at hread ⊢
  rw [if_pos hstore, Array.getElem?_eq_getElem hlt, ← hsame]
  rw [if_pos (hs.grown.number ▸ hstore), hat] at hread
  exact hread

/-- A reference that has moved to a new commit leads to that one. -/
theorem At.extended {r : Repository} {handle : Handle} {commit c : Commit} {id : CommitId}
    (h : View.At ⟨r.extend name commit, handle⟩ name id c) : c = commit := by
  have href : (r.extend name commit).refs.get? name = some (.commit r.next) :=
    (SortedMap.get?_insert ..).trans (if_pos rfl)
  cases href.symm.trans h.ref
  exact Option.some.inj
    ((Repository.kept?_of_commit? h.commit).symm.trans (Repository.kept?_extend r name commit))

theorem at_of_resolve {id : CommitId} {tx : Option Transaction} (h : v.repository.resolve (branchAt tx) = .ok id) :
    ∃ c, v.At (branchAt tx) id c := by
  obtain ⟨n, hn, href, hsome⟩ := Repository.resolve_eq_ok_iff.1 h
  obtain rfl := normal?_branchAt hn
  obtain ⟨c, hc⟩ := Option.isSome_iff_exists.1 hsome
  exact ⟨c, href, hc⟩

/-- The reference leads to files that have the lineages, if to any that can be read. -/
def Tells (v : View) (name : String) (lineages : Slot → Option Lineage) : Prop :=
  ∀ id c, v.At name id c → c.tree.Tells lineages

theorem Tells.spared (h : v.Tells name lineages) (hsound : v.repository.Sound)
    (hs : Spares name v.repository v'.repository) : v'.Tells name lineages :=
  fun id c hat => h id c (hat.of_spared hsound hs)

/-- **What is read on a branch**: nothing at all, or every row from the text that its lineage has. -/
theorem Tells.read (tx : Option Transaction) (h : v.Tells (branchAt tx) lineages)
    (horderly : v.repository.Orderly) :
    (∃ e, ∀ s, v.read tx s = .error e) ∨
      ∀ s, Bounded (lineages s) ∧ v.read tx s = Lineage.reread s.key (lineages s) := by
  cases hhead : v.repository.resolve (branchAt tx) with
  | error e =>
    refine .inl ⟨e, fun s => ?_⟩
    unfold View.read
    rw [snapshot_eq, hhead]
    rfl
  | ok head =>
    obtain ⟨c, hat⟩ := at_of_resolve hhead
    have htells := h head c hat
    refine .inr fun s => ⟨(htells s).2, ?_⟩
    rw [hat.read horderly.named]
    exact htells.rowIn_eq (horderly.commit? hat.commit) s

/-- **A change continues the lineage that its branch has in the slot.** -/
theorem Tells.change (tx : Option Transaction) (h : v.Tells (branchAt tx) lineages) (horderly : v.repository.Orderly)
    {reading : Nat} {t : TableName} {c : Change} {id : CommitId} {r : Repository} (hc : c.Versioned)
    (hmade : v.commitOn (Clock.stamp reading) tx t c = .value (id, r)) :
    Tells { v with repository := r } (branchAt tx)
      (Function.update lineages ⟨t, c.key⟩ (Lineage.extend reading c (lineages ⟨t, c.key⟩))) := by
  rw [commitOn_eq] at hmade
  obtain ⟨n, parent, before, existing, row, shown, hn, href, hbefore, hrow, hresolve, -, rfl, rfl⟩ :=
    Repository.commitTo_made horderly.named hmade
  obtain rfl := normal?_branchAt hn
  have htells := h parent before ⟨href, hbefore⟩
  rw [htells.rowIn_eq (horderly.commit? hbefore)] at hrow
  have hheading := Lineage.reread_heading (htells ⟨t, c.key⟩).2 hrow
  intro id' c' hat
  rw [hat.extended]
  exact htells.withRow (Lineage.resolve_extend hheading hresolve) (Lineage.bounded_extend hheading hc hresolve)

/-- What was committed is the commit's. -/
theorem finish_committed {tx : Transaction} {vd : Engine.Verdict}
    (h : Traffic.isCommitted vd (v.finish tx vd).1 = true) :
    vd = .commit ∧ (v.commit tx).1 = .ok () ∧ (v.finish tx vd).2 = (v.commit tx).2 := by
  cases vd with
  | unwind text => cases h
  | rollback => cases h
  | commit =>
    have hfinish : v.finish tx .commit = (.ofExcept (v.commit tx).1, (v.commit tx).2) := rfl
    rw [hfinish] at h ⊢
    generalize v.commit tx = made at h
    obtain ⟨result, last⟩ := made
    cases result with
    | ok u => exact ⟨rfl, rfl, rfl⟩
    | error e => cases h

section Commit

variable {tx : Transaction} {before : Commit} (horderly : v.repository.Orderly) (hsound : v.repository.Sound)
  (hbase : v.repository.commit? tx.base = some before)

include horderly hsound hbase

/-- **What a commit leaves on `main`**: each file of the branch that is another one than at the base, and else the file
that `main` had. -/
theorem commit_lands (hok : (v.commit tx).1 = .ok ()) {id : CommitId} {c : Commit}
    (hat : (v.commit tx).2.At RefName.main id c) :
    ∃ head theirs tip ours, v.At (branchOf tx.id) head theirs ∧ v.At RefName.main tip ours ∧
      ∀ s, fileAt? c.tree (pathOf s) = Tree.mergedAt? before.tree ours.tree theirs.tree (pathOf s) := by
  cases hm : v.repository.merge v.handle.author tx.id.lowerText tx.base with
  | error e =>
    unfold commit at hok
    rw [hm] at hok
    cases hok
  | ok merged =>
  obtain ⟨outcome, r⟩ := merged
  rw [commit_of_merge hm] at hok hat
  have hlast : View.At ⟨r, v.handle⟩ RefName.main id c := hat.of_spared (Repository.closed_sound.merge hsound hm)
    (.of_moves (moves_drop ⟨r, v.handle⟩ tx.id) (branchOf_ne_main tx.id).symm)
  obtain ⟨head, hhead, -⟩ := bind_ok hm
  obtain ⟨theirs, hbranch⟩ : ∃ theirs, v.At (branchAt (some tx)) head theirs := at_of_resolve hhead
  rw [Repository.merge_eq horderly.named hhead] at hm
  split at hm
  · -- the branch has not moved
    rename_i hmoved
    cases hm
    have hsame := hbranch.commit
    rw [hmoved, hbase] at hsame
    cases hsame
    refine ⟨head, before, id, c, hbranch, hlast, fun s => ?_⟩
    unfold Tree.mergedAt? differAt
    rw [bne_self_eq_false, if_neg Bool.false_ne_true]
  obtain ⟨tip, htip, hm⟩ := bind_ok hm
  obtain ⟨ours, hmain⟩ : ∃ ours, v.At (branchAt none) tip ours := at_of_resolve htip
  refine ⟨head, theirs, tip, ours, hbranch, hmain, fun s => ?_⟩
  split at hm
  · -- `main` has not moved
    rename_i hours
    cases hm
    have hsame := hmain.commit
    rw [hours, hbase] at hsame
    cases hsame
    have hforward : View.At ⟨v.repository.moveTo RefName.main head, v.handle⟩ RefName.main head theirs :=
      ⟨(SortedMap.get?_insert ..).trans (if_pos rfl), hbranch.commit⟩
    rw [(hlast.unique hforward).2]
    unfold Tree.mergedAt? differAt
    split
    · rfl
    · rename_i hsame
      rw [Bool.not_eq_true, bne_eq_false_iff_eq] at hsame
      exact hsame.symm
  rw [Repository.treeAt_eq hbase, Repository.treeAt_eq hmain.commit, Repository.treeAt_eq hbranch.commit, ok_bind,
    ok_bind, ok_bind] at hm
  split at hm
  · cases hm
    cases hok
  · rename_i tree hmerged
    obtain ⟨shown, -, hm⟩ := bind_ok hm
    cases hm
    rw [hlast.extended, Repository.merge_eq_joined hmerged]
    exact Tree.fileAt?_joined (horderly.commit? hbase).shaped (horderly.commit? hmain.commit).shaped
      (horderly.commit? hbranch.commit).shaped s.table.text s.key.fileName

end Commit

end View
end Git

/-! ## The steps -/

namespace Traffic

open Git (CommitId branchAt branchOf)

variable {i : Nat} {L : Ledger} {k : Traffic} {e : Event}

/-- Commits are only added. -/
theorem Tended.grown (h : k.Tended i) (e : Event) :
    Git.Repository.Grown (k.stores.view i).repository ((k.step e).stores.view i).repository := by
  cases h.move e with
  | idle _ hview =>
    rw [hview]
    exact .refl _
  | @perform through op tx hacts hview =>
    rw [hview]
    exact .of_moves (Git.View.moves_perform _ tx op).1
  | begin hissued hbranch hview =>
    rw [hview]
    exact .of_moves (Session.moves_branch hbranch)
  | @finish n v s r committed hs hmoves hnamed hview =>
    have hdrop := Git.View.moves_drop ⟨r, (k.stores.view i).handle⟩ (Ulid.issued n)
    rw [hview]
    exact .trans (.of_moves hmoves) (.of_moves hdrop)
  | sweep hview =>
    rw [hview]
    exact (Git.View.sweep_spares h.orderly.named fun id hid =>
      absurd hid.symm (Git.RefName.ofTransaction_ne_main id)).grown

/-- The ledger has the lineages of the rows that are committed on the repository of the handle `i`, of those that were
when a running transaction began, and of those that it sees. -/
structure Ledger.OfBranches (i : Nat) (L : Ledger) (k : Traffic) : Prop where
  tended : k.Tended i
  main : (k.stores.view i).Tells Git.RefName.main L.main
  base : ∀ n id base, k.running? n = some (.git id i (some ⟨Ulid.issued n, base⟩)) →
    ∃ c, (k.stores.view i).repository.commit? base = some c ∧ c.tree.Tells (L.base n)
  branch : ∀ n tx, k.running? n = some tx →
    (k.stores.view i).Tells (branchOf (Ulid.issued n)) (L.seen (.git i) n)

namespace Ledger.OfBranches

variable (h : L.OfBranches i k)

include h

/-- A step that commits nothing leaves what is committed. -/
theorem main_kept (hquiet : e.Quiet []) : ((k.step e).stores.view i).Tells Git.RefName.main L.main :=
  h.main.spared h.tended.sound (h.tended.spares_main hquiet)

/-- What was committed when a transaction began stays. -/
theorem base_kept (e : Event) {n : Nat} {id : Ulid} {base : CommitId}
    (hran : k.running? n = some (.git id i (some ⟨Ulid.issued n, base⟩))) :
    ∃ c, ((k.step e).stores.view i).repository.commit? base = some c ∧ c.tree.Tells (L.base n) := by
  obtain ⟨c, hc, htells⟩ := h.base n id base hran
  exact ⟨c, (h.tended.grown e).commit? hc, htells⟩

section Step

variable (hn : (k.step e).Numbered)

include hn

/-- A transaction goes on seeing what it saw, where nothing is done through its handle. -/
theorem branch_kept {n : Nat} {tx : Session} (hran : k.running? n = some tx)
    (hs : (k.step e).running? n = some tx) (hop : ∀ op, e ≠ .operate (.handle n) op) :
    ((k.step e).stores.view i).Tells (branchOf (Ulid.issued n)) (L.seen (.git i) n) :=
  (h.branch n tx hran).spared h.tended.sound (h.tended.spares_running hn hran ⟨tx, hs⟩ hop)

/-- What a step leads to keeps the ledger, if what runs ran before, and what the step does to `main` and to branches
does. -/
theorem next_of_ran {L' : Ledger} (hbase : L'.base = L.base)
    (hran : ∀ n tx, (k.step e).running? n = some tx → k.running? n = some tx)
    (hmain : ((k.step e).stores.view i).Tells Git.RefName.main L'.main)
    (hbranch : ∀ n tx, k.running? n = some tx → (k.step e).running? n = some tx →
      ((k.step e).stores.view i).Tells (branchOf (Ulid.issued n)) (L'.seen (.git i) n)) :
    L'.OfBranches i (k.step e) := by
  refine ⟨h.tended.step hn, hmain, fun n id base hs => ?_, fun n tx hs => hbranch n tx (hran n tx hs) hs⟩
  rw [hbase]
  exact h.base_kept e (hran n _ hs)

/-- What begins nothing keeps the ledger, if what it does to `main` and to branches does. -/
theorem next {L' : Ledger} (hbase : L'.base = L.base) (he : ∀ through, e ≠ .begin through)
    (hmain : ((k.step e).stores.view i).Tells Git.RefName.main L'.main)
    (hbranch : ∀ n tx, k.running? n = some tx → (k.step e).running? n = some tx →
      ((k.step e).stores.view i).Tells (branchOf (Ulid.issued n)) (L'.seen (.git i) n)) :
    L'.OfBranches i (k.step e) := by
  refine h.next_of_ran hn hbase (fun n tx hs => ?_) hmain hbranch
  obtain hs | ⟨id, hb, -⟩ := h.tended.regular.running_step hs
  · exact hs.1
  · exact absurd hb (he _)

/-- A step at which nothing is done keeps the ledger. -/
theorem idle (he : ∀ through, e ≠ .begin through) (hop : ∀ n op, e = .operate (.handle n) op →
      (k.step e).stores.view i = k.stores.view i)
    (hmain : ((k.step e).stores.view i).Tells Git.RefName.main L.main) : L.OfBranches i (k.step e) :=
  h.next hn rfl he hmain fun n tx hran hs => by
    by_cases hown : ∃ op, e = .operate (.handle n) op
    · obtain ⟨op, hown⟩ := hown
      rw [hop n op hown]
      exact h.branch n tx hran
    · exact h.branch_kept hn hran hs fun op heq => hown ⟨op, heq⟩

end Step

theorem session (id : Ulid) {op : Operation} (hop : Event.Versioned (.operate (.session id) op))
    (hn : (k.step (.operate (.session id) op)).Numbered) (late : Bool) :
    (L.enter (.git i) ⟨.operate (.session id) op, (k.react (.operate (.session id) op)).1, late⟩).OfBranches i
      (k.step (.operate (.session id) op)) := by
  have hs : k.session? (.session id) = some (.git id i none) := by
    unfold session?
    rw [h.tended.source]
    rfl
  obtain ⟨tx, rfl, hanswer, hview⟩ := h.tended.operate hs op
  rw [hanswer]
  obtain ⟨reading, t, c, commit, r, rfl, hmade, hperform⟩ | ⟨hdone, hsame⟩ :=
    (k.stores.view i).perform_cases none op
  · rw [hperform] at hview ⊢
    have hmain := Git.View.Tells.change none h.main h.tended.orderly hop hmade
    refine h.next hn rfl nofun ?_ fun n tx hran hs => h.branch_kept hn hran hs nofun
    rw [hview]
    exact hmain
  · rw [enter_operate hdone]
    rw [hsame] at hview
    exact h.idle hn nofun nofun (hview ▸ h.main)

theorem handle (n : Nat) {op : Operation} (hop : Event.Versioned (.operate (.handle n) op))
    (hn : (k.step (.operate (.handle n) op)).Numbered) (late : Bool) :
    (L.enter (.git i) ⟨.operate (.handle n) op, (k.react (.operate (.handle n) op)).1, late⟩).OfBranches i
      (k.step (.operate (.handle n) op)) := by
  have hmain := @main_kept i L k (.operate (.handle n) op) h trivial
  cases hs : k.session? (.handle n) with
  | none =>
    have hreact := react_operate_none hs op
    rw [hreact, enter_nothing]
    exact h.idle hn nofun (fun _ _ _ => by unfold Traffic.step; rw [hreact]) hmain
  | some s =>
  obtain ⟨tx, ⟨id, base, hhandle, rfl⟩, hanswer, hview⟩ := h.tended.operate hs op
  rw [hanswer]
  obtain ⟨reading, t, c, commit, r, rfl, hmade, hperform⟩ | ⟨hdone, hsame⟩ :=
    (k.stores.view i).perform_cases (some ⟨Ulid.issued n, base⟩) op
  · rw [hperform] at hview ⊢
    refine h.next hn rfl nofun hmain fun n' tx hran hrun => ?_
    show Git.View.Tells _ _ ((L.change (.git i) reading ⟨t, c.key⟩ c (.handle n)).seen (.git i) n')
    rw [seen_change]
    by_cases hown : n' = n
    · rw [if_pos hown, hview, hown]
      have hbranch := h.branch n' tx hran
      rw [hown] at hbranch
      exact Git.View.Tells.change (some ⟨Ulid.issued n, base⟩) hbranch h.tended.orderly hop hmade
    · rw [if_neg hown]
      refine h.branch_kept hn hran hrun fun op heq => ?_
      cases heq
      exact hown rfl
  · rw [enter_operate hdone]
    exact h.idle hn nofun (fun _ _ _ => hview.trans hsame) hmain

theorem sweep (hn : (k.step .sweep).Numbered) (late : Bool) :
    (L.enter (.git i) ⟨.sweep, (k.react .sweep).1, late⟩).OfBranches i (k.step .sweep) :=
  h.idle hn nofun nofun (h.main_kept trivial)

/-- **A commit brings to each slot** the lineage that the ledger says. -/
theorem landed {n : Nat} {id : Ulid} {base : CommitId}
    (hs : k.running? n = some (.git id i (some ⟨Ulid.issued n, base⟩)))
    (hok : ((k.stores.view i).commit ⟨Ulid.issued n, base⟩).1 = .ok ()) :
    ((k.stores.view i).commit ⟨Ulid.issued n, base⟩).2.Tells Git.RefName.main (L.landed (.git i) n) := by
  intro last c hat s
  obtain ⟨before, hbefore, hbase⟩ := h.base n id base hs
  obtain ⟨head, theirs, tip, ours, hbranch, hmain, hlast⟩ :=
    Git.View.commit_lands h.tended.orderly h.tended.sound hbefore hok hat
  obtain ⟨htheirs, hown⟩ := h.branch n _ hs head theirs hbranch s
  obtain ⟨hours, hkept⟩ := h.main tip ours hmain s
  rw [hlast]
  unfold Git.Tree.mergedAt? Git.Tree.differAt
  rw [(hbase s).1, htheirs, hours]
  unfold Ledger.landed
  unfold seen under at hown ⊢
  cases hslot : L.own n s with
  | none =>
    rw [Option.getD_none, bne_self_eq_false, if_neg Bool.false_ne_true]
    exact ⟨rfl, hkept⟩
  | some l? =>
    rw [hslot, Option.getD_some] at hown
    rw [Option.getD_some]
    simp only [bne_iff_ne, ne_eq, ite_not, eq_comm (a := Lineage.text? (L.base n s))]
    split
    · exact ⟨rfl, hkept⟩
    · exact ⟨rfl, hown⟩

theorem finish (n : Nat) (v : Engine.Verdict) (hn : (k.step (.finish n v)).Numbered) (late : Bool) :
    (L.enter (.git i) ⟨.finish n v, (k.react (.finish n v)).1, late⟩).OfBranches i (k.step (.finish n v)) := by
  cases hs : k.running? n with
  | none =>
    have hreact := react_finish_none hs v
    have hview : (k.step (.finish n v)).stores.view i = k.stores.view i := by
      unfold Traffic.step
      rw [hreact]
    rw [hreact, enter_nothing]
    exact h.idle hn nofun nofun (hview ▸ h.main)
  | some s =>
  obtain ⟨id, base, rfl, hanswer, hview, -⟩ := h.tended.finish hs v
  have hbranch : ∀ m tx, k.running? m = some tx → (k.step (.finish n v)).running? m = some tx →
      ((k.step (.finish n v)).stores.view i).Tells (branchOf (Ulid.issued m)) (L.seen (.git i) m) :=
    fun m tx hran hs => h.branch_kept hn hran hs nofun
  rw [hanswer, enter_finish]
  cases hcommitted : isCommitted v ((k.stores.view i).finish ⟨Ulid.issued n, base⟩ v).1 with
  | false =>
    rw [Git.View.finish_uncommitted hcommitted] at hview
    have hdrop := Git.View.moves_drop (k.stores.view i) (Ulid.issued n)
    rw [if_neg Bool.false_ne_true]
    refine h.next hn rfl nofun ?_ hbranch
    rw [hview]
    exact h.main.spared h.tended.sound (.of_moves hdrop (Git.branchOf_ne_main _).symm)
  | true =>
    rw [if_pos rfl]
    obtain ⟨rfl, hok, hlast⟩ := Git.View.finish_committed hcommitted
    refine h.next hn rfl nofun ?_ hbranch
    rw [hview, hlast]
    exact h.landed hs hok

theorem begin (through : Through) (hn : (k.step (.begin through)).Numbered) (late : Bool) :
    (L.enter (.git i) ⟨.begin through, (k.react (.begin through)).1, late⟩).OfBranches i
      (k.step (.begin through)) := by
  have hmain := @main_kept i L k (.begin through) h trivial
  by_cases hbegun : ∃ n, (k.react (.begin through)).1 = .begun (.ok n)
  · obtain ⟨n, hanswer⟩ := hbegun
    obtain ⟨id, base, hmade, hview, hrunning⟩ := h.tended.begins hanswer
    obtain ⟨-, -, -, rfl, -, -⟩ := h.tended.regular.running_begun hanswer
    obtain ⟨c, hat, hbranch⟩ := Git.View.begin_at hmade
    have htells := h.main base c hat
    rw [← hview] at hbranch
    have hran : ∀ n tx, n ≠ k.stores.issued → (k.step (.begin through)).running? n = some tx →
        k.running? n = some tx := fun n tx hne hs => by
      obtain hs | ⟨_, -, hnew, -⟩ := h.tended.regular.running_step hs
      · exact hs.1
      · exact absurd hnew hne
    have hentered : L.enter (.git i) ⟨.begin through, (k.react (.begin through)).1, late⟩ =
        L.begin k.stores.issued := by
      rw [hanswer]
      rfl
    rw [hentered]
    refine ⟨h.tended.step hn, hmain, fun n id' base' hs => ?_, fun n tx hs => ?_⟩
    · show ∃ c : Git.Commit, _ ∧ c.tree.Tells (Function.update L.base k.stores.issued L.main n)
      by_cases hnew : n = k.stores.issued
      · subst hnew
        cases hrunning.symm.trans hs
        rw [Function.update_self]
        exact ⟨c, hbranch.commit, htells⟩
      · rw [Function.update_of_ne hnew]
        exact h.base_kept _ (hran n _ hnew hs)
    · have hseen : (L.begin k.stores.issued).seen (.git i) n =
          if n = k.stores.issued then L.main else L.seen (.git i) n := by
        funext s
        unfold seen under Ledger.begin
        simp only [Function.update_apply]
        split <;> rfl
      rw [hseen]
      by_cases hnew : n = k.stores.issued
      · rw [if_pos hnew, hnew]
        intro head c' hat'
        rw [(hat'.unique hbranch).2]
        exact htells
      · rw [if_neg hnew]
        exact h.branch_kept hn (hran n tx hnew hs) hs nofun
  · rw [enter_begin fun n hanswer => hbegun ⟨n, hanswer⟩]
    refine h.next_of_ran hn rfl (fun n tx hs => ?_) hmain fun n tx hran hs => h.branch_kept hn hran hs nofun
    obtain hs | ⟨id, heq, -, hmade⟩ := h.tended.regular.running_step hs
    · exact hs.1
    · cases heq
      exact absurd ⟨_, congrArg Prod.fst (react_begin_ok rfl hmade)⟩ hbegun

/-- **Every step keeps the ledger**, with what it is answered. -/
theorem step (he : e.Versioned) (hn : (k.step e).Numbered) (late : Bool) :
    (L.enter (.git i) ⟨e, (k.react e).1, late⟩).OfBranches i (k.step e) := by
  cases e with
  | operate through op =>
    cases through with
    | session id => exact h.session id he hn late
    | handle n => exact h.handle n he hn late
  | begin through => exact h.begin through hn late
  | finish n v => exact h.finish n v hn late
  | sweep => exact h.sweep hn late

omit h

/-- **The ledger is kept by a whole run**, from what was answered in it. -/
theorem run (events : List Event) : ∀ {L : Ledger} {k : Traffic}, L.OfBranches i k → (∀ e ∈ events, e.Versioned) →
    (k.run events).Numbered →
      ((k.trace events).foldl (Ledger.enter (.git i)) L).OfBranches i (k.run events) := by
  induction events with
  | nil => exact fun h _ _ => h
  | cons e events ih =>
    intro L k h he hn
    have hnow := hn.of_later ((h.tended.regular.step e).later_run events)
    have hstep := h.step (he e List.mem_cons_self) hnow (k.isLate e)
    exact ih hstep (fun e' hmem => he e' (List.mem_cons_of_mem _ hmem)) hn

end Ledger.OfBranches
end Traffic
end Demarcate
