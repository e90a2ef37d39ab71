import Demarcate.Proofs.Custody
/-!
# Trimming — repositories that differ in branches nobody works on

Two repositories have the same commits, and the same references as far as someone works on them (`Trims`).  What is read
and changed on such references, and what is brought from one of them to `main`, comes to the same on both sides.

What is done through a handle is done to it and to the repository that it is on (`Stores.Through`), so handles on
different repositories do not come into each other's way.
-/
namespace Demarcate

open Git (CommitId Transaction branchAt branchOf)

namespace Git

open RefName (normal? ofTransaction)

theorem RefName.normal?_branchAt : ∀ tx : Option Transaction, normal? (branchAt tx) = some (branchAt tx)
  | none => normal?_main
  | some tx => normal?_branch tx.id

namespace Repository

/-- The commits are the same, and the references that are kept. -/
structure Trims (kept : String → Prop) (r r' : Repository) : Prop where
  number : r'.number = r.number
  commits : r'.commits = r.commits
  refs : ∀ n, kept n → r'.refs.get? n = r.refs.get? n

namespace Trims

variable {kept : String → Prop} {r r' : Repository} (h : Trims kept r r')

include h

theorem commit? (id : CommitId) : r'.commit? id = r.commit? id := by
  unfold Repository.commit?
  rw [h.number, h.commits]

theorem treeAt (id : CommitId) : r'.treeAt id = r.treeAt id := by
  unfold Repository.treeAt
  rw [h.commit?]

theorem next : r'.next = r.next := by
  unfold Repository.next
  rw [h.number, h.commits]

theorem resolve {name n : String} (hn : normal? name = some n) (hkept : kept n) :
    r'.resolve name = r.resolve name := by
  have htarget : r'.target? name = r.target? name := by
    unfold target?
    rw [hn]
    exact h.refs n hkept
  unfold Repository.resolve
  simp only [htarget, h.commit?]

theorem moveTo (n : String) (id : CommitId) : Trims kept (r.moveTo n id) (r'.moveTo n id) := by
  refine ⟨h.number, h.commits, fun m hm => ?_⟩
  show (r'.refs.insert n _).get? m = (r.refs.insert n _).get? m
  rw [SortedMap.get?_insert, SortedMap.get?_insert, h.refs m hm]

theorem extend (n : String) (c : Commit) : Trims kept (r.extend n c) (r'.extend n c) := by
  have hid : (⟨r'.number, r'.commits.size⟩ : CommitId) = ⟨r.number, r.commits.size⟩ := h.next
  refine ⟨h.number, congrArg (·.push c) h.commits, fun m hm => ?_⟩
  show (r'.refs.insert n _).get? m = (r.refs.insert n _).get? m
  rw [SortedMap.get?_insert, SortedMap.get?_insert, h.refs m hm, hid]

theorem erase (n : String) : Trims kept { r with refs := r.refs.erase n } { r' with refs := r'.refs.erase n } := by
  refine ⟨h.number, h.commits, fun m hm => ?_⟩
  show (r'.refs.erase n).get? m = (r.refs.erase n).get? m
  rw [SortedMap.get?_erase, SortedMap.get?_erase, h.refs m hm]

/-- A kept branch is given up on both sides, or on neither. -/
theorem deleteRef {tx n : String} (hn : normal? (ofTransaction tx) = some n) (hkept : kept n) :
    (∃ s s', r.deleteRef (ofTransaction tx) = .ok s ∧ r'.deleteRef (ofTransaction tx) = .ok s' ∧ Trims kept s s') ∨
      ∃ e, r.deleteRef (ofTransaction tx) = .error e ∧ r'.deleteRef (ofTransaction tx) = .error e := by
  have hcontains : r'.refs.contains n = r.refs.contains n := by
    unfold SortedMap.contains
    rw [h.refs n hkept]
  rw [deleteRef_eq hn, deleteRef_eq hn, hcontains]
  split
  · exact .inl ⟨_, _, rfl, rfl, h.erase n⟩
  · exact .inr ⟨_, rfl, rfl⟩

variable (hnamed : r.WellNamed) (hnamed' : r'.WellNamed)

include hnamed hnamed'

/-- **A change on a kept branch comes to the same.** -/
theorem commitTo {name n : String} (hn : normal? name = some n) (hkept : kept n) (author : Signature) (now : String)
    (t : TableName) (c : Change) (tx : Option String) :
    (∃ id s s', r.commitTo author now name t c tx = .value (id, s) ∧
        r'.commitTo author now name t c tx = .value (id, s') ∧ Trims kept s s') ∨
      (∃ e, r.commitTo author now name t c tx = .failed e ∧ r'.commitTo author now name t c tx = .failed e) ∨
      ∃ text, r.commitTo author now name t c tx = .unwound text ∧
        r'.commitTo author now name t c tx = .unwound text := by
  have hresolve := h.resolve hn hkept
  obtain ⟨parent, hparent⟩ | hparent := r.resolve_cases name
  · obtain ⟨-, -, -, hsome⟩ := resolve_eq_ok_iff.1 hparent
    obtain ⟨before, hbefore⟩ := Option.isSome_iff_exists.1 hsome
    rw [commitTo_eq hnamed hparent hn hbefore,
      commitTo_eq hnamed' (hresolve.trans hparent) hn ((h.commit? parent).trans hbefore)]
    cases rowIn before.tree ⟨t, c.key⟩ with
    | error e => exact .inr (.inl ⟨e, rfl, rfl⟩)
    | ok existing =>
      show (∃ id s s', (c.resolve now t existing >>= _) = _ ∧ (c.resolve now t existing >>= _) = _ ∧ _) ∨
        (∃ e, (c.resolve now t existing >>= _) = _ ∧ (c.resolve now t existing >>= _) = _) ∨
        ∃ text, (c.resolve now t existing >>= _) = _ ∧ (c.resolve now t existing >>= _) = _
      cases c.resolve now t existing with
      | failed e => exact .inr (.inl ⟨e, rfl, rfl⟩)
      | unwound text => exact .inr (.inr ⟨text, rfl, rfl⟩)
      | value row =>
        cases stamp author with
        | error e => exact .inr (.inl ⟨e, rfl, rfl⟩)
        | ok shown => exact .inl ⟨r.next, _, _, rfl, by rw [← h.next]; rfl, h.extend n _⟩
  · refine .inr (.inl ⟨.refNotFound name, ?_, ?_⟩)
    · unfold Repository.commitTo
      rw [hparent]
      rfl
    · unfold Repository.commitTo
      rw [hresolve, hparent]
      rfl

/-- **What is brought to `main` from a kept branch comes to the same.** -/
theorem merge {tx n : String} (hmain : kept RefName.main) (hn : normal? (ofTransaction tx) = some n) (hkept : kept n)
    (author : Signature) (base : CommitId) :
    (∃ o s s', r.merge author tx base = .ok (o, s) ∧ r'.merge author tx base = .ok (o, s') ∧ Trims kept s s') ∨
      ∃ e, r.merge author tx base = .error e ∧ r'.merge author tx base = .error e := by
  have htip : r'.tip = r.tip := h.resolve RefName.normal?_main hmain
  have hresolve : r'.transactionTip tx = r.transactionTip tx := h.resolve hn hkept
  obtain ⟨theirs, htheirs⟩ | htheirs := r.resolve_cases (ofTransaction tx)
  · rw [merge_eq hnamed htheirs, merge_eq hnamed' (hresolve.trans htheirs), htip]
    simp only [h.treeAt]
    split
    · exact .inl ⟨_, _, _, rfl, rfl, h⟩
    cases r.tip with
    | error e => exact .inr ⟨e, rfl, rfl⟩
    | ok ours =>
      simp only [ok_bind]
      split
      · exact .inl ⟨_, _, _, rfl, rfl, h.moveTo _ _⟩
      cases r.treeAt base with
      | error e => exact .inr ⟨e, rfl, rfl⟩
      | ok before =>
        cases r.treeAt ours with
        | error e => exact .inr ⟨e, rfl, rfl⟩
        | ok here =>
          cases r.treeAt theirs with
          | error e => exact .inr ⟨e, rfl, rfl⟩
          | ok there =>
            simp only [ok_bind]
            cases Tree.merge before here there with
            | error paths => exact .inl ⟨_, _, _, rfl, rfl, h⟩
            | ok tree =>
              cases stamp author with
              | error e => exact .inr ⟨e, rfl, rfl⟩
              | ok shown => exact .inl ⟨.merged r.next, _, _, rfl, by rw [← h.next]; rfl, h.extend _ _⟩
  · have htheirs : r.transactionTip tx = .error (.refNotFound (ofTransaction tx)) := htheirs
    refine .inr ⟨.refNotFound (ofTransaction tx), ?_, ?_⟩
    · unfold Repository.merge
      rw [htheirs]
      rfl
    · unfold Repository.merge
      rw [hresolve, htheirs]
      rfl

end Trims

end Repository

namespace View

open Traffic (Operation Answer)

/-- The same handle, on repositories that differ in branches nobody works on. -/
structure Trims (kept : String → Prop) (v v' : View) : Prop where
  repository : Repository.Trims kept v.repository v'.repository
  handle : v'.handle = v.handle

namespace Trims

variable {kept : String → Prop} {v v' v'' : View}

theorem refl (kept : String → Prop) (v : View) : Trims kept v v := ⟨⟨rfl, rfl, fun _ _ => rfl⟩, rfl⟩

theorem trans (h₁ : Trims kept v v') (h₂ : Trims kept v' v'') : Trims kept v v'' :=
  ⟨⟨h₂.repository.number.trans h₁.repository.number, h₂.repository.commits.trans h₁.repository.commits,
    fun n hn => (h₂.repository.refs n hn).trans (h₁.repository.refs n hn)⟩, h₂.handle.trans h₁.handle⟩

/-- A sweep leaves what the handle knows to be worked on. -/
theorem sweep (hnamed : v.repository.WellNamed)
    (hlive : ∀ id, kept (ofTransaction id) → v.handle.live.contains id = true) : Trims kept v v.sweep.2 := by
  have hrefs : ∃ refs, v.sweep.2.repository = { v.repository with refs } := by
    obtain ⟨refs, hrefs, -⟩ := Repository.deleteBranches_eq
      (v.repository.transactionIds.filter fun id => !v.handle.live.contains id) v.repository
    exact ⟨refs, hrefs⟩
  obtain ⟨refs, hrefs⟩ := hrefs
  refine ⟨⟨by rw [hrefs], by rw [hrefs], fun n hn => (sweep_spares hnamed fun id hid => ?_).ref⟩, handle_sweep v⟩
  exact hlive id (hid ▸ hn)

variable (h : Trims kept v v')

include h

theorem snapshot {tx : Option Transaction} (htx : kept (branchAt tx)) :
    Session.snapshot v'.repository tx = Session.snapshot v.repository tx := by
  rw [snapshot_eq, snapshot_eq]
  exact h.repository.resolve (RefName.normal?_branchAt tx) htx

theorem drop {u : Ulid} (hu : kept (branchOf u)) : Trims kept (v.drop u) (v'.drop u) := by
  unfold View.drop
  rw [h.handle]
  obtain ⟨s, s', hs, hs', htrims⟩ | ⟨e, hs, hs'⟩ := h.repository.deleteRef (RefName.normal?_branch u) hu
  · unfold branchOf
    rw [hs, hs']
    exact ⟨htrims, rfl⟩
  · unfold branchOf
    rw [hs, hs']
    exact ⟨h.repository, rfl⟩

variable (hnamed : v.repository.WellNamed) (hnamed' : v'.repository.WellNamed)

include hnamed hnamed'

theorem perform {tx : Option Transaction} (htx : kept (branchAt tx)) (op : Operation) :
    (v'.perform tx op).1 = (v.perform tx op).1 ∧ Trims kept (v.perform tx op).2 (v'.perform tx op).2 := by
  have hread : ∀ s, v'.read tx s = v.read tx s := fun s => by
    unfold View.read Repository.readRow
    simp only [h.snapshot htx, h.repository.treeAt]
  have hscan : ∀ t, v'.scan tx t = v.scan tx t := fun t => by
    unfold View.scan Repository.scanTable
    simp only [h.snapshot htx, h.repository.treeAt]
  cases op with
  | get s => exact ⟨congrArg Answer.row (hread s), h⟩
  | scan t => exact ⟨congrArg Answer.rows (hscan t), h⟩
  | count t => exact ⟨congrArg (fun rows => Answer.count (Except.map List.length rows)) (hscan t), h⟩
  | change reading t c =>
    simp only [View.perform, View.apply]
    rw [commitOn_eq, commitOn_eq, h.handle]
    obtain ⟨id, s, s', hs, hs', htrims⟩ | ⟨e, hs, hs'⟩ | ⟨text, hs, hs'⟩ := h.repository.commitTo hnamed hnamed'
      (RefName.normal?_branchAt tx) htx v.handle.author (Clock.stamp reading) t c (tx.map fun tx => tx.id.lowerText)
    · rw [hs, hs']
      exact ⟨rfl, htrims, h.handle⟩
    · rw [hs, hs']
      exact ⟨rfl, h⟩
    · rw [hs, hs']
      exact ⟨rfl, h⟩

theorem finish (hmain : kept RefName.main) {tx : Transaction} (htx : kept (branchOf tx.id)) (vd : Engine.Verdict) :
    (v'.finish tx vd).1 = (v.finish tx vd).1 ∧ Trims kept (v.finish tx vd).2 (v'.finish tx vd).2 := by
  cases vd with
  | unwind text => exact ⟨rfl, h.drop htx⟩
  | rollback => exact ⟨rfl, h.drop htx⟩
  | commit =>
    simp only [View.finish]
    unfold View.commit
    rw [h.handle]
    obtain ⟨o, s, s', hs, hs', htrims⟩ | ⟨e, hs, hs'⟩ := h.repository.merge hnamed hnamed' hmain
      (RefName.normal?_branch tx.id) htx v.handle.author tx.base
    · have hmerged : Trims kept ⟨s, v.handle⟩ ⟨s', v.handle⟩ := ⟨htrims, rfl⟩
      rw [hs, hs']
      exact ⟨rfl, hmerged.drop htx⟩
    · rw [hs, hs']
      exact ⟨rfl, h.drop htx⟩

end Trims

end View

end Git

/-! ## Handles on different repositories -/

namespace Stores

/-- What is done through the handle `j` is done to it and to its repository. -/
structure Through (j : Nat) (st st' : Stores) : Prop where
  memories : st'.memories = st.memories
  size : st'.handles.size = st.handles.size
  site : ∀ i, (st'.handle i).site = (st.handle i).site
  handle : ∀ i, i ≠ j → st'.handle i = st.handle i
  elsewhere : ∀ x, x ≠ (st.handle j).site → st'.disk.repositories.get? x = st.disk.repositories.get? x
  there : ∀ x r, st.disk.repositories.get? x = some r → ∃ r', st'.disk.repositories.get? x = some r'

/-- The handle was opened, and there is a repository where it leads. -/
structure Housed (st : Stores) (i : Nat) : Prop where
  isIn : i < st.handles.size
  there : ∃ r, st.disk.repositories.get? (st.handle i).site = some r

namespace Through

variable {j : Nat} {st st₁ st₂ : Stores}

/-- Only what is not told of took place. -/
theorem aside (issued readings : Nat) : Through j st { st with issued, readings } :=
  ⟨rfl, rfl, fun _ => rfl, fun _ _ => rfl, fun _ _ => rfl, fun _ r hr => ⟨r, hr⟩⟩

theorem refl (j : Nat) (st : Stores) : Through j st st := aside st.issued st.readings

theorem trans (h₁ : Through j st st₁) (h₂ : Through j st₁ st₂) : Through j st st₂ := by
  refine ⟨h₂.memories.trans h₁.memories, h₂.size.trans h₁.size, fun i => (h₂.site i).trans (h₁.site i),
    fun i hi => (h₂.handle i hi).trans (h₁.handle i hi), fun x hx => ?_, fun x r hr => ?_⟩
  · exact (h₂.elsewhere x (h₁.site j ▸ hx)).trans (h₁.elsewhere x hx)
  · obtain ⟨r₁, hr₁⟩ := h₁.there x r hr
    exact h₂.there x r₁ hr₁

theorem setRepository (st : Stores) (j : Nat) (r : Git.Repository) : Through j st (st.setRepository j r) := by
  refine ⟨rfl, rfl, fun _ => rfl, fun _ _ => rfl, fun x hx => ?_, fun x r' hr' => ?_⟩
  · rw [get?_setRepository, if_neg hx]
  · rw [get?_setRepository]
    split
    · exact ⟨r, rfl⟩
    · exact ⟨r', hr'⟩

theorem setHandle {h : Git.Handle} (hsite : h.site = (st.handle j).site) : Through j st (st.setHandle j h) := by
  refine ⟨rfl, Array.size_setIfInBounds, fun i => ?_, fun i hi => ?_, fun _ _ => rfl, fun x r hr => ⟨r, hr⟩⟩
  · rw [handle_setHandle]
    split
    · rename_i hi
      rw [hsite, hi.1]
    · rfl
  · rw [handle_setHandle, if_neg fun h => hi h.1]

theorem beginBranch (st : Stores) (j : Nat) (id : String) : Through j st (st.beginBranch j id).2 := by
  obtain ⟨base, r, h, -, hsite, hb⟩ | ⟨e, hb⟩ := beginBranch_cases st j id
  · rw [hb]
    exact (setRepository st j r).trans (setHandle hsite)
  · rw [hb]
    exact refl j st

theorem cleanup (st : Stores) (j : Nat) : Through j st (st.cleanup j).2 := setRepository st j _

theorem mergeBranch (st : Stores) (j : Nat) (id : String) (base : CommitId) :
    Through j st (st.mergeBranch j id base).2 := by
  unfold Stores.mergeBranch
  cases (st.repository j).merge (st.handle j).author id base with
  | error e => exact refl j st
  | ok merged => exact setRepository st j merged.2

theorem abandonBranch (st : Stores) (j : Nat) (id : String) : Through j st (st.abandonBranch j id).2 := by
  unfold Stores.abandonBranch Git.Handle.abandon
  cases (st.repository j).deleteRef (Git.RefName.ofTransaction id) with
  | error e => exact setHandle rfl
  | ok r => exact (setRepository st j r).trans (setHandle rfl)

variable {i : Nat} (h : Through j st st₁)

include h

theorem housed (hi : st.Housed i) : st₁.Housed i := by
  obtain ⟨r, hr⟩ := hi.there
  exact ⟨h.size ▸ hi.isIn, h.site i ▸ h.there _ r hr⟩

/-- A handle on another repository sees nothing of it. -/
theorem view (hi : st.Housed i) (hne : (st.handle i).site ≠ (st.handle j).site) : st₁.view i = st.view i := by
  obtain ⟨r, hr⟩ := hi.there
  have hij : i ≠ j := fun hij => hne (by rw [hij])
  unfold Stores.view Stores.repository Git.Disk.repository
  rw [h.handle i hij, h.elsewhere _ hne, hr]
  rfl

end Through

end Stores

namespace Session

open Stores (Through)

variable (st : Stores) (id : Ulid) (j : Nat)

theorem through_apply (tx : Option Transaction) (t : TableName) (c : Change) :
    Through j st ((Session.git id j tx).apply st t c).2 := by
  have hread : Through j st st.readClock.2 := .aside ..
  obtain ⟨_, _, _, _, hs, -⟩ | ⟨_, _, _, _, r, hs, -, h⟩ | ⟨-, h⟩ := apply_cases st (.git id j tx) t c
  · cases hs
  · cases hs
    rw [h]
    exact hread.trans (.setRepository _ j r)
  · rw [h]
    exact hread

theorem through_perform (tx : Option Transaction) (op : Traffic.Operation) :
    Through j st ((Session.git id j tx).perform st op).2 := by
  cases op with
  | change reading t c =>
    have hread : Through j st { st with readings := reading } := .aside ..
    exact hread.trans (through_apply _ id j tx t c)
  | get s => exact .refl j st
  | scan t => exact .refl j st
  | count t => exact .refl j st

theorem through_begin : Through j st ((Session.git id j none).begin st).2 := by
  have hissue : Through j st st.issue.2 := .aside ..
  have hbranch := hissue.trans (.beginBranch st.issue.2 j st.issue.1.lowerText)
  simp only [begin]
  generalize st.issue.2.beginBranch j st.issue.1.lowerText = begun at hbranch ⊢
  obtain ⟨base, st'⟩ := begun
  cases base <;> exact hbranch

theorem through_commit (tx : Transaction) : Through j st ((Session.git id j (some tx)).commit st).2 := by
  have hmerge := Through.mergeBranch st j tx.id.lowerText tx.base
  have hdrop : ∀ st', Through j st st' → Through j st (dropBranch st' j tx) :=
    fun st' h => h.trans (.abandonBranch st' j tx.id.lowerText)
  unfold commit
  simp only
  split
  all_goals
    rename_i h
    rw [h] at hmerge
    simp only
    exact hdrop _ hmerge

theorem through_finish (e : Engine) (tx : Transaction) (v : Engine.Verdict) :
    Through j e.stores (e.finish (.git id j (some tx)) v).2.stores := by
  have hdrop : Through j e.stores (dropBranch e.stores j tx) := .abandonBranch _ j tx.id.lowerText
  obtain ⟨-, -, -, hstores⟩ | ⟨-, hstores | hstores | ⟨err, -, hstores⟩⟩ := e.finish_cases (.git id j (some tx)) v
  · rw [hstores]
    exact through_commit e.stores id j tx
  · rw [hstores]
    exact hdrop
  · rw [hstores]
    exact hdrop
  · rw [hstores]
    exact through_commit e.stores id j tx

end Session

/-! ## Stores that differ in branches nobody works on -/

namespace Stores

open Git.Repository (WellNamed closed_wellNamed)
open Traffic (Answer Operation)

/-- No two of the handles are on one repository. -/
def Apart (st : Stores) (handles : List Nat) : Prop :=
  ∀ i ∈ handles, ∀ j ∈ handles, (st.handle i).site = (st.handle j).site → i = j

/-- Handles that are apart, and of which each is on repositories that differ in branches nobody works on. -/
structure Trims (handles : List Nat) (kept : Nat → String → Prop) (st st' : Stores) : Prop where
  memories : st'.memories = st.memories
  apart : st.Apart handles
  named : st.disk.Every WellNamed
  named' : st'.disk.Every WellNamed
  housed : ∀ i ∈ handles, st.Housed i
  housed' : ∀ i ∈ handles, st'.Housed i
  views : ∀ i ∈ handles, Git.View.Trims (kept i) (st.view i) (st'.view i)

end Stores

/-- The session works in memory, or in a kept branch through one of the handles. -/
def Session.Keeps (handles : List Nat) (kept : Nat → String → Prop) : Session → Prop
  | .memory .. => True
  | .git _ i tx => i ∈ handles ∧ kept i (branchAt tx)

namespace Session

section Memory

variable {st st' : Stores} (h : st'.memories = st.memories) (id : Ulid) (i : Nat) (tx : Option Ulid)

include h

/-- What is done in memory does not depend on the disk, and does nothing to it. -/
theorem perform_beside (op : Traffic.Operation) : ∃ a memories readings readings',
    (Session.memory id i tx).perform st op = (a, { st with memories, readings }) ∧
      (Session.memory id i tx).perform st' op = (a, { st' with memories, readings := readings' }) := by
  obtain ⟨memories, disk, opened, issued, readings⟩ := st'
  obtain rfl : memories = st.memories := h
  cases op with
  | get s => exact ⟨_, _, _, _, rfl, rfl⟩
  | scan t => exact ⟨_, _, _, _, rfl, rfl⟩
  | count t => exact ⟨_, _, _, _, rfl, rfl⟩
  | change reading t c =>
    simp only [perform, apply, Stores.readClock, Stores.memory]
    cases (st.memories.getD i {}).apply (Clock.stamp reading) tx t c with
    | value m => exact ⟨_, _, _, _, rfl, rfl⟩
    | failed e => exact ⟨_, _, _, _, rfl, rfl⟩
    | unwound text => exact ⟨_, _, _, _, rfl, rfl⟩

theorem finish_beside (v : Engine.Verdict) : ∃ o memories,
    Engine.finish { stores := st } (.memory id i tx) v = (o, { stores := { st with memories } }) ∧
      Engine.finish { stores := st' } (.memory id i tx) v = (o, { stores := { st' with memories } }) := by
  obtain ⟨memories, disk, opened, issued, readings⟩ := st'
  obtain rfl : memories = st.memories := h
  cases tx with
  | none => cases v <;> exact ⟨_, _, rfl, rfl⟩
  | some tx =>
    cases v with
    | unwind text => exact ⟨_, _, rfl, rfl⟩
    | rollback => exact ⟨_, _, rfl, rfl⟩
    | commit =>
      rw [finish_commit, finish_commit]
      unfold commit Stores.memory
      simp only
      generalize (st.memories.getD i {}).commit tx = committed
      obtain ⟨ended, m⟩ := committed
      cases ended with
      | ok _ => exact ⟨_, _, rfl, rfl⟩
      | error slots => exact ⟨_, _, rfl, rfl⟩

end Memory

end Session

namespace Stores.Trims

open Git.Repository (WellNamed closed_wellNamed)
open Traffic (Answer Operation)

variable {handles : List Nat} {kept : Nat → String → Prop} {st st' st₁ st₁' : Stores}

/-- Work in memory is done beside. -/
theorem beside (h : Trims handles kept st st') (memories : Array Memory.Store) (readings readings' : Nat) :
    Trims handles kept { st with memories, readings } { st' with memories, readings := readings' } :=
  ⟨rfl, h.apart, h.named, h.named', fun i hi => ⟨(h.housed i hi).isIn, (h.housed i hi).there⟩,
    fun i hi => ⟨(h.housed' i hi).isIn, (h.housed' i hi).there⟩, h.views⟩

/-- The same is done through one handle on both sides. -/
theorem through (h : Trims handles kept st st') {j : Nat} (hj : j ∈ handles) (h₁ : Through j st st₁)
    (h₁' : Through j st' st₁') (hnamed : st₁.disk.Every WellNamed) (hnamed' : st₁'.disk.Every WellNamed)
    (hview : Git.View.Trims (kept j) (st₁.view j) (st₁'.view j)) : Trims handles kept st₁ st₁' where
  memories := h₁'.memories.trans (h.memories.trans h₁.memories.symm)
  apart i hi k hk hsite := h.apart i hi k hk (by rwa [h₁.site, h₁.site] at hsite)
  named := hnamed
  named' := hnamed'
  housed i hi := h₁.housed (h.housed i hi)
  housed' i hi := h₁'.housed (h.housed' i hi)
  views i hi := by
    by_cases hij : i = j
    · rw [hij]
      exact hview
    have hsite : ∀ k ∈ handles, (st'.handle k).site = (st.handle k).site := fun k hk =>
      congrArg Git.Handle.site (h.views k hk).handle
    have hne : (st.handle i).site ≠ (st.handle j).site := fun heq => hij (h.apart i hi j hj heq)
    have hne' : (st'.handle i).site ≠ (st'.handle j).site := by
      rw [hsite i hi, hsite j hj]
      exact hne
    rw [h₁.view (h.housed i hi) hne, h₁'.view (h.housed' i hi) hne']
    exact h.views i hi

variable (h : Trims handles kept st st')

include h

/-- **What a session does in a kept branch comes to the same.** -/
theorem perform {s : Session} (hs : s.Keeps handles kept) (op : Operation) :
    (s.perform st' op).1 = (s.perform st op).1 ∧ Trims handles kept (s.perform st op).2 (s.perform st' op).2 := by
  cases s with
  | memory id i tx =>
    obtain ⟨a, memories, readings, readings', hst, hst'⟩ := Session.perform_beside h.memories id i tx op
    rw [hst, hst']
    exact ⟨rfl, h.beside memories readings readings'⟩
  | git id j tx =>
    obtain ⟨hj, htx⟩ := hs
    obtain ⟨hanswer, hview⟩ := Session.perform_view st (i := j) id tx op
    obtain ⟨hanswer', hview'⟩ := Session.perform_view st' (i := j) id tx op
    obtain ⟨hsame, htrims⟩ := (h.views j hj).perform (h.named.repository closed_wellNamed _)
      (h.named'.repository closed_wellNamed _) htx op
    refine ⟨hanswer'.trans (hsame.trans hanswer.symm), h.through hj (Session.through_perform st id j tx op)
      (Session.through_perform st' id j tx op) (Session.every_perform closed_wellNamed h.named _ op)
      (Session.every_perform closed_wellNamed h.named' _ op) ?_⟩
    rw [hview, hview']
    exact htrims

/-- **A transaction in a kept branch ends alike.** -/
theorem finish {s : Session} (hs : s.Keeps handles kept) (hmain : ∀ i ∈ handles, kept i Git.RefName.main)
    (v : Engine.Verdict) :
    (Engine.finish { stores := st' } s v).1 = (Engine.finish { stores := st } s v).1 ∧
      Trims handles kept (Engine.finish { stores := st } s v).2.stores
        (Engine.finish { stores := st' } s v).2.stores := by
  cases s with
  | memory id i tx =>
    obtain ⟨o, memories, hst, hst'⟩ := Session.finish_beside h.memories id i tx v
    rw [hst, hst']
    exact ⟨rfl, h.beside memories st.readings st'.readings⟩
  | git id j tx =>
    obtain ⟨hj, htx⟩ := hs
    cases tx with
    | none => cases v <;> exact ⟨rfl, h⟩
    | some tx =>
      obtain ⟨hended, hview⟩ := Session.finish_view (h.housed j hj).isIn id tx v
      obtain ⟨hended', hview'⟩ := Session.finish_view (h.housed' j hj).isIn id tx v
      obtain ⟨hsame, htrims⟩ := (h.views j hj).finish (h.named.repository closed_wellNamed _)
        (h.named'.repository closed_wellNamed _) (hmain j hj) htx v
      refine ⟨hended'.trans (hsame.trans hended.symm), h.through hj
        (Session.through_finish id j { stores := st } tx v) (Session.through_finish id j { stores := st' } tx v)
        (every_finish closed_wellNamed h.named _ v) (every_finish closed_wellNamed h.named' _ v) ?_⟩
      rw [hview, hview']
      exact htrims

end Stores.Trims

/-! ## Deeds -/

/-- Something that a session does, or the end of the transaction that it is in. -/
inductive Deed where
  | operate (s : Session) (op : Traffic.Operation)
  | finish (tx : Session) (v : Engine.Verdict)

namespace Deed

open Traffic (Answer)

def session : Deed → Session
  | .operate s _ => s
  | .finish tx _ => tx

def act (st : Stores) : Deed → Answer × Stores
  | .operate s op => s.perform st op
  | .finish tx v => (.ended (Engine.finish { stores := st } tx v).1, (Engine.finish { stores := st } tx v).2.stores)

/-- What one deed after the other is answered. -/
def answers : List Deed → Stores → List Answer
  | [], _ => []
  | d :: deeds, st => (d.act st).1 :: answers deeds (d.act st).2

variable {handles : List Nat} {kept : Nat → String → Prop} (hmain : ∀ i ∈ handles, kept i Git.RefName.main)

include hmain

theorem act_trims {d : Deed} (hd : d.session.Keeps handles kept) {st st' : Stores}
    (h : Stores.Trims handles kept st st') :
    (d.act st').1 = (d.act st).1 ∧ Stores.Trims handles kept (d.act st).2 (d.act st').2 := by
  cases d with
  | operate s op => exact h.perform hd op
  | finish tx v =>
    obtain ⟨hended, htrims⟩ := h.finish hd hmain v
    exact ⟨congrArg Answer.ended hended, htrims⟩

/-- **Deeds in kept branches are answered alike**, however many come one after the other. -/
theorem answers_trims : ∀ {deeds : List Deed}, (∀ d ∈ deeds, d.session.Keeps handles kept) → ∀ {st st' : Stores},
    Stores.Trims handles kept st st' → answers deeds st' = answers deeds st
  | [], _, _, _, _ => rfl
  | d :: deeds, hdeeds, st, st', h => by
    obtain ⟨hanswer, htrims⟩ := act_trims hmain (hdeeds d List.mem_cons_self) h
    unfold answers
    rw [hanswer, answers_trims (fun d hd => hdeeds d (List.mem_cons_of_mem _ hd)) htrims]

end Deed

end Demarcate
