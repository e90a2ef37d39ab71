import Demarcate.Proofs.Git.Ancestry
/-!
# Chronicle — everything that is done to one repository

A chronicle is a repository from its first commit on, the handles that were opened on it, and for every name of a branch
what the transaction began at that was begun under it last (`Chronicle`).  One thing is done after the other, through
any of the handles (`Chronicle.step`).

Whatever is done, a transaction's branch descends from the base that the transaction began at (`Upright`), so `main`
only moves on: to a commit made on its tip, to a branch that starts from its tip, or to a commit that joins the two.
`main_history_grows` is what that comes to for the history of `main`.
-/
namespace Demarcate.Git

open Repository (Ancestor Grown Closed Sound Orderly)
open RefName (normal?)

/-- What a transaction began at, and how many changes it has made on its branch. -/
structure Begun where
  base : CommitId
  writes : Nat := 0

structure Chronicle where
  repository : Repository
  handles : Array Handle
  /-- By the name of the branch, the transaction that was begun last under it. -/
  begun : SortedMap String Begun := ∅

namespace Chronicle

inductive Call where
  | commitToMain (now : String) (table : TableName) (c : Change)
  | begin (id : String)
  | commitToTransaction (now id : String) (table : TableName) (c : Change)
  /-- Merges a transaction, with the base that it began at. -/
  | merge (id : String)
  | abandon (id : String)
  | cleanup

inductive Event where
  | call (handle : Nat) (c : Call)
  /-- The repository is opened once more. -/
  | opened (path : String) (site : Path) (author : Signature)
  /-- It is to be made once more. -/
  | remade (path : String) (site : Path) (author : Signature)

/-- What a transaction began at, if it was ever begun. -/
def begun? (c : Chronicle) (id : String) : Option Begun := (normal? (RefName.ofTransaction id)).bind c.begun.get?

/-- The head of a transaction's branch, if there is one. -/
def branch? (c : Chronicle) (id : String) : Option CommitId :=
  (normal? (RefName.ofTransaction id)).bind c.repository.leads?

def note (c : Chronicle) (id : String) (b : Begun) : SortedMap String Begun :=
  match normal? (RefName.ofTransaction id) with
  | some n => c.begun.insert n b
  | none => c.begun

/-- A change on the transaction's branch is counted. -/
def count (c : Chronicle) (id : String) : SortedMap String Begun :=
  match c.begun? id with
  | some b => c.note id { b with writes := b.writes + 1 }
  | none => c.begun

/-- What a change leaves: the repository that it has made, if it succeeds. -/
def changed (c : Chronicle) (begun : SortedMap String Begun) : Outcome StorageError (CommitId × Repository) → Chronicle
  | .value (_, r) => { c with repository := r, begun }
  | _ => c

/-- A call through the handle `h`, which is the `i`-th.  One that fails leaves the repository as it was. -/
def call (c : Chronicle) (i : Nat) (h : Handle) : Call → Chronicle
  | .commitToMain now table change =>
    c.changed c.begun (c.repository.commitToMain h.author now table change)
  | .begin id =>
    match h.begin c.repository id with
    | .ok (base, h, r) =>
      { repository := r, handles := c.handles.setIfInBounds i h, begun := c.note id { base } }
    | .error _ => c
  | .commitToTransaction now id table change =>
    c.changed (c.count id) (c.repository.commitToTransaction h.author now id table change)
  | .merge id =>
    match c.begun? id with
    | none => c
    | some b =>
      match c.repository.merge h.author id b.base with
      | .ok (_, r) => { c with repository := r }
      | .error _ => c
  | .abandon id =>
    match h.abandon c.repository id with
    | (.ok r, h) => { c with repository := r, handles := c.handles.setIfInBounds i h }
    | (.error _, h) => { c with handles := c.handles.setIfInBounds i h }
  | .cleanup => { c with repository := (h.cleanup c.repository).2 }

def step (c : Chronicle) : Event → Chronicle
  | .call i k =>
    match c.handles[i]? with
    | some h => c.call i h k
    | none => c
  | .opened path site author => { c with handles := c.handles.push { path, site, author } }
  | .remade path site author =>
    match c.repository.start author with
    | .ok r => { c with repository := r, handles := c.handles.push { path, site, author } }
    | .error _ => c

def run (c : Chronicle) (events : List Event) : Chronicle := events.foldl step c

/-- The chronicle of a repository from the moment that it was made. -/
def first (r : Repository) (h : Handle) : Chronicle := { repository := r, handles := #[h] }

theorem count_eq {c : Chronicle} {id n : String} {b : Begun} (hn : normal? (RefName.ofTransaction id) = some n)
    (hb : c.begun.get? n = some b) : c.count id = c.begun.insert n { b with writes := b.writes + 1 } := by
  unfold count begun? note
  rw [hn, Option.bind_some, hb]

end Chronicle

/-! ## The branches of transactions -/

/-- Where a transaction's branch is, in view of what the transaction has done. -/
structure Begun.Stands (r : Repository) (b : Begun) (head : CommitId) : Prop where
  base : (r.commit? b.base).isSome = true
  descends : r.Ancestor b.base head
  idle : b.writes = 0 → head = b.base
  busy : b.writes ≠ 0 → b.base.index < head.index

theorem Begun.Stands.grown {r r' : Repository} {b : Begun} {head : CommitId} (h : b.Stands r head) (hg : Grown r r') :
    b.Stands r' head := by
  obtain ⟨commit, hcommit⟩ := Option.isSome_iff_exists.1 h.base
  refine ⟨?_, hg.ancestor h.descends, h.idle, h.busy⟩
  rw [hg.commit? hcommit]
  rfl

namespace Chronicle

/-- Every reference is `main` or a branch that stands where its transaction has moved it. -/
structure Upright (c : Chronicle) : Prop where
  sound : c.repository.Sound
  orderly : c.repository.Orderly
  main : ∃ id, c.repository.leads? RefName.main = some id
  branches : ∀ n t, c.repository.refs.get? n = some t → n ≠ RefName.main →
    ∃ head b, t = .commit head ∧ c.begun.get? n = some b ∧ b.Stands c.repository head

/-- Commits are only added, and `main` moves to descendants of its tip. -/
structure Onward (r r' : Repository) : Prop where
  grown : Grown r r'
  main : ∀ a, r.leads? RefName.main = some a → ∃ b, r'.leads? RefName.main = some b ∧ r'.Ancestor a b

namespace Onward

variable {r r' r'' : Repository}

theorem of_main (h : Grown r r') (hmain : r'.leads? RefName.main = r.leads? RefName.main) : Onward r r' :=
  ⟨h, fun a ha => ⟨a, hmain.trans ha, .refl⟩⟩

theorem refl (r : Repository) : Onward r r := .of_main (.refl r) rfl

theorem trans (h₁ : Onward r r') (h₂ : Onward r' r'') : Onward r r'' := by
  refine ⟨h₁.grown.trans h₂.grown, fun a ha => ?_⟩
  obtain ⟨b, hb, hab⟩ := h₁.main a ha
  obtain ⟨b', hb', hbb'⟩ := h₂.main b hb
  exact ⟨b', hb', (h₂.grown.ancestor hab).trans hbb'⟩

end Onward

namespace Upright

variable {c : Chronicle}

/-- A branch stays in its place while others move. -/
theorem kept (h : c.Upright) {r : Repository} {begun : SortedMap String Begun} (hg : Grown c.repository r) {n : String}
    {t : Target} (hn : n ≠ RefName.main) (href : r.refs.get? n = some t)
    (hsame : r.refs.get? n = c.repository.refs.get? n) (hbegun : begun.get? n = c.begun.get? n) :
    ∃ head b, t = .commit head ∧ begun.get? n = some b ∧ b.Stands r head := by
  obtain ⟨head, b, ht, hb, hstands⟩ := h.branches n t (hsame ▸ href) hn
  exact ⟨head, b, ht, hbegun.trans hb, hstands.grown hg⟩

/-- References that go leave the others as they were. -/
theorem dropped (h : c.Upright) (handles : Array Handle) {r : Repository} (hsound : r.Sound) (horderly : r.Orderly)
    (hg : Grown c.repository r) (hmain : r.refs.get? RefName.main = c.repository.refs.get? RefName.main)
    (hrefs : ∀ n t, r.refs.get? n = some t → c.repository.refs.get? n = some t) :
    Upright { c with repository := r, handles } ∧ Onward c.repository r := by
  have hleads : r.leads? RefName.main = c.repository.leads? RefName.main := by
    unfold Repository.leads?
    rw [hmain]
  refine ⟨⟨hsound, horderly, hleads ▸ h.main, fun n t hn hne => ?_⟩, .of_main hg hleads⟩
  exact h.kept hg hne hn (hn.trans (hrefs n t hn).symm) rfl

/-! ### The calls -/

section Calls

variable (h : c.Upright) (hd : Handle)

include h

theorem commitToMain {now : String} {table : TableName} {change : Change} {id : CommitId} {r : Repository}
    (hc : c.repository.commitToMain hd.author now table change = .value (id, r)) :
    Upright { c with repository := r } ∧ Onward c.repository r := by
  obtain ⟨n, parent, before, existing, row, shown, hn, href, -, -, -, -, -, hr⟩ :=
    Repository.commitTo_made h.orderly.named hc
  rw [RefName.normal?_main] at hn
  cases hn
  have hsound := Repository.closed_sound.commitTo h.sound hc
  have horderly := Repository.closed_orderly.commitTo h.orderly hc
  generalize hcommit : Commit.mk [parent] _ _ _ = commit at hr
  subst hr
  have hg := Repository.grown_extend c.repository RefName.main commit
  have hleads := Repository.leads?_extend c.repository RefName.main RefName.main commit
  rw [if_pos rfl] at hleads
  refine ⟨⟨hsound, horderly, ⟨_, hleads⟩, fun m t hm hne => ?_⟩, hg, fun a ha => ⟨_, hleads, ?_⟩⟩
  · refine h.kept hg hne hm ?_ rfl
    exact (SortedMap.get?_insert ..).trans (if_neg hne)
  · rw [Repository.leads?_eq_some_iff, href] at ha
    cases ha
    refine Repository.ancestor_extend ?_
    rw [← hcommit]
    exact List.mem_singleton_self _

theorem commitToTransaction {now tx : String} {table : TableName} {change : Change} {id : CommitId} {r : Repository}
    (hc : c.repository.commitToTransaction hd.author now tx table change = .value (id, r)) :
    Upright { c with repository := r, begun := c.count tx } ∧ Onward c.repository r := by
  obtain ⟨n, parent, before, existing, row, shown, hn, href, -, -, -, -, -, hr⟩ :=
    Repository.commitTo_made h.orderly.named hc
  have hne := RefName.normal?_ofTransaction_ne_main hn
  have hsound := Repository.closed_sound.commitTo h.sound hc
  have horderly := Repository.closed_orderly.commitTo h.orderly hc
  generalize hcommit : Commit.mk [parent] _ _ _ = commit at hr
  subst hr
  have hg := Repository.grown_extend c.repository n commit
  have hleads := Repository.leads?_extend c.repository n RefName.main commit
  rw [if_neg hne.symm] at hleads
  obtain ⟨head, b, hhead, hb, hstands⟩ := h.branches n _ href hne
  cases hhead
  have hcount := count_eq hn hb
  refine ⟨⟨hsound, horderly, hleads ▸ h.main, fun m t hm hmne => ?_⟩, .of_main hg hleads⟩
  simp only [hcount]
  by_cases hmn : m = n
  · subst hmn
    have ht : (c.repository.extend m commit).refs.get? m = some (.commit c.repository.next) :=
      (SortedMap.get?_insert ..).trans (if_pos rfl)
    rw [ht] at hm
    cases hm
    have hbase : b.base.index < c.repository.commits.size := by
      obtain ⟨base, hbase⟩ := Option.isSome_iff_exists.1 hstands.base
      exact (Array.getElem?_eq_some_iff.1 (Repository.commit?_eq_some hbase).2).1
    have hparent : (c.repository.extend m commit).Ancestor parent c.repository.next := by
      refine Repository.ancestor_extend ?_
      rw [← hcommit]
      exact List.mem_singleton_self _
    refine ⟨_, _, rfl, (SortedMap.get?_insert ..).trans (if_pos rfl), (hstands.grown hg).base, ?_, ?_, fun _ => hbase⟩
    · exact (hstands.grown hg).descends.trans hparent
    · intro hzero
      cases hzero
  · have hsame : (c.repository.extend n commit).refs.get? m = c.repository.refs.get? m :=
      (SortedMap.get?_insert ..).trans (if_neg hmn)
    refine h.kept hg hmne hm hsame ?_
    exact (SortedMap.get?_insert ..).trans (if_neg hmn)

theorem begin {id : String} {base : CommitId} {hd' : Handle} {r : Repository} (handles : Array Handle)
    (hb : hd.begin c.repository id = .ok (base, hd', r)) :
    Upright { repository := r, handles, begun := c.note id { base } } ∧ Onward c.repository r := by
  obtain ⟨⟨base', r'⟩, hbranch, hb⟩ := bind_ok hb
  cases hb
  have hsound := Repository.closed_sound.branch h.sound hbranch
  have horderly := Repository.closed_orderly.branch h.orderly hbranch
  obtain ⟨n, hn, -, htip, rfl⟩ := Repository.branch_ok hbranch
  have hne := RefName.normal?_ofTransaction_ne_main hn
  have hg : Grown c.repository (c.repository.moveTo n base) := ⟨rfl, fun _ _ h => h⟩
  have hleads := Repository.leads?_moveTo c.repository n RefName.main base
  rw [if_neg hne.symm] at hleads
  have hnote : c.note id { base } = c.begun.insert n { base } := by
    unfold note
    rw [hn]
  refine ⟨⟨hsound, horderly, hleads ▸ h.main, fun m t hm hmne => ?_⟩, .of_main hg hleads⟩
  simp only [hnote]
  by_cases hmn : m = n
  · subst hmn
    have ht : (c.repository.moveTo m base).refs.get? m = some (.commit base) :=
      (SortedMap.get?_insert ..).trans (if_pos rfl)
    cases ht.symm.trans hm
    obtain ⟨-, -, -, hread⟩ := Repository.resolve_eq_ok_iff.1 htip
    exact ⟨base, _, rfl, (SortedMap.get?_insert ..).trans (if_pos rfl), hread, .refl, fun _ => rfl,
      fun hbusy => absurd rfl hbusy⟩
  · have hsame : (c.repository.moveTo n base).refs.get? m = c.repository.refs.get? m :=
      (SortedMap.get?_insert ..).trans (if_neg hmn)
    refine h.kept hg hmne hm hsame ?_
    exact (SortedMap.get?_insert ..).trans (if_neg hmn)

/-- **Merging moves `main` on**, to the head of the branch where that starts from the tip, and otherwise to a commit with
the tip as a parent. -/
theorem merge {id : String} {b : Begun} {outcome : MergeOutcome} {r : Repository} (hb : c.begun? id = some b)
    (hm : c.repository.merge hd.author id b.base = .ok (outcome, r)) :
    Upright { c with repository := r } ∧ Onward c.repository r := by
  have hsound := Repository.closed_sound.merge h.sound hm
  have horderly := Repository.closed_orderly.merge h.orderly hm
  obtain ⟨theirs, htheirs, -⟩ := bind_ok hm
  obtain ⟨n, hn, href, -⟩ := Repository.resolve_eq_ok_iff.1 htheirs
  have hne := RefName.normal?_ofTransaction_ne_main hn
  -- what was begun under the name of the branch stands at its head
  obtain ⟨head, b', hhead, hb', hstands⟩ := h.branches n _ href hne
  cases hhead
  unfold begun? at hb
  rw [hn, Option.bind_some, hb', Option.some.injEq] at hb
  subst hb
  have hstays : ∀ {r' : Repository}, Grown c.repository r' →
      (∀ m, m ≠ RefName.main → r'.refs.get? m = c.repository.refs.get? m) → ∀ m t, r'.refs.get? m = some t →
      m ≠ RefName.main → ∃ head b, t = .commit head ∧ c.begun.get? m = some b ∧ b.Stands r' head :=
    fun hg hrefs m t hm hmne => h.kept hg hmne hm (hrefs m hmne) rfl
  rw [Repository.merge_eq h.orderly.named htheirs] at hm
  split at hm
  · cases hm
    exact ⟨h, .refl _⟩
  obtain ⟨ours, hours, hm⟩ := bind_ok hm
  have htip := (Repository.tip_ok hours).1
  split at hm
  · rename_i hbase
    cases hm
    have hg : Grown c.repository (c.repository.moveTo RefName.main theirs) := ⟨rfl, fun _ _ h => h⟩
    have hleads := Repository.leads?_moveTo c.repository RefName.main RefName.main theirs
    rw [if_pos rfl] at hleads
    refine ⟨⟨hsound, horderly, ⟨_, hleads⟩, hstays hg fun m hm => ?_⟩, hg, fun a ha => ⟨_, hleads, ?_⟩⟩
    · exact (SortedMap.get?_insert ..).trans (if_neg hm)
    · rw [Repository.leads?_eq_some_iff, htip, hbase] at ha
      cases ha
      exact hg.ancestor hstands.descends
  obtain ⟨before, -, hm⟩ := bind_ok hm
  obtain ⟨here, -, hm⟩ := bind_ok hm
  obtain ⟨there, -, hm⟩ := bind_ok hm
  split at hm
  · cases hm
    exact ⟨h, .refl _⟩
  obtain ⟨shown, -, hm⟩ := bind_ok hm
  generalize hcommit : Commit.mk [ours, theirs] _ _ _ = commit at hm
  cases hm
  have hg := Repository.grown_extend c.repository RefName.main commit
  have hleads := Repository.leads?_extend c.repository RefName.main RefName.main commit
  rw [if_pos rfl] at hleads
  refine ⟨⟨hsound, horderly, ⟨_, hleads⟩, hstays hg fun m hm => ?_⟩, hg, fun a ha => ⟨_, hleads, ?_⟩⟩
  · exact (SortedMap.get?_insert ..).trans (if_neg hm)
  · rw [Repository.leads?_eq_some_iff, htip] at ha
    cases ha
    refine Repository.ancestor_extend ?_
    rw [← hcommit]
    exact List.mem_cons_self

theorem abandon {id : String} {hd' : Handle} {r : Repository} (handles : Array Handle)
    (ha : hd.abandon c.repository id = (.ok r, hd')) :
    Upright { c with repository := r, handles } ∧ Onward c.repository r := by
  unfold Handle.abandon at ha
  rw [Prod.mk.injEq] at ha
  have hsound := Repository.closed_sound.deleteRef h.sound ha.1
  have horderly := Repository.closed_orderly.deleteRef h.orderly ha.1
  obtain ⟨n, hn, rfl⟩ := Repository.deleteRef_ok ha.1
  have hne := RefName.normal?_ofTransaction_ne_main hn
  have hrefs : ∀ m, (c.repository.refs.erase n).get? m = if m = n then none else c.repository.refs.get? m :=
    fun m => SortedMap.get?_erase ..
  refine h.dropped _ hsound horderly ⟨rfl, fun _ _ h => h⟩ ?_ ?_
  · exact (hrefs RefName.main).trans (if_neg hne.symm)
  · intro m t hm
    have hm' := (hrefs m).symm.trans hm
    split at hm'
    · cases hm'
    · exact hm'

theorem cleanup : Upright { c with repository := (hd.cleanup c.repository).2 } ∧
    Onward c.repository (hd.cleanup c.repository).2 := by
  unfold Handle.cleanup
  generalize (c.repository.transactionIds.filter fun id => !hd.live.contains id) = ids
  obtain ⟨refs, hrefs, hgone, hkept⟩ := Repository.deleteBranches_eq ids c.repository
  have hsound := Repository.closed_sound.deleteBranches ids h.sound
  have horderly := Repository.closed_orderly.deleteBranches ids h.orderly
  rw [hrefs] at hsound horderly ⊢
  refine h.dropped _ hsound horderly ⟨rfl, fun _ _ h => h⟩ ?_ ?_
  · exact hkept _ fun id _ hn => RefName.normal?_ofTransaction_ne_main hn rfl
  · intro m t hm
    by_cases hdropped : ∃ id ∈ ids, normal? (RefName.ofTransaction id) = some m
    · obtain ⟨id, hid, hn⟩ := hdropped
      have hnone := hgone id hid m hn
      rw [hnone] at hm
      cases hm
    · rw [← hkept m fun id hid hn => hdropped ⟨id, hid, hn⟩]
      exact hm

/-- A repository that has a `main` is not made again. -/
theorem not_started {author : Signature} {r : Repository} : c.repository.start author ≠ .ok r := by
  intro hs
  obtain ⟨shown, -, hs⟩ := bind_ok hs
  obtain ⟨t, -, hs⟩ := bind_ok hs
  obtain ⟨r₂, hset, -⟩ := bind_ok hs
  obtain ⟨n, hn, -, hnone⟩ := Repository.setRef_ok hset
  rw [RefName.normal?_main] at hn
  cases hn
  obtain ⟨id, hid⟩ := h.main
  have := hnone rfl
  rw [show ({ c.repository with commits := _ } : Repository).refs = c.repository.refs from rfl,
    Repository.leads?_eq_some_iff.1 hid] at this
  cases this

end Calls

theorem call (h : c.Upright) (i : Nat) (hd : Handle) (k : Call) :
    (c.call i hd k).Upright ∧ Onward c.repository (c.call i hd k).repository := by
  have hstays : c.Upright ∧ Onward c.repository c.repository := ⟨h, .refl _⟩
  have hchanged : ∀ begun made, (∀ id r, made = .value (id, r) →
      Upright { c with repository := r, begun } ∧ Onward c.repository r) →
      (c.changed begun made).Upright ∧ Onward c.repository (c.changed begun made).repository := by
    intro begun made hmade
    cases made with
    | value made => exact hmade _ _ rfl
    | failed e => exact hstays
    | unwound text => exact hstays
  cases k with
  | commitToMain now table change =>
    refine hchanged _ _ fun id r hc => h.commitToMain hd hc
  | begin id =>
    unfold Chronicle.call
    simp only
    split
    · rename_i hb
      exact h.begin hd _ hb
    · exact hstays
  | commitToTransaction now id table change =>
    refine hchanged _ _ fun id' r hc => h.commitToTransaction hd hc
  | merge id =>
    unfold Chronicle.call
    simp only
    split
    · exact hstays
    rename_i b hb
    split
    · rename_i hm
      exact h.merge hd hb hm
    · exact hstays
  | abandon id =>
    unfold Chronicle.call
    simp only
    split
    · rename_i ha
      exact h.abandon hd _ ha
    · exact ⟨⟨h.sound, h.orderly, h.main, h.branches⟩, .refl _⟩
  | cleanup => exact h.cleanup hd

/-- **Whatever is done, the branches stand and `main` moves on.** -/
theorem step (h : c.Upright) (e : Event) : (c.step e).Upright ∧ Onward c.repository (c.step e).repository := by
  unfold Chronicle.step
  split
  · split
    · exact h.call _ _ _
    · exact ⟨h, .refl _⟩
  · exact ⟨⟨h.sound, h.orderly, h.main, h.branches⟩, .refl _⟩
  · split
    · rename_i hs
      exact absurd hs h.not_started
    · exact ⟨h, .refl _⟩

theorem run (events : List Event) : ∀ {c : Chronicle}, c.Upright →
    (c.run events).Upright ∧ Onward c.repository (c.run events).repository := by
  induction events with
  | nil => exact fun h => ⟨h, .refl _⟩
  | cons e events ih =>
    intro c h
    obtain ⟨hstep, honward⟩ := h.step e
    obtain ⟨hrun, honward'⟩ := ih hstep
    exact ⟨hrun, honward.trans honward'⟩

end Upright

/-! ## A repository that is made -/

theorem upright_first {number : Nat} {author : Signature} {r : Repository}
    (h : ({ number } : Repository).start author = .ok r) (hd : Handle) : (first r hd).Upright := by
  obtain ⟨-, -, -, hmain, hrefs⟩ := Repository.start_fresh h
  refine ⟨Repository.closed_sound.start (.empty number) h, ?_, ⟨⟨number, 0⟩, ?_⟩, fun n t hn hne => ?_⟩
  · exact Repository.closed_orderly.start (Repository.closed_orderly.fresh number) h
  · exact Repository.leads?_eq_some_iff.2 hmain
  · exact absurd (hrefs n t hn) hne

section Init

variable {d d' : Disk} {path : String} {author : Signature} {h : Handle}
  (hnew : d.repositories.get? (Disk.outOfDotGit (siteOf path)) = none)

include hnew

theorem repository_fresh : d.repository (Disk.outOfDotGit (siteOf path)) = { number := d.repositories.size } := by
  unfold Disk.repository
  rw [hnew]
  rfl

theorem initAt_usable (hsite : siteOk (Disk.outOfDotGit (siteOf path)) = true) (hauthor : author.Usable) :
    ∃ h d', Handle.initAt d path author = (.ok h, d') := by
  obtain ⟨r, hr⟩ := Repository.start_usable d.repositories.size hauthor
  unfold Handle.initAt
  simp only
  rw [repository_fresh hnew, hsite, hr]
  exact ⟨_, _, rfl⟩

theorem initAt_ok (hinit : Handle.initAt d path author = (.ok h, d')) :
    h.author = author ∧ ∃ number, ({ number } : Repository).start author = .ok (d'.repository h.site) := by
  unfold Handle.initAt at hinit
  simp only at hinit
  split at hinit
  · cases hinit
  rw [repository_fresh hnew] at hinit
  split at hinit
  · rename_i r hs
    cases hinit
    refine ⟨rfl, d.repositories.size, ?_⟩
    rw [hs]
    unfold Disk.repository Disk.setRepository
    simp only
    rw [SortedMap.get?_insert, if_pos rfl]
    rfl
  · cases hinit

/-- **The history of `main` only grows**, whatever is done to a repository from the moment that it is made: a commit
that `main` was at lies before the one that it is at later, with all that lay before it; and the branch of a transaction
descends from the base that the transaction began at. -/
theorem main_history_grows (hinit : Handle.initAt d path author = (.ok h, d')) (before after : List Event) :
    let was := (first (d'.repository h.site) h).run before
    let now := was.run after
    (∃ a b, was.repository.leads? RefName.main = some a ∧ now.repository.leads? RefName.main = some b ∧
      now.repository.Ancestor a b ∧ ∀ x commit, was.repository.Ancestor x a → was.repository.kept? x = some commit →
        now.repository.Ancestor x b ∧ now.repository.kept? x = some commit) ∧
      ∀ id head, now.branch? id = some head → ∃ b, now.begun? id = some b ∧ now.repository.Ancestor b.base head := by
  intro was now
  obtain ⟨-, number, hs⟩ := initAt_ok hnew hinit
  obtain ⟨hwas, -⟩ := (upright_first hs h).run before
  obtain ⟨hnow, honward⟩ := hwas.run after
  refine ⟨?_, fun id head hhead => ?_⟩
  · obtain ⟨a, ha⟩ := hwas.main
    obtain ⟨b, hb, hab⟩ := honward.main a ha
    refine ⟨a, b, ha, hb, hab, fun x commit hx hcommit => ⟨?_, honward.grown.kept? hcommit⟩⟩
    exact (honward.grown.ancestor hx).trans hab
  · unfold branch? at hhead
    obtain ⟨n, hn, hleads⟩ := Option.bind_eq_some_iff.1 hhead
    have hne := RefName.normal?_ofTransaction_ne_main hn
    obtain ⟨head', b, hhead', hb, hstands⟩ := hnow.branches n _ (Repository.leads?_eq_some_iff.1 hleads) hne
    cases hhead'
    refine ⟨b, ?_, hstands.descends⟩
    unfold begun?
    rw [hn]
    exact hb

end Init

theorem initAt_data : ∃ h d', Handle.initAt {} "data" .default = (.ok h, d') := by
  have hsite : siteOk (Disk.outOfDotGit (siteOf "data")) = true := by
    have hdata : Disk.outOfDotGit (siteOf "data") = ["data"] := by decide
    rw [hdata]
    simp only [siteOk, List.all_cons, List.all_nil, String.contains_char_eq]
    decide
  exact initAt_usable rfl hsite Signature.usable_default

/-- A transaction is begun and merged, with a change on `main` in between. -/
def mergedBetween : List Event :=
  let row (key : String) : Row := ⟨⟨key⟩, 1, "t", "t", ∅⟩
  [.call 0 (.begin "a"), .call 0 (.commitToTransaction "t" "a" ⟨"notes"⟩ (.insert (row "x"))),
    .call 0 (.commitToMain "t" ⟨"notes"⟩ (.insert (row "y"))), .call 0 (.merge "a")]

theorem mergedBetween_history_grows : ∃ h d', Handle.initAt {} "data" .default = (.ok h, d') ∧
    ∃ a b, (first (d'.repository h.site) h).repository.leads? RefName.main = some a ∧
      ((first (d'.repository h.site) h).run mergedBetween).repository.leads? RefName.main = some b ∧
      ((first (d'.repository h.site) h).run mergedBetween).repository.Ancestor a b := by
  obtain ⟨h, d', hinit⟩ := initAt_data
  obtain ⟨⟨a, b, ha, hb, hab, -⟩, -⟩ := main_history_grows rfl hinit [] mergedBetween
  exact ⟨h, d', hinit, a, b, ha, hb, hab⟩

end Chronicle
end Demarcate.Git
