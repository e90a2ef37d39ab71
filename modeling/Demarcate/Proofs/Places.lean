import Demarcate.Proofs.Contents
import Demarcate.Proofs.Frames
import Demarcate.Proofs.Memory.History
/-!
# Places — what a step of a session can change

A session reads and writes in one place: the tables of a store in memory or a transaction's write set on it, `main` of a
repository or a transaction's branch.  `Confined ps st st'` says that two states of the stores differ in the places
`ps` at most.  A change is confined to its session's place, and what ends a transaction to the transaction's, except
that a commit that succeeds changes the place outside of it too.
-/
namespace Demarcate

open Git (CommitId branchOf)

inductive Place where
  | tables (store : Nat)
  | writeSet (store : Nat) (tx : Ulid)
  | branch (site : Git.Path) (name : String)
  deriving DecidableEq

/-- Where a session reads and writes. -/
def Session.place (st : Stores) : Session → Place
  | .memory _ i none => .tables i
  | .memory _ i (some tx) => .writeSet i tx
  | .git _ i tx => .branch (st.handle i).site (Git.branchAt tx)

/-- Handles stay on their repositories, so a session stays where it is. -/
theorem Session.place_congr {st st' : Stores} (h : ∀ i, (st'.handle i).site = (st.handle i).site) (s : Session) :
    s.place st' = s.place st := by
  cases s with
  | memory id i tx => cases tx <;> rfl
  | git id i tx => simp only [place, h]

theorem place_git (st : Stores) (id : Ulid) (i : Nat) (tx : Git.Transaction) :
    (Session.git id i (some tx)).place st = .branch (st.handle i).site (branchOf tx.id) := rfl

theorem place_outside_git (st : Stores) (id : Ulid) (i : Nat) (tx : Option Git.Transaction) :
    (Session.git id i tx).outside.place st = .branch (st.handle i).site Git.RefName.main := rfl

/-- What is in a place is what was there.  Of a branch's repository the commits are kept. -/
def Place.Same (st st' : Stores) : Place → Prop
  | .tables i => (st'.memory i).tables = (st.memory i).tables
  | .writeSet i tx => (st'.memory i).writeSet tx = (st.memory i).writeSet tx
  | .branch x name =>
    (∀ (i : Nat) (c : Git.Commit), (st.disk.repository x).commits[i]? = some c →
      (st'.disk.repository x).commits[i]? = some c) ∧
      (st'.disk.repository x).refs.get? name = (st.disk.repository x).refs.get? name

namespace Place.Same

theorem refl (st : Stores) : ∀ p : Place, p.Same st st
  | .tables _ => rfl
  | .writeSet _ _ => rfl
  | .branch _ _ => ⟨fun _ _ h => h, rfl⟩

theorem trans {st₁ st₂ st₃ : Stores} : ∀ {p : Place}, p.Same st₁ st₂ → p.Same st₂ st₃ → p.Same st₁ st₃
  | .tables _, h₁, h₂ => Eq.trans h₂ h₁
  | .writeSet _ _, h₁, h₂ => Eq.trans h₂ h₁
  | .branch _ _, h₁, h₂ => ⟨fun i c h => h₂.1 i c (h₁.1 i c h), h₂.2.trans h₁.2⟩

end Place.Same

/-- The stores differ in some places at most, and identifiers may have been issued. -/
structure Confined (ps : List Place) (st st' : Stores) : Prop where
  issued : st.issued ≤ st'.issued
  size : st'.memories.size = st.memories.size
  site : ∀ i, (st'.handle i).site = (st.handle i).site
  same : ∀ p, p ∉ ps → p.Same st st'

namespace Confined

variable {ps qs : List Place} {st st₁ st₂ : Stores}

theorem refl (ps : List Place) (st : Stores) : Confined ps st st :=
  ⟨Nat.le_refl _, rfl, fun _ => rfl, fun p _ => .refl st p⟩

theorem mono (h : Confined ps st st₁) (hsub : ∀ p ∈ ps, p ∈ qs) : Confined qs st st₁ :=
  ⟨h.issued, h.size, h.site, fun p hp => h.same p fun hmem => hp (hsub p hmem)⟩

theorem trans (h₁ : Confined ps st st₁) (h₂ : Confined qs st₁ st₂) : Confined (ps ++ qs) st st₂ := by
  refine ⟨Nat.le_trans h₁.issued h₂.issued, h₂.size.trans h₁.size, fun i => (h₂.site i).trans (h₁.site i), ?_⟩
  intro p hp
  rw [List.mem_append, not_or] at hp
  exact (h₁.same p hp.1).trans (h₂.same p hp.2)

end Confined

/-! ## Changes of the stores -/

section Stores

variable {st : Stores}

theorem confined_readClock (st : Stores) : Confined [] st st.readClock.2 :=
  ⟨Nat.le_refl _, rfl, fun _ => rfl, fun p _ => .refl st p⟩

theorem confined_issue (st : Stores) : Confined [] st st.issue.2 :=
  ⟨Nat.le_succ _, rfl, fun _ => rfl, fun p _ => .refl st p⟩

theorem memory_setMemory (st : Stores) (i j : Nat) (m : Memory.Store) :
    (st.setMemory i m).memory j = if j = i ∧ i < st.memories.size then m else st.memory j :=
  getD_setIfInBounds ..

theorem confined_setMemory {i : Nat} {m : Memory.Store} (ps : List Place)
    (htables : .tables i ∉ ps → m.tables = (st.memory i).tables)
    (hsets : ∀ tx, .writeSet i tx ∉ ps → m.writeSet tx = (st.memory i).writeSet tx) :
    Confined ps st (st.setMemory i m) := by
  refine ⟨Nat.le_refl _, Array.size_setIfInBounds, fun _ => rfl, fun p hp => ?_⟩
  cases p with
  | tables j =>
    simp only [Place.Same]
    rw [memory_setMemory]
    split
    · rename_i h
      rw [h.1] at hp ⊢
      exact htables hp
    · rfl
  | writeSet j tx =>
    simp only [Place.Same]
    rw [memory_setMemory]
    split
    · rename_i h
      rw [h.1] at hp ⊢
      exact hsets tx hp
    · rfl
  | branch x name => exact ⟨fun _ _ hc => hc, rfl⟩

theorem confined_setWriteSet (st : Stores) (i : Nat) (tx : Ulid) (ws : Memory.WriteSet) :
    Confined [.writeSet i tx] st (st.setMemory i ((st.memory i).setWriteSet tx ws)) := by
  refine confined_setMemory _ (fun _ => rfl) fun tx' htx => ?_
  have hne : tx' ≠ tx := fun h => htx (by rw [h]; exact List.mem_singleton_self _)
  rw [Memory.writeSet_setWriteSet, if_neg hne]

theorem repository_congr {i j : Nat} (h : (st.handle i).site = (st.handle j).site) :
    st.repository i = st.repository j := by
  unfold Stores.repository
  rw [h]

theorem get?_setRepository (st : Stores) (i : Nat) (r : Git.Repository) (x : Git.Path) :
    ((st.setRepository i r).disk.repositories.get? x) =
      if x = (st.handle i).site then some r else st.disk.repositories.get? x :=
  SortedMap.get?_insert ..

theorem repository_setRepository (st : Stores) (i : Nat) (r : Git.Repository) :
    (st.setRepository i r).repository i = r := by
  have hget := get?_setRepository st i r (st.handle i).site
  rw [if_pos rfl] at hget
  unfold Stores.repository Git.Disk.repository
  show ((st.setRepository i r).disk.repositories.get? (st.handle i).site).getD _ = r
  rw [hget]
  rfl

theorem confined_setRepository {i : Nat} {name : String} {r : Git.Repository}
    (h : Git.Repository.Moves name (st.repository i) r) :
    Confined [.branch (st.handle i).site name] st (st.setRepository i r) := by
  refine ⟨Nat.le_refl _, rfl, fun _ => rfl, fun p hp => ?_⟩
  cases p with
  | tables j => rfl
  | writeSet j tx => rfl
  | branch x n =>
    simp only [Place.Same, Git.Disk.repository]
    rw [get?_setRepository]
    split
    · rename_i hx
      rw [hx] at hp ⊢
      refine ⟨h.commits, h.refs n fun hn => hp ?_⟩
      rw [hn]
      exact List.mem_singleton_self _
    · cases hr : st.disk.repositories.get? x with
      | none => exact ⟨fun i c hc => by simp at hc, rfl⟩
      | some r' => exact ⟨fun _ _ hc => hc, rfl⟩

theorem handle_setHandle (st : Stores) (i j : Nat) (h : Git.Handle) :
    (st.setHandle i h).handle j = if j = i ∧ i < st.handles.size then h else st.handle j :=
  getD_setIfInBounds ..

theorem repository_setHandle {i : Nat} {h : Git.Handle} (hsite : h.site = (st.handle i).site) (j : Nat) :
    (st.setHandle i h).repository j = st.repository j := by
  have hj : ((st.setHandle i h).handle j).site = (st.handle j).site := by
    rw [handle_setHandle]
    split
    · rename_i hj
      rw [hsite, hj.1]
    · rfl
  unfold Stores.repository
  rw [hj]
  rfl

theorem confined_setHandle {i : Nat} {h : Git.Handle} (hsite : h.site = (st.handle i).site) :
    Confined [] st (st.setHandle i h) := by
  refine ⟨Nat.le_refl _, rfl, fun j => ?_, fun p _ => ?_⟩
  · rw [handle_setHandle]
    split
    · rename_i hj
      rw [hsite, hj.1]
    · rfl
  · cases p with
    | tables j => rfl
    | writeSet j tx => rfl
    | branch x name => exact ⟨fun _ _ hc => hc, rfl⟩

/-- **What beginning a transaction's branch does**, if it does anything. -/
theorem beginBranch_cases (st : Stores) (i : Nat) (id : String) :
    (∃ base r h, (st.repository i).branch id = .ok (base, r) ∧ h.site = (st.handle i).site ∧
      st.beginBranch i id = (.ok base, (st.setRepository i r).setHandle i h)) ∨
      ∃ e, st.beginBranch i id = (.error e, st) := by
  unfold Stores.beginBranch Git.Handle.begin
  cases hb : (st.repository i).branch id with
  | error e => exact .inr ⟨e, rfl⟩
  | ok begun =>
    obtain ⟨base, r⟩ := begun
    refine .inl ⟨base, r, _, rfl, ?_, rfl⟩
    rfl

theorem confined_dropBranch (st : Stores) (i : Nat) (tx : Git.Transaction) :
    Confined [.branch (st.handle i).site (branchOf tx.id)] st (Session.dropBranch st i tx) := by
  unfold Session.dropBranch Stores.abandonBranch Git.Handle.abandon
  cases hd : (st.repository i).deleteRef (Git.RefName.ofTransaction tx.id.lowerText) with
  | error e =>
    simp only
    refine (confined_setHandle ?_).mono fun p hp => by cases hp
    rfl
  | ok r =>
    simp only
    obtain ⟨n, hn, rfl⟩ := Git.Repository.deleteRef_ok hd
    rw [Git.normal?_branchOf hn]
    exact (confined_setRepository (.erase ..)).trans (confined_setHandle rfl)

end Stores

/-! ## Steps of sessions -/

namespace Session

variable {st st' : Stores}

/-- A transaction's place is its own: no other transaction has it, and no session outside of transactions. -/
theorem sameTransaction_iff {st : Stores} {s tx : Session} (h : tx.isInTransaction = true) :
    s.sameTransaction st tx = true ↔ s.place st = tx.place st := by
  cases tx with
  | memory id j inside =>
    cases inside with
    | none => cases h
    | some t' =>
      cases s with
      | memory id i inside =>
        cases inside with
        | none => simp [sameTransaction, place]
        | some t => simp [sameTransaction, place]
      | git id i inside => simp [sameTransaction, place]
  | git id j inside =>
    cases inside with
    | none => cases h
    | some t' =>
      cases s with
      | memory id i inside => cases inside <;> simp [sameTransaction, place]
      | git id i inside =>
        cases inside with
        | none =>
          have hne := Git.RefName.ofTransaction_ne_main t'.id.lowerText
          simp [sameTransaction, place, Git.branchAt, branchOf, hne.symm]
        | some t =>
          have hinj : Git.RefName.ofTransaction t.id.lowerText = Git.RefName.ofTransaction t'.id.lowerText ↔
              t.id.lowerText = t'.id.lowerText := ⟨Git.RefName.ofTransaction_inj, fun h => by rw [h]⟩
          simp [sameTransaction, place, Git.branchAt, branchOf, hinj]

theorem place_outside_ne {st : Stores} {s tx : Session} (h : tx.isInTransaction = true) :
    s.outside.place st ≠ tx.place st := by
  intro heq
  have := (sameTransaction_iff h).2 heq
  cases s <;> cases tx <;> simp [outside, sameTransaction] at this

theorem moves_applyGit {i : Nat} {now : String} {tx : Option Git.Transaction} {t : TableName} {c : Change}
    {id : CommitId} {r : Git.Repository} (h : applyGit st i now tx t c = .value (id, r)) :
    Git.Repository.Moves (Git.branchAt tx) (st.repository i) r := by
  unfold applyGit at h
  cases tx with
  | none =>
    obtain ⟨n, hn, hmoves⟩ := Git.Repository.moves_commitTo h
    rw [Git.RefName.normal?_main] at hn
    cases hn
    exact hmoves
  | some tx =>
    obtain ⟨n, hn, hmoves⟩ := Git.Repository.moves_commitTo h
    obtain rfl := Git.normal?_branchOf hn
    exact hmoves

/-- **What a write does**, if it succeeds; else it has taken a reading of the clock. -/
theorem apply_cases (st : Stores) (s : Session) (t : TableName) (c : Change) :
    (∃ id i tx m, s = .memory id i tx ∧ (st.memory i).apply st.readClock.1 tx t c = .value m ∧
      s.apply st t c = (.value (), st.readClock.2.setMemory i m)) ∨
    (∃ id i tx commit r, s = .git id i tx ∧ applyGit st i st.readClock.1 tx t c = .value (commit, r) ∧
      s.apply st t c = (.value (), st.readClock.2.setRepository i r)) ∨
    ((s.apply st t c).1 ≠ .value () ∧ (s.apply st t c).2 = st.readClock.2) := by
  have hgit : ∀ i tx, applyGit st.readClock.2 i st.readClock.1 tx t c = applyGit st i st.readClock.1 tx t c :=
    fun _ _ => rfl
  have hmemory : ∀ i, st.readClock.2.memory i = st.memory i := fun _ => rfl
  unfold apply
  cases s with
  | memory id i tx =>
    simp only [hmemory]
    cases ha : (st.memory i).apply st.readClock.1 tx t c with
    | value m => exact .inl ⟨id, i, tx, m, rfl, ha, rfl⟩
    | failed e => exact .inr (.inr ⟨(fun h => by cases h), rfl⟩)
    | unwound text => exact .inr (.inr ⟨(fun h => by cases h), rfl⟩)
  | git id i tx =>
    simp only [hgit]
    cases ha : applyGit st i st.readClock.1 tx t c with
    | value done => exact .inr (.inl ⟨id, i, tx, done.1, done.2, rfl, ha, rfl⟩)
    | failed e => exact .inr (.inr ⟨(fun h => by cases h), rfl⟩)
    | unwound text => exact .inr (.inr ⟨(fun h => by cases h), rfl⟩)

theorem confined_apply (st : Stores) (s : Session) (t : TableName) (c : Change) :
    Confined [s.place st] st (s.apply st t c).2 := by
  obtain ⟨id, i, tx, m, rfl, hm, h⟩ | ⟨id, i, tx, commit, r, rfl, hr, h⟩ | ⟨-, h⟩ := apply_cases st s t c
  · rw [h]
    refine (confined_readClock st).trans ?_
    cases tx with
    | none =>
      obtain ⟨row, -, rfl⟩ := Memory.apply_none_value hm
      exact confined_setMemory _ (fun h => absurd (List.mem_singleton_self _) h) fun _ _ => rfl
    | some tx =>
      obtain ⟨p, rfl, -⟩ := Memory.applyBuffered_value hm
      exact confined_setWriteSet ..
  · have hmoves : Git.Repository.Moves (Git.branchAt tx) (st.readClock.2.repository i) r := moves_applyGit hr
    rw [h]
    exact (confined_readClock st).trans (confined_setRepository hmoves)
  · rw [h]
    exact (confined_readClock st).mono fun p hp => by cases hp

/-- **What begins with a transaction**: an empty write set, or a branch at the tip of `main`. -/
theorem begin_cases (st : Stores) (s : Session) :
    (∃ id i, s = .memory id i none ∧ s.begin st = (.ok (.memory id i (some st.issue.1)),
      st.issue.2.setMemory i ((st.memory i).setWriteSet st.issue.1 ∅))) ∨
    (∃ id i base r h, s = .git id i none ∧ (st.repository i).branch st.issue.1.lowerText = .ok (base, r) ∧
      h.site = (st.handle i).site ∧ s.begin st = (.ok (.git id i (some ⟨st.issue.1, base⟩)),
        (st.issue.2.setRepository i r).setHandle i h)) ∨
    ∃ err, (s.begin st).1 = .error err ∧ Confined [] st (s.begin st).2 := by
  cases s with
  | memory id i inside =>
    cases inside with
    | some t => exact .inr (.inr ⟨_, rfl, .refl _ st⟩)
    | none => exact .inl ⟨id, i, rfl, rfl⟩
  | git id i inside =>
    cases inside with
    | some t => exact .inr (.inr ⟨_, rfl, .refl _ st⟩)
    | none =>
      simp only [begin]
      obtain ⟨base, r, h, hbranch, hsite, hb⟩ | ⟨e, hb⟩ := beginBranch_cases st.issue.2 i st.issue.1.lowerText
      · rw [hb]
        exact .inr (.inl ⟨id, i, base, r, h, rfl, hbranch, hsite, rfl⟩)
      · rw [hb]
        exact .inr (.inr ⟨_, rfl, confined_issue st⟩)

theorem moves_branch {r r' : Git.Repository} {u : Ulid} {base : CommitId} (h : r.branch u.lowerText = .ok (base, r')) :
    Git.Repository.Moves (branchOf u) r r' := by
  obtain ⟨n, hn, -, -, rfl⟩ := Git.Repository.branch_ok h
  obtain rfl := Git.normal?_branchOf hn
  exact .insert ..

theorem begin_ok {s tx : Session} (hb : (s.begin st).1 = .ok tx) : tx.id = s.id ∧ tx.isInTransaction = true := by
  obtain ⟨id, i, rfl, h⟩ | ⟨id, i, base, r, handle, rfl, -, -, h⟩ | ⟨err, h, -⟩ := begin_cases st s
  · rw [h] at hb
    cases hb
    exact ⟨rfl, rfl⟩
  · rw [h] at hb
    cases hb
    exact ⟨rfl, rfl⟩
  · rw [h] at hb
    cases hb

theorem confined_begin {s tx : Session} (hb : (s.begin st).1 = .ok tx) :
    Confined [tx.place st] st (s.begin st).2 := by
  obtain ⟨id, i, -, h⟩ | ⟨id, i, base, r, handle, -, hbranch, hsite, h⟩ | ⟨err, h, -⟩ := begin_cases st s
  · rw [h] at hb ⊢
    cases hb
    exact (confined_issue st).trans (confined_setWriteSet ..)
  · rw [h] at hb ⊢
    cases hb
    exact ((confined_issue st).trans (confined_setRepository (moves_branch hbranch))).trans (confined_setHandle hsite)
  · rw [h] at hb
    cases hb

theorem confined_begin_error {s : Session} {err : ResourceError} (hb : (s.begin st).1 = .error err) :
    Confined [] st (s.begin st).2 := by
  obtain ⟨id, i, -, h⟩ | ⟨id, i, base, r, handle, -, -, -, h⟩ | ⟨err', -, hc⟩ := begin_cases st s
  · rw [h] at hb
    cases hb
  · rw [h] at hb
    cases hb
  · exact hc

theorem confined_rollback (st : Stores) (tx : Session) : Confined [tx.place st] st (tx.rollback st) := by
  cases tx with
  | memory id i inside =>
    cases inside with
    | none => exact .refl _ st
    | some t => exact confined_setWriteSet ..
  | git id i inside =>
    cases inside with
    | none => exact .refl _ st
    | some t => exact confined_dropBranch ..

theorem confined_abort (st : Stores) (tx : Session) : Confined [tx.place st] st (tx.abort st) := by
  cases tx with
  | memory id i inside => exact .refl _ st
  | git id i inside =>
    cases inside with
    | none => exact .refl _ st
    | some t => exact confined_dropBranch ..

/-- **What a commit to a repository does**: it merges the transaction's branch or changes nothing, and drops the
branch. -/
theorem commit_git_cases (st : Stores) (id : Ulid) (i : Nat) (tx : Git.Transaction) :
    (∃ outcome r, (st.repository i).merge (st.handle i).author tx.id.lowerText tx.base = .ok (outcome, r) ∧
      (∀ paths, outcome ≠ .conflict paths) ∧
      (Session.git id i (some tx)).commit st = (.ok (), dropBranch (st.setRepository i r) i tx)) ∨
    ∃ err st₁, Confined [.branch (st.handle i).site (branchOf tx.id)] st st₁ ∧
      (Session.git id i (some tx)).commit st = (.error err, dropBranch st₁ i tx) := by
  unfold commit Stores.mergeBranch
  simp only
  cases hm : (st.repository i).merge (st.handle i).author tx.id.lowerText tx.base with
  | error e => exact .inr ⟨_, st, .refl _ st, rfl⟩
  | ok merged =>
    obtain ⟨outcome, r⟩ := merged
    cases outcome with
    | conflict paths =>
      obtain rfl := Git.Repository.merge_conflict hm
      exact .inr ⟨_, _, confined_setRepository (.refl ..), rfl⟩
    | unchanged => exact .inl ⟨_, r, rfl, (fun paths h => by cases h), rfl⟩
    | fastForward next => exact .inl ⟨_, r, rfl, (fun paths h => by cases h), rfl⟩
    | merged next => exact .inl ⟨_, r, rfl, (fun paths h => by cases h), rfl⟩

theorem confined_commit_memory (st : Stores) (id : Ulid) (i : Nat) (tx : Ulid) :
    Confined [.tables i, .writeSet i tx] st ((Session.memory id i (some tx)).commit st).2 := by
  have hsets : ∀ tx', .writeSet i tx' ∉ [Place.tables i, .writeSet i tx] →
      ((st.memory i).discard tx).writeSet tx' = (st.memory i).writeSet tx' := by
    intro tx' h
    have hne : tx' ≠ tx := fun heq => h (by rw [heq]; simp)
    rw [Memory.Store.discard, Memory.writeSet_setWriteSet, if_neg hne]
  unfold commit
  simp only
  obtain ⟨-, hcommit⟩ | ⟨slot, slots, hcommit⟩ := Memory.commit_cases (st.memory i) tx
  · rw [hcommit]
    exact confined_setMemory _ (fun h => absurd List.mem_cons_self h) hsets
  · rw [hcommit]
    exact confined_setMemory _ (fun _ => rfl) hsets

theorem confined_commit (st : Stores) (tx : Session) :
    Confined [tx.outside.place st, tx.place st] st (tx.commit st).2 := by
  cases tx with
  | memory id i inside =>
    cases inside with
    | none => exact .refl _ st
    | some t => exact confined_commit_memory st id i t
  | git id i inside =>
    cases inside with
    | none => exact .refl _ st
    | some t =>
      rw [place_git, place_outside_git]
      obtain ⟨outcome, r, hm, -, hcommit⟩ | ⟨err, st₁, hst, hcommit⟩ := commit_git_cases st id i t
      · have hmerge := confined_setRepository (Git.Repository.moves_merge hm)
        have hdrop := confined_dropBranch (st.setRepository i r) i t
        rw [hmerge.site] at hdrop
        simp only [hcommit]
        exact hmerge.trans hdrop
      · have hdrop := confined_dropBranch st₁ i t
        rw [hst.site] at hdrop
        simp only [hcommit]
        refine (hst.trans hdrop).mono fun p hp => ?_
        simp only [List.cons_append, List.nil_append, List.mem_cons, List.not_mem_nil, or_false, or_self] at hp
        rw [hp]
        exact List.mem_cons_of_mem _ List.mem_cons_self

/-- **A commit that fails changes nothing outside of the transaction.** -/
theorem confined_commit_error {tx : Session} {err : ResourceError} (h : (tx.commit st).1 = .error err) :
    Confined [tx.place st] st (tx.commit st).2 := by
  cases tx with
  | memory id i inside =>
    cases inside with
    | none => exact .refl _ st
    | some t =>
      unfold commit at h ⊢
      simp only at h ⊢
      obtain ⟨-, hcommit⟩ | ⟨slot, slots, hcommit⟩ := Memory.commit_cases (st.memory i) t
      · rw [hcommit] at h
        cases h
      · rw [hcommit]
        exact confined_setWriteSet ..
  | git id i inside =>
    cases inside with
    | none => exact .refl _ st
    | some t =>
      rw [place_git]
      obtain ⟨outcome, r, -, -, hcommit⟩ | ⟨err', st₁, hst, hcommit⟩ := commit_git_cases st id i t
      · rw [hcommit] at h
        cases h
      · have hdrop := confined_dropBranch st₁ i t
        rw [hst.site] at hdrop
        simp only [hcommit]
        exact (hst.trans hdrop).mono fun p hp => by simpa using hp

/-! ## What is committed -/

/-- What is committed outside of a transaction is what is in one place. -/
theorem committed_congr {s : Session} (hsound : st.disk.Sound) (hsite : ∀ i, (st'.handle i).site = (st.handle i).site)
    (h : (s.outside.place st).Same st st') : s.committed st' = s.committed st := by
  funext slot
  cases s with
  | memory id i inside =>
    have htables : (st'.memory i).tables = (st.memory i).tables := h
    simp only [committed, outside, content, Memory.Store.get, Option.bind_none, htables]
  | git id i inside =>
    rw [place_outside_git] at h
    obtain ⟨hcommits, href⟩ := h
    have hcontents := (hsound.repository (st.handle i).site).contents?_congr hcommits href
    have hrepository : st'.repository i = st'.disk.repository (st.handle i).site := by
      unfold Stores.repository
      rw [hsite]
    simp only [committed, outside, content, Git.Repository.text?, Git.branchAt, hrepository, hcontents]
    rfl

end Session

/-! ## Steps of the engine -/

theorem confined_enter_ok {e : Engine} {s tx : Session} (h : (e.enter s).1 = .ok tx) :
    Confined [tx.place e.stores] e.stores (e.enter s).2.stores := by
  obtain ⟨hbegin, hstores⟩ := Engine.enter_ok h
  rw [hstores]
  exact Session.confined_begin hbegin

theorem confined_enter_error {e : Engine} {s : Session} {err : ResourceError} (h : (e.enter s).1 = .error err) :
    Confined [] e.stores (e.enter s).2.stores := by
  obtain ⟨err', -, hstores⟩ | ⟨hbegin, hstores⟩ := e.enter_cases s
  · rw [hstores]
    exact .refl [] e.stores
  · rw [hstores]
    exact Session.confined_begin_error (hbegin.symm.trans h)

theorem confined_finish (e : Engine) (s : Session) (v : Engine.Verdict) :
    Confined [s.outside.place e.stores, s.place e.stores] e.stores (e.finish s v).2.stores := by
  have hmono : ∀ p ∈ [s.place e.stores], p ∈ [s.outside.place e.stores, s.place e.stores] :=
    fun p hp => List.mem_cons_of_mem _ hp
  obtain ⟨-, -, -, hstores⟩ | ⟨-, hstores | hstores | ⟨err, -, hstores⟩⟩ := e.finish_cases s v
  · rw [hstores]
    exact Session.confined_commit ..
  · rw [hstores]
    exact (Session.confined_abort ..).mono hmono
  · rw [hstores]
    exact (Session.confined_rollback ..).mono hmono
  · rw [hstores]
    exact Session.confined_commit ..

section Every

variable {Q : Git.Repository → Prop} (hQ : Git.Repository.Closed Q) {e : Engine} (h : e.stores.disk.Every Q)

include hQ h

theorem every_enter (s : Session) : (e.enter s).2.stores.disk.Every Q := by
  obtain ⟨err, -, hstores⟩ | ⟨-, hstores⟩ := e.enter_cases s
  · rw [hstores]
    exact h
  · rw [hstores]
    exact Session.every_begin hQ h s

theorem every_finish (s : Session) (v : Engine.Verdict) : (e.finish s v).2.stores.disk.Every Q := by
  obtain ⟨-, -, -, hstores⟩ | ⟨-, hstores | hstores | ⟨err, -, hstores⟩⟩ := e.finish_cases s v
  · rw [hstores]
    exact Session.every_commit hQ h s
  · rw [hstores]
    exact Session.every_abort hQ h s
  · rw [hstores]
    exact Session.every_rollback hQ h s
  · rw [hstores]
    exact Session.every_commit hQ h s

end Every

theorem le_issued_enter (e : Engine) (s : Session) : e.stores.issued ≤ (e.enter s).2.stores.issued := by
  cases h : (e.enter s).1 with
  | ok tx => exact (confined_enter_ok h).issued
  | error err => exact (confined_enter_error h).issued

end Demarcate
