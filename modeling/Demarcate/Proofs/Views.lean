import Demarcate.Proofs.Places
/-!
# Views — the part of the stores that a source is about

What sessions on a store in memory do comes to that store (`Stores.memory`), and what sessions on an opened repository
do comes to the handle and the repository that it is on (`Stores.view`).  Each thing that a session does is told here
in terms of that part alone, so that two states of the stores which look alike from a source can be followed side by
side.
-/
namespace Demarcate

open Git (CommitId branchOf)

namespace Git

/-- A handle, and the repository that it is on. -/
structure View where
  repository : Repository
  handle : Handle

namespace View

def read (v : View) (tx : Option Transaction) (s : Slot) : Except StorageError (Option Row) := do
  v.repository.readRow s (← Session.snapshot v.repository tx)

def scan (v : View) (tx : Option Transaction) (t : TableName) : Except StorageError (List Row) := do
  v.repository.scanTable t (← Session.snapshot v.repository tx)

/-- The commit of a change, in a transaction or on `main`. -/
@[irreducible]
def commitOn (v : View) (now : String) (tx : Option Transaction) (t : TableName) (c : Change) :
    Outcome StorageError (CommitId × Repository) :=
  match tx with
  | some tx => v.repository.commitToTransaction v.handle.author now tx.id.lowerText t c
  | none => v.repository.commitToMain v.handle.author now t c

/-- What is left of a change. -/
def after (v : View) : Outcome StorageError (CommitId × Repository) → Outcome StorageError Unit × View
  | .value (_, r) => (.value (), { v with repository := r })
  | .failed e => (.failed e, v)
  | .unwound text => (.unwound text, v)

def apply (v : View) (now : String) (tx : Option Transaction) (t : TableName) (c : Change) :
    Outcome StorageError Unit × View :=
  v.after (v.commitOn now tx t c)

def begin (v : View) (u : Ulid) : Except StorageError CommitId × View :=
  match v.repository.branch u.lowerText with
  | .ok (base, r) => (.ok base, ⟨r, { v.handle with live := v.handle.live.insert u.lowerText () }⟩)
  | .error e => (.error e, v)

/-- Gives a transaction up, and its branch, whether or not it is still there. -/
@[irreducible]
def drop (v : View) (u : Ulid) : View :=
  let handle := { v.handle with live := v.handle.live.erase u.lowerText }
  match v.repository.deleteRef (branchOf u) with
  | .ok r => ⟨r, handle⟩
  | .error _ => { v with handle }

/-- What an outcome of a merge is to the transaction that is committed. -/
def verdict (tx : Transaction) : MergeOutcome → Except ResourceError Unit
  | .conflict paths => .error (.conflict tx.id.lowerText (paths.map Path.text))
  | _ => .ok ()

def commit (v : View) (tx : Transaction) : Except ResourceError Unit × View :=
  match v.repository.merge v.handle.author tx.id.lowerText tx.base with
  | .error e => (.error (.storage e), v.drop tx.id)
  | .ok (outcome, r) => (verdict tx outcome, View.drop ⟨r, v.handle⟩ tx.id)

/-- A commit that comes to a merge has its verdict, and the branch is given up. -/
theorem commit_of_merge {v : View} {tx : Transaction} {outcome : MergeOutcome} {r : Repository}
    (h : v.repository.merge v.handle.author tx.id.lowerText tx.base = .ok (outcome, r)) :
    v.commit tx = (verdict tx outcome, View.drop ⟨r, v.handle⟩ tx.id) := by
  unfold commit
  rw [h]

/-- The end of a transaction, by the verdict on its work. -/
def finish (v : View) (tx : Transaction) : Engine.Verdict → Outcome ResourceError Unit × View
  | .unwind text => (.unwound text, v.drop tx.id)
  | .rollback => (.value (), v.drop tx.id)
  | .commit => (Outcome.ofExcept (v.commit tx).1, (v.commit tx).2)

def sweep (v : View) : Nat × View :=
  let (n, r) := v.handle.cleanup v.repository
  (n, { v with repository := r })

theorem snapshot_eq (r : Repository) (tx : Option Transaction) : Session.snapshot r tx = r.resolve (branchAt tx) := by
  cases tx <;> rfl

theorem commitOn_eq (v : View) (now : String) (tx : Option Transaction) (t : TableName) (c : Change) :
    v.commitOn now tx t c =
      v.repository.commitTo v.handle.author now (branchAt tx) t c (tx.map fun tx => tx.id.lowerText) := by
  unfold commitOn
  cases tx <;> rfl

end View

end Git

/-! ## What stays of the stores -/

/-- There are as many stores and handles as before, and as many identifiers were issued. -/
structure Stores.Steady (st st' : Stores) : Prop where
  memories : st'.memories.size = st.memories.size
  handles : st'.handles.size = st.handles.size
  issued : st'.issued = st.issued

namespace Stores.Steady

variable {st st₁ st₂ : Stores}

theorem refl (st : Stores) : Steady st st := ⟨rfl, rfl, rfl⟩

theorem trans (h₁ : Steady st st₁) (h₂ : Steady st₁ st₂) : Steady st st₂ :=
  ⟨h₂.memories.trans h₁.memories, h₂.handles.trans h₁.handles, h₂.issued.trans h₁.issued⟩

theorem setMemory (st : Stores) (i : Nat) (m : Memory.Store) : Steady st (st.setMemory i m) :=
  ⟨Array.size_setIfInBounds, rfl, rfl⟩

theorem setRepository (st : Stores) (i : Nat) (r : Git.Repository) : Steady st (st.setRepository i r) :=
  ⟨rfl, rfl, rfl⟩

theorem setHandle (st : Stores) (i : Nat) (h : Git.Handle) : Steady st (st.setHandle i h) :=
  ⟨rfl, Array.size_setIfInBounds, rfl⟩

theorem beginBranch (st : Stores) (i : Nat) (id : String) : Steady st (st.beginBranch i id).2 := by
  obtain ⟨base, r, h, -, -, hb⟩ | ⟨e, hb⟩ := beginBranch_cases st i id
  · rw [hb]
    exact (setRepository st i r).trans (setHandle _ i h)
  · rw [hb]
    exact .refl st

theorem mergeBranch (st : Stores) (i : Nat) (id : String) (base : CommitId) :
    Steady st (st.mergeBranch i id base).2 := by
  unfold Stores.mergeBranch
  cases (st.repository i).merge (st.handle i).author id base with
  | error e => exact .refl st
  | ok merged => exact setRepository st i _

theorem abandonBranch (st : Stores) (i : Nat) (id : String) : Steady st (st.abandonBranch i id).2 := by
  unfold Stores.abandonBranch Git.Handle.abandon
  cases (st.repository i).deleteRef (Git.RefName.ofTransaction id) with
  | error e => exact setHandle st i _
  | ok r => exact (setRepository st i r).trans (setHandle _ i _)

end Stores.Steady

namespace Session

open Stores (Steady)

theorem steady_apply (st : Stores) (s : Session) (t : TableName) (c : Change) : Steady st (s.apply st t c).2 := by
  have hread : Steady st st.readClock.2 := ⟨rfl, rfl, rfl⟩
  obtain ⟨id, i, tx, m, -, -, h⟩ | ⟨id, i, tx, commit, r, -, -, h⟩ | ⟨-, h⟩ := apply_cases st s t c
  · rw [h]
    exact hread.trans (.setMemory _ i m)
  · rw [h]
    exact hread.trans (.setRepository _ i r)
  · rw [h]
    exact hread

/-- To begin a transaction takes an identifier. -/
theorem steady_begin (st : Stores) {s : Session} (hs : s.isInTransaction = false) :
    Steady st.issue.2 (s.begin st).2 := by
  cases s with
  | memory id i inside =>
    cases inside with
    | some t => cases hs
    | none => exact .setMemory _ i _
  | git id i inside =>
    cases inside with
    | some t => cases hs
    | none =>
      have hbranch := Steady.beginBranch st.issue.2 i st.issue.1.lowerText
      simp only [begin]
      generalize st.issue.2.beginBranch i st.issue.1.lowerText = begun at hbranch ⊢
      obtain ⟨base, st'⟩ := begun
      cases base <;> exact hbranch

theorem steady_dropBranch (st : Stores) (i : Nat) (tx : Git.Transaction) : Steady st (dropBranch st i tx) :=
  Steady.abandonBranch st i tx.id.lowerText

theorem steady_commit (st : Stores) (s : Session) : Steady st (s.commit st).2 := by
  unfold commit
  split
  · split <;> exact .setMemory ..
  · rename_i i tx
    have hmerge := Steady.mergeBranch st i tx.id.lowerText tx.base
    split
    all_goals
      rename_i h
      rw [h] at hmerge
      simp only
      exact hmerge.trans (steady_dropBranch _ i tx)
  · exact .refl st

theorem steady_rollback (st : Stores) (s : Session) : Steady st (s.rollback st) := by
  unfold rollback
  split
  · exact .setMemory ..
  · exact steady_dropBranch ..
  · exact .refl st

theorem steady_abort (st : Stores) (s : Session) : Steady st (s.abort st) := by
  unfold abort
  split
  · exact steady_dropBranch ..
  · exact .refl st

theorem steady_finish (st : Stores) (s : Session) (v : Engine.Verdict) :
    Steady st (Engine.finish { stores := st } s v).2.stores := by
  obtain ⟨-, -, -, hstores⟩ | ⟨-, hstores | hstores | ⟨err, -, hstores⟩⟩ := Engine.finish_cases { stores := st } s v
  · rw [hstores]
    exact steady_commit st s
  · rw [hstores]
    exact steady_abort st s
  · rw [hstores]
    exact steady_rollback st s
  · rw [hstores]
    exact steady_commit st s

end Session

/-! ## Stores in memory -/

/-- The end of a transaction, by the verdict on its work. -/
def Memory.Store.finish (m : Memory.Store) (tx : Ulid) : Engine.Verdict → Outcome ResourceError Unit × Memory.Store
  | .unwind text => (.unwound text, m)
  | .rollback => (.value (), m.discard tx)
  | .commit =>
    match m.commit tx with
    | (.ok (), m) => (.value (), m)
    | (.error slots, m) => (.failed (.conflict tx.text (slots.map Slot.path)), m)

namespace Session

variable {st : Stores} {i : Nat}

theorem finish_commit (st : Stores) (tx : Session) : Engine.finish { stores := st } tx .commit =
    (Outcome.ofExcept (tx.commit st).1, { stores := (tx.commit st).2 }) := by
  unfold Engine.finish Engine.count
  simp only
  generalize tx.commit st = committed
  obtain ⟨result, st'⟩ := committed
  cases result <;> rfl

/-- A transaction is begun under the next identifier. -/
theorem commit_memory (st : Stores) (id : Ulid) (i : Nat) (tx : Ulid) : (Session.memory id i (some tx)).commit st =
    (((st.memory i).commit tx).1.mapError fun slots => .conflict tx.text (slots.map Slot.path),
      st.setMemory i ((st.memory i).commit tx).2) := by
  unfold commit
  simp only
  generalize (st.memory i).commit tx = committed
  rcases committed with ⟨slots | ⟨⟩, m⟩ <;> rfl

theorem begin_memory (hi : i < st.memories.size) (id : Ulid) :
    ((Session.memory id i none).begin st).1 = .ok (.memory id i (some (Ulid.issued st.issued))) ∧
      ((Session.memory id i none).begin st).2.memory i = (st.memory i).begin (Ulid.issued st.issued) := by
  have hissue : i < st.issue.2.memories.size := hi
  have hid : st.issue.1 = Ulid.issued st.issued := rfl
  have hmemory : st.issue.2.memory i = st.memory i := rfl
  simp only [begin, hid, hmemory, memory_setMemory, hissue, and_self, if_true]

theorem finish_memory (hi : i < st.memories.size) (id tx : Ulid) (v : Engine.Verdict) :
    (Engine.finish { stores := st } (.memory id i (some tx)) v).1 = ((st.memory i).finish tx v).1 ∧
      (Engine.finish { stores := st } (.memory id i (some tx)) v).2.stores.memory i =
        ((st.memory i).finish tx v).2 := by
  cases v with
  | unwind text => exact ⟨rfl, rfl⟩
  | rollback =>
    have hend : Engine.finish { stores := st } (.memory id i (some tx)) .rollback =
        (.value (), { stores := st.setMemory i ((st.memory i).discard tx) }) := rfl
    rw [hend]
    refine ⟨rfl, ?_⟩
    show (st.setMemory i ((st.memory i).discard tx)).memory i = (st.memory i).discard tx
    rw [memory_setMemory, if_pos ⟨rfl, hi⟩]
  | commit =>
    rw [finish_commit]
    unfold commit Memory.Store.finish
    simp only
    generalize (st.memory i).commit tx = committed
    obtain ⟨result, m⟩ := committed
    have hset : (st.setMemory i m).memory i = m := by rw [memory_setMemory, if_pos ⟨rfl, hi⟩]
    cases result with
    | ok u => exact ⟨rfl, hset⟩
    | error slots => exact ⟨rfl, hset⟩

end Session

/-! ## Opened repositories -/

namespace Stores

def view (st : Stores) (i : Nat) : Git.View := ⟨st.repository i, st.handle i⟩

variable {st : Stores} {i : Nat}

theorem view_issue (st : Stores) (i : Nat) : st.issue.2.view i = st.view i := rfl

theorem view_setRepository (st : Stores) (i : Nat) (r : Git.Repository) :
    (st.setRepository i r).view i = { st.view i with repository := r } := by
  unfold view
  rw [repository_setRepository]
  rfl

theorem view_setHandle (hi : i < st.handles.size) {h : Git.Handle} (hsite : h.site = (st.handle i).site) :
    (st.setHandle i h).view i = { st.view i with handle := h } := by
  unfold view
  rw [repository_setHandle hsite, handle_setHandle, if_pos ⟨rfl, hi⟩]

theorem view_setBoth (hi : i < st.handles.size) (r : Git.Repository) {h : Git.Handle}
    (hsite : h.site = (st.handle i).site) : ((st.setRepository i r).setHandle i h).view i = ⟨r, h⟩ := by
  have hin : i < (st.setRepository i r).handles.size := hi
  rw [view_setHandle hin hsite, view_setRepository]

theorem beginBranch_view (hi : i < st.handles.size) (u : Ulid) :
    (st.beginBranch i u.lowerText).1 = ((st.view i).begin u).1 ∧
      (st.beginBranch i u.lowerText).2.view i = ((st.view i).begin u).2 := by
  unfold beginBranch Git.Handle.begin Git.View.begin
  simp only [view]
  cases (st.repository i).branch u.lowerText with
  | error e => exact ⟨rfl, rfl⟩
  | ok begun => exact ⟨rfl, view_setBoth hi _ rfl⟩

end Stores

namespace Session

open Git (Transaction)

variable {st : Stores} {i : Nat}

theorem get_view (id : Ulid) (tx : Option Transaction) (s : Slot) :
    (Session.git id i tx).get st s = (st.view i).read tx s := rfl

theorem scan_view (id : Ulid) (tx : Option Transaction) (t : TableName) :
    (Session.git id i tx).scan st t = (st.view i).scan tx t := rfl

theorem apply_view (id : Ulid) (tx : Option Transaction) (t : TableName) (c : Change) :
    ((Session.git id i tx).apply st t c).1 = ((st.view i).apply (Clock.stamp st.readings) tx t c).1 ∧
      ((Session.git id i tx).apply st t c).2.view i = ((st.view i).apply (Clock.stamp st.readings) tx t c).2 := by
  have hmade : applyGit st.readClock.2 i st.readClock.1 tx t c =
      (st.view i).commitOn (Clock.stamp st.readings) tx t c := by
    unfold Git.View.commitOn
    cases tx <;> rfl
  simp only [apply, hmade, Git.View.apply]
  cases (st.view i).commitOn (Clock.stamp st.readings) tx t c with
  | value made => exact ⟨rfl, Stores.view_setRepository st.readClock.2 i made.2⟩
  | failed e => exact ⟨rfl, rfl⟩
  | unwound text => exact ⟨rfl, rfl⟩

theorem dropBranch_view (hi : i < st.handles.size) (tx : Transaction) :
    (dropBranch st i tx).view i = (st.view i).drop tx.id := by
  unfold dropBranch Stores.abandonBranch Git.Handle.abandon Git.View.drop
  simp only [Stores.view, Git.branchOf]
  cases (st.repository i).deleteRef (Git.RefName.ofTransaction tx.id.lowerText) with
  | error e => exact Stores.view_setHandle hi rfl
  | ok r => exact Stores.view_setBoth hi r rfl

/-- A transaction is begun under the next identifier. -/
theorem begin_view (hi : i < st.handles.size) (id : Ulid) :
    ((Session.git id i none).begin st).1 = (((st.view i).begin (Ulid.issued st.issued)).1.mapError .storage).map
        (fun base => .git id i (some ⟨Ulid.issued st.issued, base⟩)) ∧
      ((Session.git id i none).begin st).2.view i = ((st.view i).begin (Ulid.issued st.issued)).2 := by
  have hissue : i < st.issue.2.handles.size := hi
  obtain ⟨hbase, hview⟩ := Stores.beginBranch_view hissue (Ulid.issued st.issued)
  rw [Stores.view_issue] at hbase hview
  simp only [begin]
  cases hb : st.issue.2.beginBranch i st.issue.1.lowerText with | mk made st' =>
    have hb' : st.issue.2.beginBranch i (Ulid.issued st.issued).lowerText = (made, st') := hb
    rw [hb'] at hbase hview
    rw [← hbase, ← hview]
    cases made with
    | ok base => exact ⟨rfl, rfl⟩
    | error e => exact ⟨rfl, rfl⟩

theorem commit_of_merge_error (id : Ulid) {tx : Transaction} {e : StorageError}
    (hm : (st.repository i).merge (st.handle i).author tx.id.lowerText tx.base = .error e) :
    (Session.git id i (some tx)).commit st = (.error (.storage e), dropBranch st i tx) := by
  have hmerge : st.mergeBranch i tx.id.lowerText tx.base = (.error e, st) := by
    unfold Stores.mergeBranch
    rw [hm]
  unfold commit
  simp only
  rw [hmerge]

theorem commit_of_merge_ok (id : Ulid) {tx : Transaction} {outcome : Git.MergeOutcome} {r : Git.Repository}
    (hm : (st.repository i).merge (st.handle i).author tx.id.lowerText tx.base = .ok (outcome, r)) :
    (Session.git id i (some tx)).commit st =
      (Git.View.verdict tx outcome, dropBranch (st.setRepository i r) i tx) := by
  have hmerge : st.mergeBranch i tx.id.lowerText tx.base = (.ok outcome, st.setRepository i r) := by
    unfold Stores.mergeBranch
    rw [hm]
  unfold commit
  simp only
  rw [hmerge]
  cases outcome <;> rfl

theorem commit_view (hi : i < st.handles.size) (id : Ulid) (tx : Transaction) :
    ((Session.git id i (some tx)).commit st).1 = ((st.view i).commit tx).1 ∧
      ((Session.git id i (some tx)).commit st).2.view i = ((st.view i).commit tx).2 := by
  cases hm : (st.repository i).merge (st.handle i).author tx.id.lowerText tx.base with
  | error e =>
    have hview : (st.view i).commit tx = (.error (.storage e), (st.view i).drop tx.id) := by
      unfold Git.View.commit Stores.view
      rw [hm]
    rw [commit_of_merge_error id hm, hview]
    refine ⟨rfl, ?_⟩
    simp only [dropBranch_view hi tx]
  | ok merged =>
    obtain ⟨outcome, r⟩ := merged
    have hview := Git.View.commit_of_merge (v := st.view i) hm
    have hdrop : (dropBranch (st.setRepository i r) i tx).view i = Git.View.drop ⟨r, (st.view i).handle⟩ tx.id := by
      have hin : i < (st.setRepository i r).handles.size := hi
      rw [dropBranch_view hin, Stores.view_setRepository]
    rw [commit_of_merge_ok id hm, hview]
    refine ⟨rfl, ?_⟩
    simp only [hdrop]

theorem finish_view (hi : i < st.handles.size) (id : Ulid) (tx : Transaction) (v : Engine.Verdict) :
    (Engine.finish { stores := st } (.git id i (some tx)) v).1 = ((st.view i).finish tx v).1 ∧
      (Engine.finish { stores := st } (.git id i (some tx)) v).2.stores.view i = ((st.view i).finish tx v).2 := by
  cases v with
  | unwind text =>
    have hend : Engine.finish { stores := st } (.git id i (some tx)) (.unwind text) =
        (.unwound text, { stores := dropBranch st i tx }) := rfl
    rw [hend]
    simp only [dropBranch_view hi tx, Git.View.finish, and_self]
  | rollback =>
    have hend : Engine.finish { stores := st } (.git id i (some tx)) .rollback =
        (.value (), { stores := dropBranch st i tx }) := rfl
    rw [hend]
    simp only [dropBranch_view hi tx, Git.View.finish, and_self]
  | commit =>
    obtain ⟨hresult, hview⟩ := commit_view hi id tx
    rw [finish_commit]
    simp only [Git.View.finish, hresult, hview, and_self]

end Session

theorem Stores.cleanup_view (st : Stores) (i : Nat) :
    (st.cleanup i).1 = (st.view i).sweep.1 ∧ (st.cleanup i).2.view i = (st.view i).sweep.2 :=
  ⟨rfl, Stores.view_setRepository st i _⟩

end Demarcate
