import Demarcate.Database
import Demarcate.Proofs.Git.Layout
/-!
# Reachable — the stores that work can come upon

Stores begin empty and change by what is done to them: stores are made and opened, sessions make changes and begin and
end transactions, branches are begun, given up and swept.  Whatever every function on a repository keeps (`Closed`),
each repository has, however that went (`Reachable.every`): it is sound, and it is orderly.
-/
namespace Demarcate

namespace Git.Disk

/-- Every repository is sound. -/
def Sound (d : Disk) : Prop := ∀ x r, d.repositories.get? x = some r → r.Sound

/-- Every repository has `Q`. -/
def Every (Q : Repository → Prop) (d : Disk) : Prop := ∀ x r, d.repositories.get? x = some r → Q r

variable {Q : Repository → Prop} {d : Disk}

theorem Every.repository (hQ : Repository.Closed Q) (h : d.Every Q) (x : Path) : Q (d.repository x) := by
  unfold Disk.repository
  cases hx : d.repositories.get? x with
  | none => exact hQ.fresh _
  | some r => exact h x r hx

theorem Every.setRepository (h : d.Every Q) (x : Path) {r : Repository} (hr : Q r) :
    (d.setRepository x r).Every Q := by
  intro y r' hy
  unfold Disk.setRepository at hy
  rw [SortedMap.get?_insert] at hy
  split at hy
  · cases hy
    exact hr
  · exact h y r' hy

theorem Sound.repository {d : Disk} (h : d.Sound) (x : Path) : (d.repository x).Sound :=
  Every.repository Repository.closed_sound h x

theorem Sound.setRepository {d : Disk} (h : d.Sound) (x : Path) {r : Repository} (hr : r.Sound) :
    (d.setRepository x r).Sound :=
  Every.setRepository h x hr

end Git.Disk

namespace Stores

open Git (CommitId Handle Repository)

inductive Reachable : Stores → Prop where
  | new (issued readings : Nat) : Reachable { issued, readings }
  | addMemory {st : Stores} (h : Reachable st) : Reachable st.addMemory.2
  | openRepository {st : Stores} (h : Reachable st) (g : GitConfig) : Reachable (st.openRepository g).2
  | cleanup {st : Stores} (h : Reachable st) (i : Nat) : Reachable (st.cleanup i).2
  | issue {st : Stores} (h : Reachable st) : Reachable st.issue.2
  | readClock {st : Stores} (h : Reachable st) : Reachable st.readClock.2
  | apply {st : Stores} (h : Reachable st) (s : Session) (t : TableName) (c : Change) : Reachable (s.apply st t c).2
  | begin {st : Stores} (h : Reachable st) (s : Session) : Reachable (s.begin st).2
  | commit {st : Stores} (h : Reachable st) (s : Session) : Reachable (s.commit st).2
  | rollback {st : Stores} (h : Reachable st) (s : Session) : Reachable (s.rollback st)
  | abort {st : Stores} (h : Reachable st) (s : Session) : Reachable (s.abort st)
  | beginBranch {st : Stores} (h : Reachable st) (i : Nat) (id : String) : Reachable (st.beginBranch i id).2
  | abandonBranch {st : Stores} (h : Reachable st) (i : Nat) (id : String) : Reachable (st.abandonBranch i id).2

/-! ## What a step does to the disk -/

variable {Q : Repository → Prop} (hQ : Repository.Closed Q) {st : Stores}

include hQ

theorem every_beginBranch (h : st.disk.Every Q) (i : Nat) (id : String) : (st.beginBranch i id).2.disk.Every Q := by
  unfold beginBranch
  cases hb : (st.handle i).begin (st.repository i) id with
  | error e => exact h
  | ok begun =>
    obtain ⟨base, h', r⟩ := begun
    obtain ⟨⟨base', r'⟩, hbranch, hb⟩ := bind_ok hb
    cases hb
    exact h.setRepository _ (hQ.branch (h.repository hQ _) hbranch)

theorem every_abandonBranch (h : st.disk.Every Q) (i : Nat) (id : String) : (st.abandonBranch i id).2.disk.Every Q := by
  unfold abandonBranch Handle.abandon
  cases hd : (st.repository i).deleteRef (Git.RefName.ofTransaction id) with
  | error e => exact h
  | ok r => exact h.setRepository _ (hQ.deleteRef (h.repository hQ _) hd)

theorem every_mergeBranch (h : st.disk.Every Q) (i : Nat) (id : String) (base : CommitId) :
    (st.mergeBranch i id base).2.disk.Every Q := by
  unfold mergeBranch
  cases hm : (st.repository i).merge (st.handle i).author id base with
  | error e => exact h
  | ok merged => exact h.setRepository _ (hQ.merge (h.repository hQ _) hm)

theorem every_cleanup (h : st.disk.Every Q) (i : Nat) : (st.cleanup i).2.disk.Every Q := by
  unfold cleanup Handle.cleanup
  exact h.setRepository _ (hQ.deleteBranches _ (h.repository hQ _))

theorem every_openRepository (h : st.disk.Every Q) (g : GitConfig) : (st.openRepository g).2.disk.Every Q := by
  have hinit : ∀ d : Git.Disk, d.Every Q → ∀ path s, (Handle.initAt d path s).2.Every Q := by
    intro d hd path s
    unfold Handle.initAt
    simp only
    split
    · exact hd
    · cases hs : (d.repository (Git.Disk.outOfDotGit (Git.siteOf path))).start s with
      | error e => exact hd.setRepository _ (hd.repository hQ _)
      | ok r => exact hd.setRepository _ (hQ.start (hd.repository hQ _) hs)
  have hopen : (if g.createIfMissing then Handle.openOrInitAt st.disk g.path g.signature
      else (Handle.openAt st.disk g.path g.signature, st.disk)).2.Every Q := by
    split
    · unfold Handle.openOrInitAt
      split
      · exact h
      · exact hinit _ h _ _
    · exact h
  unfold openRepository
  simp only
  split <;> exact hopen

end Stores

namespace Session

variable {Q : Git.Repository → Prop} (hQ : Git.Repository.Closed Q) {st : Stores}

include hQ

theorem every_apply (h : st.disk.Every Q) (s : Session) (t : TableName) (c : Change) :
    (s.apply st t c).2.disk.Every Q := by
  have hread : st.readClock.2.disk.Every Q := h
  cases s with
  | memory id store tx =>
    simp only [apply]
    split <;> exact hread
  | git id handle tx =>
    simp only [apply]
    cases ha : applyGit st.readClock.2 handle st.readClock.1 tx t c with
    | failed e => exact hread
    | unwound text => exact hread
    | value done =>
      obtain ⟨commit, r⟩ := done
      refine hread.setRepository _ ?_
      unfold applyGit at ha
      cases tx with
      | none => exact hQ.commitTo (hread.repository hQ _) ha
      | some tx => exact hQ.commitTo (hread.repository hQ _) ha

theorem every_begin (h : st.disk.Every Q) (s : Session) : (s.begin st).2.disk.Every Q := by
  cases s with
  | memory id store inside => cases inside <;> exact h
  | git id handle inside =>
    cases inside with
    | some tx => exact h
    | none =>
      have hissue : st.issue.2.disk.Every Q := h
      have hb := Stores.every_beginBranch hQ hissue handle st.issue.1.lowerText
      simp only [begin]
      generalize st.issue.2.beginBranch handle st.issue.1.lowerText = begun at hb ⊢
      obtain ⟨base, st'⟩ := begun
      cases base <;> exact hb

theorem every_dropBranch (h : st.disk.Every Q) (handle : Nat) (tx : Git.Transaction) :
    (dropBranch st handle tx).disk.Every Q := by
  unfold dropBranch
  exact Stores.every_abandonBranch hQ h handle tx.id.lowerText

theorem every_commit (h : st.disk.Every Q) (s : Session) : (s.commit st).2.disk.Every Q := by
  unfold commit
  split
  · split <;> exact h
  · rename_i handle tx
    have hm := Stores.every_mergeBranch hQ h handle tx.id.lowerText tx.base
    split
    all_goals
      rename_i hmerge
      rw [hmerge] at hm
      exact every_dropBranch hQ hm handle tx
  · exact h

theorem every_rollback (h : st.disk.Every Q) (s : Session) : (s.rollback st).disk.Every Q := by
  unfold rollback
  split
  · exact h
  · exact every_dropBranch hQ h _ _
  · exact h

theorem every_abort (h : st.disk.Every Q) (s : Session) : (s.abort st).disk.Every Q := by
  unfold abort
  split
  · exact every_dropBranch hQ h _ _
  · exact h

end Session

/-- **What every function on a repository keeps, each repository has** that can be come upon. -/
theorem Stores.Reachable.every {Q : Git.Repository → Prop} (hQ : Git.Repository.Closed Q) {st : Stores}
    (h : st.Reachable) : st.disk.Every Q := by
  induction h with
  | new issued readings => exact fun x r hx => by cases hx
  | addMemory h ih => exact ih
  | openRepository h g ih => exact every_openRepository hQ ih g
  | cleanup h i ih => exact every_cleanup hQ ih i
  | issue h ih => exact ih
  | readClock h ih => exact ih
  | apply h s t c ih => exact Session.every_apply hQ ih s t c
  | begin h s ih => exact Session.every_begin hQ ih s
  | commit h s ih => exact Session.every_commit hQ ih s
  | rollback h s ih => exact Session.every_rollback hQ ih s
  | abort h s ih => exact Session.every_abort hQ ih s
  | beginBranch h i id ih => exact every_beginBranch hQ ih i id
  | abandonBranch h i id ih => exact every_abandonBranch hQ ih i id

theorem Stores.Reachable.sound {st : Stores} (h : st.Reachable) : st.disk.Sound :=
  h.every Git.Repository.closed_sound

theorem Stores.Reachable.orderly {st : Stores} (h : st.Reachable) (i : Nat) : (st.repository i).Orderly :=
  (h.every Git.Repository.closed_orderly).repository Git.Repository.closed_orderly _

end Demarcate
