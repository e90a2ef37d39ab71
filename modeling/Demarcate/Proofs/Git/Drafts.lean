import Demarcate.Proofs.Git.ThreeWay
import Demarcate.Proofs.Upkeep
/-!
# Drafts — what a transaction on a repository has written, and what its commit makes of it

The branch of a transaction leads to the files that its base has, but for those of the rows that the transaction has
written (`Drafts`).  Where `main` has changed none of these since the base, nothing stands against the commit, and it
brings the transaction's files to `main` and no others (`Drafts.commit`), whichever way it goes: the branch may not have
moved, `main` may not have moved, or the two are joined.
-/
namespace Demarcate.Git

open Demarcate.Git.Tree (fileAt? differAt)

namespace View

open Traffic (Operation Answer)

/-- The transaction's branch is at a commit with the files that the base has, but for those in the slots `written`.  It
has not moved unless commits can be made under the handle's signature. -/
structure Drafts (v : View) (tx : Transaction) (written : Slot → Prop) (before : Commit) (head : CommitId)
    (c : Commit) : Prop where
  base : v.repository.commit? tx.base = some before
  branch : v.At (branchOf tx.id) head c
  kept : ∀ s, ¬ written s → fileAt? c.tree (pathOf s) = fileAt? before.tree (pathOf s)
  signed : head ≠ tx.base → v.handle.author.Usable

/-- A transaction begins with the files of its base. -/
theorem drafts_begin {v : View} {u : Ulid} {base : CommitId} (h : (v.begin u).1 = .ok base) (written : Slot → Prop) :
    ∃ before, v.At RefName.main base before ∧ (v.begin u).2.Drafts ⟨u, base⟩ written before base before := by
  obtain ⟨before, hmain, hbranch⟩ := begin_at h
  exact ⟨before, hmain, hbranch.commit, hbranch, fun _ _ => rfl, fun hne => absurd rfl hne⟩

namespace Drafts

variable {v v' : View} {tx : Transaction} {written : Slot → Prop} {before : Commit} {head : CommitId} {c : Commit}
  (h : v.Drafts tx written before head c)

include h

theorem spared (hs : Repository.Spares (branchOf tx.id) v.repository v'.repository)
    (hauthor : v'.handle.author = v.handle.author) : v'.Drafts tx written before head c :=
  ⟨hs.grown.commit? h.base, h.branch.spared hs, h.kept, hauthor ▸ h.signed⟩

/-- **A change in the transaction writes its own row.** -/
theorem perform (hnamed : v.repository.WellNamed) (hauthor : v.handle.author.Unbroken) (op : Operation)
    (hwritten : ∀ reading t change, op = .change reading t change →
      (v.perform (some tx) op).1 = .changed (.value ()) → written ⟨t, change.key⟩) :
    ∃ head' c', (v.perform (some tx) op).2.Drafts tx written before head' c' := by
  cases op with
  | get s => exact ⟨head, c, h⟩
  | scan t => exact ⟨head, c, h⟩
  | count t => exact ⟨head, c, h⟩
  | change reading t change =>
    have hanswer : v.perform (some tx) (.change reading t change) =
        (.changed (v.after (v.commitOn (Clock.stamp reading) (some tx) t change)).1,
          (v.after (v.commitOn (Clock.stamp reading) (some tx) t change)).2) := rfl
    rw [hanswer] at hwritten ⊢
    cases hmade : v.commitOn (Clock.stamp reading) (some tx) t change with
    | failed e => exact ⟨head, c, h⟩
    | unwound text => exact ⟨head, c, h⟩
    | value made =>
      obtain ⟨id, r⟩ := made
      rw [hmade] at hwritten
      have hslot := hwritten reading t change rfl rfl
      have hgrown := Repository.Grown.of_moves (moves_commitOn hmade)
      rw [commitOn_eq] at hmade
      obtain ⟨n, parent, before', existing, row, shown, hn, href, hbefore, -, -, hshown, rfl, rfl⟩ :=
        Repository.commitTo_made hnamed hmade
      obtain rfl := normal?_branchAt hn
      have hat : v.repository.refs.get? (branchOf tx.id) = some (.commit parent) := href
      rw [h.branch.ref] at hat
      cases hat
      rw [h.branch.commit] at hbefore
      cases hbefore
      have hread := Repository.readable_of_stamp hauthor hshown [head]
        (Repository.withRow c.tree ⟨t, change.key⟩ row)
        (Repository.changeMessage ⟨t, change.key⟩ change.verb (some tx.id.lowerText))
      refine ⟨_, _, hgrown.commit? h.base, ⟨(SortedMap.get?_insert ..).trans (if_pos rfl),
        Repository.commit?_extend v.repository _ hread⟩, fun s hs => ?_, fun _ => Repository.usable_of_stamp hauthor hshown⟩
      rw [fileAt?_withRow, if_neg fun hsame : s = ⟨t, change.key⟩ => hs (hsame ▸ hslot)]
      exact h.kept s hs

section Commit

variable {tip : CommitId} {ours : Commit} (horderly : v.repository.Orderly) (hmain : v.At RefName.main tip ours)
  (hfree : ∀ s, written s → fileAt? ours.tree (pathOf s) = fileAt? before.tree (pathOf s))

include horderly hmain hfree

/-- What the transaction has written, `main` has not changed since the base. -/
theorem overlaps_eq_nil : Tree.overlaps before.tree ours.tree c.tree = [] := by
  rw [List.eq_nil_iff_forall_not_mem]
  intro p hp
  obtain ⟨s, -, hours, htheirs⟩ := (Tree.mem_overlaps_iff (horderly.commit? h.base) (horderly.commit? hmain.commit)
    (horderly.commit? h.branch.commit)).1 hp
  unfold differAt at hours htheirs
  rw [bne_iff_ne] at hours htheirs
  by_cases hs : written s
  · exact hours (hfree s hs).symm
  · exact htheirs (h.kept s hs).symm

/-- What the two come to where they are joined. -/
theorem fileAt?_joined (s : Slot) :
    (written s → fileAt? (Tree.joined before.tree ours.tree c.tree) (pathOf s) = fileAt? c.tree (pathOf s)) ∧
      (¬ written s →
        fileAt? (Tree.joined before.tree ours.tree c.tree) (pathOf s) = fileAt? ours.tree (pathOf s)) := by
  have hjoined := Tree.fileAt?_joined (horderly.commit? h.base).shaped (horderly.commit? hmain.commit).shaped
    (horderly.commit? h.branch.commit).shaped s.table.text s.key.fileName
  have hat : fileAt? (Tree.joined before.tree ours.tree c.tree) (pathOf s) =
      Tree.mergedAt? before.tree ours.tree c.tree (pathOf s) := hjoined
  rw [hat]
  unfold Tree.mergedAt? differAt
  refine ⟨fun hs => ?_, fun hs => ?_⟩
  · split
    · rfl
    · rename_i hsame
      rw [Bool.not_eq_true, bne_eq_false_iff_eq] at hsame
      rw [hfree s hs, hsame]
  · rw [if_neg]
    rw [h.kept s hs, bne_self_eq_false]
    exact Bool.false_ne_true

/-- **Nothing stands against the commit**, and the transaction's files come to `main`, which keeps all others. -/
theorem commit : (v.commit tx).1 = .ok () ∧ ∃ tip' ours', (v.commit tx).2.At RefName.main tip' ours' ∧
    ∀ s, (written s → fileAt? ours'.tree (pathOf s) = fileAt? c.tree (pathOf s)) ∧
      (¬ written s → fileAt? ours'.tree (pathOf s) = fileAt? ours.tree (pathOf s)) := by
  have hnamed := horderly.named
  have hdrop : ∀ (r : Repository), Repository.Spares RefName.main r (View.drop ⟨r, v.handle⟩ tx.id).repository :=
    fun r => .of_moves (moves_drop ⟨r, v.handle⟩ tx.id) (branchOf_ne_main tx.id).symm
  have hhead : v.repository.transactionTip tx.id.lowerText = .ok head := h.branch.resolve hnamed
  have hmerge : v.repository.merge v.handle.author tx.id.lowerText tx.base = _ := Repository.merge_eq hnamed hhead
  have htip : v.repository.tip = .ok tip := hmain.resolve hnamed
  by_cases hmoved : head = tx.base
  · -- the transaction has written nothing
    rw [if_pos hmoved] at hmerge
    rw [commit_of_merge hmerge]
    have hsame := h.branch.commit
    rw [hmoved, h.base] at hsame
    cases hsame
    exact ⟨rfl, tip, ours, hmain.spared (hdrop v.repository), fun s => ⟨hfree s, fun _ => rfl⟩⟩
  rw [if_neg hmoved, htip, ok_bind] at hmerge
  by_cases hours : tip = tx.base
  · -- nobody else has written anything
    rw [if_pos hours] at hmerge
    rw [commit_of_merge hmerge]
    have hsame := hmain.commit
    rw [hours, h.base] at hsame
    cases hsame
    have hforward : View.At ⟨v.repository.moveTo RefName.main head, v.handle⟩ RefName.main head c :=
      ⟨(SortedMap.get?_insert ..).trans (if_pos rfl), h.branch.commit⟩
    exact ⟨rfl, head, c, hforward.spared (hdrop _), fun s => ⟨fun _ => rfl, h.kept s⟩⟩
  obtain ⟨shown, hshown, hread⟩ := h.signed hmoved
  have hclean := Tree.merge_laid (horderly.commit? h.base) (horderly.commit? hmain.commit)
    (horderly.commit? h.branch.commit) (h.overlaps_eq_nil horderly hmain hfree)
  rw [if_neg hours, Repository.treeAt_eq h.base, Repository.treeAt_eq hmain.commit,
    Repository.treeAt_eq h.branch.commit, ok_bind, ok_bind, ok_bind, hclean,
    Repository.stamp_eq_ok_iff.2 hshown] at hmerge
  rw [commit_of_merge hmerge]
  have hjoined : View.At ⟨v.repository.extend RefName.main ⟨[tip, head], Tree.joined before.tree ours.tree c.tree,
      "merge transaction " ++ tx.id.lowerText, shown⟩, v.handle⟩ RefName.main v.repository.next _ :=
    ⟨(SortedMap.get?_insert ..).trans (if_pos rfl),
      Repository.commit?_extend v.repository _ (Commit.isReadable_iff.2 hread)⟩
  exact ⟨rfl, _, _, hjoined.spared (hdrop _), h.fileAt?_joined horderly hmain hfree⟩

end Commit

end Drafts

/-- A transaction whose branch is at a commit that cannot be read is not committed. -/
theorem commit_unreadable {v : View} {tx : Transaction} {id : CommitId}
    (href : v.repository.refs.get? (branchOf tx.id) = some (.commit id)) (hnone : v.repository.commit? id = none) :
    ∃ e, (v.commit tx).1 = .error e := by
  have hmerge : ∃ e, v.repository.merge v.handle.author tx.id.lowerText tx.base = .error e := by
    unfold Repository.merge Repository.transactionTip
    obtain ⟨id', hid⟩ | hid := v.repository.resolve_cases (RefName.ofTransaction tx.id.lowerText)
    · obtain ⟨n, hn, href', hsome⟩ := Repository.resolve_eq_ok_iff.1 hid
      obtain rfl := normal?_branchOf hn
      rw [href] at href'
      cases href'
      rw [hnone] at hsome
      cases hsome
    · rw [hid]
      exact ⟨_, rfl⟩
  obtain ⟨e, hmerge⟩ := hmerge
  refine ⟨.storage e, ?_⟩
  unfold View.commit
  rw [hmerge]

end View
end Demarcate.Git
