import Demarcate.Proofs.Places
/-!
# Pending — what a running transaction keeps

A transaction that runs keeps its writes to itself: in its write set, where each slot that was written has the committed
row of the first write and the row of the last, or on its branch, which differs from its base in the slots that were
written.  Either way what is kept is what the writes come to (`Pending`).  A transaction is begun with nothing kept,
a write of its own adds to that, and nothing else touches it.

A commit that succeeds puts what is kept among the committed contents (`Pending.landed`).
-/
namespace Demarcate

open Git (CommitId branchOf pathOf)
open Git.Tree (fileAt?)

/-- A transaction in memory keeps the writes of `log`.  A store that is not there keeps nothing. -/
structure Buffered (st : Stores) (i : Nat) (tx : Ulid) (log : List Written) : Prop where
  issued : ∃ k, k < st.issued ∧ tx = Ulid.issued k
  writes : i < st.memories.size → ∀ s,
    bounds log s = (((st.memory i).writeSet tx).get? s).map fun p => (.row p.read, .row p.write)
  nowhere : ¬ i < st.memories.size → ∀ s first last, bounds log s = some (first, last) →
    first = .row none ∧ last = .row none

/-- A transaction's branch stands at `top`, which differs from the transaction's base by the writes of `log`. -/
structure Branched (r : Git.Repository) (tx : Git.Transaction) (tip : CommitId) (base top : Git.Commit)
    (log : List Written) : Prop where
  ref : r.refs.get? (branchOf tx.id) = some (.commit tip)
  baseAt : r.commits[tx.base.index]? = some base
  topAt : r.commits[tip.index]? = some top
  writes : ∀ s, match bounds log s with
    | none => fileAt? top.tree (pathOf s) = fileAt? base.tree (pathOf s)
    | some (first, last) =>
      first = .file (fileAt? base.tree (pathOf s)) ∧ last = .file (fileAt? top.tree (pathOf s))

theorem Branched.content {st : Stores} {i : Nat} {id : Ulid} {t : Git.Transaction} {tip : CommitId}
    {base top : Git.Commit} {log : List Written} (h : Branched (st.repository i) t tip base top log) (slot : Slot) :
    (Session.git id i (some t)).content st slot = .file (fileAt? top.tree (pathOf slot)) :=
  congrArg _ (Git.Repository.text?_of_ref h.ref h.topAt slot)

theorem get_nowhere {st : Stores} {i : Nat} (hi : ¬ i < st.memories.size) (tx : Option Ulid) (s : Slot) :
    (st.memory i).get tx s = none := by
  have hnone : st.memory i = {} := by
    unfold Stores.memory
    rw [Array.getD_eq_getD_getElem?, Array.getElem?_eq_none (Nat.le_of_not_lt hi)]
    rfl
  rw [hnone]
  cases tx <;> rfl

theorem Buffered.write {st : Stores} {i : Nat} {tx : Ulid} {log : List Written} (h : Buffered st i tx log)
    {now : String} {t : TableName} {c : Change} {m : Memory.Store}
    (hm : (st.memory i).apply now (some tx) t c = .value m) :
    Buffered (st.readClock.2.setMemory i m) i tx (log ++ [⟨⟨t, c.key⟩, .row ((st.memory i).get (some tx) ⟨t, c.key⟩),
      .row (((st.readClock.2.setMemory i m).memory i).get (some tx) ⟨t, c.key⟩)⟩]) := by
  have hsize : (st.readClock.2.setMemory i m).memories.size = st.memories.size := Array.size_setIfInBounds
  refine ⟨h.issued, fun hi s => ?_, fun hi s first last hbounds => ?_⟩
  · rw [hsize] at hi
    have hmemory : (st.readClock.2.setMemory i m).memory i = m := by
      rw [memory_setMemory]
      exact if_pos ⟨rfl, hi⟩
    obtain ⟨p, rfl, -, hread⟩ := Memory.applyBuffered_value hm
    rw [hmemory, bounds_concat, Memory.writeSet_setWriteSet, if_pos rfl, SortedMap.get?_insert, h.writes hi]
    by_cases hs : s = ⟨t, c.key⟩
    · subst hs
      rw [if_pos rfl, if_pos rfl]
      rw [Memory.get_setWriteSet_insert]
      -- the first write to the slot reads the committed row, and a later one leaves it
      cases hq : ((st.memory i).writeSet tx).get? ⟨t, c.key⟩ with
      | none =>
        rw [hq] at hread
        simp [Memory.Store.get, hq, hread]
      | some q =>
        rw [hq] at hread
        simp [hread]
    · rw [if_neg fun h => hs h.symm, if_neg hs]
  · rw [hsize] at hi
    rw [bounds_concat, get_nowhere hi, get_nowhere (hsize ▸ hi)] at hbounds
    split at hbounds
    · cases hb : bounds log s with
      | none =>
        rw [hb] at hbounds
        cases hbounds
        exact ⟨rfl, rfl⟩
      | some found =>
        rw [hb] at hbounds
        cases hbounds
        exact ⟨(h.nowhere hi s _ _ hb).1, rfl⟩
    · exact h.nowhere hi s first last hbounds

theorem Branched.write {r r' : Git.Repository} {tx : Git.Transaction} {tip : CommitId} {base top : Git.Commit}
    {log : List Written} (h : Branched r tx tip base top log) {author : Git.Signature} {now : String} {t : TableName}
    {c : Change} {id : CommitId} (hr : r.commitToTransaction author now tx.id.lowerText t c = .value (id, r')) :
    ∃ tip' top', Branched r' tx tip' base top' (log ++ [⟨⟨t, c.key⟩, .file (fileAt? top.tree (pathOf ⟨t, c.key⟩)),
      .file (fileAt? top'.tree (pathOf ⟨t, c.key⟩))⟩]) := by
  obtain ⟨n, parent, before, next, commit, hn, href, hbefore, htree, rfl⟩ := Git.Repository.commitTo_value hr
  obtain rfl := Git.normal?_branchOf hn
  rw [h.ref] at href
  cases href
  rw [h.topAt] at hbefore
  cases hbefore
  refine ⟨⟨r.number, r.commits.size⟩, commit, ⟨(SortedMap.get?_insert ..).trans (if_pos rfl),
    Git.Repository.getElem?_push_of_some commit h.baseAt, Array.getElem?_push_size, fun s => ?_⟩⟩
  have hwrites := h.writes s
  have hfile := Git.fileAt?_withRow top.tree ⟨t, c.key⟩ s next
  rw [← htree] at hfile
  rw [bounds_concat]
  by_cases hs : s = ⟨t, c.key⟩
  · subst hs
    rw [if_pos rfl]
    cases hb : bounds log ⟨t, c.key⟩ with
    | none =>
      rw [hb] at hwrites
      exact ⟨congrArg Content.file hwrites, rfl⟩
    | some found =>
      rw [hb] at hwrites
      exact ⟨hwrites.1, rfl⟩
  · rw [if_neg hs] at hfile
    rw [if_neg fun h => hs h.symm, hfile]
    exact hwrites

/-- A write set that is committed leaves its last rows in the tables. -/
theorem Buffered.landed {st : Stores} {i : Nat} {id tx : Ulid} {log : List Written} (h : Buffered st i tx log)
    (hc : ((Session.memory id i (some tx)).commit st).1 = .ok ()) :
    Landed log ((Session.memory id i (some tx)).committed st)
      ((Session.memory id i (some tx)).committed ((Session.memory id i (some tx)).commit st).2) := by
  unfold Session.commit at hc ⊢
  simp only at hc ⊢
  obtain ⟨-, hcommit⟩ | ⟨slot, slots, hcommit⟩ := Memory.commit_cases (st.memory i) tx
  · rw [hcommit]
    intro s
    simp only [Session.committed, Session.outside, Session.content, Memory.Store.get, Option.bind_none,
      memory_setMemory, true_and]
    by_cases hi : i < st.memories.size
    · rw [if_pos hi, h.writes hi, Memory.WriteSet.row?_laidOver]
      cases ((st.memory i).writeSet tx).get? s with
      | none => rfl
      | some p => exact .inl rfl
    · rw [if_neg hi]
      cases hb : bounds log s with
      | none => rfl
      | some found =>
        obtain ⟨hfirst, hlast⟩ := h.nowhere hi s _ _ hb
        exact .inr ⟨hfirst.trans hlast.symm, rfl⟩
  · rw [hcommit] at hc
    cases hc

/-- The writes have landed where each slot in which the branch differs from its base is now as on the branch, and each
other one as it was. -/
theorem Branched.landed_of {r : Git.Repository} {tx : Git.Transaction} {tip : CommitId} {base top : Git.Commit}
    {log : List Written} (h : Branched r tx tip base top log) {was now : Slot → Content}
    (hsame : ∀ s, fileAt? base.tree (pathOf s) = fileAt? top.tree (pathOf s) → now s = was s)
    (hdiffer : ∀ s, fileAt? base.tree (pathOf s) ≠ fileAt? top.tree (pathOf s) →
      now s = .file (fileAt? top.tree (pathOf s))) : Landed log was now := by
  intro s
  have hwrites := h.writes s
  cases hb : bounds log s with
  | none =>
    rw [hb] at hwrites
    exact hsame s hwrites.symm
  | some found =>
    rw [hb] at hwrites
    by_cases hs : fileAt? base.tree (pathOf s) = fileAt? top.tree (pathOf s)
    · exact .inr ⟨(hwrites.1.trans (congrArg Content.file hs)).trans hwrites.2.symm, hsame s hs⟩
    · exact .inl ((hdiffer s hs).trans hwrites.2.symm)

/-- A branch that is merged leaves its files on `main`. -/
theorem Branched.landed {r r' : Git.Repository} {tx : Git.Transaction} {tip : CommitId} {base top : Git.Commit}
    {log : List Written} (h : Branched r tx tip base top log) (hr : r.Sound) {author : Git.Signature}
    {outcome : Git.MergeOutcome} (hm : r.merge author tx.id.lowerText tx.base = .ok (outcome, r'))
    (hok : ∀ paths, outcome ≠ .conflict paths) :
    Landed log (fun s => .file (r.text? Git.RefName.main s)) (fun s => .file (r'.text? Git.RefName.main s)) := by
  obtain ⟨theirs, htheirs, hcases⟩ := Git.Repository.merge_ok hm
  have href := Git.Repository.transactionTip_ok htheirs
  rw [h.ref] at href
  cases href
  obtain ⟨paths, hpaths, -⟩ | ⟨htip, rfl⟩ | ⟨hbase, hr'⟩ |
    ⟨ours, tb, tours, tt, commit, hours, htb, htours, htt, hjoin, hr'⟩ := hcases
  · exact absurd hpaths (hok paths)
  · -- the branch stands at its base, so it does not differ from it
    have htop := h.topAt
    rw [htip, h.baseAt] at htop
    cases htop
    exact h.landed_of (fun s _ => rfl) fun s hs => absurd rfl hs
  · obtain ⟨hmain, -⟩ := Git.Repository.tip_ok hbase
    have hmain' : r'.refs.get? Git.RefName.main = some (.commit tip) := by
      rw [hr']
      exact (SortedMap.get?_insert ..).trans (if_pos rfl)
    have htop : r'.commits[tip.index]? = some top := by
      rw [hr']
      exact h.topAt
    refine h.landed_of (fun s hs => ?_) fun s _ => ?_
    · rw [Git.Repository.text?_of_ref hmain h.baseAt s, Git.Repository.text?_of_ref hmain' htop s, hs]
    · rw [Git.Repository.text?_of_ref hmain' htop s]
  · obtain ⟨hmain, -⟩ := Git.Repository.tip_ok hours
    obtain ⟨c, hc, hctree⟩ := Git.Repository.treeAt_ok htours
    obtain ⟨c', hc', htree⟩ := Git.Repository.treeAt_ok htb
    rw [h.baseAt] at hc'
    cases hc'
    obtain ⟨c', hc', htree'⟩ := Git.Repository.treeAt_ok htt
    rw [h.topAt] at hc'
    cases hc'
    have hmain' : r'.refs.get? Git.RefName.main = some (.commit ⟨r.number, r.commits.size⟩) := by
      rw [hr']
      exact (SortedMap.get?_insert ..).trans (if_pos rfl)
    have hcommit : r'.commits[r.commits.size]? = some commit := by
      rw [hr']
      exact Array.getElem?_push_size
    have hmerged : ∀ s, fileAt? commit.tree (pathOf s) = Git.Tree.mergedAt? tb tours tt (pathOf s) := by
      intro s
      rw [Git.Repository.merge_eq_joined hjoin]
      exact Git.Tree.fileAt?_joined (hr.treeAt htb) (hr.treeAt htours) (hr.treeAt htt) _ _
    -- a slot is taken from the branch if it differs from the base there, and from `main` if it does not
    unfold Git.Tree.mergedAt? Git.Tree.differAt at hmerged
    rw [← htree, ← htree', ← hctree] at hmerged
    refine h.landed_of (fun s hs => ?_) fun s hs => ?_
    · rw [Git.Repository.text?_of_ref hmain hc s, Git.Repository.text?_of_ref hmain' hcommit s, hmerged,
        if_neg (by simp [hs])]
    · rw [Git.Repository.text?_of_ref hmain' hcommit s, hmerged, if_pos (by simp [hs])]

namespace Session

/-- `tx.Pending st log`: the transaction runs, and what it keeps is what the writes of `log` come to. -/
def Pending (st : Stores) (log : List Written) : Session → Prop
  | .memory _ i (some tx) => Buffered st i tx log
  | .git _ i (some tx) => ∃ tip base top, Branched (st.repository i) tx tip base top log
  | _ => False

namespace Pending

variable {st st' : Stores} {s tx tx' : Session} {log : List Written}

theorem inside (h : tx.Pending st log) : tx.isInTransaction = true := by
  cases tx with
  | memory id i inside =>
    cases inside with
    | none => cases h
    | some t => rfl
  | git id i inside =>
    cases inside with
    | none => cases h
    | some t => rfl

/-- **What is kept stays**, whatever is done in other places. -/
theorem confined {ps : List Place} (h : tx.Pending st log) (hc : Confined ps st st') (hp : tx.place st ∉ ps) :
    tx.Pending st' log := by
  have hsame := hc.same _ hp
  cases tx with
  | memory id i inside =>
    cases inside with
    | none => cases h
    | some t =>
      have hset : (st'.memory i).writeSet t = (st.memory i).writeSet t := hsame
      obtain ⟨⟨k, hk, ht⟩, hwrites, hnowhere⟩ := h
      refine ⟨⟨k, Nat.lt_of_lt_of_le hk hc.issued, ht⟩, ?_, ?_⟩
      · rw [hc.size, hset]
        exact hwrites
      · rw [hc.size]
        exact hnowhere
  | git id i inside =>
    cases inside with
    | none => cases h
    | some t =>
      rw [place_git] at hsame
      obtain ⟨hcommits, href⟩ := hsame
      obtain ⟨tip, base, top, h⟩ := h
      have hrepository : st'.repository i = st'.disk.repository (st.handle i).site := by
        unfold Stores.repository
        rw [hc.site]
      refine ⟨tip, base, top, ?_⟩
      rw [hrepository]
      exact ⟨href.trans h.ref, hcommits _ _ h.baseAt, hcommits _ _ h.topAt, h.writes⟩

end Pending

/-- **A transaction begins with nothing kept.** -/
theorem pending_begin {st : Stores} {s tx : Session} (hb : (s.begin st).1 = .ok tx) :
    tx.Pending (s.begin st).2 [] := by
  obtain ⟨id, i, -, h⟩ | ⟨id, i, base, r, handle, -, hbranch, hsite, h⟩ | ⟨err, h, -⟩ := begin_cases st s
  · rw [h] at hb ⊢
    cases hb
    refine ⟨⟨st.issued, Nat.lt_succ_self _, rfl⟩, fun hi slot => ?_, fun _ slot first last hbounds => by cases hbounds⟩
    have hi' : i < st.issue.2.memories.size := by
      have hsize : (st.issue.2.setMemory i ((st.memory i).setWriteSet st.issue.1 ∅)).memories.size =
          st.issue.2.memories.size := Array.size_setIfInBounds
      rw [← hsize]
      exact hi
    rw [memory_setMemory, if_pos ⟨rfl, hi'⟩, Memory.writeSet_setWriteSet, if_pos rfl]
    rfl
  · simp only [h] at hb ⊢
    cases hb
    obtain ⟨n, hn, -, htip, hr⟩ := Git.Repository.branch_ok hbranch
    obtain rfl := Git.normal?_branchOf hn
    obtain ⟨-, c, hc⟩ := Git.Repository.tip_ok htip
    have hsite' : handle.site = ((st.issue.2.setRepository i r).handle i).site := hsite
    refine ⟨base, c, c, ?_⟩
    rw [repository_setHandle hsite', repository_setRepository, hr]
    exact ⟨(SortedMap.get?_insert ..).trans (if_pos rfl), hc, hc, fun slot => rfl⟩
  · rw [h] at hb
    cases hb

/-- **A transaction begins in a place that no transaction that runs has.** -/
theorem Pending.place_ne {st : Stores} {s tx tx' : Session} {log : List Written} (h : tx.Pending st log)
    (hb : (s.begin st).1 = .ok tx') : tx.place st ≠ tx'.place st := by
  obtain ⟨id, i, -, hbegin⟩ | ⟨id, i, base, r, handle, -, hbranch, hsite, hbegin⟩ | ⟨err, hbegin, -⟩ := begin_cases st s
  · rw [hbegin] at hb
    cases hb
    cases tx with
    | memory id' j inside =>
      cases inside with
      | none => cases h
      | some t =>
        obtain ⟨⟨k, hk, ht⟩, -, -⟩ := h
        intro hplace
        simp only [place, Place.writeSet.injEq] at hplace
        have := Ulid.issued_inj (ht.symm.trans hplace.2)
        omega
    | git id' j inside =>
      intro hplace
      cases hplace
  · rw [hbegin] at hb
    cases hb
    cases tx with
    | memory id' j inside =>
      intro hplace
      cases inside <;> cases hplace
    | git id' j inside =>
      cases inside with
      | none => cases h
      | some t =>
        obtain ⟨tip, cb, ct, h⟩ := h
        obtain ⟨n, hn, hnone, -, -⟩ := Git.Repository.branch_ok hbranch
        obtain rfl := Git.normal?_branchOf hn
        intro hplace
        rw [place_git, place_git, Place.branch.injEq] at hplace
        have href := h.ref
        rw [hplace.2] at href
        have hrepository : st.repository j = st.repository i := by
          unfold Stores.repository
          rw [hplace.1]
        rw [hrepository, hnone] at href
        cases href
  · rw [hbegin] at hb
    cases hb

/-! ## Writes -/

/-- **A write that the transaction makes is one write more that it keeps.** -/
theorem Pending.write {st : Stores} {s tx : Session} {log : List Written} (h : tx.Pending st log)
    (hs : s.sameTransaction st tx = true) {t : TableName} {c : Change} (hw : (s.apply st t c).1 = .value ()) :
    tx.Pending (s.apply st t c).2
      (log ++ [⟨⟨t, c.key⟩, tx.content st ⟨t, c.key⟩, tx.content (s.apply st t c).2 ⟨t, c.key⟩⟩]) := by
  obtain ⟨id, i, inside, m, rfl, hm, ha⟩ | ⟨id, i, inside, commit, r, rfl, hr, ha⟩ | ⟨hne, -⟩ := apply_cases st s t c
  · simp only [ha]
    unfold sameTransaction at hs
    split at hs
    · rename_i heq
      cases heq
      simp only [Bool.and_eq_true, beq_iff_eq] at hs
      obtain ⟨rfl, rfl⟩ := hs
      exact Buffered.write h hm
    · rename_i heq
      cases heq
    · cases hs
  · simp only [ha]
    unfold sameTransaction at hs
    split at hs
    · rename_i heq
      cases heq
    · rename_i i₀ t' id' i' t'' heq
      cases heq
      simp only [Bool.and_eq_true, beq_iff_eq] at hs
      obtain ⟨hsite, hid⟩ := hs
      obtain ⟨tip, base, top, h⟩ := h
      have hafter : (st.readClock.2.setRepository i r).repository i' = r := by
        have hsite' : ((st.readClock.2.setRepository i r).handle i).site =
            ((st.readClock.2.setRepository i r).handle i').site := hsite
        rw [← repository_congr hsite', repository_setRepository]
      unfold applyGit at hr
      simp only at hr
      rw [repository_congr hsite, hid] at hr
      obtain ⟨tip', top', h'⟩ := h.write hr
      rw [← hafter] at h'
      refine ⟨tip', base, top', ?_⟩
      rw [h.content, h'.content]
      exact h'
    · cases hs
  · exact absurd hw hne

/-! ## The end -/

/-- **A commit puts what is kept among the committed contents.** -/
theorem Pending.landed {st : Stores} {tx : Session} {log : List Written} (h : tx.Pending st log) (hst : st.disk.Sound)
    (hc : (tx.commit st).1 = .ok ()) : Landed log (tx.committed st) (tx.committed (tx.commit st).2) := by
  cases tx with
  | memory id i inside =>
    cases inside with
    | none => cases h
    | some t => exact Buffered.landed h hc
  | git id i inside =>
    cases inside with
    | none => cases h
    | some t =>
      obtain ⟨tip, base, top, h⟩ := h
      obtain ⟨outcome, r, hm, hok, hcommit⟩ | ⟨err, st₁, -, hcommit⟩ := commit_git_cases st id i t
      · have hsound : (st.setRepository i r).disk.Sound := hst.setRepository _ ((hst.repository _).merge hm)
        have hdrop := confined_dropBranch (st.setRepository i r) i t
        have hcommitted := committed_congr (s := .git id i (some t)) hsound hdrop.site (hdrop.same _ fun hmem => by
          rw [place_outside_git, List.mem_singleton, Place.branch.injEq] at hmem
          exact Git.RefName.ofTransaction_ne_main _ hmem.2.symm)
        rw [hcommit]
        simp only
        rw [hcommitted]
        have hlanded := h.landed (hst.repository _) hm hok
        have hafter := repository_setRepository st i r
        unfold committed outside content
        simp only [hafter]
        exact hlanded
      · rw [hcommit] at hc
        cases hc

end Session
end Demarcate
