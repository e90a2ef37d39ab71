import Demarcate.Proofs.Codec
import Demarcate.Proofs.Git.BranchNames
import Demarcate.Proofs.Git.Legibility
import Demarcate.Proofs.Memory.Overlay
import Demarcate.Proofs.Snapshot
/-!
# Solo — a repository on which one transaction is open at a time

Between transactions there is `main` and no other branch (`Idle`), so a transaction under any identifier can begin.
While it is open, `main` stays at its base and its branch leads to tables of its own (`Inside`); so its commit moves
`main` to them, and every other end leaves `main` where it was.  Rows have to be ones that are read back (`Fits`).
-/
namespace Demarcate

open Git (branchAt branchOf)
open Memory (Tables)
open Traffic (Answer Operation)

/-- The row that the change puts, if it puts one, has a name that rows can have and is read back from its text. -/
def Change.Fits (c : Change) : Prop :=
  ∀ row, c.row? = some row → RowKey.parse row.key.text = .ok row.key ∧ row.Plain ∧ row.Readable

def Traffic.Operation.Fits : Operation → Prop
  | .change _ _ c => c.Fits
  | _ => True

/-- What becomes of such a row in its table is read back, too. -/
theorem Change.Fits.legible {c : Change} (h : c.Fits) {now : String} {t : TableName} {existing : Option Row} {row : Row}
    (hresolve : c.resolve now t existing = .value (some row)) : row.Legible := by
  cases hc : c.row? with
  | none =>
    cases c with
    | delete key => cases existing <;> cases hresolve
    | insert row => cases hc
    | update row => cases hc
    | upsert row => cases hc
  | some written =>
    obtain ⟨hparse, hplain, hreadable⟩ := h written hc
    obtain ⟨hkey, hrowPlain, hrow⟩ := Git.resolve_written hc hplain hresolve
    exact ⟨hkey ▸ hparse, (Row.decode_readable hrowPlain (hrow.2 hreadable)).1⟩

namespace Git
namespace View

/-- **What is done on a branch** is what somebody does who is alone with the tables that it leads to. -/
theorem Sees.perform {v : View} {tx : Option Transaction} {tables : Tables} (h : v.Sees (branchAt tx) tables)
    (hnamed : v.repository.WellNamed) (hauthor : v.handle.author.Usable) {op : Operation} (hfits : op.Fits) :
    (v.perform tx op).1 = (tables.perform op).1 ∧ (v.perform tx op).2.Sees (branchAt tx) (tables.perform op).2 := by
  refine ⟨h.answer hnamed hauthor (m := ⟨tables, ∅⟩) rfl op, ?_⟩
  cases op with
  | get s => exact h
  | scan t => exact h
  | count t => exact h
  | change reading t c =>
    have hmade := h.commitOn hnamed hauthor (Clock.stamp reading) t c
    have hafter : (v.perform tx (.change reading t c)).2 =
      (v.after (v.commitOn (Clock.stamp reading) tx t c)).2 := rfl
    rw [hafter]
    cases hc : c.resolve (Clock.stamp reading) t (tables.row? ⟨t, c.key⟩) with
    | failed e =>
      rw [hc] at hmade
      simp only at hmade
      rw [hmade, Tables.perform_failed hc]
      exact h
    | unwound text =>
      rw [hc] at hmade
      simp only at hmade
      rw [hmade, Tables.perform_unwound hc]
      exact h
    | value row =>
      rw [hc] at hmade
      obtain ⟨id, r, hmade, hsees⟩ := hmade
      rw [hmade, Tables.perform_value hc]
      refine hsees fun written hw => ?_
      rw [hw] at hc
      exact Change.Fits.legible hfits hc

/-- No reference comes or goes with an operation. -/
theorem refs_perform (v : View) (tx : Option Transaction) (op : Operation) {n : String} {t : Target}
    (hn : (v.perform tx op).2.repository.refs.get? n = some t) : ∃ t', v.repository.refs.get? n = some t' := by
  by_cases hat : n = branchAt tx
  · have hcontains := contains_perform v tx op
    unfold SortedMap.contains at hcontains
    rw [← hat, hn, Option.isSome_some] at hcontains
    exact Option.isSome_iff_exists.1 hcontains.symm
  · rw [(moves_perform v tx op).1.refs n hat] at hn
    exact ⟨t, hn⟩

/-- There is `main` and no other branch, and it leads to the tables. -/
structure Idle (v : View) (tables : Tables) : Prop where
  named : v.repository.WellNamed
  author : v.handle.author.Usable
  only : ∀ n t, v.repository.refs.get? n = some t → n = RefName.main
  sees : v.Sees RefName.main tables

/-- There are `main`, still at the base of the transaction, and the transaction's branch. -/
structure Inside (v : View) (tx : Transaction) (before now : Tables) : Prop where
  named : v.repository.WellNamed
  author : v.handle.author.Usable
  only : ∀ n t, v.repository.refs.get? n = some t → n = RefName.main ∨ n = branchOf tx.id
  base : v.repository.refs.get? RefName.main = some (.commit tx.base)
  main : v.Sees RefName.main before
  branch : v.Sees (branchOf tx.id) now

namespace Idle

variable {v : View} {tables : Tables} (h : v.Idle tables)

include h

theorem perform {op : Operation} (hfits : op.Fits) :
    (v.perform none op).1 = (tables.perform op).1 ∧ (v.perform none op).2.Idle (tables.perform op).2 := by
  have hmain : v.Sees (branchAt none) tables := h.sees
  obtain ⟨hanswer, hsees⟩ := hmain.perform h.named h.author hfits
  refine ⟨hanswer, h.named.of_refs fun n t hn => v.refs_perform none op hn, ?_, fun n t hn => ?_, hsees⟩
  · rw [(moves_perform v none op).2]
    exact h.author
  · obtain ⟨t', ht'⟩ := v.refs_perform none op hn
    exact h.only n t' ht'

/-- **A transaction begins, whatever its identifier.** -/
theorem begin (u : Ulid) : ∃ base, (v.begin u).1 = .ok base ∧ (v.begin u).2.Inside ⟨u, base⟩ tables tables := by
  obtain ⟨base, c, hat, hreads⟩ := h.sees.leads
  have hbranch := Repository.branch_alone (hat.resolve h.named) h.only u
  have hbegin : v.begin u = (.ok base, ⟨v.repository.moveTo (branchOf u) base,
      { v.handle with live := v.handle.live.insert u.lowerText () }⟩) := by
    unfold View.begin
    rw [hbranch]
  have hother : ∀ n, (v.repository.moveTo (branchOf u) base).refs.get? n =
      if n = branchOf u then some (.commit base) else v.repository.refs.get? n := fun n => SortedMap.get?_insert ..
  have hmain : (v.repository.moveTo (branchOf u) base).refs.get? RefName.main = some (.commit base) := by
    rw [hother, if_neg (branchOf_ne_main u).symm]
    exact hat.ref
  rw [hbegin]
  refine ⟨base, rfl, ?_, h.author, fun n t hn => ?_, hmain, ⟨base, c, hmain, hat.commit, hreads⟩, base, c, ?_,
    hat.commit, hreads⟩
  · exact Repository.closed_wellNamed.branch h.named hbranch
  · have hn' : (v.repository.moveTo (branchOf u) base).refs.get? n = some t := hn
    rw [hother] at hn'
    split at hn'
    · rename_i heq
      exact .inr heq
    · exact .inl (h.only n t hn')
  · exact (hother _).trans (if_pos rfl)

end Idle

namespace Inside

variable {v : View} {tx : Transaction} {before now : Tables} (h : v.Inside tx before now)

include h

theorem perform {op : Operation} (hfits : op.Fits) : (v.perform (some tx) op).1 = (now.perform op).1 ∧
    (v.perform (some tx) op).2.Inside tx before (now.perform op).2 := by
  have hbranch : v.Sees (branchAt (some tx)) now := h.branch
  obtain ⟨hanswer, hsees⟩ := hbranch.perform h.named h.author hfits
  obtain ⟨hmoves, hhandle⟩ := moves_perform v (some tx) op
  have hspares : Repository.Spares RefName.main v.repository (v.perform (some tx) op).2.repository :=
    .of_moves hmoves (branchOf_ne_main tx.id).symm
  refine ⟨hanswer, h.named.of_refs fun n t hn => v.refs_perform (some tx) op hn, ?_, fun n t hn => ?_,
    hspares.ref.trans h.base, h.main.spared hspares, hsees⟩
  · rw [hhandle]
    exact h.author
  · obtain ⟨t', ht'⟩ := v.refs_perform (some tx) op hn
    exact h.only n t' ht'

/-- The branch goes, and `main` stays where it is by then. -/
theorem drop {r : Repository} (hr : r.WellNamed) (hrefs : ∀ n t, r.refs.get? n = some t → n = RefName.main ∨
    n = branchOf tx.id) {tables : Tables} (hsees : View.Sees ⟨r, v.handle⟩ RefName.main tables) :
    (View.drop ⟨r, v.handle⟩ tx.id).Idle tables := by
  have hmoves := moves_drop ⟨r, v.handle⟩ tx.id
  have hgone := drop_gone (v := ⟨r, v.handle⟩) hr tx.id
  have hspares : Repository.Spares RefName.main r (View.drop ⟨r, v.handle⟩ tx.id).repository :=
    .of_moves hmoves (branchOf_ne_main tx.id).symm
  have hkept : ∀ n t, (View.drop ⟨r, v.handle⟩ tx.id).repository.refs.get? n = some t →
      n ≠ branchOf tx.id ∧ r.refs.get? n = some t := by
    intro n t hn
    by_cases heq : n = branchOf tx.id
    · rw [heq, hgone] at hn
      cases hn
    · rw [hmoves.refs n heq] at hn
      exact ⟨heq, hn⟩
  refine ⟨hr.of_refs fun n t hn => ⟨t, (hkept n t hn).2⟩, ?_, fun n t hn => ?_, hsees.spared hspares⟩
  · rw [handle_drop]
    exact h.author
  · obtain ⟨hne, ht⟩ := hkept n t hn
    exact (hrefs n t ht).resolve_right hne

/-- **The commit moves `main` to the transaction's tables**, because it still stands at the base. -/
theorem commit : (v.commit tx).1 = .ok () ∧ (v.commit tx).2.Idle now := by
  obtain ⟨theirs, c, hbranch, hreads⟩ := h.branch.leads
  obtain ⟨tip, ours, hmain, -⟩ := h.main.leads
  have hbase := hmain.ref
  rw [h.base] at hbase
  cases hbase
  have htheirs : v.repository.transactionTip tx.id.lowerText = .ok theirs := hbranch.resolve h.named
  have hmerge : v.repository.merge v.handle.author tx.id.lowerText tx.base = _ := Repository.merge_eq h.named htheirs
  by_cases hsame : theirs = tx.base
  · rw [if_pos hsame] at hmerge
    rw [commit_of_merge hmerge]
    exact ⟨rfl, h.drop h.named h.only ⟨tx.base, c, h.base, hsame ▸ hbranch.commit, hreads⟩⟩
  · have htip : v.repository.tip = .ok tx.base := hmain.resolve h.named
    rw [if_neg hsame, htip, ok_bind, if_pos rfl] at hmerge
    have hget : ∀ n, (v.repository.moveTo RefName.main theirs).refs.get? n =
        if n = RefName.main then some (.commit theirs) else v.repository.refs.get? n :=
      fun n => SortedMap.get?_insert ..
    rw [commit_of_merge hmerge]
    refine ⟨rfl, h.drop (Repository.closed_wellNamed.merge h.named hmerge) (fun n t hn => ?_)
      ⟨theirs, c, (hget _).trans (if_pos rfl), hbranch.commit, hreads⟩⟩
    rw [hget] at hn
    split at hn
    · rename_i heq
      exact .inl heq
    · exact h.only n t hn

end Inside

end View
end Git
end Demarcate
