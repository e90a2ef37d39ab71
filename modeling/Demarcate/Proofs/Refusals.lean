import Demarcate.Proofs.Memory.Overlay
import Demarcate.Proofs.Places
/-!
# Refusals — changes that fail

A change that fails or unwinds takes a reading of the clock and leaves all else as it was, what transactions have
written and recorded included (`Session.refused_apply`).  It unwinds where the row that its session sees has the
greatest version already, and nowhere else (`Session.unwound_iff`).

Nothing that is done with the stores is answered by the clock, once each change comes with the reading that it takes
(`Call.act_atReading`).  So what comes after a change that fails is answered as if it had not been made, and a history
can be told without such changes (`refused_changes_leave_no_trace`).
-/
namespace Demarcate

open Engine (Verdict)
open Git (CommitId MergeOutcome)
open Traffic (Answer Operation)

/-! ## Changes that unwind -/

/-- The change would count a row beyond the greatest version. -/
def Change.Overflows (c : Change) (existing : Option Row) : Prop :=
  ∃ row next, existing = some row ∧ Row.greatestVersion ≤ row.version ∧ (c = .update next ∨ c = .upsert next)

theorem Change.overflows_some {c : Change} {row next : Row} (hc : c = .update next ∨ c = .upsert next) :
    c.Overflows (some row) ↔ Row.greatestVersion ≤ row.version := by
  refine ⟨?_, fun h => ⟨row, next, rfl, h, hc⟩⟩
  rintro ⟨_, _, hrow, h, -⟩
  cases hrow
  exact h

theorem Row.succeed_unwound {now text : String} {row next : Row} :
    ((row.succeed now next).bind fun r => (.value (some r) : Outcome StorageError _)) = .unwound text ↔
      text = overflowText ∧ greatestVersion ≤ row.version := by
  refine Iff.trans (Outcome.bind_unwound_iff ?_) ?_
  · exact fun _ => Outcome.value_ne_unwound _
  unfold succeed
  split
  · rename_i hlt
    exact ⟨fun h => absurd h (Outcome.value_ne_unwound _), fun h => absurd hlt (Nat.not_lt.2 h.2)⟩
  · rename_i hge
    rw [Outcome.unwound.injEq, and_iff_left (Nat.not_lt.1 hge)]
    exact eq_comm

theorem Change.resolve_unwound {now text : String} {t : TableName} {c : Change} {existing : Option Row} :
    c.resolve now t existing = .unwound text ↔ text = Row.overflowText ∧ c.Overflows existing := by
  cases existing with
  | none =>
    refine ⟨fun h => ?_, ?_⟩
    · cases c <;> cases h
    · rintro ⟨-, row, next, h, -⟩
      cases h
  | some row =>
    cases c with
    | insert next =>
      refine ⟨fun h => (by cases h), ?_⟩
      rintro ⟨-, _, _, -, -, hc | hc⟩ <;> cases hc
    | delete key =>
      refine ⟨fun h => (by cases h), ?_⟩
      rintro ⟨-, _, _, -, -, hc | hc⟩ <;> cases hc
    | update next => exact Row.succeed_unwound.trans (and_congr_right fun _ => (overflows_some (.inl rfl)).symm)
    | upsert next => exact Row.succeed_unwound.trans (and_congr_right fun _ => (overflows_some (.inr rfl)).symm)

/-- A change in memory is resolved against the row that its session sees. -/
theorem Memory.Store.apply_unwound {m : Store} {now text : String} {tx : Option Ulid} {t : TableName} {c : Change} :
    m.apply now tx t c = .unwound text ↔ c.resolve now t (m.get tx ⟨t, c.key⟩) = .unwound text := by
  cases tx with
  | none => exact Outcome.bind_unwound_iff fun _ => Outcome.value_ne_unwound _
  | some u =>
    rw [apply_inside]
    exact Outcome.bind_unwound_iff fun _ => Outcome.value_ne_unwound _

/-- A change on a branch is resolved against the row at its tip, where that can be read. -/
theorem Git.Repository.commitTo_unwound {r : Repository} {author : Signature} {now branch text : String}
    {t : TableName} {c : Change} {tx : Option String} : r.commitTo author now branch t c tx = .unwound text ↔
      ∃ existing, (do r.readRow ⟨t, c.key⟩ (← r.resolve branch)) = .ok existing ∧
        c.resolve now t existing = .unwound text := by
  -- neither the author nor the moving of the branch makes a change unwind
  have hwrite : ∀ parent, r.writeChange author now parent t c tx = .unwound text ↔
      ∃ existing, r.readRow ⟨t, c.key⟩ parent = .ok existing ∧ c.resolve now t existing = .unwound text := by
    intro parent
    unfold readRow writeChange
    refine Outcome.ofExcept_bind_unwound.trans ⟨?_, ?_⟩
    · rintro ⟨tree, htree, h⟩
      obtain ⟨existing, hrow, h⟩ := Outcome.ofExcept_bind_unwound.1 h
      rw [htree]
      exact ⟨existing, hrow, (Outcome.bind_unwound_iff fun _ => Outcome.ofExcept_bind_value_ne_unwound _ _).1 h⟩
    · rintro ⟨existing, hread, h⟩
      obtain ⟨tree, htree, hrow⟩ := bind_ok hread
      exact ⟨tree, htree, Outcome.ofExcept_bind_unwound.2 ⟨existing, hrow,
        (Outcome.bind_unwound_iff fun _ => Outcome.ofExcept_bind_value_ne_unwound _ _).2 h⟩⟩
  have hcommit : ∀ parent, ((r.writeChange author now parent t c tx).bind fun made =>
      (Outcome.ofExcept (made.2.advance branch parent made.1)).bind fun r => .value (made.1, r)) = .unwound text ↔
        ∃ existing, r.readRow ⟨t, c.key⟩ parent = .ok existing ∧ c.resolve now t existing = .unwound text :=
    fun parent => (Outcome.bind_unwound_iff fun _ => Outcome.ofExcept_bind_value_ne_unwound _ _).trans (hwrite parent)
  unfold commitTo
  refine Outcome.ofExcept_bind_unwound.trans ⟨?_, ?_⟩
  · rintro ⟨parent, hparent, h⟩
    rw [hparent]
    exact (hcommit parent).1 h
  · rintro ⟨existing, hread, h⟩
    obtain ⟨parent, hparent, hrow⟩ := bind_ok hread
    exact ⟨parent, hparent, (hcommit parent).2 ⟨existing, hrow, h⟩⟩

theorem Git.View.after_unwound {v : View} {made : Outcome StorageError (CommitId × Repository)} {text : String} :
    (v.after made).1 = .unwound text ↔ made = .unwound text := by
  cases made with
  | value made => simp only [after, reduceCtorEq]
  | failed e => simp only [after, reduceCtorEq]
  | unwound text' => simp only [after, Outcome.unwound.injEq]

namespace Session

/-- **When a change unwinds**: the row that the session sees has the greatest version already, and the change would give
it the next one. -/
theorem unwound_iff {st : Stores} {s : Session} {t : TableName} {c : Change} {text : String} :
    (s.apply st t c).1 = .unwound text ↔
      text = Row.overflowText ∧ ∃ existing, s.get st ⟨t, c.key⟩ = .ok existing ∧ c.Overflows existing := by
  have hresolve : ∀ now, (∃ existing, s.get st ⟨t, c.key⟩ = .ok existing ∧ c.resolve now t existing = .unwound text) ↔
      text = Row.overflowText ∧ ∃ existing, s.get st ⟨t, c.key⟩ = .ok existing ∧ c.Overflows existing := fun now => by
    simp only [Change.resolve_unwound, and_left_comm, exists_and_left]
  refine Iff.trans ?_ (hresolve (Clock.stamp st.readings))
  cases s with
  | memory id i tx =>
    have hmemory : st.readClock.2.memory i = st.memory i := rfl
    have hstamp : st.readClock.1 = Clock.stamp st.readings := rfl
    have happly : ((memory id i tx).apply st t c).1 = .unwound text ↔
        (st.memory i).apply (Clock.stamp st.readings) tx t c = .unwound text := by
      simp only [apply, hmemory, hstamp]
      cases (st.memory i).apply (Clock.stamp st.readings) tx t c with
      | value m => simp only [reduceCtorEq]
      | failed e => simp only [reduceCtorEq]
      | unwound text' => simp only [Outcome.unwound.injEq]
    refine (happly.trans Memory.Store.apply_unwound).trans ⟨fun h => ⟨_, rfl, h⟩, ?_⟩
    rintro ⟨_, hget, h⟩
    cases hget
    exact h
  | git id i tx =>
    rw [(apply_view id tx t c).1, get_view]
    unfold Git.View.apply Git.View.read
    rw [Git.View.commitOn_eq, Git.View.snapshot_eq]
    exact Git.View.after_unwound.trans Git.Repository.commitTo_unwound

/-- **What a change that fails does**: it takes a reading of the clock. -/
theorem refused_apply {st : Stores} {s : Session} {t : TableName} {c : Change} (h : (s.apply st t c).1 ≠ .value ()) :
    (s.apply st t c).2 = { st with readings := st.readings + 1 } := by
  obtain ⟨id, i, tx, m, -, -, heq⟩ | ⟨id, i, tx, commit, r, -, -, heq⟩ | ⟨-, heq⟩ := apply_cases st s t c
  · exact absurd (by rw [heq]) h
  · exact absurd (by rw [heq]) h
  · exact heq

end Session

/-! ## What makes no use of the clock -/

namespace Stores

/-- The same stores at another reading of the clock. -/
def atReading (st : Stores) (r : Nat) : Stores := { st with readings := r }

variable (st : Stores) (r : Nat)

theorem beginBranch_atReading (i : Nat) (id : String) :
    (st.atReading r).beginBranch i id = ((st.beginBranch i id).1, (st.beginBranch i id).2.atReading r) := by
  have hbegin : ((st.atReading r).handle i).begin ((st.atReading r).repository i) id =
    (st.handle i).begin (st.repository i) id := rfl
  unfold beginBranch
  rw [hbegin]
  cases (st.handle i).begin (st.repository i) id <;> rfl

theorem abandonBranch_atReading (i : Nat) (id : String) :
    (st.atReading r).abandonBranch i id = ((st.abandonBranch i id).1, (st.abandonBranch i id).2.atReading r) := by
  have habandon : ((st.atReading r).handle i).abandon ((st.atReading r).repository i) id =
    (st.handle i).abandon (st.repository i) id := rfl
  unfold abandonBranch
  rw [habandon]
  rcases (st.handle i).abandon (st.repository i) id with ⟨_ | _, h⟩ <;> rfl

theorem mergeBranch_atReading (i : Nat) (id : String) (base : CommitId) : (st.atReading r).mergeBranch i id base =
    ((st.mergeBranch i id base).1, (st.mergeBranch i id base).2.atReading r) := by
  have hmerge : ((st.atReading r).repository i).merge ((st.atReading r).handle i).author id base =
    (st.repository i).merge (st.handle i).author id base := rfl
  unfold mergeBranch
  rw [hmerge]
  cases (st.repository i).merge (st.handle i).author id base <;> rfl

theorem openRepository_atReading (g : GitConfig) :
    (st.atReading r).openRepository g = ((st.openRepository g).1, (st.openRepository g).2.atReading r) := by
  have hdisk : (st.atReading r).disk = st.disk := rfl
  unfold openRepository
  rw [hdisk]
  rcases (if g.createIfMissing then Git.Handle.openOrInitAt st.disk g.path g.signature
    else (Git.Handle.openAt st.disk g.path g.signature, st.disk)) with ⟨_ | _, disk⟩ <;> rfl

end Stores

namespace Session

variable (st : Stores) (r : Nat)

theorem begin_atReading (s : Session) : s.begin (st.atReading r) = ((s.begin st).1, (s.begin st).2.atReading r) := by
  have hissue : (st.atReading r).issue = (st.issue.1, st.issue.2.atReading r) := rfl
  cases s with
  | memory id i tx =>
    cases tx with
    | some tx => rfl
    | none =>
      simp only [begin, hissue]
      generalize st.issue = issued
      rfl
  | git id i tx =>
    cases tx with
    | some tx => rfl
    | none =>
      simp only [begin, hissue, Stores.beginBranch_atReading]
      generalize st.issue.2.beginBranch i st.issue.1.lowerText = made
      generalize st.issue.1 = u
      rcases made with ⟨_ | _, st'⟩ <;> rfl

theorem dropBranch_atReading (i : Nat) (tx : Git.Transaction) :
    dropBranch (st.atReading r) i tx = (dropBranch st i tx).atReading r := by
  unfold dropBranch
  rw [Stores.abandonBranch_atReading]

theorem commit_atReading (s : Session) :
    s.commit (st.atReading r) = ((s.commit st).1, (s.commit st).2.atReading r) := by
  cases s with
  | memory id i tx =>
    cases tx with
    | none => rfl
    | some tx =>
      have hmemory : (st.atReading r).memory i = st.memory i := rfl
      rw [commit_memory, commit_memory, hmemory]
      rfl
  | git id i tx =>
    cases tx with
    | none => rfl
    | some tx =>
      cases hm : (st.repository i).merge (st.handle i).author tx.id.lowerText tx.base with
      | error e =>
        have hm' : ((st.atReading r).repository i).merge ((st.atReading r).handle i).author tx.id.lowerText tx.base =
          .error e := hm
        rw [commit_of_merge_error id hm, commit_of_merge_error id hm', dropBranch_atReading]
      | ok merged =>
        have hm' : ((st.atReading r).repository i).merge ((st.atReading r).handle i).author tx.id.lowerText tx.base =
          .ok (merged.1, merged.2) := hm
        have hset : (st.atReading r).setRepository i merged.2 = (st.setRepository i merged.2).atReading r := rfl
        rw [commit_of_merge_ok id hm, commit_of_merge_ok id hm', hset, dropBranch_atReading]

theorem rollback_atReading (s : Session) : s.rollback (st.atReading r) = (s.rollback st).atReading r := by
  rcases s with ⟨id, i, _ | tx⟩ | ⟨id, i, _ | tx⟩
  · rfl
  · rfl
  · rfl
  · exact dropBranch_atReading st r i tx

theorem abort_atReading (s : Session) : s.abort (st.atReading r) = (s.abort st).atReading r := by
  rcases s with ⟨id, i, _ | tx⟩ | ⟨id, i, _ | tx⟩
  · rfl
  · rfl
  · rfl
  · exact dropBranch_atReading st r i tx

/-- Ends a transaction by the verdict on its work. -/
def finish (tx : Session) (v : Verdict) (st : Stores) : Outcome ResourceError Unit × Stores :=
  ((Engine.finish { stores := st } tx v).1, (Engine.finish { stores := st } tx v).2.stores)

theorem finish_atReading (tx : Session) (v : Verdict) :
    tx.finish v (st.atReading r) = ((tx.finish v st).1, (tx.finish v st).2.atReading r) := by
  cases v with
  | unwind text => exact Prod.ext rfl (tx.abort_atReading st r)
  | rollback => exact Prod.ext rfl (tx.rollback_atReading st r)
  | commit =>
    unfold finish
    rw [finish_commit, finish_commit, commit_atReading]

end Session

/-! ## Histories -/

namespace Stores

/-- What can be done with the stores.  A change comes with the reading of the clock that it takes. -/
inductive Call where
  | operate (s : Session) (op : Operation)
  | pending (s : Session)
  | begin (s : Session)
  | finish (tx : Session) (v : Verdict)
  | beginBranch (i : Nat) (id : String)
  | abandonBranch (i : Nat) (id : String)
  | mergeBranch (i : Nat) (id : String) (base : CommitId)
  | cleanup (i : Nat)
  | openRepository (g : GitConfig)
  | addMemory

inductive Reply where
  | answer (a : Answer)
  | pending (n : Option Nat)
  | begun (made : Except ResourceError Session)
  | ended (outcome : Outcome ResourceError Unit)
  | based (base : Except StorageError CommitId)
  | abandoned (made : Except StorageError Unit)
  | merged (outcome : Except StorageError MergeOutcome)
  | swept (n : Nat)
  | opened (i : Except StorageError Nat)
  | added (i : Nat)

/-- A change has failed, or unwound. -/
def Reply.isRefusal : Reply → Bool
  | .answer (.changed (.failed _)) | .answer (.changed (.unwound _)) => true
  | _ => false

namespace Call

def act (st : Stores) : Call → Reply × Stores
  | .operate s op => (.answer (s.perform st op).1, (s.perform st op).2)
  | .pending s => (.pending (s.pendingWrites? st), st)
  | .begin s => (.begun (s.begin st).1, (s.begin st).2)
  | .finish tx v => (.ended (tx.finish v st).1, (tx.finish v st).2)
  | .beginBranch i id => (.based (st.beginBranch i id).1, (st.beginBranch i id).2)
  | .abandonBranch i id => (.abandoned (st.abandonBranch i id).1, (st.abandonBranch i id).2)
  | .mergeBranch i id base => (.merged (st.mergeBranch i id base).1, (st.mergeBranch i id base).2)
  | .cleanup i => (.swept (st.cleanup i).1, (st.cleanup i).2)
  | .openRepository g => (.opened (st.openRepository g).1, (st.openRepository g).2)
  | .addMemory => (.added st.addMemory.1, st.addMemory.2)

/-- What is answered to one call after the other, and what is left of the stores then. -/
def run : List Call → Stores → List Reply × Stores
  | [], st => ([], st)
  | c :: calls, st => ((c.act st).1 :: (run calls (c.act st).2).1, (run calls (c.act st).2).2)

/-- The calls without the changes that fail. -/
def granted : List Call → Stores → List Call
  | [], _ => []
  | c :: calls, st =>
    if (c.act st).1.isRefusal then granted calls (c.act st).2 else c :: granted calls (c.act st).2

/-- **No call is answered by the clock**: at another reading it is answered alike, and leaves the stores alike. -/
theorem act_atReading (c : Call) (st : Stores) (r : Nat) :
    (c.act (st.atReading r)).1 = (c.act st).1 ∧ ∃ r', (c.act (st.atReading r)).2 = (c.act st).2.atReading r' := by
  cases c with
  | operate s op =>
    cases op with
    | change reading t c => exact ⟨rfl, _, rfl⟩
    | get slot => cases s <;> exact ⟨rfl, r, rfl⟩
    | scan t => cases s <;> exact ⟨rfl, r, rfl⟩
    | count t => cases s <;> exact ⟨rfl, r, rfl⟩
  | pending s => cases s <;> exact ⟨rfl, r, rfl⟩
  | begin s =>
    simp only [act, Session.begin_atReading]
    exact ⟨trivial, r, rfl⟩
  | finish tx v =>
    simp only [act, Session.finish_atReading]
    exact ⟨trivial, r, rfl⟩
  | beginBranch i id =>
    simp only [act, beginBranch_atReading]
    exact ⟨trivial, r, rfl⟩
  | abandonBranch i id =>
    simp only [act, abandonBranch_atReading]
    exact ⟨trivial, r, rfl⟩
  | mergeBranch i id base =>
    simp only [act, mergeBranch_atReading]
    exact ⟨trivial, r, rfl⟩
  | cleanup i => exact ⟨rfl, r, rfl⟩
  | openRepository g =>
    simp only [act, openRepository_atReading]
    exact ⟨trivial, r, rfl⟩
  | addMemory => exact ⟨rfl, r, rfl⟩

/-- A call that is refused takes a reading of the clock. -/
theorem act_of_refusal {c : Call} {st : Stores} (h : (c.act st).1.isRefusal = true) :
    ∃ r, (c.act st).2 = st.atReading r := by
  cases c with
  | operate s op =>
    cases op with
    | change reading t c =>
      have hfailed : (s.apply (st.atReading reading) t c).1 ≠ .value () := fun hvalue => by
        have hanswer : ((Call.operate s (.change reading t c)).act st).1 = .answer (.changed (.value ())) :=
          congrArg (fun outcome => Reply.answer (.changed outcome)) hvalue
        rw [hanswer] at h
        cases h
      exact ⟨reading + 1, Session.refused_apply hfailed⟩
    | get slot => cases h
    | scan t => cases h
    | count t => cases h
  | _ => cases h

theorem run_atReading (calls : List Call) : ∀ (st : Stores) (r : Nat),
    (run calls (st.atReading r)).1 = (run calls st).1 ∧
      ∃ r', (run calls (st.atReading r)).2 = (run calls st).2.atReading r' := by
  induction calls with
  | nil => exact fun st r => ⟨rfl, r, rfl⟩
  | cons c calls ih =>
    intro st r
    obtain ⟨hanswer, r₁, hleft⟩ := c.act_atReading st r
    obtain ⟨hrest, hlast⟩ := ih (c.act st).2 r₁
    unfold run
    rw [hanswer, hleft, hrest]
    exact ⟨rfl, hlast⟩

/-- **What comes after a refusal** is answered as if the call had not been made. -/
theorem run_after_refusal {c : Call} {st : Stores} (h : (c.act st).1.isRefusal = true) (calls : List Call) :
    (run calls (c.act st).2).1 = (run calls st).1 ∧
      ∃ r, (run calls (c.act st).2).2 = (run calls st).2.atReading r := by
  obtain ⟨r, hleft⟩ := act_of_refusal h
  rw [hleft]
  exact run_atReading calls st r

/-- **A history without the changes that fail** is answered alike. -/
theorem run_granted (calls : List Call) : ∀ st : Stores,
    (run (granted calls st) st).1 = (run calls st).1.filter (!·.isRefusal) ∧
      ∃ r, (run (granted calls st) st).2 = (run calls st).2.atReading r := by
  induction calls with
  | nil => exact fun st => ⟨rfl, st.readings, rfl⟩
  | cons c calls ih =>
    intro st
    obtain ⟨hrest, r, hlast⟩ := ih (c.act st).2
    unfold granted
    cases hrefused : (c.act st).1.isRefusal with
    | true =>
      obtain ⟨hsame, r', hleft⟩ := run_after_refusal hrefused (granted calls (c.act st).2)
      refine ⟨?_, ?_⟩
      · rw [if_pos rfl, ← hsame, hrest, run, List.filter_cons_of_neg (by rw [hrefused]; decide)]
      · -- both histories end with the stores of the third, which begins after the refusal
        rw [if_pos rfl]
        generalize (run (granted calls (c.act st).2) st).2 = last at hleft ⊢
        have hback : last = (last.atReading r').atReading last.readings := rfl
        rw [hback, ← hleft, hlast]
        exact ⟨_, rfl⟩
    | false =>
      rw [if_neg Bool.false_ne_true, run, run, hlast, List.filter_cons_of_pos (by rw [hrefused]; rfl), hrest]
      exact ⟨rfl, r, rfl⟩

end Call

/-- **Changes that fail leave no trace.**  One that fails or unwinds leaves every store, every repository and every
transaction as it was, and only takes a reading of the clock.  It unwinds exactly where it would count the row that its
session sees beyond the greatest version.  Whatever any session does after it is answered as if it had not been made,
and so is a whole history without the changes that fail. -/
theorem refused_changes_leave_no_trace :
    (∀ (st : Stores) (s : Session) (t : TableName) (c : Change), (s.apply st t c).1 ≠ .value () →
      (s.apply st t c).2 = { st with readings := st.readings + 1 }) ∧
    (∀ (st : Stores) (s : Session) (t : TableName) (c : Change) (text : String), (s.apply st t c).1 = .unwound text ↔
      text = Row.overflowText ∧ ∃ existing, s.get st ⟨t, c.key⟩ = .ok existing ∧ c.Overflows existing) ∧
    (∀ (st : Stores) (c : Call), (c.act st).1.isRefusal = true → ∀ calls,
      (Call.run calls (c.act st).2).1 = (Call.run calls st).1) ∧
    ∀ (st : Stores) (calls : List Call),
      (Call.run (Call.granted calls st) st).1 = (Call.run calls st).1.filter (!·.isRefusal) ∧
        ∃ r, (Call.run (Call.granted calls st) st).2 = { (Call.run calls st).2 with readings := r } :=
  ⟨fun _ _ _ _ => Session.refused_apply, fun _ _ _ _ _ => Session.unwound_iff,
    fun _ _ h calls => (Call.run_after_refusal h calls).1, fun st calls => Call.run_granted calls st⟩

/-- A row of the greatest version cannot be updated, and is read as it was when that has unwound. -/
theorem overflow_leaves_no_trace :
    let s : Session := .memory ⟨0⟩ 0 none
    let row : Row := ⟨⟨"x"⟩, Row.greatestVersion, "t", "t", ∅⟩
    let calls : List Call := [.operate s (.change 0 ⟨"notes"⟩ (.insert row)),
      .operate s (.change 1 ⟨"notes"⟩ (.update row)), .operate s (.get ⟨⟨"notes"⟩, ⟨"x"⟩⟩)]
    (Call.run calls (addMemory {}).2).1.map Reply.isRefusal = [false, true, false] ∧
      (Call.run (Call.granted calls (addMemory {}).2) (addMemory {}).2).1 =
        (Call.run calls (addMemory {}).2).1.filter (!·.isRefusal) :=
  ⟨by decide +kernel, (refused_changes_leave_no_trace.2.2.2 _ _).1⟩

end Stores
end Demarcate
