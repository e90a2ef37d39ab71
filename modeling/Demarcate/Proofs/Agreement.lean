import Demarcate.Proofs.Git.Solo
import Demarcate.Proofs.Undated
/-!
# Agreement — stores in memory and repositories answer alike

Both kinds of source keep to tables in each single step: a store in memory with the write set of the open transaction
laid over its tables (`follows_memory`), and a repository with the tables that `main` and the transaction's branch lead
to (`follows_git`).  So newly opened ones answer every exercise alike (`sources_answer_alike`), if its rows are ones
that a repository reads back.
-/
namespace Demarcate

open Exercise (Follows Look Task ending left)
open Memory (Tables)
open Traffic (Answer Operation)

/-! ## In memory -/

namespace Memory.Store

theorem perform_outside (m : Store) (op : Operation) : (m.perform none op).1 = (m.tables.perform op).1 ∧
    (m.perform none op).2.tables = (m.tables.perform op).2 := by
  cases op with
  | get s => exact ⟨rfl, rfl⟩
  | scan t => exact ⟨rfl, rfl⟩
  | count t => exact ⟨rfl, rfl⟩
  | change reading t c =>
    cases hc : c.resolve (Clock.stamp reading) t (m.tables.row? ⟨t, c.key⟩) with
    | value row =>
      rw [Tables.perform_value hc]
      simp only [perform, apply_none_eq _ m t c row hc, and_self]
    | failed e =>
      rw [Tables.perform_failed hc]
      simp only [perform, apply, applyDirectly, hc, Outcome.bind, and_self]
    | unwound text =>
      rw [Tables.perform_unwound hc]
      simp only [perform, apply, applyDirectly, hc, Outcome.bind, and_self]

theorem Lays.finish {m : Store} {u : Ulid} {before now : Tables} (h : m.Lays u before now) (v : Engine.Verdict) :
    (m.finish u v).1 = ending v ∧ (m.finish u v).2.tables = left before now v := by
  cases v with
  | unwind text => exact ⟨rfl, h.committed⟩
  | rollback => exact ⟨rfl, h.committed⟩
  | commit =>
    unfold Store.finish
    rw [h.commit]
    exact ⟨rfl, rfl⟩

end Memory.Store

/-- **A store in memory keeps to tables.** -/
theorem follows_memory (i : Nat) : Follows (.memory i) (fun _ => True)
    (fun st tables => i < st.memories.size ∧ (st.memory i).tables = tables)
    (fun tx st before now => ∃ id u, tx = .memory id i (some u) ∧ i < st.memories.size ∧
      (st.memory i).Lays u before now) where
  operate {st tables} id {op} h _ := by
    obtain ⟨hi, rfl⟩ := h
    obtain ⟨hanswer, hafter⟩ := Session.perform_memory hi id none op
    obtain ⟨hanswer', hafter'⟩ := (st.memory i).perform_outside op
    refine ⟨hanswer.trans hanswer', ?_, ?_⟩
    · rw [(Session.steady_perform st _ op).memories]
      exact hi
    · rw [← hafter', ← hafter]
      rfl
  begin {st tables} id h := by
    obtain ⟨hi, rfl⟩ := h
    obtain ⟨hmade, hafter⟩ := Session.begin_memory hi id
    refine ⟨_, ((Session.memory id i none).begin st).2, Prod.ext hmade rfl, id, _, rfl, ?_, ?_⟩
    · rw [(Session.steady_begin st (s := .memory id i none) rfl).memories]
      exact hi
    · rw [hafter]
      exact (st.memory i).lays_begin _
  proceed {tx st before now op} h _ := by
    obtain ⟨id, u, rfl, hi, hlays⟩ := h
    obtain ⟨hanswer, hafter⟩ := Session.perform_memory hi id (some u) op
    obtain ⟨hanswer', hlays'⟩ := hlays.perform op
    refine ⟨hanswer.trans hanswer', id, u, rfl, ?_, ?_⟩
    · rw [(Session.steady_perform st _ op).memories]
      exact hi
    · rw [hafter]
      exact hlays'
  nest h := by
    obtain ⟨id, u, rfl, -, -⟩ := h
    rfl
  look {tx st before now} id q h := by
    obtain ⟨_, u, rfl, hi, hlays⟩ := h
    have hanswer := (Session.perform_memory hi id none q.operation).1
    rw [((st.memory i).perform_outside q.operation).1, hlays.committed] at hanswer
    refine Prod.ext hanswer ?_
    cases q <;> rfl
  finish {tx st before now} v h := by
    obtain ⟨id, u, rfl, hi, hlays⟩ := h
    obtain ⟨hend, hafter⟩ := Session.finish_memory hi id u v
    obtain ⟨hend', hleft⟩ := hlays.finish v
    refine ⟨hend.trans hend', ?_, ?_⟩
    · rw [(Session.steady_finish st _ v).memories]
      exact hi
    · rw [hafter]
      exact hleft

/-! ## In a repository -/

theorem Git.View.Inside.finish {v : View} {tx : Transaction} {before now : Tables} (h : v.Inside tx before now)
    (vd : Engine.Verdict) : (v.finish tx vd).1 = ending vd ∧ (v.finish tx vd).2.Idle (left before now vd) := by
  have hdrop : (v.drop tx.id).Idle before := h.drop h.named h.only h.main
  cases vd with
  | unwind text => exact ⟨rfl, hdrop⟩
  | rollback => exact ⟨rfl, hdrop⟩
  | commit =>
    obtain ⟨hdone, hidle⟩ := h.commit
    simp only [View.finish, hdone]
    exact ⟨rfl, hidle⟩

/-- **A repository keeps to tables**, as far as rows are read back. -/
theorem follows_git (i : Nat) : Follows (.git i) Operation.Fits
    (fun st tables => i < st.handles.size ∧ (st.view i).Idle tables)
    (fun tx st before now => ∃ id t, tx = .git id i (some t) ∧ i < st.handles.size ∧
      (st.view i).Inside t before now) where
  operate {st tables} id {op} h hfits := by
    obtain ⟨hi, hidle⟩ := h
    obtain ⟨hanswer, hview⟩ := @Session.perform_view i st id none op
    obtain ⟨hanswer', hidle'⟩ := hidle.perform hfits
    refine ⟨hanswer.trans hanswer', ?_, ?_⟩
    · rw [(Session.steady_perform st _ op).handles]
      exact hi
    · have hafter : (((Source.git i).session id).perform st op).2.view i = _ := hview
      rw [hafter]
      exact hidle'
  begin {st tables} id h := by
    obtain ⟨hi, hidle⟩ := h
    obtain ⟨hmade, hview⟩ := Session.begin_view hi id
    obtain ⟨base, hbegun, hinside⟩ := hidle.begin (Ulid.issued st.issued)
    rw [hbegun] at hmade
    refine ⟨_, ((Session.git id i none).begin st).2, Prod.ext hmade rfl, id, _, rfl, ?_, ?_⟩
    · rw [(Session.steady_begin st (s := .git id i none) rfl).handles]
      exact hi
    · rw [hview]
      exact hinside
  proceed {tx st before now op} h hfits := by
    obtain ⟨id, t, rfl, hi, hinside⟩ := h
    obtain ⟨hanswer, hview⟩ := @Session.perform_view i st id (some t) op
    obtain ⟨hanswer', hinside'⟩ := hinside.perform hfits
    refine ⟨hanswer.trans hanswer', id, t, rfl, ?_, ?_⟩
    · rw [(Session.steady_perform st _ op).handles]
      exact hi
    · rw [hview]
      exact hinside'
  nest h := by
    obtain ⟨id, t, rfl, -, -⟩ := h
    rfl
  look {tx st before now} id q h := by
    obtain ⟨_, t, rfl, hi, hinside⟩ := h
    have hmain : (st.view i).Sees (Git.branchAt none) before := hinside.main
    have hanswer := (@Session.perform_view i st id none q.operation).1
    rw [hmain.answer hinside.named hinside.author (m := ⟨before, ∅⟩) rfl q.operation] at hanswer
    refine Prod.ext hanswer ?_
    cases q <;> rfl
  finish {tx st before now} v h := by
    obtain ⟨id, t, rfl, hi, hinside⟩ := h
    obtain ⟨hend, hview⟩ := Session.finish_view hi id t v
    obtain ⟨hend', hidle⟩ := hinside.finish v
    refine ⟨hend.trans hend', ?_, ?_⟩
    · rw [(Session.steady_finish st _ v).handles]
      exact hi
    · rw [hview]
      exact hidle


/-! ## Newly opened sources -/

/-- A repository that has just been made has no rows. -/
theorem Git.View.idle_start {number : Nat} {h : Handle} {r : Repository}
    (hs : ({ number } : Repository).start h.author = .ok r) : View.Idle ⟨r, h⟩ ∅ := by
  obtain ⟨hauthor, -, -, hmain, honly⟩ := Repository.start_fresh hs
  obtain ⟨c, hc, htree⟩ := Repository.start_tip hs
  exact ⟨Repository.closed_wellNamed.start (Repository.closed_wellNamed.fresh number) hs, hauthor, honly,
    _, c, hmain, hc, htree ▸ Reads.nil⟩

/-- There is nothing to sweep there. -/
theorem Git.View.Idle.sweep {v : View} {tables : Tables} (h : v.Idle tables) : v.sweep.2 = v := by
  unfold View.sweep
  rw [Handle.cleanup_alone h.only]

/-- **What opening a repository comes to, where there was none.** -/
theorem Stores.openRepository_new {st st' : Stores} {g : GitConfig} {i : Nat}
    (hnew : st.disk.find? (Git.siteOf g.path) = none) (hopen : st.openRepository g = (.ok i, st')) :
    i < st'.handles.size ∧ (st'.view i).Idle ∅ := by
  have hat : st.disk.repositories.get? (Git.Disk.outOfDotGit (Git.siteOf g.path)) = none := by
    unfold Git.Disk.find? at hnew
    split at hnew
    · cases hnew
    · split at hnew
      · cases hnew
      · rename_i hcontains
        rwa [SortedMap.contains, Option.not_isSome_iff_eq_none] at hcontains
  have hfail : Git.Handle.openAt st.disk g.path g.signature = .error (.notInitialized g.path) := by
    unfold Git.Handle.openAt
    rw [hnew]
  have hinit : ∃ h d', Git.Handle.initAt st.disk g.path g.signature = (.ok h, d') ∧
      ({ st with disk := d' } : Stores).addHandle h = (i, st') := by
    unfold openRepository at hopen
    simp only at hopen
    generalize hmade : (if g.createIfMissing then Git.Handle.openOrInitAt st.disk g.path g.signature
      else (Git.Handle.openAt st.disk g.path g.signature, st.disk)) = made at hopen
    obtain ⟨opened, d'⟩ := made
    cases opened with
    | error e => cases hopen
    | ok h =>
      cases hopen
      refine ⟨h, d', ?_, rfl⟩
      unfold Git.Handle.openOrInitAt at hmade
      rw [hfail] at hmade
      split at hmade
      · split at hmade
        · cases hmade
        · exact hmade
      · cases hmade
  obtain ⟨h, d', hinit, hadd⟩ := hinit
  obtain ⟨hauthor, number, hs⟩ := Git.Chronicle.initAt_ok hat hinit
  cases hadd
  have hhandle : ({ st with disk := d', handles := st.handles.push h } : Stores).handle st.handles.size = h := by
    unfold handle
    simp
  have hview : ({ st with disk := d', handles := st.handles.push h } : Stores).view st.handles.size =
      ⟨d'.repository h.site, h⟩ := by
    unfold view repository
    rw [hhandle]
  refine ⟨?_, ?_⟩
  · show st.handles.size < (st.handles.push h).size
    rw [Array.size_push]
    exact Nat.lt_succ_self _
  · rw [hview]
    rw [← hauthor] at hs
    exact Git.View.idle_start hs

namespace Engine

variable {e e' : Engine} {sweep : Bool} {source : Source}

theorem openSource_memory (he : e.plan = none) (hopen : e.openSource sweep .memory = (.ok source, e')) :
    e'.plan = none ∧ ∃ i, source = .memory i ∧ i < e'.stores.memories.size ∧ (e'.stores.memory i).tables = ∅ := by
  cases hopen
  refine ⟨he, _, rfl, ?_, ?_⟩
  · show e.stores.memories.size < (e.stores.memories.push {}).size
    rw [Array.size_push]
    exact Nat.lt_succ_self _
  · show ((e.stores.memories.push {}).getD e.stores.memories.size {}).tables = ∅
    simp

theorem openSource_git {g : GitConfig} (he : e.plan = none)
    (hnew : e.stores.disk.find? (Git.siteOf g.path) = none)
    (hopen : e.openSource sweep (.git g) = (.ok source, e')) :
    e'.plan = none ∧ ∃ i, source = .git i ∧ i < e'.stores.handles.size ∧ (e'.stores.view i).Idle ∅ := by
  unfold openSource at hopen
  simp only at hopen
  cases ho : e.stores.openRepository g with | mk opened st' =>
    rw [ho] at hopen
    cases opened with
    | error err => cases hopen
    | ok i =>
      cases hopen
      obtain ⟨hi, hidle⟩ := Stores.openRepository_new hnew ho
      refine ⟨he, i, rfl, ?_⟩
      cases sweep with
      | false => exact ⟨hi, hidle⟩
      | true =>
        have hview : (st'.cleanup i).2.view i = st'.view i := (Stores.cleanup_view st' i).2.trans hidle.sweep
        have hidle' : ((st'.cleanup i).2.view i).Idle ∅ := by
          rw [hview]
          exact hidle
        exact ⟨hi, hidle'⟩

end Engine

/-- **Both kinds of source answer alike.**  Whatever a store in memory and a repository that have just been opened are
asked to do, as long as a transaction is alone and the rows are ones that are read back, they give the same answers, and
but for the times the same ones also to tasks that differ in times and sessions. -/
theorem sources_answer_alike {e e' em eg : Engine} (he : e.plan = none) (he' : e'.plan = none) {sweep sweep' : Bool}
    {g : GitConfig} {memory git : Source} (hmemory : e.openSource sweep .memory = (.ok memory, em))
    (hgit : e'.openSource sweep' (.git g) = (.ok git, eg)) (hnew : e'.stores.disk.find? (Git.siteOf g.path) = none)
    {tasks : List Task} (hfits : ∀ task ∈ tasks, task.All Operation.Fits) :
    Exercise.run memory tasks em = Exercise.run git tasks eg ∧
      ∀ tasks' : List Task, tasks'.map Task.undated = tasks.map Task.undated →
        (Exercise.run memory tasks' em).map Exercise.Reply.undated =
          (Exercise.run git tasks eg).map Exercise.Reply.undated := by
  obtain ⟨hem, i, rfl, hi, htables⟩ := Engine.openSource_memory he hmemory
  obtain ⟨heg, j, rfl, hj, hidle⟩ := Engine.openSource_git he' hnew hgit
  have hall : ∀ task : Task, task.All fun _ => True := fun task => by
    cases task with
    | operate id op => trivial
    | scope id items v => exact fun item _ => by cases item <;> trivial
  have hm : ∀ tasks : List Task, Exercise.run (.memory i) tasks em = Exercise.expected tasks ∅ := fun tasks =>
    (follows_memory i).run (fun task _ => hall task) hem ⟨hi, htables⟩
  have hg : Exercise.run (.git j) tasks eg = Exercise.expected tasks ∅ := (follows_git j).run hfits heg ⟨hj, hidle⟩
  refine ⟨(hm tasks).trans hg.symm, fun tasks' hsame => ?_⟩
  rw [hm, hg]
  exact Exercise.expected_congr rfl hsame

/-- A row is put, and deleted in a transaction that another one is tried in and another session reads beside. -/
theorem deleted_alike :
    let insert := fun n => Operation.change n ⟨"notes"⟩ (.insert (Row.single "n" (Json.ofInt 1)))
    let delete := fun n => Operation.change n ⟨"notes"⟩ (.delete ⟨"k"⟩)
    let tasks := fun (id : Ulid) (n : Nat) => [Task.operate id (insert n),
      .scope id [.operate (delete (n + 1)), .nest [insert n] .commit, .look id (.count ⟨"notes"⟩)] .commit,
      .operate id (.scan ⟨"notes"⟩)]
    ∃ memory em git eg, ({} : Engine).openSource true .memory = (.ok memory, em) ∧
      ({} : Engine).openSource true (.git { path := "data" }) = (.ok git, eg) ∧
      Exercise.run memory (tasks ⟨0⟩ 0) em = Exercise.run git (tasks ⟨0⟩ 0) eg ∧
      (Exercise.run memory (tasks ⟨1⟩ 7) em).map Exercise.Reply.undated =
        (Exercise.run git (tasks ⟨0⟩ 0) eg).map Exercise.Reply.undated := by
  intro insert delete tasks
  obtain ⟨r, -, hopen⟩ := Stores.open_data
  have hgit : ∃ eg, ({} : Engine).openSource true (.git { path := "data" }) = (.ok (.git 0), eg) := by
    unfold Engine.openSource
    simp only [hopen]
    exact ⟨_, rfl⟩
  obtain ⟨eg, hgit⟩ := hgit
  have hinsert : (insert 0).Fits := by
    intro row hrow
    cases hrow
    refine ⟨by decide, ⟨by decide, show Json.InRange 1 by decide, trivial⟩, fun e he => ?_⟩
    obtain rfl := List.mem_singleton.1 he
    exact ⟨by decide, by decide⟩
  have hdelete : (delete 1).Fits := fun row hrow => by cases hrow
  have hfits : ∀ task ∈ tasks ⟨0⟩ 0, task.All Operation.Fits := by
    intro task htask
    simp only [tasks, List.mem_cons, List.not_mem_nil, or_false] at htask
    rcases htask with rfl | rfl | rfl
    · exact hinsert
    · intro item hitem
      simp only [List.mem_cons, List.not_mem_nil, or_false] at hitem
      rcases hitem with rfl | rfl | rfl
      · exact hdelete
      · trivial
      · trivial
    · trivial
  have hmemory : ({} : Engine).openSource true .memory = (.ok (.memory 0), { stores := { memories := #[{}] } }) := rfl
  obtain ⟨hsame, hundated⟩ := sources_answer_alike rfl rfl hmemory hgit rfl hfits
  exact ⟨_, _, _, eg, hmemory, hgit, hsame, hundated (tasks ⟨1⟩ 7) rfl⟩

end Demarcate
