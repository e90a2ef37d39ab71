import Demarcate.Proofs.Alongside
/-!
# Erasure — transactions that leave no trace

If everything is left out of a run that was done through the handle of a transaction that was not committed, or through
a handle after its transaction had ended, then everybody else is answered as before, and the same rows are committed in
the end (`uncommitted_leaves_no_trace`).

The run and what remains of it are followed side by side (`Simulation`).  On a store in memory they have the same tables
and the same writes in the transactions that will be committed (`SameTables`).  On a repository the branches of the
transactions that will not be are set aside, and what else there is differs in the identifiers of commits
(`SameBranches`); in what remains such a branch stands at its base, so that it comes to nothing there as well.
-/
namespace Demarcate

open Git (CommitId Transaction branchAt branchOf)

namespace Traffic

/-! ## What remains of a run -/

/-- Whether something is done through the handle of one of the transactions. -/
def Event.isThrough (doomed : Nat → Bool) : Event → Bool
  | .operate (.handle n) _ | .begin (.handle n) => doomed n
  | _ => false

def Event.isEndOf (doomed : Nat → Bool) : Event → Bool
  | .finish n _ => doomed n
  | _ => false

/-- Whether the transaction has ended and was not committed. -/
def isUncommitted (k : Traffic) (n : Nat) : Bool := k.fates.get? n == some false

/-- What is left when nothing is done through the handles of the transactions, or through one of a transaction that has
ended. -/
def remaining (doomed : Nat → Bool) (entries : List Entry) : List Entry :=
  entries.filter fun e => !(e.late || e.event.isThrough doomed)

/-- What the others are answered. -/
def answers (doomed : Nat → Bool) (entries : List Entry) : List (Event × Answer) :=
  (entries.filter fun e => !e.event.isEndOf doomed).map fun e => (e.event, e.answer)

/-- Which transactions will not be committed was foretold. -/
def Foretold (doomed : Nat → Bool) (k : Traffic) : Prop := ∀ n b, k.fates.get? n = some b → doomed n = !b

theorem foretold_isUncommitted (k : Traffic) : k.Foretold k.isUncommitted := by
  intro n b hb
  unfold isUncommitted
  rw [hb]
  cases b <;> rfl

theorem Foretold.of_later {doomed : Nat → Bool} {k k' : Traffic} (h : k'.Foretold doomed) (hlater : Later k k') :
    k.Foretold doomed :=
  fun n b hb => h n b (hlater.fates n b hb)

/-- What is erased is done through the handle of a transaction that has ended, or will not be committed. -/
theorem erased_cases {doomed : Nat → Bool} {k : Traffic} {e : Event} (h : (k.isLate e || e.isThrough doomed) = true) :
    ∃ n, (k.fates.contains n = true ∨ doomed n = true) ∧
      ((∃ op, e = .operate (.handle n) op) ∨ e = .begin (.handle n)) := by
  cases e with
  | operate through op =>
    cases through with
    | session id => cases h
    | handle n => exact ⟨n, Bool.or_eq_true_iff.1 h, .inl ⟨op, rfl⟩⟩
  | begin through =>
    cases through with
    | session id => cases h
    | handle n => exact ⟨n, Bool.or_eq_true_iff.1 h, .inr rfl⟩
  | finish n v => cases h
  | sweep => cases h

/-- What is done through a handle and not erased is done in a transaction that runs and will be committed, or go on. -/
theorem kept_inside {doomed : Nat → Bool} {k : Traffic} {n : Nat} {op : Operation} {s : Session}
    (h : (k.isLate (.operate (.handle n) op) || Event.isThrough doomed (.operate (.handle n) op)) = false)
    (hs : k.handles.get? n = some s) : k.running? n = some s ∧ doomed n = false := by
  obtain ⟨hlate, hdoomed⟩ := Bool.or_eq_false_iff.1 h
  have hlate' : (k.fates.get? n).isSome = false := hlate
  refine ⟨running?_eq_some_iff.2 ⟨hs, Option.not_isSome_iff_eq_none.1 ?_⟩, hdoomed⟩
  rw [hlate']
  exact Bool.false_ne_true

/-! ## Simulation -/

/-- What is erased keeps the relation on one side, and what remains keeps it on both, with the same answers. -/
structure Simulation (doomed : Nat → Bool) (R : Traffic → Traffic → Prop) : Prop where
  regular : ∀ {k k'}, R k k' → k.Regular
  erased : ∀ {k k' e}, R k k' → (k.step e).Numbered → (k.step e).Foretold doomed →
    (k.isLate e || e.isThrough doomed) = true → R (k.step e) k'
  kept : ∀ {k k' e}, R k k' → (k.step e).Numbered → (k.step e).Foretold doomed →
    (k.isLate e || e.isThrough doomed) = false →
      R (k.step e) (k'.step e) ∧ (e.isEndOf doomed = false → (k'.react e).1 = (k.react e).1)

/-- **A run and what remains of it** give the others the same answers, and end in the relation. -/
theorem Simulation.run {doomed : Nat → Bool} {R : Traffic → Traffic → Prop} (h : Simulation doomed R)
    (events : List Event) : ∀ {k k' : Traffic}, R k k' → (k.run events).Numbered → (k.run events).Foretold doomed →
      answers doomed (k'.trace ((remaining doomed (k.trace events)).map Entry.event)) =
          answers doomed (remaining doomed (k.trace events)) ∧
        R (k.run events) (k'.run ((remaining doomed (k.trace events)).map Entry.event)) := by
  induction events with
  | nil => exact fun hR _ _ => ⟨rfl, hR⟩
  | cons e events ih =>
    intro k k' hR hn hforetold
    have hlater := ((h.regular hR).step e).later_run events
    have htrace : k.trace (e :: events) = ⟨e, (k.react e).1, k.isLate e⟩ :: (k.step e).trace events := rfl
    rw [htrace]
    unfold remaining
    cases hx : k.isLate e || e.isThrough doomed with
    | true =>
      rw [List.filter_cons_of_neg (by rw [hx]; exact Bool.false_ne_true)]
      exact ih (h.erased hR (hn.of_later hlater) (hforetold.of_later hlater) hx) hn hforetold
    | false =>
      obtain ⟨hstep, hanswer⟩ := h.kept hR (hn.of_later hlater) (hforetold.of_later hlater) hx
      obtain ⟨hrest, hend⟩ := ih hstep hn hforetold
      rw [List.filter_cons_of_pos (by rw [hx]; rfl), List.map_cons]
      refine ⟨?_, hend⟩
      have htrace' : ∀ es, k'.trace (e :: es) = ⟨e, (k'.react e).1, k'.isLate e⟩ :: (k'.step e).trace es :=
        fun _ => rfl
      rw [htrace']
      unfold answers at hrest ⊢
      cases hend : e.isEndOf doomed with
      | true =>
        rw [List.filter_cons_of_neg (by rw [hend]; exact Bool.false_ne_true),
          List.filter_cons_of_neg (by rw [hend]; exact Bool.false_ne_true)]
        exact hrest
      | false =>
        rw [List.filter_cons_of_pos (by rw [hend]; rfl), List.filter_cons_of_pos (by rw [hend]; rfl), List.map_cons,
          List.map_cons, hanswer hend]
        exact congrArg (_ :: ·) hrest

/-! ## Stores in memory -/

/-- The tables are equal, and so are the writes in the transactions that run and will be committed; in the others there
are none on the right. -/
structure SameTables (doomed : Nat → Bool) (i : Nat) (k k' : Traffic) : Prop where
  beside : Beside Eq k k'
  source : k.source = .memory i
  tables : (k'.stores.memory i).tables = (k.stores.memory i).tables
  writes : ∀ n s, k.running? n = some s → (k'.stores.memory i).writeSet (Ulid.issued n) =
    if doomed n then ∅ else (k.stores.memory i).writeSet (Ulid.issued n)

namespace SameTables

variable {doomed : Nat → Bool} {i : Nat} {k k' : Traffic} (h : SameTables doomed i k k')

include h

theorem isIn : i < k.stores.memories.size := h.beside.regular.isIn_memory h.source

theorem isIn' : i < k'.stores.memories.size := h.beside.regular'.isIn_memory (h.beside.source.trans h.source)

theorem twin {n : Nat} {s : Session} (hs : k.handles.get? n = some s) :
    ∃ id, s = .memory id i (some (Ulid.issued n)) := h.beside.regular.twin_memory h.source hs

theorem outside (id : Ulid) : k.session? (.session id) = some (.memory id i none) ∧
    k'.session? (.session id) = some (.memory id i none) :=
  ⟨session?_memory h.source id, session?_memory (h.beside.source.trans h.source) id⟩

/-- What is done through the handle of a transaction that has ended, or will not be committed, is not noticed. -/
theorem erased {e : Event} (hx : (k.isLate e || e.isThrough doomed) = true) : SameTables doomed i (k.step e) k' := by
  obtain ⟨n, hn, ⟨op, rfl⟩ | rfl⟩ := erased_cases hx
  · cases hs : k.handles.get? n with
    | none =>
      have hidle : k.step (.operate (.handle n) op) = k := congrArg Prod.snd (@react_operate_none k (.handle n) hs op)
      rw [hidle]
      exact h
    | some s =>
      have hleft := h.beside.left n op
      obtain ⟨id, rfl⟩ := h.twin hs
      obtain ⟨-, hmemory⟩ := @operate_memory k i h.isIn (.handle n) id _ hs op
      obtain ⟨htables, hwrites⟩ := (k.stores.memory i).perform_inside (Ulid.issued n) op
      refine ⟨hleft, hleft.source.symm.trans (h.beside.source.trans h.source), ?_, fun m s hm => ?_⟩
      · rw [hmemory, htables]
        exact h.tables
      · obtain ⟨hbefore, -⟩ | ⟨id', he, -⟩ := h.beside.regular.running_step hm
        · rw [hmemory]
          by_cases heq : m = n
          · subst heq
            obtain hended | hdoomed := hn
            · rw [running?_eq_none (.inr hended)] at hbefore
              cases hbefore
            · rw [h.writes m s hbefore, if_pos hdoomed, if_pos hdoomed]
          · rw [hwrites _ fun hid => heq (Ulid.issued_inj hid)]
            exact h.writes m s hbefore
        · cases he
  · rw [h.beside.regular.step_begin_inside]
    exact h

/-- What is done on both sides is answered alike, and the writes of no transaction but the `n`-th change. -/
structure Moved (doomed : Nat → Bool) (i : Nat) (k k' : Traffic) (e : Event) (n : Nat) : Prop where
  answer : e.isEndOf doomed = false → (k'.react e).1 = (k.react e).1
  tables : ((k'.step e).stores.memory i).tables = ((k.step e).stores.memory i).tables
  fresh : ∀ id, e = .begin (.session id) → n = k.stores.issued
  writes : ∀ s, (k.step e).running? n = some s → ((k'.step e).stores.memory i).writeSet (Ulid.issued n) =
    if doomed n then ∅ else ((k.step e).stores.memory i).writeSet (Ulid.issued n)
  others : ∀ m, m ≠ n → ((k.step e).stores.memory i).writeSet (Ulid.issued m) =
      (k.stores.memory i).writeSet (Ulid.issued m) ∧
    ((k'.step e).stores.memory i).writeSet (Ulid.issued m) = (k'.stores.memory i).writeSet (Ulid.issued m)

/-- A transaction that was not begun does not run. -/
theorem running_issued {e : Event} {s : Session} (he : ∀ id, e ≠ .begin (.session id))
    (hs : (k.step e).running? k.stores.issued = some s) : False := by
  obtain ⟨hbefore, -⟩ | ⟨id, hbegin, -⟩ := h.beside.regular.running_step hs
  · exact absurd (h.beside.regular.twins _ _ (running?_eq_some_iff.1 hbefore).1).1 (Nat.lt_irrefl _)
  · exact he id hbegin

/-- A pair of transactions ends alike, if they will be committed, and else with no trace. -/
theorem moved_finish {n : Nat} {s : Session} (hs : k.running? n = some s) (hs' : k'.running? n = some s)
    (v : Engine.Verdict) (hforetold : (k.step (.finish n v)).Foretold doomed) :
    Moved doomed i k k' (.finish n v) n := by
  obtain ⟨id, rfl⟩ := h.twin (running?_eq_some_iff.1 hs).1
  obtain ⟨hanswer, hmemory, hfate⟩ := finish_memory h.isIn hs v
  obtain ⟨hanswer', hmemory', -⟩ := finish_memory h.isIn' hs' v
  have hdoomed := hforetold n _ hfate
  have hwrites := h.writes n _ hs
  obtain ⟨hothers, hcases⟩ := (k.stores.memory i).finish_cases (Ulid.issued n) v
  obtain ⟨hothers', hcases'⟩ := (k'.stores.memory i).finish_cases (Ulid.issued n) v
  have hparts : (doomed n = false → (k'.react (.finish n v)).1 = (k.react (.finish n v)).1) ∧
      ((k'.step (.finish n v)).stores.memory i).tables = ((k.step (.finish n v)).stores.memory i).tables := by
    rw [hanswer, hanswer', hmemory, hmemory']
    cases hd : doomed n with
    | false =>
      simp only [hd, Bool.false_eq_true, if_false] at hwrites
      obtain ⟨houtcome, htables⟩ := Memory.Store.finish_congr h.tables hwrites v
      exact ⟨fun _ => congrArg Answer.ended houtcome, htables⟩
    | true =>
      simp only [hd, if_true] at hwrites
      have hleft : ((k.stores.memory i).finish (Ulid.issued n) v).2.tables = (k.stores.memory i).tables := by
        obtain ⟨hcommitted, -⟩ | ⟨-, htables⟩ := hcases
        · rw [hd, hcommitted] at hdoomed
          cases hdoomed
        · exact htables
      -- without writes even a commit leaves the tables
      have hright : ((k'.stores.memory i).finish (Ulid.issued n) v).2.tables = (k'.stores.memory i).tables := by
        obtain ⟨-, htables⟩ | ⟨-, htables⟩ := hcases'
        · rw [htables, hwrites]
          rfl
        · exact htables
      refine ⟨(fun hfalse => by cases hfalse), ?_⟩
      rw [hleft, hright, h.tables]
  refine ⟨hparts.1, hparts.2, (fun id he => by cases he), fun s hrunning => ?_, fun m hm => ?_⟩
  · obtain ⟨-, hnot⟩ | ⟨id', he, -⟩ := h.beside.regular.running_step hrunning
    · exact absurd rfl (hnot v)
    · cases he
  · have hne : Ulid.issued m ≠ Ulid.issued n := fun hid => hm (Ulid.issued_inj hid)
    rw [hmemory, hmemory', hothers _ hne, hothers' _ hne]
    exact ⟨rfl, rfl⟩

theorem moved_idle {e : Event} {a : Answer} (he : k.react e = (a, k)) (he' : k'.react e = (a, k')) :
    Moved doomed i k k' e k.stores.issued := by
  have hstep : k.step e = k := congrArg Prod.snd he
  have hstep' : k'.step e = k' := congrArg Prod.snd he'
  refine ⟨fun _ => by rw [he, he'], ?_, fun _ _ => rfl, fun s hs => ?_, fun m _ => ?_⟩
  · rw [hstep, hstep']
    exact h.tables
  · rw [hstep] at hs
    exact absurd (h.beside.regular.twins _ _ (running?_eq_some_iff.1 hs).1).1 (Nat.lt_irrefl _)
  · rw [hstep, hstep']
    exact ⟨rfl, rfl⟩

/-- **What remains is answered alike**, and keeps the stores alike. -/
theorem moved {e : Event} (hforetold : (k.step e).Foretold doomed) (hx : (k.isLate e || e.isThrough doomed) = false) :
    ∃ n, Moved doomed i k k' e n := by
  cases h.beside.pair e with
  | idle he he' => exact ⟨_, h.moved_idle he he'⟩
  | outside id op =>
    obtain ⟨hs, hs'⟩ := h.outside id
    obtain ⟨hanswer, hmemory⟩ := operate_memory h.isIn hs op
    obtain ⟨hanswer', hmemory'⟩ := operate_memory h.isIn' hs' op
    obtain ⟨hsame, htables, -⟩ := Memory.Store.perform_congr h.tables
      (fun u (hu : none = some u) => by cases hu) op
    refine ⟨k.stores.issued, fun _ => ?_, ?_, (fun id he => by cases he), fun s hs => ?_, fun m _ => ?_⟩
    · rw [hanswer, hanswer', hsame]
    · rw [hmemory, hmemory', htables]
    · exact (h.running_issued (fun id he => by cases he) hs).elim
    · rw [hmemory, hmemory', Memory.Store.writeSet_perform_none, Memory.Store.writeSet_perform_none]
      exact ⟨rfl, rfl⟩
  | @inside n s s' hs hs' hT op =>
    subst hT
    obtain ⟨hrunning, hd⟩ := kept_inside hx hs
    obtain ⟨id, rfl⟩ := h.twin hs
    have hwrites := h.writes n _ hrunning
    simp only [hd, Bool.false_eq_true, if_false] at hwrites
    obtain ⟨hanswer, hmemory⟩ := @operate_memory k i h.isIn (.handle n) id _ hs op
    obtain ⟨hanswer', hmemory'⟩ := @operate_memory k' i h.isIn' (.handle n) id _ hs' op
    obtain ⟨hsame, htables, hown⟩ := Memory.Store.perform_congr h.tables
      (fun u (hu : some (Ulid.issued n) = some u) => by cases hu; exact hwrites) op
    refine ⟨n, fun _ => ?_, ?_, (fun id he => by cases he), fun s _ => ?_, fun m hm => ?_⟩
    · rw [hanswer, hanswer', hsame]
    · rw [hmemory, hmemory', htables]
    · simp only [hd, Bool.false_eq_true, if_false]
      rw [hmemory, hmemory', hown _ rfl]
    · have hne : Ulid.issued m ≠ Ulid.issued n := fun hid => hm (Ulid.issued_inj hid)
      rw [hmemory, hmemory', (Memory.Store.perform_inside _ _ op).2 _ hne, (Memory.Store.perform_inside _ _ op).2 _ hne]
      exact ⟨rfl, rfl⟩
  | begin id =>
    obtain ⟨hs, hs'⟩ := h.outside id
    obtain ⟨hanswer, hmemory⟩ := begin_memory h.isIn hs
    obtain ⟨hanswer', hmemory'⟩ := begin_memory h.isIn' hs'
    rw [h.beside.issued] at hanswer' hmemory'
    have hbegin : ∀ (m : Memory.Store) (u v : Ulid), (m.begin u).writeSet v = if v = u then ∅ else m.writeSet v :=
      fun m u v => Memory.writeSet_setWriteSet m u v ∅
    refine ⟨k.stores.issued, fun _ => ?_, ?_, fun _ _ => rfl, fun s _ => ?_, fun m hm => ?_⟩
    · rw [hanswer, hanswer']
    · rw [hmemory, hmemory']
      exact h.tables
    · rw [hmemory, hmemory', hbegin, hbegin, if_pos rfl, if_pos rfl, ite_self]
    · have hne : Ulid.issued m ≠ Ulid.issued k.stores.issued := fun hid => hm (Ulid.issued_inj hid)
      rw [hmemory, hmemory', hbegin, hbegin, if_neg hne, if_neg hne]
      exact ⟨rfl, rfl⟩
  | @finish n s s' hs hs' hT v =>
    subst hT
    exact ⟨n, h.moved_finish hs hs' v hforetold⟩
  | sweep => exact ⟨_, h.moved_idle (react_sweep_memory h.source) (react_sweep_memory (h.beside.source.trans h.source))⟩

theorem kept {e : Event} (hforetold : (k.step e).Foretold doomed) (hx : (k.isLate e || e.isThrough doomed) = false) :
    SameTables doomed i (k.step e) (k'.step e) ∧ (e.isEndOf doomed = false → (k'.react e).1 = (k.react e).1) := by
  obtain ⟨n, hmoved⟩ := h.moved hforetold hx
  have hbeside : Beside Eq (k.step e) (k'.step e) := h.beside.step e fun id _ => by
    refine .inr ⟨.memory id i (some (Ulid.issued k.stores.issued)), _, ?_, ?_, rfl⟩
    · rw [h.source]
      exact (Session.begin_memory h.isIn id).1
    · rw [h.source, ← h.beside.issued]
      exact (Session.begin_memory h.isIn' id).1
  refine ⟨⟨hbeside, (h.beside.regular.later e).source.trans h.source, hmoved.tables, fun m s hm => ?_⟩, hmoved.answer⟩
  by_cases hmn : m = n
  · subst hmn
    exact hmoved.writes s hm
  · obtain ⟨hbefore, -⟩ | ⟨id, he, hissued, -⟩ := h.beside.regular.running_step hm
    · rw [(hmoved.others m hmn).1, (hmoved.others m hmn).2]
      exact h.writes m s hbefore
    · exact absurd (hissued.trans (hmoved.fresh id he).symm) hmn

end SameTables

theorem simulation_memory (doomed : Nat → Bool) (i : Nat) : Simulation doomed (SameTables doomed i) where
  regular h := h.beside.regular
  erased h _ _ hx := h.erased hx
  kept h _ hforetold hx := h.kept hforetold hx

/-! ## Repositories -/

/-- Two sessions inside one transaction, from bases that are a pair. -/
inductive Twins (ρ : CommitId → CommitId → Prop) (i : Nat) : Session → Session → Prop where
  | intro {id u : Ulid} {a b : CommitId} (h : ρ a b) : Twins ρ i (.git id i (some ⟨u, a⟩)) (.git id i (some ⟨u, b⟩))

/-- The branches of the transactions that run and will not be committed. -/
def Aside (doomed : Nat → Bool) (k : Traffic) (name : String) : Prop :=
  ∃ n s, doomed n = true ∧ k.running? n = some s ∧ name = branchOf (Ulid.issued n)

theorem not_aside_main (doomed : Nat → Bool) (k : Traffic) : ¬ k.Aside doomed Git.RefName.main := by
  rintro ⟨n, s, -, -, heq⟩
  exact Git.branchOf_ne_main _ heq.symm

section Tended

variable {doomed : Nat → Bool} {k : Traffic} {i : Nat} (h : k.Tended i) {e : Event} (hn : (k.step e).Numbered)

include h hn

theorem Tended.not_aside {n : Nat} {s : Session} (hs : k.handles.get? n = some s) (hd : doomed n = false) :
    ¬ k.Aside doomed (branchOf (Ulid.issued n)) := by
  rintro ⟨m, t, hdoomed, ht, heq⟩
  by_cases hmn : n = m
  · subst hmn
    rw [hdoomed] at hd
    cases hd
  · exact h.branch_ne hn hs (running?_eq_some_iff.1 ht).1 hmn heq

/-- A branch that is no longer set aside is gone. -/
theorem Tended.aside_gone {name : String} (haside : k.Aside doomed name) (hnot : ¬ (k.step e).Aside doomed name) :
    ((k.step e).stores.view i).repository.refs.get? name = none := by
  obtain ⟨n, s, hd, hs, rfl⟩ := haside
  have hhandle := (h.regular.later e).handles n s (running?_eq_some_iff.1 hs).1
  cases hf : (k.step e).fates.get? n with
  | none => exact absurd ⟨n, s, hd, running?_eq_some_iff.2 ⟨hhandle, hf⟩, rfl⟩ hnot
  | some b => exact (h.step hn).gone n b hf

end Tended

/-- The repositories are alike but for the branches that are set aside, and these stand at their bases on the right. -/
structure SameBranches (doomed : Nat → Bool) (i : Nat) (k k' : Traffic) : Prop where
  tended : k.Tended i
  tended' : k'.Tended i
  alike : ∃ ρ, Beside (Twins ρ i) k k' ∧
    Git.View.Alike ρ (k.Aside doomed) (k.stores.view i) (k'.stores.view i)
  based : ∀ n id base, doomed n = true → k'.running? n = some (.git id i (some ⟨Ulid.issued n, base⟩)) →
    (k'.stores.view i).repository.refs.get? (branchOf (Ulid.issued n)) = some (.commit base)

namespace SameBranches

variable {doomed : Nat → Bool} {i : Nat} {k k' : Traffic} (h : SameBranches doomed i k k')

include h

/-- What is done through the handle of a transaction that has ended, or will not be committed, is not noticed. -/
theorem erased {e : Event} (hn : (k.step e).Numbered) (hx : (k.isLate e || e.isThrough doomed) = true) :
    SameBranches doomed i (k.step e) k' := by
  obtain ⟨ρ, hbeside, halike⟩ := h.alike
  obtain ⟨n, hcases, ⟨op, rfl⟩ | rfl⟩ := erased_cases hx
  · refine ⟨h.tended.step hn, h.tended', ⟨ρ, hbeside.left n op, ?_⟩, h.based⟩
    have hview : Git.View.Alike ρ (k.Aside doomed) ((k.step (.operate (.handle n) op)).stores.view i)
        (k'.stores.view i) := by
      cases hs : k.handles.get? n with
      | none =>
        have hidle : k.step (.operate (.handle n) op) = k := congrArg Prod.snd (@react_operate_none k (.handle n) hs op)
        rw [hidle]
        exact halike
      | some s =>
        have hsession : k.session? (.handle n) = some s := hs
        obtain ⟨tx, ⟨id, base, hs, rfl⟩, -, hview⟩ := h.tended.operate hsession op
        rw [hview]
        cases hf : k.fates.get? n with
        | some b =>
          rw [Git.View.perform_gone (h.tended.gone n b hf) base op]
          exact halike
        | none =>
          have hdoomed : doomed n = true := hcases.resolve_left fun hended => by
            unfold SortedMap.contains at hended
            rw [hf] at hended
            cases hended
          obtain ⟨hmoves, hhandle⟩ := (k.stores.view i).moves_perform (some ⟨Ulid.issued n, base⟩) op
          refine ⟨halike.repository.left ⟨n, _, hdoomed, running?_eq_some_iff.2 ⟨hs, hf⟩, rfl⟩ hmoves ?_, ?_⟩
          · exact Git.View.contains_perform _ (some ⟨Ulid.issued n, base⟩) op
          · rw [hhandle]
            exact halike.handle
    exact ⟨hview.repository.reset fun name haside hnot => h.tended.aside_gone hn haside hnot, hview.handle⟩
  · rw [h.tended.regular.step_begin_inside]
    exact h

/-- **A transaction is begun on both sides**, at bases that are a pair, or on neither. -/
theorem begun {ρ : CommitId → CommitId → Prop} (hbeside : Beside (Twins ρ i) k k')
    (halike : Git.View.Alike ρ (k.Aside doomed) (k.stores.view i) (k'.stores.view i)) (id : Ulid) :
    ((∃ err, ((Session.git id i none).begin k.stores).1 = .error err ∧
        ((Session.git id i none).begin k'.stores).1 = .error err) ∨
      ∃ a b, ((Session.git id i none).begin k.stores).1 = .ok (.git id i (some ⟨Ulid.issued k.stores.issued, a⟩)) ∧
        ((Session.git id i none).begin k'.stores).1 = .ok (.git id i (some ⟨Ulid.issued k.stores.issued, b⟩)) ∧ ρ a b ∧
        (((Session.git id i none).begin k'.stores).2.view i).repository.refs.get?
          (branchOf (Ulid.issued k.stores.issued)) = some (.commit b)) ∧
      Git.View.Alike ρ (k.Aside doomed) (((Session.git id i none).begin k.stores).2.view i)
        (((Session.git id i none).begin k'.stores).2.view i) := by
  obtain ⟨hmade, hview⟩ := Session.begin_view h.tended.isIn id
  obtain ⟨hmade', hview'⟩ := Session.begin_view h.tended'.isIn id
  rw [hbeside.issued] at hmade' hview'
  rw [hmade, hmade', hview, hview']
  obtain ⟨e, he, he'⟩ | ⟨a, b, w, w', hw, hw', hab, hlike, hat⟩ :=
    halike.begin (not_aside_main doomed k) (Ulid.issued k.stores.issued)
  · rw [he, he']
    exact ⟨.inl ⟨_, rfl, rfl⟩, halike⟩
  · rw [hw, hw']
    exact ⟨.inr ⟨a, b, rfl, rfl, hab, hat⟩, hlike⟩

theorem outside (id : Ulid) : k.session? (.session id) = some (.git id i none) ∧
    k'.session? (.session id) = some (.git id i none) := by
  unfold session?
  rw [h.tended.source, h.tended'.source]
  exact ⟨rfl, rfl⟩

/-- A pair of transactions ends alike, if they will be committed, and else with no trace. -/
theorem finished {ρ : CommitId → CommitId → Prop}
    (halike : Git.View.Alike ρ (k.Aside doomed) (k.stores.view i) (k'.stores.view i)) {n : Nat} {s s' : Session}
    (hs : k.running? n = some s) (hs' : k'.running? n = some s') (hT : Twins ρ i s s') {v : Engine.Verdict}
    (hn : (k.step (.finish n v)).Numbered) (hforetold : (k.step (.finish n v)).Foretold doomed) :
    (doomed n = false → (k'.react (.finish n v)).1 = (k.react (.finish n v)).1) ∧
      ∃ ρ', (∀ a b, ρ a b → ρ' a b) ∧ Git.View.Alike ρ' (k.Aside doomed) ((k.step (.finish n v)).stores.view i)
        ((k'.step (.finish n v)).stores.view i) := by
  obtain ⟨id, base, rfl, hanswer, hview, -, hfates⟩ := h.tended.finish hs v
  obtain ⟨id', base', rfl, hanswer', hview', -, -⟩ := h.tended'.finish hs' v
  cases hT with | intro hab =>
  have hdoomed : doomed n = _ := hforetold n _ (by rw [hfates, SortedMap.get?_insert, if_pos rfl])
  rw [hanswer, hanswer', hview, hview']
  cases hd : doomed n with
  | false =>
    have htx := h.tended.not_aside hn (running?_eq_some_iff.1 hs).1 hd
    obtain ⟨houtcome, hrest⟩ := halike.finish h.tended.orderly.named h.tended'.orderly.named
      (not_aside_main doomed k) htx hab v
    exact ⟨fun _ => congrArg Answer.ended houtcome, hrest⟩
  | true =>
    refine ⟨(fun hfalse => by cases hfalse), ρ, fun _ _ hab => hab, ?_⟩
    rw [hd, eq_comm, Bool.not_eq_true'] at hdoomed
    rw [Git.View.finish_uncommitted hdoomed,
      Git.View.finish_at_base h.tended'.orderly.named (h.based n id base' hd hs')]
    exact halike.drop _

/-- **What remains is answered alike**, and leaves the repositories alike. -/
theorem moved {ρ : CommitId → CommitId → Prop} (hbeside : Beside (Twins ρ i) k k')
    (halike : Git.View.Alike ρ (k.Aside doomed) (k.stores.view i) (k'.stores.view i)) {e : Event}
    (hn : (k.step e).Numbered) (hforetold : (k.step e).Foretold doomed)
    (hx : (k.isLate e || e.isThrough doomed) = false) :
    (e.isEndOf doomed = false → (k'.react e).1 = (k.react e).1) ∧ ∃ ρ', (∀ a b, ρ a b → ρ' a b) ∧
      Git.View.Alike ρ' (k.Aside doomed) ((k.step e).stores.view i) ((k'.step e).stores.view i) := by
  cases hbeside.pair e with
  | idle he he' =>
    have hstep : k.step e = k := congrArg Prod.snd he
    have hstep' : k'.step e = k' := congrArg Prod.snd he'
    rw [hstep, hstep', he, he']
    exact ⟨fun _ => rfl, ρ, fun _ _ hab => hab, halike⟩
  | outside id op =>
    obtain ⟨hs, hs'⟩ := h.outside id
    obtain ⟨tx, hacts, hanswer, hview⟩ := h.tended.operate hs op
    obtain ⟨tx', hacts', hanswer', hview'⟩ := h.tended'.operate hs' op
    cases hacts
    cases hacts'
    have hmain : ¬ k.Aside doomed (branchAt none) := not_aside_main doomed k
    obtain ⟨hsame, hrest⟩ := halike.perform h.tended.orderly.named h.tended'.orderly.named hmain op
    rw [hanswer, hanswer', hview, hview']
    exact ⟨fun _ => hsame, hrest⟩
  | @inside n s s' hs hs' hT op =>
    obtain ⟨hrunning, hd⟩ := kept_inside hx hs
    have hsession : k.session? (.handle n) = some s := hs
    have hsession' : k'.session? (.handle n) = some s' := hs'
    obtain ⟨tx, ⟨id, base, -, rfl⟩, hanswer, hview⟩ := h.tended.operate hsession op
    obtain ⟨tx', ⟨id', base', -, rfl⟩, hanswer', hview'⟩ := h.tended'.operate hsession' op
    have htx : ¬ k.Aside doomed (branchAt (some ⟨Ulid.issued n, base⟩)) := h.tended.not_aside hn hs hd
    obtain ⟨hsame, hrest⟩ := halike.perform h.tended.orderly.named h.tended'.orderly.named htx op
    rw [hanswer, hanswer', hview, hview', Git.View.perform_base _ _ base' base]
    exact ⟨fun _ => hsame, hrest⟩
  | begin id =>
    obtain ⟨hs, hs'⟩ := h.outside id
    obtain ⟨⟨err, herr, herr'⟩ | ⟨a, b, hok, hok', -⟩, hlike⟩ := h.begun hbeside halike id
    · unfold Traffic.step
      rw [react_begin_error hs herr, react_begin_error hs' herr']
      exact ⟨fun _ => rfl, ρ, fun _ _ hab => hab, hlike⟩
    · unfold Traffic.step
      rw [react_begin_ok hs hok, react_begin_ok hs' hok', hbeside.issued]
      exact ⟨fun _ => rfl, ρ, fun _ _ hab => hab, hlike⟩
  | finish hs hs' hT v => exact h.finished halike hs hs' hT hn hforetold
  | sweep =>
    obtain ⟨hreact, hview⟩ := h.tended.sweep
    obtain ⟨hreact', hview'⟩ := h.tended'.sweep
    obtain ⟨hcount, hlike⟩ := halike.sweep
    rw [hview, hview', hreact, hreact', hcount]
    exact ⟨fun _ => rfl, ρ, fun _ _ hab => hab, hlike⟩

theorem kept {e : Event} (hn : (k.step e).Numbered) (hforetold : (k.step e).Foretold doomed)
    (hx : (k.isLate e || e.isThrough doomed) = false) :
    SameBranches doomed i (k.step e) (k'.step e) ∧ (e.isEndOf doomed = false → (k'.react e).1 = (k.react e).1) := by
  obtain ⟨ρ, hbeside, halike⟩ := h.alike
  obtain ⟨hanswer, ρ', hρ, hlike⟩ := h.moved hbeside halike hn hforetold hx
  have htwins : ∀ s s', Twins ρ i s s' → Twins ρ' i s s' := by
    rintro s s' ⟨hab⟩
    exact .intro (hρ _ _ hab)
  have hstep : Beside (Twins ρ' i) (k.step e) (k'.step e) := (hbeside.mono htwins).step e fun id _ => by
    rw [h.tended.source]
    obtain ⟨⟨err, herr, herr'⟩ | ⟨a, b, hok, hok', hab, -⟩, -⟩ := h.begun hbeside halike id
    · exact .inl ⟨err, err, herr, herr'⟩
    · exact .inr ⟨_, _, hok, hok', .intro (hρ _ _ hab)⟩
  have hn' : (k'.step e).Numbered := fun m hm => hn m (hstep.issued ▸ hm)
  refine ⟨⟨h.tended.step hn, h.tended'.step hn', ⟨ρ', hstep, ?_, hlike.handle⟩, fun n id base hd hs => ?_⟩, hanswer⟩
  · exact hlike.repository.reset fun name haside hnot => h.tended.aside_gone hn haside hnot
  · obtain ⟨hbefore, -⟩ | ⟨id', rfl, hissued, hmade⟩ := h.tended'.regular.running_step hs
    · have hother : ∀ op, e ≠ .operate (.handle n) op := by
        rintro op rfl
        have hthrough : doomed n = false := (Bool.or_eq_false_iff.1 hx).2
        rw [hd] at hthrough
        cases hthrough
      exact (h.tended'.spares_running hn' hbefore ⟨_, hs⟩ hother).ref.trans (h.based n id base hd hbefore)
    · have hsource : k'.source.session id' = .git id' i none := by
        rw [h.tended'.source]
        rfl
      rw [hsource] at hmade
      obtain ⟨⟨err, -, herr'⟩ | ⟨a, b, -, hok', -, hat⟩, -⟩ := h.begun hbeside halike id'
      · rw [herr'] at hmade
        cases hmade
      · rw [hok', Except.ok.injEq, Session.git.injEq, Option.some.injEq, Git.Transaction.mk.injEq] at hmade
        obtain ⟨-, -, hid, rfl⟩ := hmade
        unfold Traffic.step
        rw [react_begin_ok (h.outside id').2 hok', hissued, ← hissued, ← hid]
        exact hat

end SameBranches

theorem simulation_git (doomed : Nat → Bool) (i : Nat) : Simulation doomed (SameBranches doomed i) where
  regular h := h.tended.regular
  erased h hn _ hx := h.erased hn hx
  kept h hn hforetold hx := h.kept hn hforetold hx

/-! ## Whole runs -/

theorem Beside.refl {T : Session → Session → Prop} {k : Traffic} (h : k.Regular)
    (hT : ∀ n s, k.handles.get? n = some s → T s s) : Beside T k k := by
  refine ⟨h, h, rfl, rfl, fun n => ?_, fun _ => rfl⟩
  cases hs : k.handles.get? n with
  | none => exact .inl ⟨rfl, rfl⟩
  | some s => exact .inr ⟨s, s, rfl, rfl, hT n s hs⟩

theorem running?_on (source : Source) (st : Stores) (n : Nat) : (on source st).running? n = none := rfl

theorem sameTables_on {st : Stores} {i : Nat} (hi : i < st.memories.size) (doomed : Nat → Bool) :
    SameTables doomed i (on (.memory i) st) (on (.memory i) st) where
  beside := .refl (regular_on hi) fun _ _ _ => rfl
  source := rfl
  tables := rfl
  writes n s hs := by
    rw [running?_on] at hs
    cases hs

theorem sameBranches_on {st : Stores} (hst : st.Reachable) {i : Nat} (hi : i < st.handles.size)
    (doomed : Nat → Bool) : SameBranches doomed i (on (.git i) st) (on (.git i) st) where
  tended := tended_on hst hi
  tended' := tended_on hst hi
  alike := ⟨_, .refl (regular_on hi) (fun n s hs => by cases hs), .refl (tended_on hst hi).sound _, rfl⟩
  based n id base _ hs := by
    rw [running?_on] at hs
    cases hs

/-- **A transaction that is not committed leaves no trace**, and neither does what is done through a handle whose
transaction has ended: without it everybody else is answered as before, and the same rows are committed in the end. -/
theorem uncommitted_leaves_no_trace {st : Stores} (hst : st.Reachable) {source : Source} (hin : source.IsIn st)
    (events : List Event) :
    let full := (on source st).run events
    let left := remaining full.isUncommitted ((on source st).trace events)
    let rest := (on source st).run (left.map Entry.event)
    full.Numbered →
      answers full.isUncommitted ((on source st).trace (left.map Entry.event)) = answers full.isUncommitted left ∧
        ∀ id, (∀ slot, (source.session id).get rest.stores slot = (source.session id).get full.stores slot) ∧
          ∀ t, (source.session id).scan rest.stores t = (source.session id).scan full.stores t := by
  intro full left rest hn
  have hforetold := foretold_isUncommitted full
  cases source with
  | memory i =>
    obtain ⟨hanswers, hend⟩ := (simulation_memory full.isUncommitted i).run events (sameTables_on hin _) hn hforetold
    refine ⟨hanswers, fun id => ⟨fun slot => ?_, fun t => ?_⟩⟩
    · exact congrArg (fun tables : Memory.Tables => Except.ok (tables.row? slot)) hend.tables
    · exact congrArg (fun tables : Memory.Tables => Except.ok (tables.rowsOf t).values) hend.tables
  | git i =>
    obtain ⟨hanswers, hend⟩ :=
      (simulation_git full.isUncommitted i).run events (sameBranches_on hst hin _) hn hforetold
    obtain ⟨ρ, -, halike⟩ := hend.alike
    have hmain : ¬ full.Aside full.isUncommitted (branchAt none) := not_aside_main _ full
    exact ⟨hanswers, fun id => ⟨halike.read hmain, halike.scan hmain⟩⟩

/-- Two sessions insert one row, the first of them in a transaction that is rolled back, and once more when it is. -/
def abandoned : List Event :=
  let insert : Operation := .change 0 ⟨"notes"⟩ (.insert ⟨⟨"x"⟩, 1, "t", "t", ∅⟩)
  [.begin (.session ⟨0⟩), .operate (.handle 0) insert, .operate (.session ⟨1⟩) insert, .finish 0 .rollback,
    .operate (.handle 0) insert]

theorem abandoned_leaves_no_trace :
    let k := on (.memory 0) (Stores.addMemory {}).2
    let insert : Operation := .change 0 ⟨"notes"⟩ (.insert ⟨⟨"x"⟩, 1, "t", "t", ∅⟩)
    let left : List Event := [.begin (.session ⟨0⟩), .operate (.session ⟨1⟩) insert, .finish 0 .rollback]
    (k.run abandoned).isUncommitted 0 = true ∧
      answers (k.run abandoned).isUncommitted (k.trace left) =
        [(.begin (.session ⟨0⟩), .begun (.ok 0)), (.operate (.session ⟨1⟩) insert, .changed (.value ()))] ∧
      ∀ slot, (Session.memory ⟨2⟩ 0 none).get (k.run left).stores slot =
        (Session.memory ⟨2⟩ 0 none).get (k.run abandoned).stores slot := by
  have hin : (Source.memory 0).IsIn (Stores.addMemory {}).2 := Nat.zero_lt_one
  have hissued : ((on (.memory 0) (Stores.addMemory {}).2).run abandoned).stores.issued = 1 := by rfl
  have hn := numbered_of_issued hissued (by decide)
  obtain ⟨hanswers, hrows⟩ := uncommitted_leaves_no_trace (.addMemory (.new 0 0)) hin abandoned hn
  exact ⟨by rfl, hanswers, (hrows ⟨2⟩).1⟩

end Traffic
end Demarcate
