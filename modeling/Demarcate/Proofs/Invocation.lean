import Demarcate.Proofs.Course
/-!
# Invocation — whether a call's work runs, and how often

What stands in the way of a call's work shows before it would run (`Engine.obstacle?`): there is no such data source,
the mode's contract is broken, no session is handed out, or no transaction can be begun on it.  Then the call fails with
that, its work does not run, and the books are as they were (`Engine.Untouched`).  Where nothing is in the way the work
runs once: the engine that it finds is known before, and the call's result and the engine that it leaves are settled
from what that one run has come to (`work_runs_once`).

In a transaction the work is called back by the session, and leaves its result in a cell of the caller's.  Whenever the
session reports a success the cell is filled (`Engine.calledBack_filled`).
-/
namespace Demarcate

open Work (exec visit)

theorem Session.begin_error {st : Stores} {s : Session} {err : ResourceError} (hs : s.isInTransaction = false)
    (h : (s.begin st).1 = .error err) : (s.begin st).2 = st.issue.2 := by
  cases s with
  | memory id i tx =>
    cases tx with
    | some tx => cases hs
    | none => cases h
  | git id i tx =>
    cases tx with
    | some tx => cases hs
    | none =>
      simp only [begin] at h ⊢
      unfold Stores.beginBranch at h ⊢
      cases hb : (st.issue.2.handle i).begin (st.issue.2.repository i) st.issue.1.lowerText with
      | error e => rfl
      | ok begun =>
        rw [hb] at h
        cases h

namespace Engine

/-! ## What is in the way -/

/-- Why a call's work does not run; the first reason counts. -/
def obstacle? (e : Engine) (c : Nat) (d : Definition) : Option TransactionError :=
  match (e.context c).registry.get? d.backend with
  | none => some (.resource (.unknownBackend d.backend))
  | some p =>
    match d.mode.resolve ((e.context c).isActive d.backend) with
    | .error v => some (v.toError d.operation)
    | .ok r =>
      if r.isInitiator then
        match e.acquire p with
        | (.error err, _) => some (.resource err)
        | (.ok s, e) =>
          if r.mustWrap then
            match (e.enter s).1 with
            | .error err => some (.resource err)
            | .ok _ => none
          else none
      else none

/-- No stack, no provider's count and no store has changed; identifiers may have been taken. -/
structure Untouched (e e' : Engine) : Prop where
  registry : ∀ c, (e'.context c).registry = (e.context c).registry
  stack : ∀ c b, (e'.context c).stack b = (e.context c).stack b
  detached : ∀ c, (e'.context c).detached = (e.context c).detached
  provider : ∀ p, e'.provider p = e.provider p
  stores : ∃ n, e'.stores = { e.stores with issued := n }

theorem Untouched.refl (e : Engine) : Untouched e e :=
  ⟨fun _ => rfl, fun _ _ => rfl, fun _ => rfl, fun _ => rfl, e.stores.issued, rfl⟩

theorem untouched_count (e : Engine) (k : ProviderCall) : Untouched e (e.count k).2 := by
  have hsame := e.sameBooks_count k
  refine ⟨fun c => by rw [hsame.context], fun c b => by rw [hsame.context], fun c => by rw [hsame.context],
    hsame.provider, e.stores.issued, ?_⟩
  rw [e.stores_count]

theorem enter_setStack (e : Engine) (c : Nat) (b : BackendName) (st : FrameStack Session) (s : Session) :
    (e.setStack c b st).enter s = ((e.enter s).1, (e.enter s).2.setStack c b st) := by
  unfold enter
  rw [e.count_setStack c b st .begin]
  generalize e.count .begin = counted
  obtain ⟨fault, e₁⟩ := counted
  cases fault <;> rfl

/-- A context that has a data source is there. -/
theorem inRange_of_registered {e : Engine} {c p : Nat} {b : BackendName}
    (hp : (e.context c).registry.get? b = some p) : c < e.contexts.size := by
  rcases Nat.lt_or_ge c e.contexts.size with hc | hc
  · exact hc
  · have hnone : e.context c = {} := by
      unfold context
      rw [Array.getD_eq_getD_getElem?, Array.getElem?_eq_none hc]
      rfl
    rw [hnone] at hp
    cases hp

theorem context_setStack_of_ne {c c' : Nat} (h : c' ≠ c) (e : Engine) (b : BackendName) (st : FrameStack Session) :
    (e.setStack c b st).context c' = e.context c' := by
  unfold context setStack setContext
  rw [getD_setIfInBounds, if_neg fun hc => h hc.1]

/-- Setting a stack to what it is changes no stack, and nothing else of a context. -/
theorem context_restored {e e' : Engine} {c : Nat} {b : BackendName} (hc : c < e'.contexts.size)
    (h : ∀ c', e'.context c' = e.context c') (c' : Nat) :
    let x := (e'.setStack c b ((e.context c).stack b)).context c'
    x.registry = (e.context c').registry ∧ x.detached = (e.context c').detached ∧
      ∀ b', x.stack b' = (e.context c').stack b' := by
  intro x
  by_cases hcc : c' = c
  · subst hcc
    have hx : x = (e.context c').setStack b ((e.context c').stack b) :=
      (context_setStack hc b _).trans (by rw [h])
    refine ⟨by rw [hx]; rfl, by rw [hx]; rfl, fun b' => ?_⟩
    rw [hx, Context.stack_setStack]
    split
    · rename_i hb
      rw [hb]
    · rfl
  · have hx : x = e.context c' := (context_setStack_of_ne hcc e' b _).trans (h c')
    rw [hx]
    exact ⟨rfl, rfl, fun _ => rfl⟩

/-- What is counted for a session that is handed out is taken away when it is given back. -/
theorem provider_restored {e e' : Engine} {p : Nat} {s : Session} (hs : handsOut (e.provider p).source s = true)
    (h : e'.providers = (e.setOpened p ((e.provider p).opened + 1)).providers) (q : Nat) :
    (e'.release p s).provider q = e.provider q := by
  have hset : ∀ q, e'.provider q = (e.setOpened p ((e.provider p).opened + 1)).provider q := provider_congr h
  have hsize : e'.providers.size = e.providers.size := by rw [h, size_setOpened]
  have hsource : (e'.provider p).source = (e.provider p).source := by rw [hset, source_setOpened]
  rw [provider_congr (providers_release (by rw [hsource]; exact hs)), provider_setOpened, hsize, hset, hset,
    provider_setOpened, provider_setOpened]
  by_cases hq : q = p ∧ p < e.providers.size
  · obtain ⟨rfl, hq⟩ := hq
    simp only [hq, and_self, if_true, UInt64.add_sub_cancel]
  · rw [if_neg hq, if_neg hq]

/-- **A session that was handed out and is given back leaves nothing behind**, where no transaction was begun on it. -/
theorem untouched_refused {e e₁ : Engine} {c p : Nat} {b : BackendName} {s : Session} {err : ResourceError}
    (hc : c < e.contexts.size) (ha : Acquired e p s e₁) (hb : (e₁.enter s).1 = .error err) :
    Untouched e (((e₁.enter s).2.setStack c b ((e.context c).stack b)).release p s) := by
  have hsame := e₁.sameBooks_enter s
  have hc' : c < (e₁.enter s).2.contexts.size := hsame.contexts ▸ ha.inRange hc
  have hcontext := context_restored (b := b) hc' fun c' => (hsame.context c').trans (context_congr ha.contexts c')
  generalize hset : (e₁.enter s).2.setStack c b ((e.context c).stack b) = restored at hcontext
  have hproviders : restored.providers = (e.setOpened p ((e.provider p).opened + 1)).providers := by
    rw [← hset]
    exact hsame.providers.trans ha.providers
  have hreleased : ∀ c', (restored.release p s).context c' = restored.context c' :=
    context_congr (contexts_release restored p s)
  refine ⟨fun c' => ?_, fun c' b' => ?_, fun c' => ?_, provider_restored ha.handed hproviders, ?_⟩
  · rw [hreleased]
    exact (hcontext c').1
  · rw [hreleased]
    exact (hcontext c').2.2 b'
  · rw [hreleased]
    exact (hcontext c').2.1
  rw [← hset, stores_release, stores_setStack]
  obtain ⟨err', -, hstores⟩ | ⟨hanswer, hstores⟩ := e₁.enter_cases s
  · rw [hstores, ha.stores]
    exact ⟨_, rfl⟩
  · rw [hstores, Session.begin_error ha.outside (hanswer.symm.trans hb), ha.stores]
    exact ⟨_, rfl⟩

/-- `Planned e c d planned obstacle`: how a call is to run, and what is in the way of its work. -/
inductive Planned (e : Engine) (c : Nat) (d : Definition) :
    Except TransactionError Plan × Engine → Option TransactionError → Prop where
  | refused {err : TransactionError} {left : Engine} (untouched : Untouched e left) :
    Planned e c d (.error err, left) (some err)
  | inPlace (mode : d.mode.resolve ((e.context c).isActive d.backend) ≠ .ok .begin) (hc : c < e.contexts.size) :
    Planned e c d (.ok .inPlace, e) none
  | outside {p : Nat} {s : Session} {e₁ : Engine} (hp : (e.context c).registry.get? d.backend = some p)
      (ha : Acquired e p s e₁) (mode : d.mode.resolve ((e.context c).isActive d.backend) ≠ .ok .begin) :
    Planned e c d (.ok (.onFresh s false), e₁) none
  | wrapped {p : Nat} {s : Session} {e₁ : Engine} (hp : (e.context c).registry.get? d.backend = some p)
      (ha : Acquired e p s e₁) (mode : d.mode.resolve ((e.context c).isActive d.backend) = .ok .begin) :
    Planned e c d (.ok (.onFresh s true), e₁)
      (match (e₁.enter s).1 with
        | .error err => some (.resource err)
        | .ok _ => none)

/-- **What planning comes to.** -/
theorem planned (e : Engine) (c : Nat) (d : Definition) : Planned e c d (e.planCall c d) (e.obstacle? c d) := by
  unfold planCall provider? obstacle?
  cases hp : (e.context c).registry.get? d.backend with
  | none => exact .refused (.refl e)
  | some p =>
    simp only
    cases hr : d.mode.resolve ((e.context c).isActive d.backend) with
    | error v => exact .refused (.refl e)
    | ok r =>
      simp only
      obtain ⟨s, e₁, hacquire, ha⟩ | ⟨err, hacquire⟩ := e.acquire_cases p
      · simp only [hacquire]
        cases r with
        | join => exact .inPlace (by rw [hr]; exact fun h => by cases h) (inRange_of_registered hp)
        | runAsIs => exact .inPlace (by rw [hr]; exact fun h => by cases h) (inRange_of_registered hp)
        | suspend => exact .outside hp ha (by rw [hr]; exact fun h => by cases h)
        | begin => exact .wrapped hp ha hr
      · simp only [hacquire]
        cases r with
        | join => exact .inPlace (by rw [hr]; exact fun h => by cases h) (inRange_of_registered hp)
        | runAsIs => exact .inPlace (by rw [hr]; exact fun h => by cases h) (inRange_of_registered hp)
        | suspend => exact .refused (e.untouched_count .acquire)
        | begin => exact .refused (e.untouched_count .acquire)

section Run

variable {e : Engine} {c : Nat} {d : Definition}

/-- **Where something is in the way** the call fails with it, whatever its work, and leaves all as it was. -/
theorem run_obstructed {err : TransactionError} (h : e.obstacle? c d = some err) : ∃ left, Untouched e left ∧
    ∀ {β : Type} (work : Engine → (Outcome Failure Unit × β) × Engine),
      e.run c d work = ((.failed (.transaction err), none), left) := by
  have hplanned := planned e c d
  unfold run
  generalize e.planCall c d = plan at hplanned ⊢
  rw [h] at hplanned
  generalize hobstacle : some err = obstacle at hplanned
  cases hplanned with
  | @refused err' left huntouched =>
    cases hobstacle
    exact ⟨left, huntouched, fun work => rfl⟩
  | inPlace mode hc => cases hobstacle
  | outside hp ha mode => cases hobstacle
  | @wrapped p s e₁ hp ha mode =>
    cases hb : (e₁.enter s).1 with
    | ok tx =>
      rw [hb] at hobstacle
      cases hobstacle
    | error err' =>
      rw [hb] at hobstacle
      cases hobstacle
      have hc := inRange_of_registered hp
      have hx := context_congr ha.contexts c
      refine ⟨_, untouched_refused (b := d.backend) hc ha hb, fun work => ?_⟩
      have hc' : c < (e₁.enter s).2.contexts.size := by
        rw [(e₁.sameBooks_enter s).contexts]
        exact ha.inRange hc
      show e₁.runFramed c d s true work = _
      rw [runFramed_refused (ha.inRange hc) (by rw [hx]; exact hp) _ rfl (by rw [enter_setStack]; exact hb),
        enter_setStack, setStack_setStack hc', hx]

/-! ## What one run of the work comes to -/

/-- A transaction that was begun is ended. -/
def ending : Option Session → Verdict → Engine → Outcome ResourceError Unit × Engine
  | none, _, e => (.value (), e)
  | some tx, v, e => e.finish tx v

/-- The result of a call whose work has run: that of the work, unless the work succeeded and its transaction failed. -/
def settled (ended : Outcome ResourceError Unit) : Outcome Failure Unit → Outcome Failure Unit
  | .value () =>
    match ended with
    | .failed err => .failed (.transaction (.resource err))
    | _ => .value ()
  | work => work

theorem settled_value (o : Outcome Failure Unit) : settled (.value ()) o = o := by
  cases o <;> rfl

theorem combine_eq_settled (e : Engine) (tx : Session) (d : Directive) (o : Outcome Failure Unit) :
    combine (e.finish tx (verdictOf d o)).1 o = settled (e.finish tx (verdictOf d o)).1 o := by
  cases o with
  | failed f => exact combine_failed
  | unwound text => exact combine_eq_unwound.2 rfl
  | value u =>
    have hended : ∀ text, (e.finish tx (verdictOf d (.value u))).1 ≠ .unwound text := fun text h => by
      cases verdictOf_eq_unwind.1 (finish_eq_unwound.1 h)
    generalize (e.finish tx (verdictOf d (.value u))).1 = ended at hended ⊢
    cases ended with
    | value u' => rfl
    | failed err => rfl
    | unwound text => exact absurd rfl (hended text)

/-- The work of a transaction that was begun runs on top of its frame, which is taken off when the transaction has been
ended. -/
theorem runFramed_begun {p : Nat} {s tx : Session} {e₁ : Engine} (hp : (e.context c).registry.get? d.backend = some p)
    (ha : Acquired e p s e₁) (hb : (e₁.enter s).1 = .ok tx) {β : Type}
    (work : Engine → (Outcome Failure Unit × β) × Engine) (hwork : ∀ e', c < e'.contexts.size → Kept c e' (work e').2) :
    let ran := work ((e₁.enter s).2.setStack c d.backend (((e.context c).stack d.backend).push tx))
    let ended := ran.2.finish tx (verdictOf d.directive ran.1.1)
    e₁.runFramed c d s true work = ((settled ended.1 ran.1.1, some ran.1.2),
      (ended.2.setStack c d.backend ((e.context c).stack d.backend)).release p s) := by
  have hc := inRange_of_registered hp
  have hx := context_congr ha.contexts c
  have hc' : c < (e₁.enter s).2.contexts.size := by
    rw [(e₁.sameBooks_enter s).contexts]
    exact ha.inRange hc
  rw [runFramed_inside (ha.inRange hc) (by rw [hx]; exact hp) hwork _ rfl (by rw [enter_setStack]; exact hb) _ rfl
    _ rfl _ rfl, enter_setStack, setStack_setStack hc', hx, finish_setStack, combine_eq_settled]
  generalize hinside : (e₁.enter s).2.setStack c d.backend (((e.context c).stack d.backend).push tx) = inside
  have hin : c < inside.contexts.size := by
    rw [← hinside, size_setStack]
    exact hc'
  have hlast : c < ((work inside).2.finish tx (verdictOf d.directive (work inside).1.1)).2.contexts.size := by
    rw [(sameBooks_finish ..).contexts, (hwork inside hin).size]
    exact hin
  rw [setStack_setStack hlast]

/-- **Where nothing is in the way** the work runs once, in an engine that is known before, and the call is settled from
what it has come to. -/
theorem run_unobstructed (h : e.obstacle? c d = none) : ∃ (inside : Engine) (tx? : Option Session)
    (leave : Engine → Engine), (tx?.isSome = true ↔ d.mode.resolve ((e.context c).isActive d.backend) = .ok .begin) ∧
      ∀ {β : Type} (work : Engine → (Outcome Failure Unit × β) × Engine),
        (∀ e', c < e'.contexts.size → Kept c e' (work e').2) →
        let ran := work inside
        let ended := ending tx? (verdictOf d.directive ran.1.1) ran.2
        e.run c d work = ((settled ended.1 ran.1.1, some ran.1.2), leave ended.2) := by
  have hplanned := planned e c d
  unfold run
  generalize e.planCall c d = plan at hplanned ⊢
  rw [h] at hplanned
  generalize hobstacle : none = obstacle at hplanned
  have hnone : d.mode.resolve ((e.context c).isActive d.backend) ≠ .ok .begin →
      ((none : Option Session).isSome = true ↔ d.mode.resolve ((e.context c).isActive d.backend) = .ok .begin) :=
    fun mode => ⟨fun h => (by cases h), fun h => absurd h mode⟩
  -- the frame of the call is taken off, and its session given back
  let leave (p : Nat) (s : Session) (e' : Engine) : Engine :=
    (e'.setStack c d.backend ((e.context c).stack d.backend)).release p s
  cases hplanned with
  | refused huntouched => cases hobstacle
  | inPlace mode hc =>
    refine ⟨e, none, id, hnone mode, fun work hwork => ?_⟩
    simp only [ending, settled_value, id]
  | @outside p s e₁ hp ha mode =>
    have hc := inRange_of_registered hp
    have hx := context_congr ha.contexts c
    refine ⟨e₁.setStack c d.backend (((e.context c).stack d.backend).push s), none, leave p s, hnone mode,
      fun work hwork => ?_⟩
    show e₁.runFramed c d s false work = _
    rw [runFramed_outside (ha.inRange hc) (by rw [hx]; exact hp) hwork _ rfl, hx]
    simp only [ending, settled_value, leave]
  | @wrapped p s e₁ hp ha mode =>
    cases hb : (e₁.enter s).1 with
    | error err =>
      rw [hb] at hobstacle
      cases hobstacle
    | ok tx =>
      exact ⟨(e₁.enter s).2.setStack c d.backend (((e.context c).stack d.backend).push tx), some tx, leave p s,
        ⟨fun _ => mode, fun _ => rfl⟩, fun work hwork => runFramed_begun hp ha hb work hwork⟩

end Run

/-! ## Work that is called back -/

/-- A transaction around a body, which is called back with the session inside it and has a cell of the caller's to write
to. -/
def around {σ : Type} (e : Engine) (s : Session) (cell : σ) (body : Session → Engine → (Verdict × σ) × Engine) :
    (Outcome ResourceError Unit × σ) × Engine :=
  match e.enter s with
  | (.error err, e) => ((.failed err, cell), e)
  | (.ok tx, e) =>
    let ran := body tx e
    let ended := ran.2.finish tx ran.1.1
    ((ended.1, ran.1.2), ended.2)

/-- What is written to the cell of a call: how its work has ended, unless it has unwound. -/
def cellOf : Outcome Failure Unit → Option (Outcome Failure Unit)
  | .unwound _ => none
  | result => some result

/-- The work of a call, called back in a transaction on the session of its frame. -/
def calledBack {β : Type} (e : Engine) (c : Nat) (d : Definition) (s : Session)
    (work : Engine → (Outcome Failure Unit × β) × Engine) :
    (Outcome ResourceError Unit × Option (Outcome Failure Unit)) × Engine :=
  e.around s none fun tx e =>
    let ran := e.runSwapped c d.backend tx work
    ((verdictOf d.directive ran.1.1, cellOf ran.1.1), ran.2)

/-- What unwinds a call whose transaction has succeeded without its work. -/
def uninvokedText : String := "Resource::run_in_transaction returned without invoking its body"

/-- The result of a call, from what the transaction returned and what the cell holds. -/
def resultOf : Outcome ResourceError Unit → Option (Outcome Failure Unit) → Outcome Failure Unit
  | .value (), some result => result
  | .failed _, some (.failed f) => .failed f
  | .failed err, _ => .failed (.transaction (.resource err))
  | .value (), none => .unwound uninvokedText
  | .unwound text, _ => .unwound text

section CalledBack

variable {β : Type} (e : Engine) (c : Nat) (d : Definition) (s : Session)
  (work : Engine → (Outcome Failure Unit × β) × Engine)

theorem combine_eq_resultOf (tx : Session) (o : Outcome Failure Unit) :
    combine (e.finish tx (verdictOf d.directive o)).1 o =
      resultOf (e.finish tx (verdictOf d.directive o)).1 (cellOf o) := by
  cases o with
  | unwound text => rfl
  | value u => cases (e.finish tx (verdictOf d.directive (.value u))).1 <;> rfl
  | failed f => cases (e.finish tx (verdictOf d.directive (.failed f))).1 <;> rfl

/-- A call in a transaction reads its result off the cell. -/
theorem runWrapped_eq :
    (e.runWrapped c d s work).1.1 = resultOf (e.calledBack c d s work).1.1 (e.calledBack c d s work).1.2 ∧
      (e.runWrapped c d s work).2 = (e.calledBack c d s work).2 := by
  unfold runWrapped calledBack around
  rw [transact_eq]
  generalize e.enter s = entered
  obtain ⟨answer, e₁⟩ := entered
  cases answer with
  | error err => exact ⟨rfl, rfl⟩
  | ok tx => exact ⟨combine_eq_resultOf .., rfl⟩

/-- **A transaction does not succeed without its work**: where it has, the cell is filled. -/
theorem calledBack_filled (h : (e.calledBack c d s work).1.1 = .value ()) : (e.calledBack c d s work).1.2 ≠ none := by
  unfold calledBack around at h ⊢
  generalize e.enter s = entered at h ⊢
  obtain ⟨answer, e₁⟩ := entered
  cases answer with
  | error err => cases h
  | ok tx =>
    simp only at h ⊢
    cases hran : (e₁.runSwapped c d.backend tx work).1.1 with
    | value u => exact fun hnone => by cases hnone
    | failed f => exact fun hnone => by cases hnone
    | unwound text =>
      rw [hran] at h
      cases h

end CalledBack

/-- **The work of a call runs once, or the call fails before it.**  If something is in the way, an unknown data source
before all else, the call fails with that, its work does not run, and every stack, every provider's count and every
store is as it was.  Otherwise the work runs once, in an engine that does not depend on it.  The call ends as the work
has, unless a transaction was begun, the work succeeded and the commit failed; and no transaction succeeds without
having called its work back. -/
theorem work_runs_once (e : Engine) (c : Nat) (d : Definition) :
    (∀ err, e.obstacle? c d = some err → ∃ left, Untouched e left ∧
      ∀ {β : Type} (work : Engine → (Outcome Failure Unit × β) × Engine),
        e.run c d work = ((.failed (.transaction err), none), left)) ∧
    (e.obstacle? c d = none → ∃ (inside : Engine) (tx? : Option Session) (leave : Engine → Engine),
      (tx?.isSome = true ↔ d.mode.resolve ((e.context c).isActive d.backend) = .ok .begin) ∧
      ∀ body calls,
        let ran := exec c body calls inside
        let ended := ending tx? (verdictOf d.directive ran.1.1) ran.2
        e.run c d (visit fun e => exec c body calls e) =
          ((settled ended.1 ran.1.1, some (⟨inside, ran.1.1, ran.2⟩, ran.1.2)), leave ended.2)) ∧
    ((e.context c).registry.get? d.backend = none →
      e.obstacle? c d = some (.resource (.unknownBackend d.backend))) ∧
    ∀ {β : Type} (e : Engine) (s : Session) (work : Engine → (Outcome Failure Unit × β) × Engine),
      let called := e.calledBack c d s work
      (e.runWrapped c d s work).1.1 = resultOf called.1.1 called.1.2 ∧
        (called.1.1 = .value () → called.1.2 ≠ none) := by
  refine ⟨fun err h => run_obstructed h, fun h => ?_, fun hp => ?_, fun e s work =>
    ⟨(e.runWrapped_eq c d s work).1, e.calledBack_filled c d s work⟩⟩
  · obtain ⟨inside, tx?, leave, hbegun, hrun⟩ := run_unobstructed h
    exact ⟨inside, tx?, leave, hbegun, fun body calls => hrun _ fun e' hc => exec_kept c body calls e' hc⟩
  · unfold obstacle?
    rw [hp]

example : (single.addContext Registry.single).2.obstacle? 0 { operation := "save" } = none := rfl

example : (single.addContext Registry.single).2.obstacle? 0 { operation := "save", mode := .mandatory } =
    some (Violation.transactionRequired.toError "save") := rfl

end Engine
end Demarcate
