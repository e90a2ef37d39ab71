import Demarcate.Proofs.Course
import Demarcate.Proofs.Places
/-!
# Fate — which definition decides over a transaction

A call does not look into its work: it does not run it, or it runs it from one engine and makes something of how it ends
(`Passage`).  So what a call comes to is a matter of what its work comes to from there (`run_congr`), and its directive
is asked only where it has begun a transaction itself (`run_directive`).

`Redirected` holds of work and the same work with other directives in calls that begin nothing; `exec_redirected`
carries it along a whole run, one case for each kind of step.  `only_beginning_decides` puts this beside what is left to
the calls that do begin a transaction.
-/
namespace Demarcate

open Engine (Verdict)
open Work (exec visit since eventsOf Ran)

namespace Engine

/-! ## Calls do not look into their work -/

/-- What runs work, with `none` in place of its report if it has not run. -/
abbrev Runner :=
  (β : Type) → (Engine → (Outcome Failure Unit × β) × Engine) → (Outcome Failure Unit × Option β) × Engine

/-- A runner does not look into the work.  It does not run it, or it runs it from one engine and makes something of how
it ends. -/
inductive Passage (run : Runner) : Prop where
  | refused (o : Outcome Failure Unit) (e : Engine) (h : ∀ β work, run β work = ((o, none), e))
  | through (inside : Engine) (leave : Outcome Failure Unit → Engine → Outcome Failure Unit × Engine)
    (h : ∀ β work, run β work = (((leave (work inside).1.1 (work inside).2).1, some (work inside).1.2),
      (leave (work inside).1.1 (work inside).2).2))

/-- Something more is made of how the work ends. -/
theorem Passage.andThen {run run' : Runner} (h : Passage run)
    (more : Outcome Failure Unit → Engine → Outcome Failure Unit × Engine)
    (hrun : ∀ β work, run' β work = (((more (run β work).1.1 (run β work).2).1, (run β work).1.2),
      (more (run β work).1.1 (run β work).2).2)) : Passage run' := by
  cases h with
  | refused o e h => exact .refused (more o e).1 (more o e).2 fun β work => by rw [hrun, h]
  | through inside leave h =>
    exact .through inside (fun o e => more (leave o e).1 (leave o e).2) fun β work => by rw [hrun, h]

/-- Puts a frame's session back after work that has ended in `o`. -/
def swapBack (c : Nat) (b : BackendName) (previous : Session) (o : Outcome Failure Unit) (e : Engine) :
    Outcome Failure Unit × Engine :=
  match e.swapTop? c b previous with
  | none => (.unwound FrameStack.replaceTopText, e)
  | some (_, e) => (o, e)

/-- Takes the frame off after work that has ended in `o`. -/
def dropBack (c : Nat) (b : BackendName) (o : Outcome Failure Unit) (e : Engine) : Outcome Failure Unit × Engine :=
  match e.dropFrame? c b with
  | some e => (o, e)
  | none => (.unwound FrameStack.popText, e)

theorem passage_runSwapped (e : Engine) (c : Nat) (b : BackendName) (s : Session) :
    Passage fun _ => e.runSwapped c b s := by
  unfold runSwapped
  cases e.swapTop? c b s with
  | none => exact .refused _ _ fun _ _ => rfl
  | some swapped =>
    obtain ⟨previous, inside⟩ := swapped
    refine .through inside (swapBack c b previous) fun β work => ?_
    simp only [swapBack]
    cases (work inside).2.swapTop? c b previous <;> rfl

theorem passage_runWrapped (e : Engine) (c : Nat) (d : Definition) (s : Session) :
    Passage fun _ => e.runWrapped c d s := by
  unfold runWrapped
  simp only [transact_eq]
  rcases e.enter s with ⟨err | tx, e₁⟩
  · exact .refused _ _ fun _ _ => rfl
  · exact (passage_runSwapped e₁ c d.backend tx).andThen (fun o e =>
      (combine (e.finish tx (verdictOf d.directive o)).1 o, (e.finish tx (verdictOf d.directive o)).2)) fun _ _ => rfl

theorem passage_runFramed (e : Engine) (c : Nat) (d : Definition) (s : Session) (wrap : Bool) :
    Passage fun _ => e.runFramed c d s wrap := by
  have hpushed : Passage fun β work =>
      if wrap then (e.pushFrame c d.backend s).runWrapped (β := β) c d s work
      else (((work (e.pushFrame c d.backend s)).1.1, some (work (e.pushFrame c d.backend s)).1.2),
        (work (e.pushFrame c d.backend s)).2) := by
    cases wrap with
    | true => exact passage_runWrapped ..
    | false => exact .through (e.pushFrame c d.backend s) (fun o e => (o, e)) fun _ _ => rfl
  refine hpushed.andThen (dropBack c d.backend) fun β work => ?_
  unfold runFramed
  simp only [dropBack]
  generalize (if wrap then _ else _ : (Outcome Failure Unit × Option β) × Engine) = ran
  cases ran.2.dropFrame? c d.backend <;> rfl

/-- **A call does not look into its work.** -/
theorem passage_run (e : Engine) (c : Nat) (d : Definition) : Passage fun _ => e.run c d := by
  unfold run
  rcases e.planCall c d with ⟨err | plan, e₁⟩
  · exact .refused _ _ fun _ _ => rfl
  cases plan with
  | inPlace => exact .through e₁ (fun o e => (o, e)) fun _ _ => rfl
  | onFresh s wrap => exact passage_runFramed e₁ c d s wrap

/-! ## Directives that are not asked -/

/-- The engine that the work of a call comes upon; `none` if the work does not run. -/
def inside? (e : Engine) (c : Nat) (d : Definition) : Option Engine :=
  (e.run c d fun e => ((.value (), e), e)).1.2

/-- The call begins a transaction and runs its work in it. -/
def Begins (e : Engine) (c : Nat) (d : Definition) : Prop :=
  d.mode.resolve ((e.context c).isActive d.backend) = .ok .begin ∧ (e.inside? c d).isSome = true

variable {e e₁ : Engine} {c : Nat} {d : Definition} {s : Session} {β : Type}

theorem resolve_of_planCall (h : e.planCall c d = (.ok (.onFresh s true), e₁)) :
    d.mode.resolve ((e.context c).isActive d.backend) = .ok .begin := by
  unfold planCall at h
  split at h
  · cases h
  split at h
  · cases h
  rename_i r hr
  split at h
  · split at h
    · cases h
    · cases r <;> cases h
      exact hr
  · cases h

theorem runWrapped_directive (hnone : (e.runWrapped c d s fun e => ((.value (), e), e)).1.2 = none) (x : Directive)
    (work : Engine → (Outcome Failure Unit × β) × Engine) :
    e.runWrapped c { d with directive := x } s work = e.runWrapped c d s work := by
  unfold runWrapped at hnone ⊢
  rw [transact_eq] at hnone
  rw [transact_eq, transact_eq]
  generalize e.enter s = entered at hnone ⊢
  obtain ⟨err | tx, e₁⟩ := entered
  · rfl
  simp only [runSwapped] at hnone ⊢
  generalize e₁.swapTop? c d.backend tx = swapped at hnone ⊢
  cases swapped with
  | none => rfl
  | some swapped =>
    -- work that would run would have reported
    simp only at hnone
    split at hnone <;> cases hnone

/-- **A call that begins no transaction does not ask its directive.** -/
theorem run_directive (h : ¬ e.Begins c d) (x : Directive) (work : Engine → (Outcome Failure Unit × β) × Engine) :
    e.run c { d with directive := x } work = e.run c d work := by
  unfold run
  have hplan : e.planCall c { d with directive := x } = e.planCall c d := rfl
  rw [hplan]
  rcases hd : e.planCall c d with ⟨err | plan, e₁⟩
  · rfl
  cases plan with
  | inPlace => rfl
  | onFresh s wrap =>
    cases wrap with
    | false => rfl
    | true =>
      have hnone : e.inside? c d = none := by
        cases hin : e.inside? c d with
        | none => rfl
        | some inside => exact absurd ⟨resolve_of_planCall hd, by rw [hin]; rfl⟩ h
      unfold inside? run at hnone
      rw [hd] at hnone
      simp only [runFramed, if_true] at hnone ⊢
      rw [runWrapped_directive _ x work]
      split at hnone <;> exact hnone

/-- **What a call comes to depends on what its work comes to**, from the engine that the work comes upon. -/
theorem run_congr {β' : Type} (work : Engine → (Outcome Failure Unit × β) × Engine)
    (work' : Engine → (Outcome Failure Unit × β') × Engine)
    (h : ∀ inside, e.inside? c d = some inside →
      (work' inside).1.1 = (work inside).1.1 ∧ (work' inside).2 = (work inside).2) :
    ((e.run c d work').1.1 = (e.run c d work).1.1 ∧ (e.run c d work').2 = (e.run c d work).2) ∧
      ((e.run c d work).1.2 = none ∧ (e.run c d work').1.2 = none ∨
        ∃ inside, e.inside? c d = some inside ∧ (e.run c d work).1.2 = some (work inside).1.2 ∧
          (e.run c d work').1.2 = some (work' inside).1.2) := by
  cases passage_run e c d with
  | refused o e' hrun =>
    rw [hrun β work, hrun β' work']
    exact ⟨⟨rfl, rfl⟩, .inl ⟨rfl, rfl⟩⟩
  | through inside leave hrun =>
    have hinside : e.inside? c d = some inside := by
      unfold inside?
      rw [hrun]
    obtain ⟨houtcome, hleft⟩ := h inside hinside
    rw [hrun β work, hrun β' work', houtcome, hleft]
    exact ⟨⟨rfl, rfl⟩, .inr ⟨inside, hinside, rfl, rfl⟩⟩

/-- A call that joins, or that runs on what there is, comes to what its work comes to. -/
theorem run_inPlace {p : Nat} {r : Resolution} (hp : (e.context c).registry.get? d.backend = some p)
    (hr : d.mode.resolve ((e.context c).isActive d.backend) = .ok r) (hi : r.isInitiator = false)
    (work : Engine → (Outcome Failure Unit × β) × Engine) :
    e.run c d work = (((work e).1.1, some (work e).1.2), (work e).2) := by
  unfold run planCall provider?
  rw [hp]
  simp only [hr, hi, Bool.false_eq_true, if_false]

end Engine

/-! ## The same work under other directives -/

def Definition.undirected (d : Definition) : Definition := { d with directive := {} }

/-- An event without the directives of its calls. -/
def Event.undirected : Event → Event
  | .seen calls e => .seen (calls.map Definition.undirected) e
  | .wrote s slot before outcome after => .wrote s slot before outcome after
  | .called calls d before visit outcome after =>
    .called (calls.map Definition.undirected) d.undirected before visit outcome after

namespace Work

/-- `Redirected c e w w'`: from `e` on, `w'` does in the context `c` what `w` does, and each of its calls is a call of
`w` that may have another directive if it begins no transaction. -/
inductive Redirected (c : Nat) : Engine → Work → Work → Prop where
  | done {e : Engine} (outcome : Outcome Failure Unit) : Redirected c e (.done outcome) (.done outcome)
  | look {e : Engine} {next next' : Engine → Work} (h : Redirected c e (next e) (next' e)) :
    Redirected c e (.look next) (.look next')
  | resource {e : Engine} {b : BackendName} {next next' : Except TransactionError Session → Work}
      (h : Redirected c (e.resource c b).2 (next (e.resource c b).1) (next' (e.resource c b).1)) :
    Redirected c e (.resource b next) (.resource b next')
  | write {e : Engine} {s : Session} {t : TableName} {change : Change} {next next' : Outcome StorageError Unit → Work}
      (h : Redirected c (e.apply s t change).2 (next (e.apply s t change).1) (next' (e.apply s t change).1)) :
    Redirected c e (.write s t change next) (.write s t change next')
  | begin {e : Engine} {s : Session} {next next' : Except ResourceError Session → Work}
      (h : Redirected c (e.enter s).2 (next (e.enter s).1) (next' (e.enter s).1)) :
    Redirected c e (.begin s next) (.begin s next')
  | finish {e : Engine} {tx : Session} {v : Verdict} {next next' : Outcome ResourceError Unit → Work}
      (hheld : (e.context c).holds e.stores tx = true → Redirected c e (next (.value ())) (next' (.value ())))
      (hfinish : (e.context c).holds e.stores tx = false →
        Redirected c (e.finish tx v).2 (next (e.finish tx v).1) (next' (e.finish tx v).1)) :
    Redirected c e (.finish tx v next) (.finish tx v next')
  | run {e : Engine} {d : Definition} {x : Directive} {body body' : Work} {next next' : Outcome Failure Unit → Work}
      (hx : e.Begins c d → x = d.directive)
      (hbody : ∀ inside, e.inside? c d = some inside → Redirected c inside body body')
      (hnext : Redirected c (e.run c d (exec c body [])).2 (next (e.run c d (exec c body [])).1.1)
        (next' (e.run c d (exec c body [])).1.1)) :
    Redirected c e (.run d body next) (.run { d with directive := x } body' next')

def undirected (ran : Ran) : Ran := ((ran.1.1, ran.1.2.map Event.undirected), ran.2)

theorem undirected_since (events : List Event) (ran : Ran) :
    undirected (since events ran) = since (events.map Event.undirected) (undirected ran) := by
  simp [undirected, since]

section Exec

variable {c : Nat} {e : Engine} {calls : List Definition}

theorem exec_run (d : Definition) (body : Work) (next : Outcome Failure Unit → Work) :
    exec c (.run d body next) calls e =
      let called := e.run c d (visit fun e => exec c body (calls ++ [d]) e)
      since (.seen calls e :: eventsOf calls d e called) (exec c (next called.1.1) calls called.2) := rfl

variable {tx : Session} {v : Verdict} {next : Outcome ResourceError Unit → Work}

theorem exec_held (h : (e.context c).holds e.stores tx = true) :
    exec c (.finish tx v next) calls e = since [.seen calls e] (exec c (next (.value ())) calls e) := by
  rw [exec, if_pos h]

theorem exec_finish (h : ¬ (e.context c).holds e.stores tx = true) : exec c (.finish tx v next) calls e =
    since [.seen calls e] (exec c (next (e.finish tx v).1) calls (e.finish tx v).2) := by
  rw [exec, if_neg h]

end Exec

/-- Of what calls work is done makes no difference to it. -/
theorem exec_calls (c : Nat) : ∀ (w : Work) (calls calls' : List Definition) (e : Engine),
    (exec c w calls' e).1.1 = (exec c w calls e).1.1 ∧ (exec c w calls' e).2 = (exec c w calls e).2
  | .done outcome, calls, calls', e => ⟨rfl, rfl⟩
  | .look next, calls, calls', e => exec_calls c (next e) calls calls' e
  | .resource b next, calls, calls', e => exec_calls c (next (e.resource c b).1) calls calls' _
  | .write s t change next, calls, calls', e => exec_calls c (next (e.apply s t change).1) calls calls' _
  | .begin s next, calls, calls', e => exec_calls c (next (e.enter s).1) calls calls' _
  | .finish tx v next, calls, calls', e => by
    by_cases hheld : (e.context c).holds e.stores tx = true
    · rw [exec_held hheld, exec_held hheld]
      exact exec_calls c (next (.value ())) calls calls' e
    · rw [exec_finish hheld, exec_finish hheld]
      exact exec_calls c (next (e.finish tx v).1) calls calls' _
  | .run d body next, calls, calls', e => by
    obtain ⟨⟨houtcome, hleft⟩, -⟩ := Engine.run_congr (e := e) (c := c) (d := d)
      (visit fun e => exec c body (calls ++ [d]) e) (visit fun e => exec c body (calls' ++ [d]) e)
      fun inside _ => exec_calls c body (calls ++ [d]) (calls' ++ [d]) inside
    have hnext := exec_calls c (next (e.run c d (visit fun e => exec c body (calls ++ [d]) e)).1.1) calls calls'
      (e.run c d (visit fun e => exec c body (calls ++ [d]) e)).2
    simp only [exec_run, since]
    rw [houtcome, hleft]
    exact hnext

/-- The events of two calls are the same but for directives, if the work of both comes to the same. -/
theorem undirected_eventsOf {c : Nat} {e : Engine} {d : Definition} {x : Directive} {calls calls' : List Definition}
    (hcalls : calls'.map Definition.undirected = calls.map Definition.undirected) (work work' : Engine → Ran)
    (h : ∀ inside, e.inside? c d = some inside → undirected (work' inside) = undirected (work inside)) :
    (e.run c d (visit work')).1.1 = (e.run c d (visit work)).1.1 ∧
      (e.run c d (visit work')).2 = (e.run c d (visit work)).2 ∧
      (eventsOf calls' { d with directive := x } e (e.run c d (visit work'))).map Event.undirected =
        (eventsOf calls d e (e.run c d (visit work))).map Event.undirected := by
  have hends : ∀ inside, e.inside? c d = some inside →
      (work' inside).1.1 = (work inside).1.1 ∧ (work' inside).2 = (work inside).2 := fun inside hin =>
    ⟨congrArg (·.1.1) (h inside hin), congrArg (·.2) (h inside hin)⟩
  obtain ⟨⟨houtcome, hleft⟩, hreport⟩ :=
    Engine.run_congr (e := e) (c := c) (d := d) (visit work) (visit work') hends
  refine ⟨houtcome, hleft, ?_⟩
  have hd : Definition.undirected { d with directive := x } = d.undirected := rfl
  unfold eventsOf
  rw [houtcome, hleft, List.map_append, List.map_append]
  obtain ⟨hnone, hnone'⟩ | ⟨inside, hin, hsome, hsome'⟩ := hreport
  · rw [hnone, hnone']
    simp [Event.undirected, hcalls, hd]
  · obtain ⟨hran, hran'⟩ := hends inside hin
    have hevents : (work' inside).1.2.map Event.undirected = (work inside).1.2.map Event.undirected :=
      congrArg (·.1.2) (h inside hin)
    rw [hsome, hsome']
    simp [Event.undirected, hcalls, hd, visit, hran, hran', hevents]

/-- **Directives that begin nothing decide nothing**: under others, work comes to the same, and all that happens in it
is the same but for the directives. -/
theorem exec_redirected {c : Nat} {e : Engine} {w w' : Work} (h : Redirected c e w w') :
    ∀ {calls calls' : List Definition}, calls'.map Definition.undirected = calls.map Definition.undirected →
      undirected (exec c w' calls' e) = undirected (exec c w calls e) := by
  induction h with
  | done outcome =>
    intro calls calls' hcalls
    simp [exec, undirected, Event.undirected, hcalls]
  | look h ih =>
    intro calls calls' hcalls
    simp only [exec, undirected_since, ih hcalls]
    simp [Event.undirected, hcalls]
  | resource h ih =>
    intro calls calls' hcalls
    simp only [exec, undirected_since, ih hcalls]
    simp [Event.undirected, hcalls]
  | write h ih =>
    intro calls calls' hcalls
    simp only [exec, undirected_since, ih hcalls]
    simp [Event.undirected, hcalls]
  | begin h ih =>
    intro calls calls' hcalls
    simp only [exec, undirected_since, ih hcalls]
    simp [Event.undirected, hcalls]
  | @finish e tx v next next' hheld hfinish ihheld ihfinish =>
    intro calls calls' hcalls
    by_cases hholds : (e.context c).holds e.stores tx = true
    · rw [exec_held hholds, exec_held hholds, undirected_since, undirected_since, ihheld hholds hcalls]
      simp [Event.undirected, hcalls]
    · rw [exec_finish hholds, exec_finish hholds, undirected_since, undirected_since,
        ihfinish (Bool.eq_false_iff.2 hholds) hcalls]
      simp [Event.undirected, hcalls]
  | @run e d x body body' next next' hx hbody hnext ihbody ihnext =>
    intro calls calls' hcalls
    generalize hinnerCalls : calls' ++ [{ d with directive := x }] = inner
    have hrun : e.run c { d with directive := x } (visit fun e => exec c body' inner e) =
        e.run c d (visit fun e => exec c body' inner e) := by
      by_cases hb : e.Begins c d
      · rw [hx hb]
      · exact Engine.run_directive hb x _
    have hinner : inner.map Definition.undirected = (calls ++ [d]).map Definition.undirected := by
      rw [← hinnerCalls]
      simp [hcalls, Definition.undirected]
    obtain ⟨houtcome, hleft, hevents⟩ := undirected_eventsOf (x := x) hcalls
      (fun e => exec c body (calls ++ [d]) e) (fun e => exec c body' inner e) fun inside hin =>
        ihbody inside hin hinner
    -- what follows the call was compared from where the call of `d` ends, whatever its enclosing calls
    obtain ⟨⟨hsame, hsameLeft⟩, -⟩ := Engine.run_congr (e := e) (c := c) (d := d)
      (visit fun e => exec c body (calls ++ [d]) e) (exec c body []) fun inside _ =>
        exec_calls c body (calls ++ [d]) [] inside
    rw [hsame, hsameLeft] at ihnext
    simp only [exec_run, undirected_since]
    rw [hinnerCalls, hrun, houtcome, hleft, List.map_cons, List.map_cons, hevents, ihnext hcalls]
    simp [Event.undirected, hcalls]

/-! ## Work without the call around it -/

/-- Work that goes on as its end says. -/
def andThen : Work → (Outcome Failure Unit → Work) → Work
  | .done outcome, k => k outcome
  | .look next, k => .look fun e => (next e).andThen k
  | .resource b next, k => .resource b fun answer => (next answer).andThen k
  | .write s t change next, k => .write s t change fun answer => (next answer).andThen k
  | .begin s next, k => .begin s fun answer => (next answer).andThen k
  | .finish tx v next, k => .finish tx v fun answer => (next answer).andThen k
  | .run d body next, k => .run d body fun answer => (next answer).andThen k

theorem exec_andThen (c : Nat) (k : Outcome Failure Unit → Work) (calls : List Definition) :
    ∀ (w : Work) (e : Engine),
    (exec c (w.andThen k) calls e).1.1 = (exec c (k (exec c w calls e).1.1) calls (exec c w calls e).2).1.1 ∧
      (exec c (w.andThen k) calls e).2 = (exec c (k (exec c w calls e).1.1) calls (exec c w calls e).2).2
  | .done outcome, e => ⟨rfl, rfl⟩
  | .look next, e => exec_andThen c k calls (next e) e
  | .resource b next, e => exec_andThen c k calls (next (e.resource c b).1) _
  | .write s t change next, e => exec_andThen c k calls (next (e.apply s t change).1) _
  | .begin s next, e => exec_andThen c k calls (next (e.enter s).1) _
  | .finish tx v next, e => by
    by_cases hheld : (e.context c).holds e.stores tx = true
    · rw [andThen, exec_held hheld, exec_held hheld]
      exact exec_andThen c k calls (next (.value ())) e
    · rw [andThen, exec_finish hheld, exec_finish hheld]
      exact exec_andThen c k calls (next (e.finish tx v).1) _
  | .run d body next, e =>
    exec_andThen c k calls (next (e.run c d (visit fun e => exec c body (calls ++ [d]) e)).1.1)
      (e.run c d (visit fun e => exec c body (calls ++ [d]) e)).2

/-- A call that runs in place comes to its work, done there and then. -/
theorem exec_inPlace {e : Engine} {c p : Nat} {d : Definition} {r : Resolution} {body : Work}
    {next : Outcome Failure Unit → Work} {calls : List Definition}
    (hp : (e.context c).registry.get? d.backend = some p)
    (hr : d.mode.resolve ((e.context c).isActive d.backend) = .ok r) (hi : r.isInitiator = false) :
    (exec c (.run d body next) calls e).1.1 = (exec c (body.andThen next) calls e).1.1 ∧
      (exec c (.run d body next) calls e).2 = (exec c (body.andThen next) calls e).2 := by
  obtain ⟨houtcome, hleft⟩ := exec_calls c body calls (calls ++ [d]) e
  obtain ⟨hthen, hthenLeft⟩ := exec_andThen c next calls body e
  rw [hthen, hthenLeft]
  rw [exec_run, Engine.run_inPlace hp hr hi]
  simp only [visit, since]
  rw [houtcome, hleft]
  exact ⟨rfl, rfl⟩

end Work

/-! ## What becomes of a transaction -/

/-- The transaction of a call ends as the call's own directive says of how the call's own work has ended. -/
structure Decided (c : Nat) (d : Definition) (v : Visit) (outcome : Outcome Failure Unit) (after : Engine)
    (tx : Session) : Prop where
  current : (v.entered.context c).current? d.backend = some tx
  inside : tx.isInTransaction = true
  answer : outcome = Engine.combine (v.left.finish tx (Engine.verdictOf d.directive v.outcome)).1 v.outcome
  stores : after.stores = (v.left.finish tx (Engine.verdictOf d.directive v.outcome)).2.stores
  /-- Whatever failed in the work: where the work has gone on to a value, the transaction is committed. -/
  committed : v.outcome = .value () → after.stores = (v.left.finish tx .commit).2.stores ∧
    outcome = Engine.combine (v.left.finish tx .commit).1 (.value ())

def Event.Decided (c : Nat) : Event → Prop
  | .called _ d before (some v) outcome after => before.Begins c d → ∃ tx, Demarcate.Decided c d v outcome after tx
  | _ => True

theorem Course.decided {e : Engine} {c : Nat} {d : Definition} {work : Engine → Ran}
    {called : (Outcome Failure Unit × Option (Visit × List Event)) × Engine} (h : Course e c d (visit work) called)
    (hc : c < e.contexts.size) (calls : List Definition) :
    (Event.called calls d e (called.1.2.map (·.1)) called.1.1 called.2).Decided c := by
  cases h with
  | unknown hp => trivial
  | violated hp hr => trivial
  | starved hp hr hi => trivial
  | notBegun hp hr ha framed hframed hb => trivial
  | inPlace hp hr hi =>
    intro hbegins
    rw [hbegins.1] at hr
    cases hr
    cases hi
  | suspended hp hr ha inside hinside =>
    intro hbegins
    rw [hbegins.1] at hr
    cases hr
  | @begun p s tx e₁ hp hr ha framed hframed hb inside hinside back hback ended hended =>
    intro _
    have htop : (inside.context c).current? d.backend = some tx := by
      unfold Context.current?
      rw [(framed_inside hc ha hframed hinside).top, FrameStack.current?_push]
    -- the session in the frame has no part in how a transaction ends
    rw [hback, Engine.finish_setStack] at hended
    have houtcome : ended.1 = ((work inside).2.finish tx (Engine.verdictOf d.directive (work inside).1.1)).1 := by
      rw [hended]
      rfl
    have hstores : ended.2.stores =
        ((work inside).2.finish tx (Engine.verdictOf d.directive (work inside).1.1)).2.stores := by
      rw [hended]
      rfl
    refine ⟨tx, htop, (Session.begin_ok (Engine.enter_ok hb).1).2, ?_, ?_, fun hvalue => ?_⟩
    · rw [houtcome]
      rfl
    · rw [Engine.stores_release]
      exact hstores
    · have hvalue : (work inside).1.1 = .value () := hvalue
      rw [Engine.stores_release, Engine.stores_setStack, hstores, houtcome]
      simp only [visit, hvalue]
      exact ⟨rfl, rfl⟩

/-- **Only the definition that begins a transaction decides over it.**  Other directives in calls that begin none change
nothing: no answer of a call, no row, no stack.  A call that joins a transaction, or runs on what there is, comes to
what its work comes to without it.  So what fails in such a call and is not passed on neither rolls the transaction
around it back nor keeps it from being committed: that ends as its own definition says of its own work. -/
theorem only_beginning_decides {e : Engine} {c : Nat} (hc : c < e.contexts.size) (w : Work) (calls : List Definition) :
    (∀ w', Work.Redirected c e w w' → Work.undirected (exec c w' calls e) = Work.undirected (exec c w calls e)) ∧
      (∀ d p r next, (e.context c).registry.get? d.backend = some p →
        d.mode.resolve ((e.context c).isActive d.backend) = .ok r → r.isInitiator = false →
        (∀ (β : Type) (work : Engine → (Outcome Failure Unit × β) × Engine),
          e.run c d work = (((work e).1.1, some (work e).1.2), (work e).2)) ∧
        (exec c (.run d w next) calls e).1.1 = (exec c (w.andThen next) calls e).1.1 ∧
        (exec c (.run d w next) calls e).2 = (exec c (w.andThen next) calls e).2) ∧
      ∀ ev ∈ (exec c w calls e).1.2, ev.Decided c := by
  refine ⟨fun w' h => Work.exec_redirected h rfl, fun d p r next hp hr hi => ⟨fun β work => ?_, ?_⟩, ?_⟩
  · exact Engine.run_inPlace hp hr hi work
  · exact Work.exec_inPlace hp hr hi
  · exact exec_events c (fun _ _ => trivial) (fun _ _ _ _ _ => trivial)
      (fun d body calls e called hc h => h.decided hc calls) w calls e hc

/-- A call that has written a row and then fails in the transaction around it, which goes on as if it had not. -/
def Work.forgiving (x : Directive) : Work :=
  .run { operation := "outer" }
    (.run { operation := "inner", mode := .mandatory, directive := x }
      (.resource BackendName.default fun
        | .ok s =>
          .write s ⟨"users"⟩ (.insert ⟨⟨"ada"⟩, 1, "", "", ∅⟩) fun _ => .done (.failed (.app ⟨"app"⟩ "boom"))
        | .error err => .done (.failed (.transaction err)))
      fun _ => .done (.value ()))
    .done

theorem forgiving_decides :
    let e := (Engine.single.addContext Registry.single).2
    let other : Directive := { noRollbackOn := [⟨"app"⟩] }
    let asIs : Definition := { operation := "as is", mode := .supports }
    0 < e.contexts.size ∧ Work.Redirected 0 e (.forgiving {}) (.forgiving other) ∧
      (e.context 0).registry.get? asIs.backend = some 0 ∧
      asIs.mode.resolve ((e.context 0).isActive asIs.backend) = .ok .runAsIs ∧
      Resolution.isInitiator .runAsIs = false ∧
      (exec 0 (.forgiving {}) [] e).1.1 = .value () ∧
      (((exec 0 (.forgiving {}) [] e).2.stores.memory 0).tables.row? ⟨⟨"users"⟩, ⟨"ada"⟩⟩).isSome = true ∧
      Work.undirected (exec 0 (.forgiving other) [] e) = Work.undirected (exec 0 (.forgiving {}) [] e) ∧
      (exec 0 (.run asIs (.forgiving {}) .done) [] e).2 = (exec 0 ((Work.forgiving {}).andThen .done) [] e).2 ∧
      ∀ ev ∈ (exec 0 (.forgiving {}) [] e).1.2, ev.Decided 0 := by
  intro e other asIs
  have hc : 0 < e.contexts.size := by decide
  have hp : (e.context 0).registry.get? asIs.backend = some 0 := by decide
  have hr : asIs.mode.resolve ((e.context 0).isActive asIs.backend) = .ok .runAsIs := rfl
  have hredirected : Work.Redirected 0 e (.forgiving {}) (.forgiving other) := by
    refine .run (fun _ => rfl) (fun inside _ => .run (x := other) (fun hbegins => ?_) (fun inside _ => ?_) ?_) ?_
    · -- a call that is mandatory joins or is refused
      have := hbegins.1
      cases hactive : (inside.context 0).isActive BackendName.default <;> rw [hactive] at this <;> cases this
    · refine .resource ?_
      split
      · exact .write (.done _)
      · exact .done _
    · exact .done _
    · exact .done _
  obtain ⟨hsame, hplace, hdecided⟩ := only_beginning_decides hc (.forgiving {}) []
  exact ⟨hc, hredirected, hp, hr, rfl, by decide +kernel, by decide +kernel, hsame _ hredirected,
    (hplace asIs 0 .runAsIs .done hp hr rfl).2.2, hdecided⟩

end Demarcate
