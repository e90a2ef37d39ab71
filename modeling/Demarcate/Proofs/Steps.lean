import Demarcate.Proofs.Course
import Demarcate.Proofs.Places
/-!
# Steps — what work does to a context, one thing after the other

Whatever work does in a context, and whatever its calls do, comes to steps of five kinds (`Engine.Step`): the stores are
worked on, a session is kept besides the frames, a frame is put on a stack, its session is swapped for its twin, and the
frame is taken off.  `exec_stepped` says that the engines which come up in work lie on one path of such steps, each of
them before the end.  So what every step keeps is so at every moment.
-/
namespace Demarcate
namespace Engine

/-- `Step c e e'`: one thing that is done by work in the context `c`. -/
inductive Step (c : Nat) (e : Engine) : Engine → Prop where
  /-- The contexts and the providers have no part in it. -/
  | aside {e' : Engine} (hbooks : SameBooks e e') (hissued : e.stores.issued ≤ e'.stores.issued) : Step c e e'
  | detached {b : BackendName} {p : Nat} {s : Session} {e₁ : Engine} (hc : c < e.contexts.size)
      (hp : (e.context c).registry.get? b = some p) (hnone : (e.context c).detached.get? b = none)
      (ha : Acquired e p s e₁) :
    Step c e (e₁.setContext c { e.context c with detached := (e.context c).detached.insert b s })
  | pushed {b : BackendName} {p : Nat} {s : Session} {e₁ : Engine} (hc : c < e.contexts.size)
      (hp : (e.context c).registry.get? b = some p) (ha : Acquired e p s e₁) :
    Step c e (e₁.setStack c b (((e.context c).stack b).push s))
  | swapped {b : BackendName} {s t : Session} {st : FrameStack Session} (hc : c < e.contexts.size)
      (hst : (e.context c).stack b = st.push s) (hid : t.id = s.id) : Step c e (e.setStack c b (st.push t))
  | dropped {b : BackendName} {p : Nat} {s : Session} {st : FrameStack Session} (hc : c < e.contexts.size)
      (hst : (e.context c).stack b = st.push s) (hp : (e.context c).registry.get? b = some p)
      (hs : handsOut (e.provider p).source s = true) : Step c e ((e.setStack c b st).release p s)

inductive Steps (c : Nat) (e : Engine) : Engine → Prop where
  | refl : Steps c e e
  | tail {e₁ e₂ : Engine} (h : Steps c e e₁) (hs : Step c e₁ e₂) : Steps c e e₂

variable {c : Nat} {e e₁ e₂ : Engine}

theorem Step.steps (h : Step c e e₁) : Steps c e e₁ := .tail .refl h

/-- Providers stay on their stores. -/
theorem Step.source (h : Step c e e₁) (p : Nat) : (e₁.provider p).source = (e.provider p).source := by
  cases h with
  | aside hbooks hissued => rw [hbooks.provider]
  | detached hc hp hnone ha =>
    exact (congrArg Provider.source (provider_congr ha.providers p)).trans (source_setOpened ..)
  | pushed hc hp ha => exact (congrArg Provider.source (provider_congr ha.providers p)).trans (source_setOpened ..)
  | swapped hc hst hid => rfl
  | @dropped b p' s st hc hst hp hs =>
    have hrelease := providers_release (e := e.setStack c b st) hs
    exact (congrArg Provider.source (provider_congr hrelease p)).trans (source_setOpened ..)

namespace Steps

theorem aside (hbooks : SameBooks e e₁) (hissued : e.stores.issued ≤ e₁.stores.issued) : Steps c e e₁ :=
  (Step.aside hbooks hissued).steps

theorem trans (h₁ : Steps c e e₁) (h₂ : Steps c e₁ e₂) : Steps c e e₂ := by
  induction h₂ with
  | refl => exact h₁
  | tail _ hs ih => exact ih.tail hs

/-- **What every step keeps, a path of steps keeps.** -/
theorem keeps {P : Engine → Prop} (hstep : ∀ {e e' : Engine}, P e → Step c e e' → P e') (h : Steps c e e₁)
    (he : P e) : P e₁ := by
  induction h with
  | refl => exact he
  | tail _ hs ih => exact hstep ih hs

theorem source (h : Steps c e e₁) (p : Nat) : (e₁.provider p).source = (e.provider p).source :=
  h.keeps (fun he hs => (hs.source p).trans he) rfl

end Steps

theorem steps_count (c : Nat) (e : Engine) (k : ProviderCall) : Steps c e (e.count k).2 :=
  .aside (e.sameBooks_count k) (Nat.le_of_eq (congrArg Stores.issued (e.stores_count k).symm))

theorem steps_enter (c : Nat) (e : Engine) (s : Session) : Steps c e (e.enter s).2 :=
  .aside (e.sameBooks_enter s) (le_issued_enter e s)

theorem steps_finish (c : Nat) (e : Engine) (tx : Session) (v : Verdict) : Steps c e (e.finish tx v).2 :=
  .aside (e.sameBooks_finish tx v) (confined_finish e tx v).issued

theorem steps_apply (c : Nat) (e : Engine) (s : Session) (t : TableName) (change : Change) :
    Steps c e (e.apply s t change).2 :=
  .aside (e.sameBooks_apply s t change) (Session.confined_apply e.stores s t change).issued

theorem steps_resource (hc : c < e.contexts.size) (b : BackendName) : Steps c e (e.resource c b).2 := by
  obtain hsame | ⟨p, s, e₁, hp, hnone, ha, hkept⟩ | hcount := e.resource_cases c b
  · rw [hsame]
    exact .refl
  · rw [hkept]
    exact (Step.detached hc hp hnone ha).steps
  · rw [hcount]
    exact steps_count c e .acquire

end Engine

open Engine (Acquired Steps handsOut)
open Work (exec visit since eventsOf Ran)

/-! ## The steps of a call -/

section Course

variable {c p : Nat} {d : Definition} {e e₁ framed inside : Engine} {s tx : Session}

theorem steps_entered (hc : c < e.contexts.size) (hp : (e.context c).registry.get? d.backend = some p)
    (ha : Acquired e p s e₁) (hframed : framed = e₁.setStack c d.backend (((e.context c).stack d.backend).push s)) :
    Steps c e (framed.enter s).2 := by
  have hpushed : Steps c e framed := hframed ▸ (Engine.Step.pushed hc hp ha).steps
  exact hpushed.trans (framed.steps_enter c s)

theorem steps_inside (hc : c < e.contexts.size) (hp : (e.context c).registry.get? d.backend = some p)
    (ha : Acquired e p s e₁) (hframed : framed = e₁.setStack c d.backend (((e.context c).stack d.backend).push s))
    (hb : (framed.enter s).1 = .ok tx)
    (hinside : inside = (framed.enter s).2.setStack c d.backend (((e.context c).stack d.backend).push tx)) :
    Steps c e inside := by
  have hf : Framed c d.backend s e framed := hframed ▸ .push hc ha.contexts
  have hf' := hf.kept (kept_sameBooks (framed.sameBooks_enter s))
  rw [hinside]
  have hid : tx.id = s.id := (Session.begin_ok (Engine.enter_ok hb).1).1
  exact (steps_entered hc hp ha hframed).tail (.swapped (hf'.inRange hc) hf'.top hid)

/-- The frame of a call is taken off. -/
theorem Framed.steps_drop {left : Engine} (h : Framed c d.backend s e left) (hc : c < e.contexts.size)
    (hp : (e.context c).registry.get? d.backend = some p) (ha : Acquired e p s e₁) (hleft : Steps c e left) :
    Steps c left ((left.setStack c d.backend ((e.context c).stack d.backend)).release p s) := by
  refine (Engine.Step.dropped (h.inRange hc) h.top (h.registry ▸ hp) ?_).steps
  rw [hleft.source]
  exact ha.handed

/-- **The work of a call has run or it has not**, and there are steps to it and from it. -/
theorem Course.steps {work : Engine → Ran}
    {called : (Outcome Failure Unit × Option (Visit × List Event)) × Engine} (h : Course e c d (visit work) called)
    (hc : c < e.contexts.size) (hkept : ∀ e', c < e'.contexts.size → Kept c e' (work e').2)
    (hwork : ∀ e', c < e'.contexts.size → Steps c e' (work e').2) :
    (called.1.2 = none ∧ Steps c e called.2) ∨
      ∃ inside, c < inside.contexts.size ∧ called.1.2 = some (visit work inside).1.2 ∧ Steps c e inside ∧
        Steps c (work inside).2 called.2 := by
  cases h with
  | unknown hp => exact .inl ⟨rfl, .refl⟩
  | violated hp hr => exact .inl ⟨rfl, .refl⟩
  | inPlace hp hr hi => exact .inr ⟨e, hc, rfl, .refl, .refl⟩
  | starved hp hr hi => exact .inl ⟨rfl, e.steps_count c .acquire⟩
  | @suspended p s e₁ hp hr ha inside hinside =>
    have hi : Framed c d.backend s e inside := hinside ▸ .push hc ha.contexts
    have hin : Steps c e inside := hinside ▸ (Engine.Step.pushed hc hp ha).steps
    have hl := hi.kept (hkept inside (hi.inRange hc))
    exact .inr ⟨inside, hi.inRange hc, rfl, hin, hl.steps_drop hc hp ha (hin.trans (hwork inside (hi.inRange hc)))⟩
  | @notBegun p s e₁ err hp hr ha framed hframed hb =>
    have hf : Framed c d.backend s e framed := hframed ▸ .push hc ha.contexts
    have hentered := steps_entered hc hp ha hframed
    have hf' := hf.kept (kept_sameBooks (framed.sameBooks_enter s))
    exact .inl ⟨rfl, hentered.trans (hf'.steps_drop hc hp ha hentered)⟩
  | @begun p s tx e₁ hp hr ha framed hframed hb inside hinside back hback ended hended =>
    have hi := framed_inside hc ha hframed hinside
    have hin := steps_inside hc hp ha hframed hb hinside
    have hl := hi.kept (hkept inside (hi.inRange hc))
    have hid : s.id = tx.id := (Session.begin_ok (Engine.enter_ok hb).1).1.symm
    have hswap : Steps c (work inside).2 back := hback ▸ (Engine.Step.swapped (hl.inRange hc) hl.top hid).steps
    have hfinish : Steps c back ended.2 := hended ▸ Engine.steps_finish ..
    have hout := hswap.trans hfinish
    have hback' : Framed c d.backend s e back := hback ▸ hl.swap hc
    have hended' : Framed c d.backend s e ended.2 :=
      hback'.kept (kept_sameBooks (hended ▸ Engine.sameBooks_finish ..))
    have hall := (hin.trans (hwork inside (hi.inRange hc))).trans hout
    exact .inr ⟨inside, hi.inRange hc, rfl, hin, hout.trans (hended'.steps_drop hc hp ha hall)⟩

end Course

/-! ## The steps of work -/

/-- The engines that an event knows of. -/
def Event.moments : Event → List Engine
  | .seen _ e => [e]
  | .wrote _ _ before _ after => [before, after]
  | .called _ _ before visit _ after => [before, after] ++ visit.toList.flatMap fun v => [v.entered, v.left]

/-- `Stepped c e ran`: the engines that came up since `e` lie between `e` and the end. -/
structure Stepped (c : Nat) (e : Engine) (ran : Ran) : Prop where
  steps : Steps c e ran.2
  moments : ∀ ev ∈ ran.1.2, ∀ m ∈ ev.moments, Steps c e m ∧ Steps c m ran.2

namespace Stepped

variable {c : Nat} {e e₁ : Engine} {calls : List Definition} {o : Outcome Failure Unit}

theorem since {events : List Event} {ran : Ran} (h₁ : Stepped c e ((o, events), e₁)) (h₂ : Stepped c e₁ ran) :
    Stepped c e (Work.since events ran) := by
  refine ⟨h₁.steps.trans h₂.steps, fun ev hev m hm => ?_⟩
  rcases List.mem_append.1 hev with hev | hev
  · obtain ⟨hbefore, hafter⟩ := h₁.moments ev hev m hm
    exact ⟨hbefore, hafter.trans h₂.steps⟩
  · obtain ⟨hbefore, hafter⟩ := h₂.moments ev hev m hm
    exact ⟨h₁.steps.trans hbefore, hafter⟩

theorem seen (h : Steps c e e₁) : Stepped c e ((o, [.seen calls e]), e₁) := by
  refine ⟨h, fun ev hev m hm => ?_⟩
  rw [List.mem_singleton] at hev
  subst hev
  rw [Event.moments, List.mem_singleton] at hm
  subst hm
  exact ⟨.refl, h⟩

theorem wrote {s : Session} {slot : Slot} {answer : Outcome StorageError Unit} (h : Steps c e e₁) :
    Stepped c e ((o, [.seen calls e, .wrote s slot e answer e₁]), e₁) := by
  refine ⟨h, fun ev hev m hm => ?_⟩
  have hm : m = e ∨ m = e₁ := by
    rcases List.mem_cons.1 hev with rfl | hev
    · exact .inl (List.mem_singleton.1 hm)
    · rw [List.mem_singleton] at hev
      subst hev
      simpa [Event.moments] using hm
  rcases hm with rfl | rfl
  · exact ⟨.refl, h⟩
  · exact ⟨h, .refl⟩

end Stepped

theorem Course.stepped {c : Nat} {d : Definition} {e : Engine} {work : Engine → Ran}
    {called : (Outcome Failure Unit × Option (Visit × List Event)) × Engine} (h : Course e c d (visit work) called)
    (hc : c < e.contexts.size) (hkept : ∀ e', c < e'.contexts.size → Kept c e' (work e').2)
    (hwork : ∀ e', c < e'.contexts.size → Stepped c e' (work e')) (calls : List Definition) :
    Stepped c e ((called.1.1, eventsOf calls d e called), called.2) := by
  obtain ⟨hnone, hsteps⟩ | ⟨inside, hinside, hsome, hin, hout⟩ := h.steps hc hkept fun e' hc' => (hwork e' hc').steps
  · refine ⟨hsteps, fun ev hev m hm => ?_⟩
    have hev : ev = .called calls d e none called.1.1 called.2 := by simpa [eventsOf, hnone] using hev
    subst hev
    have hm : m = e ∨ m = called.2 := by simpa [Event.moments] using hm
    rcases hm with rfl | rfl
    · exact ⟨.refl, hsteps⟩
    · exact ⟨hsteps, .refl⟩
  · have hran := hwork inside hinside
    have hall := (hin.trans hran.steps).trans hout
    refine ⟨hall, fun ev hev m hm => ?_⟩
    simp only [eventsOf, hsome] at hev
    rcases List.mem_append.1 hev with hev | hev
    · obtain ⟨hbefore, hafter⟩ := hran.moments ev hev m hm
      exact ⟨hin.trans hbefore, hafter.trans hout⟩
    · rw [List.mem_singleton] at hev
      subst hev
      have hm : m = e ∨ m = called.2 ∨ m = inside ∨ m = (work inside).2 := by
        simpa [Event.moments, visit] using hm
      rcases hm with rfl | rfl | rfl | rfl
      · exact ⟨.refl, hall⟩
      · exact ⟨hall, .refl⟩
      · exact ⟨hin, hran.steps.trans hout⟩
      · exact ⟨hin.trans hran.steps, hout⟩

/-- **The engines that come up in work lie on a path of steps**, from its beginning to its end. -/
theorem exec_stepped (c : Nat) : ∀ (w : Work) (calls : List Definition) (e : Engine), c < e.contexts.size →
    Stepped c e (exec c w calls e)
  | .done outcome, calls, e, hc => .seen .refl
  | .look next, calls, e, hc => Stepped.since (o := .value ()) (.seen .refl) (exec_stepped c (next e) calls e hc)
  | .resource b next, calls, e, hc =>
    Stepped.since (o := .value ()) (.seen (Engine.steps_resource hc b))
      (exec_stepped c _ calls _ ((kept_resource hc b).size ▸ hc))
  | .write s t change next, calls, e, hc =>
    Stepped.since (o := .value ()) (.wrote (e.steps_apply c s t change)) (exec_stepped c _ calls _ hc)
  | .begin s next, calls, e, hc =>
    Stepped.since (o := .value ()) (.seen (e.steps_enter c s))
      (exec_stepped c _ calls _ ((e.sameBooks_enter s).contexts ▸ hc))
  | .finish tx v next, calls, e, hc => by
    unfold exec
    split
    · exact Stepped.since (o := .value ()) (.seen .refl) (exec_stepped c _ calls e hc)
    · exact Stepped.since (o := .value ()) (.seen (e.steps_finish c tx v))
        (exec_stepped c _ calls _ ((e.sameBooks_finish tx v).contexts ▸ hc))
  | .run d body next, calls, e, hc => by
    have hcourse := exec_course hc d body (calls ++ [d])
    have hkept : ∀ e', c < e'.contexts.size → Kept c e' (exec c body (calls ++ [d]) e').2 := fun e' hc' =>
      exec_kept c body (calls ++ [d]) e' hc'
    have hcall := hcourse.stepped hc hkept (fun e' hc' => exec_stepped c body (calls ++ [d]) e' hc') calls
    have hseen : Stepped c e ((.value (), [.seen calls e]), e) := .seen .refl
    exact (hseen.since hcall).since (exec_stepped c _ calls _ ((hcourse.kept hc hkept).size ▸ hc))

end Demarcate
