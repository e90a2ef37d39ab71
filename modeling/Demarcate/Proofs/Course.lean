import Demarcate.Proofs.Work
/-!
# Course — what a call comes to

A call takes one of seven courses (`Course`), and each is written out: what was acquired, what stood on the stack while
the work ran, and what was put back and released after it.  `run_course` says that there is no other, as long as the
work leaves the stacks as it found them; and work made of steps does (`exec_kept`), because its calls do.
-/
namespace Demarcate

open Engine (Acquired SameBooks)
open Work (exec visit since eventsOf)

/-- The stacks of a context and its data sources are as they were. -/
structure Kept (c : Nat) (e e' : Engine) : Prop where
  size : e'.contexts.size = e.contexts.size
  registry : (e'.context c).registry = (e.context c).registry
  stack : ∀ b, (e'.context c).stack b = (e.context c).stack b

namespace Kept

variable {c : Nat} {e e₁ e₂ : Engine}

theorem refl (c : Nat) (e : Engine) : Kept c e e := ⟨rfl, rfl, fun _ => rfl⟩

theorem trans (h₁ : Kept c e e₁) (h₂ : Kept c e₁ e₂) : Kept c e e₂ :=
  ⟨h₂.size.trans h₁.size, h₂.registry.trans h₁.registry, fun b => (h₂.stack b).trans (h₁.stack b)⟩

theorem of_contexts (h : e₁.contexts = e.contexts) : Kept c e e₁ := by
  have hc := Engine.context_congr h c
  exact ⟨congrArg Array.size h, by rw [hc], fun b => by rw [hc]⟩

end Kept

/-- One frame more, with a session in it, and the rest as it was. -/
structure Framed (c : Nat) (b : BackendName) (t : Session) (e e' : Engine) : Prop where
  size : e'.contexts.size = e.contexts.size
  registry : (e'.context c).registry = (e.context c).registry
  stack : ∀ b', (e'.context c).stack b' =
    if b' = b then ((e.context c).stack b').push t else (e.context c).stack b'

namespace Framed

variable {c : Nat} {b : BackendName} {s t : Session} {e e₁ e₂ : Engine}

theorem top (h : Framed c b t e e₁) : (e₁.context c).stack b = ((e.context c).stack b).push t := by
  rw [h.stack, if_pos rfl]

theorem inRange (h : Framed c b t e e₁) (hc : c < e.contexts.size) : c < e₁.contexts.size := h.size ▸ hc

theorem kept (h : Framed c b t e e₁) (hk : Kept c e₁ e₂) : Framed c b t e e₂ :=
  ⟨hk.size.trans h.size, hk.registry.trans h.registry, fun b' => (hk.stack b').trans (h.stack b')⟩

theorem push (hc : c < e.contexts.size) (h : e₁.contexts = e.contexts) :
    Framed c b t e (e₁.setStack c b (((e.context c).stack b).push t)) := by
  have hc₁ : c < e₁.contexts.size := by
    rw [h]
    exact hc
  have hx := Engine.context_congr h c
  refine ⟨?_, ?_, fun b' => ?_⟩
  · rw [Engine.size_setStack, h]
  · rw [Engine.context_setStack hc₁, hx]
    rfl
  · rw [Engine.stack_setStack hc₁, hx]
    by_cases hb : b' = b
    · rw [if_pos hb, if_pos hb, hb]
    · rw [if_neg hb, if_neg hb]

theorem swap (h : Framed c b s e e₁) (hc : c < e.contexts.size) :
    Framed c b t e (e₁.setStack c b (((e.context c).stack b).push t)) := by
  have hc₁ := h.inRange hc
  refine ⟨?_, ?_, fun b' => ?_⟩
  · rw [Engine.size_setStack, h.size]
  · rw [Engine.context_setStack hc₁, ← h.registry]
    rfl
  · rw [Engine.stack_setStack hc₁]
    by_cases hb : b' = b
    · rw [if_pos hb, if_pos hb, hb]
    · rw [if_neg hb, if_neg hb, h.stack, if_neg hb]

theorem drop (h : Framed c b s e e₁) (hc : c < e.contexts.size) :
    Kept c e (e₁.setStack c b ((e.context c).stack b)) := by
  have hc₁ := h.inRange hc
  refine ⟨?_, ?_, fun b' => ?_⟩
  · rw [Engine.size_setStack, h.size]
  · rw [Engine.context_setStack hc₁, ← h.registry]
    rfl
  · rw [Engine.stack_setStack hc₁]
    by_cases hb : b' = b
    · rw [if_pos hb, hb]
    · rw [if_neg hb, h.stack, if_neg hb]

end Framed

theorem kept_sameBooks {c : Nat} {e e₁ : Engine} (h : SameBooks e e₁) : Kept c e e₁ := .of_contexts h.contexts

theorem kept_release (c : Nat) (e : Engine) (p : Nat) (s : Session) : Kept c e (e.release p s) :=
  .of_contexts (e.contexts_release p s)

theorem framed_inside {c p : Nat} {d : Definition} {e e₁ framed inside : Engine} {s tx : Session}
    (hc : c < e.contexts.size) (ha : Acquired e p s e₁)
    (hframed : framed = e₁.setStack c d.backend (((e.context c).stack d.backend).push s))
    (hinside : inside = (framed.enter s).2.setStack c d.backend (((e.context c).stack d.backend).push tx)) :
    Framed c d.backend tx e inside := by
  have hf : Framed c d.backend s e framed := hframed ▸ .push hc ha.contexts
  have hf' := hf.kept (kept_sameBooks (framed.sameBooks_enter s))
  rw [hinside]
  exact hf'.swap hc

/-- `Course e c d work called`: what a call of `d` in the context `c` comes to. -/
inductive Course {β : Type} (e : Engine) (c : Nat) (d : Definition)
    (work : Engine → (Outcome Failure Unit × β) × Engine) : (Outcome Failure Unit × Option β) × Engine → Prop where
  /-- There is no such data source. -/
  | unknown (hp : (e.context c).registry.get? d.backend = none) :
    Course e c d work ((.failed (.transaction (.resource (.unknownBackend d.backend))), none), e)
  /-- The situation breaks the mode's contract. -/
  | violated {p : Nat} {v : Violation} (hp : (e.context c).registry.get? d.backend = some p)
      (hr : d.mode.resolve ((e.context c).isActive d.backend) = .error v) :
    Course e c d work ((.failed (.transaction (v.toError d.operation)), none), e)
  /-- The work runs on what there is. -/
  | inPlace {p : Nat} {r : Resolution} (hp : (e.context c).registry.get? d.backend = some p)
      (hr : d.mode.resolve ((e.context c).isActive d.backend) = .ok r) (hi : r.isInitiator = false) :
    Course e c d work (((work e).1.1, some (work e).1.2), (work e).2)
  /-- The provider hands out no session. -/
  | starved {p : Nat} {r : Resolution} {err : ResourceError} (hp : (e.context c).registry.get? d.backend = some p)
      (hr : d.mode.resolve ((e.context c).isActive d.backend) = .ok r) (hi : r.isInitiator = true) :
    Course e c d work ((.failed (.transaction (.resource err)), none), (e.count .acquire).2)
  /-- The work runs on a session of its own, outside of transactions. -/
  | suspended {p : Nat} {s : Session} {e₁ : Engine} (hp : (e.context c).registry.get? d.backend = some p)
      (hr : d.mode.resolve ((e.context c).isActive d.backend) = .ok .suspend) (ha : Acquired e p s e₁)
      (inside : Engine) (hinside : inside = e₁.setStack c d.backend (((e.context c).stack d.backend).push s)) :
    Course e c d work (((work inside).1.1, some (work inside).1.2),
      ((work inside).2.setStack c d.backend ((e.context c).stack d.backend)).release p s)
  /-- No transaction can be begun on the session. -/
  | notBegun {p : Nat} {s : Session} {e₁ : Engine} {err : ResourceError}
      (hp : (e.context c).registry.get? d.backend = some p)
      (hr : d.mode.resolve ((e.context c).isActive d.backend) = .ok .begin) (ha : Acquired e p s e₁)
      (framed : Engine) (hframed : framed = e₁.setStack c d.backend (((e.context c).stack d.backend).push s))
      (hb : (framed.enter s).1 = .error err) :
    Course e c d work ((.failed (.transaction (.resource err)), none),
      ((framed.enter s).2.setStack c d.backend ((e.context c).stack d.backend)).release p s)
  /-- The work runs in a transaction on a session of its own. -/
  | begun {p : Nat} {s tx : Session} {e₁ : Engine} (hp : (e.context c).registry.get? d.backend = some p)
      (hr : d.mode.resolve ((e.context c).isActive d.backend) = .ok .begin) (ha : Acquired e p s e₁)
      (framed : Engine) (hframed : framed = e₁.setStack c d.backend (((e.context c).stack d.backend).push s))
      (hb : (framed.enter s).1 = .ok tx)
      (inside : Engine)
      (hinside : inside = (framed.enter s).2.setStack c d.backend (((e.context c).stack d.backend).push tx))
      (back : Engine)
      (hback : back = (work inside).2.setStack c d.backend (((e.context c).stack d.backend).push s))
      (ended : Outcome ResourceError Unit × Engine)
      (hended : ended = back.finish tx (Engine.verdictOf d.directive (work inside).1.1)) :
    Course e c d work ((Engine.combine ended.1 (work inside).1.1, some (work inside).1.2),
      (ended.2.setStack c d.backend ((e.context c).stack d.backend)).release p s)

/-! ## Every call takes one of the courses -/

section Framed

variable {β : Type} {e : Engine} {c : Nat} {d : Definition} {s : Session} {p : Nat}
  {work : Engine → (Outcome Failure Unit × β) × Engine}

theorem runSwapped_eq {b : BackendName} {st : FrameStack Session} (hc : c < e.contexts.size)
    (hst : (e.context c).stack b = st.push s) (tx : Session)
    (hwork : ∀ e', c < e'.contexts.size → Kept c e' (work e').2) :
    e.runSwapped c b tx work =
      (((work (e.setStack c b (st.push tx))).1.1, some (work (e.setStack c b (st.push tx))).1.2),
        (work (e.setStack c b (st.push tx))).2.setStack c b (st.push s)) := by
  unfold Engine.runSwapped
  rw [Engine.swapTop?_of_stack hst]
  simp only
  have hc' : c < (e.setStack c b (st.push tx)).contexts.size := by
    rw [Engine.size_setStack]
    exact hc
  have hafter := (hwork _ hc').stack b
  rw [Engine.stack_setStack hc, if_pos rfl] at hafter
  rw [Engine.swapTop?_of_stack hafter]

/-- The frame of work that has left the stacks alone is taken off, and its session released. -/
theorem drop_eq {st : FrameStack Session} {e' : Engine} (hst : (e'.context c).stack d.backend = st.push s)
    (hp : (e'.context c).registry.get? d.backend = some p) (outcome : Outcome Failure Unit) (b : Option β) :
    (match e'.dropFrame? c d.backend with
      | some e => ((outcome, b), e)
      | none => ((.unwound FrameStack.popText, b), e')) =
      ((outcome, b), (e'.setStack c d.backend st).release p s) := by
  rw [Engine.dropFrame?_of_stack hst hp]

theorem runFramed_outside (hc : c < e.contexts.size) (hp : (e.context c).registry.get? d.backend = some p)
    (hwork : ∀ e', c < e'.contexts.size → Kept c e' (work e').2) (inside : Engine)
    (hinside : inside = e.setStack c d.backend (((e.context c).stack d.backend).push s)) :
    e.runFramed c d s false work = (((work inside).1.1, some (work inside).1.2),
      ((work inside).2.setStack c d.backend ((e.context c).stack d.backend)).release p s) := by
  unfold Engine.runFramed
  simp only [Engine.pushFrame_eq, Bool.false_eq_true, if_false]
  rw [← hinside]
  have hkept := hwork inside (by rw [hinside, Engine.size_setStack]; exact hc)
  apply drop_eq
  · rw [hkept.stack, hinside, Engine.stack_setStack hc, if_pos rfl]
  · rw [hkept.registry, hinside, Engine.context_setStack hc]
    exact hp

theorem runFramed_refused {err : ResourceError} (hc : c < e.contexts.size)
    (hp : (e.context c).registry.get? d.backend = some p) (framed : Engine)
    (hframed : framed = e.setStack c d.backend (((e.context c).stack d.backend).push s))
    (hb : (framed.enter s).1 = .error err) :
    e.runFramed c d s true work = ((.failed (.transaction (.resource err)), none),
      ((framed.enter s).2.setStack c d.backend ((e.context c).stack d.backend)).release p s) := by
  unfold Engine.runFramed Engine.runWrapped
  simp only [Engine.pushFrame_eq, if_true]
  rw [← hframed, Engine.transact_eq]
  have hsame := framed.sameBooks_enter s
  generalize framed.enter s = entered at hb hsame ⊢
  obtain ⟨answer, e'⟩ := entered
  cases hb
  simp only
  apply drop_eq
  · rw [hsame.context, hframed, Engine.stack_setStack hc, if_pos rfl]
  · rw [hsame.context, hframed, Engine.context_setStack hc]
    exact hp

theorem runFramed_inside {tx : Session} (hc : c < e.contexts.size)
    (hp : (e.context c).registry.get? d.backend = some p)
    (hwork : ∀ e', c < e'.contexts.size → Kept c e' (work e').2) (framed : Engine)
    (hframed : framed = e.setStack c d.backend (((e.context c).stack d.backend).push s))
    (hb : (framed.enter s).1 = .ok tx) (inside : Engine)
    (hinside : inside = (framed.enter s).2.setStack c d.backend (((e.context c).stack d.backend).push tx))
    (back : Engine)
    (hback : back = (work inside).2.setStack c d.backend (((e.context c).stack d.backend).push s))
    (ended : Outcome ResourceError Unit × Engine)
    (hended : ended = back.finish tx (Engine.verdictOf d.directive (work inside).1.1)) :
    e.runFramed c d s true work = ((Engine.combine ended.1 (work inside).1.1, some (work inside).1.2),
      (ended.2.setStack c d.backend ((e.context c).stack d.backend)).release p s) := by
  unfold Engine.runFramed Engine.runWrapped
  simp only [Engine.pushFrame_eq, if_true]
  rw [← hframed, Engine.transact_eq]
  have hsame := framed.sameBooks_enter s
  generalize framed.enter s = entered at hb hinside hsame ⊢
  obtain ⟨answer, e'⟩ := entered
  cases hb
  simp only at hinside hsame ⊢
  have hc' : c < e'.contexts.size := by
    rw [hsame.contexts, hframed, Engine.size_setStack]
    exact hc
  have hst : (e'.context c).stack d.backend = ((e.context c).stack d.backend).push s := by
    rw [hsame.context, hframed, Engine.stack_setStack hc, if_pos rfl]
  rw [runSwapped_eq hc' hst tx hwork, ← hinside]
  simp only
  rw [← hback, ← hended]
  have hkept := hwork inside (by rw [hinside, Engine.size_setStack]; exact hc')
  have hsize : c < (work inside).2.contexts.size := by
    rw [hkept.size, hinside, Engine.size_setStack]
    exact hc'
  have hbooks : SameBooks back ended.2 := hended ▸ Engine.sameBooks_finish ..
  apply drop_eq
  · rw [hbooks.context, hback, Engine.stack_setStack hsize, if_pos rfl]
  · rw [hbooks.context, hback, Engine.context_setStack hsize]
    have := hkept.registry
    rw [hinside, Engine.context_setStack hc', hsame.context, hframed, Engine.context_setStack hc] at this
    rw [← hp]
    exact congrArg (SortedMap.get? · d.backend) (hinside ▸ this)

end Framed

/-- **A call takes one of the courses**, if its work leaves the stacks as it finds them. -/
theorem run_course {β : Type} {e : Engine} {c : Nat} (hc : c < e.contexts.size) (d : Definition)
    {work : Engine → (Outcome Failure Unit × β) × Engine}
    (hwork : ∀ e', c < e'.contexts.size → Kept c e' (work e').2) : Course e c d work (e.run c d work) := by
  unfold Engine.run Engine.planCall Engine.provider?
  cases hp : (e.context c).registry.get? d.backend with
  | none => exact .unknown hp
  | some p =>
    simp only
    cases hr : d.mode.resolve ((e.context c).isActive d.backend) with
    | error v => exact .violated hp hr
    | ok r =>
      simp only
      cases hi : r.isInitiator with
      | false => exact .inPlace hp hr hi
      | true =>
        simp only [if_true]
        obtain ⟨s, e₁, hacquire, ha⟩ | ⟨err, hacquire⟩ := e.acquire_cases p
        · rw [hacquire]
          simp only
          have hc₁ := ha.inRange hc
          have hx := Engine.context_congr ha.contexts c
          have hp₁ : (e₁.context c).registry.get? d.backend = some p := hx ▸ hp
          rw [← hx] at hr
          cases r with
          | join => cases hi
          | runAsIs => cases hi
          | suspend =>
            simp only [Resolution.mustWrap]
            rw [runFramed_outside hc₁ hp₁ hwork _ rfl, hx]
            exact .suspended hp (hx ▸ hr) ha _ rfl
          | begin =>
            cases hb : ((e₁.setStack c d.backend (((e.context c).stack d.backend).push s)).enter s).1 with
            | error err =>
              simp only [Resolution.mustWrap]
              rw [runFramed_refused hc₁ hp₁ _ rfl (by rw [hx]; exact hb), hx]
              exact .notBegun hp (hx ▸ hr) ha _ rfl hb
            | ok tx =>
              simp only [Resolution.mustWrap]
              rw [runFramed_inside hc₁ hp₁ hwork _ rfl (by rw [hx]; exact hb) _ rfl _ rfl _ rfl, hx]
              exact .begun hp (hx ▸ hr) ha _ rfl hb _ rfl _ rfl _ rfl
        · rw [hacquire]
          exact .starved hp hr hi

/-! ## What a call in a transaction returns -/

theorem verdictOf_eq_unwind {d : Directive} {o : Outcome Failure Unit} {text : String} :
    Engine.verdictOf d o = .unwind text ↔ o = .unwound text := by
  cases o with
  | value u => simp [Engine.verdictOf]
  | failed f =>
    simp only [Engine.verdictOf]
    split <;> simp
  | unwound t => simp [Engine.verdictOf]

theorem verdictOf_eq_commit {d : Directive} {o : Outcome Failure Unit} : Engine.verdictOf d o = .commit ↔
    o = .value () ∨ ∃ f, o = .failed f ∧ d.shouldRollback f.kind = false := by
  cases o with
  | value u => simp [Engine.verdictOf]
  | failed f => cases h : d.shouldRollback f.kind <;> simp [Engine.verdictOf, h]
  | unwound text => simp [Engine.verdictOf]

theorem finish_eq_unwound {e : Engine} {tx : Session} {v : Engine.Verdict} {text : String} :
    (e.finish tx v).1 = .unwound text ↔ v = .unwind text := by
  cases v with
  | unwind t => simp [Engine.finish]
  | rollback =>
    unfold Engine.finish
    rcases e.count .rollback with ⟨fault, e₁⟩
    cases fault <;> simp
  | commit =>
    unfold Engine.finish
    rcases e.count .commit with ⟨fault, e₁⟩
    cases fault with
    | some fault => simp
    | none =>
      simp only
      rcases tx.commit e₁.stores with ⟨done, stores⟩
      cases done <;> simp

/-- **A call unwinds as its work does**, in a transaction too. -/
theorem combine_eq_unwound {e : Engine} {tx : Session} {d : Directive} {o : Outcome Failure Unit} {text : String} :
    Engine.combine (e.finish tx (Engine.verdictOf d o)).1 o = .unwound text ↔ o = .unwound text := by
  have hfinish : ∀ t, (e.finish tx (Engine.verdictOf d o)).1 = .unwound t ↔ o = .unwound t := fun t =>
    finish_eq_unwound.trans verdictOf_eq_unwind
  generalize (e.finish tx (Engine.verdictOf d o)).1 = ended at hfinish ⊢
  cases ended with
  | value u => cases u; rfl
  | unwound t =>
    have ho := (hfinish t).1 rfl
    rw [ho]
    simp [Engine.combine]
  | failed err =>
    have ho : ∀ t, o ≠ .unwound t := fun t ht => by
      have := (hfinish t).2 ht
      cases this
    cases o with
    | unwound t => exact absurd rfl (ho t)
    | value u => simp [Engine.combine]
    | failed f => simp [Engine.combine]

theorem combine_eq_value {ended : Outcome ResourceError Unit} {o : Outcome Failure Unit} :
    Engine.combine ended o = .value () ↔ ended = .value () ∧ o = .value () := by
  cases ended with
  | value u => simp [Engine.combine]
  | failed err => cases o <;> simp [Engine.combine]
  | unwound text => simp [Engine.combine]

theorem combine_failed {e : Engine} {tx : Session} {d : Directive} {f : Failure} :
    Engine.combine (e.finish tx (Engine.verdictOf d (.failed f))).1 (.failed f) = .failed f := by
  have hfinish : ∀ text, (e.finish tx (Engine.verdictOf d (.failed f))).1 ≠ .unwound text := fun text h => by
    cases verdictOf_eq_unwind.1 (finish_eq_unwound.1 h)
  generalize (e.finish tx (Engine.verdictOf d (.failed f))).1 = ended at hfinish ⊢
  cases ended with
  | value u => rfl
  | failed err => rfl
  | unwound text => exact absurd rfl (hfinish text)

/-! ## Work leaves the stacks as they were -/

theorem Course.kept {β : Type} {e : Engine} {c : Nat} {d : Definition}
    {work : Engine → (Outcome Failure Unit × β) × Engine} {called : (Outcome Failure Unit × Option β) × Engine}
    (h : Course e c d work called) (hc : c < e.contexts.size)
    (hwork : ∀ e', c < e'.contexts.size → Kept c e' (work e').2) : Kept c e called.2 := by
  cases h with
  | unknown hp => exact .refl c e
  | violated hp hr => exact .refl c e
  | inPlace hp hr hi => exact hwork e hc
  | starved hp hr hi => exact kept_sameBooks (e.sameBooks_count .acquire)
  | @suspended p s e₁ hp hr ha inside hinside =>
    have hi : Framed c d.backend s e inside := hinside ▸ .push hc ha.contexts
    exact ((hi.kept (hwork inside (hi.inRange hc))).drop hc).trans (kept_release ..)
  | @notBegun p s e₁ err hp hr ha framed hframed hb =>
    have hf : Framed c d.backend s e framed := hframed ▸ .push hc ha.contexts
    exact ((hf.kept (kept_sameBooks (framed.sameBooks_enter s))).drop hc).trans (kept_release ..)
  | @begun p s tx e₁ hp hr ha framed hframed hb inside hinside back hback ended hended =>
    have hi := framed_inside hc ha hframed hinside
    have hl := hi.kept (hwork inside (hi.inRange hc))
    have hback' : Framed c d.backend s e back := hback ▸ hl.swap hc
    have hfinish : SameBooks back ended.2 := hended ▸ Engine.sameBooks_finish ..
    exact ((hback'.kept (kept_sameBooks hfinish)).drop hc).trans (kept_release ..)

theorem kept_resource {c : Nat} {e : Engine} (hc : c < e.contexts.size) (b : BackendName) :
    Kept c e (e.resource c b).2 := by
  obtain hsame | ⟨p, s, e₁, hp, hnone, ha, hkept⟩ | hcount := e.resource_cases c b
  · rw [hsame]
    exact .refl c e
  · have hk : Kept c e e₁ := .of_contexts ha.contexts
    rw [hkept]
    refine ⟨(Engine.size_setContext ..).trans hk.size, ?_, fun b' => ?_⟩
    · rw [Engine.context_setContext (hk.size ▸ hc)]
    · rw [Engine.context_setContext (hk.size ▸ hc)]
      rfl
  · rw [hcount]
    exact kept_sameBooks (e.sameBooks_count .acquire)

/-- **Work leaves the stacks as it found them**, whatever it does and however it ends. -/
theorem exec_kept (c : Nat) : ∀ (w : Work) (calls : List Definition) (e : Engine), c < e.contexts.size →
    Kept c e (exec c w calls e).2
  | .done outcome, calls, e, hc => .refl c e
  | .look next, calls, e, hc => exec_kept c (next e) calls e hc
  | .resource b next, calls, e, hc => by
    have h := kept_resource hc b
    exact h.trans (exec_kept c (next (e.resource c b).1) calls _ (h.size ▸ hc))
  | .write s t change next, calls, e, hc => by
    have h := kept_sameBooks (c := c) (e.sameBooks_apply s t change)
    exact h.trans (exec_kept c (next (e.apply s t change).1) calls _ (h.size ▸ hc))
  | .begin s next, calls, e, hc => by
    have h := kept_sameBooks (c := c) (e.sameBooks_enter s)
    exact h.trans (exec_kept c (next (e.enter s).1) calls _ (h.size ▸ hc))
  | .finish tx v next, calls, e, hc => by
    unfold exec
    split
    · exact exec_kept c (next (.value ())) calls e hc
    · have h := kept_sameBooks (c := c) (e.sameBooks_finish tx v)
      exact h.trans (exec_kept c (next (e.finish tx v).1) calls _ (h.size ▸ hc))
  | .run d body next, calls, e, hc => by
    have hbody : ∀ e', c < e'.contexts.size →
        Kept c e' (visit (fun e => exec c body (calls ++ [d]) e) e').2 :=
      fun e' hc' => exec_kept c body (calls ++ [d]) e' hc'
    have h := (run_course hc d hbody).kept hc hbody
    exact h.trans (exec_kept c (next _) calls _ (h.size ▸ hc))

theorem exec_course {e : Engine} {c : Nat} (hc : c < e.contexts.size) (d : Definition) (body : Work)
    (calls : List Definition) :
    Course e c d (visit fun e => exec c body calls e) (e.run c d (visit fun e => exec c body calls e)) :=
  run_course hc d fun e' hc' => exec_kept c body calls e' hc'

/-! ## The events of work -/

theorem Course.visited {β : Type} {e : Engine} {c : Nat} {d : Definition}
    {work : Engine → (Outcome Failure Unit × β) × Engine} {called : (Outcome Failure Unit × Option β) × Engine}
    (h : Course e c d work called) (hc : c < e.contexts.size) {report : β} (hreport : called.1.2 = some report) :
    ∃ inside, c < inside.contexts.size ∧ report = (work inside).1.2 := by
  cases h with
  | unknown hp => cases hreport
  | violated hp hr => cases hreport
  | inPlace hp hr hi => exact ⟨e, hc, (Option.some.inj hreport).symm⟩
  | starved hp hr hi => cases hreport
  | @suspended p s e₁ hp hr ha inside hinside =>
    have hi : Framed c d.backend s e inside := hinside ▸ .push hc ha.contexts
    exact ⟨inside, hi.inRange hc, (Option.some.inj hreport).symm⟩
  | notBegun hp hr ha framed hframed hb => cases hreport
  | begun hp hr ha framed hframed hb inside hinside back hback ended hended =>
    have hi := framed_inside hc ha hframed hinside
    exact ⟨inside, hi.inRange hc, (Option.some.inj hreport).symm⟩

theorem forall_since {P : Event → Prop} {events : List Event} {ran : Work.Ran} (h₁ : ∀ ev ∈ events, P ev)
    (h₂ : ∀ ev ∈ ran.1.2, P ev) : ∀ ev ∈ (since events ran).1.2, P ev :=
  List.forall_mem_append.2 ⟨h₁, h₂⟩

/-- **What is so of moments, of writes and of calls is so of all that happens in work.** -/
theorem exec_events (c : Nat) {P : Event → Prop} (hseen : ∀ calls e, P (.seen calls e))
    (hwrote : ∀ s slot before outcome after, P (.wrote s slot before outcome after))
    (hcalled : ∀ d body calls e called, c < e.contexts.size →
      Course e c d (visit fun e => exec c body (calls ++ [d]) e) called →
      P (.called calls d e (called.1.2.map (·.1)) called.1.1 called.2)) :
    ∀ (w : Work) (calls : List Definition) (e : Engine), c < e.contexts.size → ∀ ev ∈ (exec c w calls e).1.2, P ev
  | .done outcome, calls, e, hc => List.forall_mem_singleton.2 (hseen calls e)
  | .look next, calls, e, hc =>
    forall_since (List.forall_mem_singleton.2 (hseen calls e)) (exec_events c hseen hwrote hcalled _ calls e hc)
  | .resource b next, calls, e, hc =>
    forall_since (List.forall_mem_singleton.2 (hseen calls e))
      (exec_events c hseen hwrote hcalled _ calls _ ((kept_resource hc b).size ▸ hc))
  | .write s t change next, calls, e, hc =>
    forall_since (List.forall_mem_cons.2 ⟨hseen calls e, List.forall_mem_singleton.2 (hwrote ..)⟩)
      (exec_events c hseen hwrote hcalled _ calls _ hc)
  | .begin s next, calls, e, hc =>
    forall_since (List.forall_mem_singleton.2 (hseen calls e))
      (exec_events c hseen hwrote hcalled _ calls _ ((e.sameBooks_enter s).contexts ▸ hc))
  | .finish tx v next, calls, e, hc => by
    unfold exec
    split
    · exact forall_since (List.forall_mem_singleton.2 (hseen calls e))
        (exec_events c hseen hwrote hcalled _ calls e hc)
    · have hk := kept_sameBooks (c := c) (e.sameBooks_finish tx v)
      exact forall_since (List.forall_mem_singleton.2 (hseen calls e))
        (exec_events c hseen hwrote hcalled _ calls _ (hk.size ▸ hc))
  | .run d body next, calls, e, hc => by
    have hcourse := exec_course hc d body (calls ++ [d])
    have hk := hcourse.kept hc fun e' hc' => exec_kept c body (calls ++ [d]) e' hc'
    refine forall_since (List.forall_mem_cons.2 ⟨hseen calls e, List.forall_mem_append.2 ⟨?_, ?_⟩⟩)
      (exec_events c hseen hwrote hcalled _ calls _ (hk.size ▸ hc))
    · -- the events of the call's work, if it has run
      intro ev hev
      cases hreport : (e.run c d (visit fun e => exec c body (calls ++ [d]) e)).1.2 with
      | none =>
        rw [hreport] at hev
        cases hev
      | some report =>
        obtain ⟨inside, hinside, rfl⟩ := hcourse.visited hc hreport
        rw [hreport] at hev
        exact exec_events c hseen hwrote hcalled body (calls ++ [d]) inside hinside ev hev
    · exact List.forall_mem_singleton.2 (hcalled d body calls e _ hc hcourse)

end Demarcate
