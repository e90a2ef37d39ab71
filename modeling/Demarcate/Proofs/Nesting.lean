import Demarcate.Proofs.Steps
/-!
# Nesting — what the calls around work come to

Whether a transaction is running is written down nowhere: it is read off the session in the top frame.  `propagated` is
what it should be, and how many frames there should be, by the modes of the calls whose work is being done, and
`propagation_refines_fold` says that this is what work sees, however the calls of several data sources are nested.

A call that stays on what there is sees its caller's session; one that does not gets a session that nobody has had.
What carries this is `Known`: every session that a context has was named by an identifier that is issued, which no step
of work changes (`Known.step`).
-/
namespace Demarcate

open Engine (Acquired Step Steps)
open Work (exec visit eventsOf Ran)

/-! ## The reference -/

/-- What a call makes of whether a transaction is running, and of the number of frames. -/
def Mode.propagate : Mode → Bool × Nat → Bool × Nat
  | .required, (false, n) => (true, n + 1)
  | .requiresNew, (_, n) => (true, n + 1)
  | .notSupported, (true, n) => (false, n + 1)
  | _, x => x

/-- Whether a transaction is to be running on a data source, and how many frames it is to have, in the work of `calls`,
the outermost first. -/
def propagated (calls : List Definition) (b : BackendName) : Bool × Nat :=
  (calls.filter fun d => d.backend = b).foldl (fun x d => d.mode.propagate x) (false, 0)

theorem propagated_concat (calls : List Definition) (d : Definition) (b : BackendName) :
    propagated (calls ++ [d]) b =
      if d.backend = b then d.mode.propagate (propagated calls b) else propagated calls b := by
  unfold propagated
  rw [List.filter_append, List.foldl_append]
  by_cases hb : d.backend = b <;> simp [hb]

theorem propagate_inPlace {m : Mode} {active : Bool} {r : Resolution} (h : m.resolve active = .ok r)
    (hr : r.isInitiator = false) (n : Nat) : m.propagate (active, n) = (active, n) := by
  cases m <;> cases active <;> cases h <;> first | rfl | cases hr

theorem propagate_initiator {m : Mode} {active : Bool} {r : Resolution} (h : m.resolve active = .ok r)
    (hr : r.isInitiator = true) (n : Nat) : (m.propagate (active, n)).2 = n + 1 := by
  cases m <;> cases active <;> cases h <;> first | rfl | cases hr

theorem propagate_suspend {m : Mode} {active : Bool} (h : m.resolve active = .ok .suspend) (n : Nat) :
    m.propagate (active, n) = (false, n + 1) := by
  cases m <;> cases active <;> cases h
  rfl

theorem propagate_begin {m : Mode} {active : Bool} (h : m.resolve active = .ok .begin) (n : Nat) :
    m.propagate (active, n) = (true, n + 1) := by
  cases m <;> cases active <;> cases h <;> rfl

theorem resolve_eq_error {m : Mode} {active : Bool} {v : Violation} :
    m.resolve active = .error v ↔
      (m = .mandatory ∧ active = false ∧ v = .transactionRequired) ∨
        (m = .never ∧ active = true ∧ v = .transactionNotAllowed) := by
  cases m <;> cases active <;> cases v <;> simp [Mode.resolve]

/-! ## What work sees -/

/-- What a context's stacks show in the work of `calls` is what the calls come to. -/
def Situated (c : Nat) (calls : List Definition) (e : Engine) : Prop :=
  ∀ b, ((e.context c).isActive b, (e.context c).depth b) = propagated calls b

/-- A session is in a frame of the context, or besides its frames. -/
def Context.has (x : Context) (s : Session) : Prop := ∃ b, s ∈ (x.stack b).frames ∨ x.detached.get? b = some s

/-- Every session of a context has an identifier that is issued. -/
def Known (c : Nat) (e : Engine) : Prop :=
  ∀ s, (e.context c).has s → ∃ k, k < e.stores.issued ∧ s.id = Ulid.issued k

/-- `Fresh c b before inside begins`: `inside` has one frame more, with a session that no frame before it has had. -/
def Fresh (c : Nat) (b : BackendName) (before inside : Engine) (begins : Bool) : Prop :=
  ∃ s : Session, (∀ b', (inside.context c).stack b' =
      if b' = b then ((before.context c).stack b').push s else (before.context c).stack b') ∧
    s.isInTransaction = begins ∧ s.id = Ulid.issued before.stores.issued ∧ ∀ t, (before.context c).has t → t.id ≠ s.id

/-- What the modes say of a call in the work of `calls`. -/
structure Propagates (r : Registry) (c : Nat) (calls : List Definition) (d : Definition) (before : Engine)
    (visit : Option Visit) (outcome : Outcome Failure Unit) (after : Engine) : Prop where
  unknown : r.get? d.backend = none →
    visit = none ∧ outcome = .failed (.transaction (.resource (.unknownBackend d.backend)))
  mandatory : (r.get? d.backend).isSome → d.mode = .mandatory → (propagated calls d.backend).1 = false →
    visit = none ∧ outcome = .failed (.transaction (.required d.operation))
  never : (r.get? d.backend).isSome → d.mode = .never → (propagated calls d.backend).1 = true →
    visit = none ∧ outcome = .failed (.transaction (.notAllowed d.operation))
  /-- Any other call that does not run its work has failed for want of a session or a transaction. -/
  otherwise : (d.mode = .mandatory → (propagated calls d.backend).1 = true) →
    (d.mode = .never → (propagated calls d.backend).1 = false) → visit = none →
      ∃ err, outcome = .failed (.transaction (.resource err))
  /-- Where there is to be no further frame, the work runs on what its caller has. -/
  inPlace : (r.get? d.backend).isSome → (d.mode = .mandatory → (propagated calls d.backend).1 = true) →
    (d.mode = .never → (propagated calls d.backend).1 = false) →
    (propagated (calls ++ [d]) d.backend).2 = (propagated calls d.backend).2 →
      ∃ v, visit = some v ∧ v.entered = before
  /-- Where there is to be a further frame, it has a session of its own. -/
  fresh : ∀ v, visit = some v → (propagated (calls ++ [d]) d.backend).2 ≠ (propagated calls d.backend).2 →
    Fresh c d.backend before v.entered (propagated (calls ++ [d]) d.backend).1
  /-- The caller has its own session again. -/
  after : ∀ b, (after.context c).stack b = (before.context c).stack b

def Event.Propagates (r : Registry) (c : Nat) : Event → Prop
  | .seen calls e => Situated c calls e
  | .called calls d before visit outcome after => Demarcate.Propagates r c calls d before visit outcome after
  | .wrote _ _ _ _ _ => True

theorem Situated.kept {c : Nat} {calls : List Definition} {e e₁ : Engine} (h : Situated c calls e) (hk : Kept c e e₁) :
    Situated c calls e₁ := by
  intro b
  rw [← h b]
  unfold Context.isActive Context.current? Context.depth
  rw [hk.stack]

theorem Situated.stay {c : Nat} {calls : List Definition} {d : Definition} {e : Engine} (h : Situated c calls e)
    (hd : d.mode.propagate (propagated calls d.backend) = propagated calls d.backend) :
    Situated c (calls ++ [d]) e := by
  intro b
  rw [h b, propagated_concat]
  split
  · rename_i hb
    rw [← hb]
    exact hd.symm
  · rfl

theorem Situated.push {c : Nat} {calls : List Definition} {d : Definition} {e inside : Engine} {s : Session}
    (h : Situated c calls e) (hs : ∀ b, (inside.context c).stack b =
      if b = d.backend then ((e.context c).stack b).push s else (e.context c).stack b)
    (hd : d.mode.propagate (propagated calls d.backend) =
      (s.isInTransaction, (propagated calls d.backend).2 + 1)) : Situated c (calls ++ [d]) inside := by
  intro b
  rw [propagated_concat]
  have hb := h b
  unfold Context.isActive Context.current? Context.depth at hb ⊢
  rw [hs]
  by_cases hbb : b = d.backend
  · subst hbb
    rw [if_pos rfl, if_pos rfl, hd, FrameStack.current?_push, FrameStack.depth_push, ← hb]
    rfl
  · rw [if_neg hbb, if_neg fun h => hbb h.symm]
    exact hb

/-! ## Sessions that were issued -/

namespace Known

variable {c : Nat} {b : BackendName} {e e₁ : Engine}

theorem of_contexts (h : Known c e) (hcontexts : e₁.contexts = e.contexts) (hle : e.stores.issued ≤ e₁.stores.issued) :
    Known c e₁ := by
  intro s hs
  rw [Engine.context_congr hcontexts] at hs
  obtain ⟨k, hk, hid⟩ := h s hs
  exact ⟨k, by omega, hid⟩

theorem setStack {st : FrameStack Session} (h : Known c e) (hc : c < e.contexts.size)
    (hst : ∀ s ∈ st.frames, ∃ k, k < e.stores.issued ∧ s.id = Ulid.issued k) : Known c (e.setStack c b st) := by
  rintro s ⟨b', hs⟩
  rw [Engine.context_setStack hc] at hs
  rcases hs with hs | hs
  · rw [Context.stack_setStack] at hs
    split at hs
    · exact hst s hs
    · exact h s ⟨b', .inl hs⟩
  · exact h s ⟨b', .inr hs⟩

theorem stack (h : Known c e) (b : BackendName) :
    ∀ s ∈ ((e.context c).stack b).frames, ∃ k, k < e.stores.issued ∧ s.id = Ulid.issued k :=
  fun s hs => h s ⟨b, .inl hs⟩

end Known

theorem known_push {st : FrameStack Session} {t : Session} {n : Nat}
    (hst : ∀ s ∈ st.frames, ∃ k, k < n ∧ s.id = Ulid.issued k) (ht : ∃ k, k < n ∧ t.id = Ulid.issued k) :
    ∀ s ∈ (st.push t).frames, ∃ k, k < n ∧ s.id = Ulid.issued k := by
  intro s hs
  rcases List.mem_cons.1 hs with rfl | hs
  · exact ht
  · exact hst s hs

theorem issued_acquired {e e₁ : Engine} {p : Nat} {s : Session} (h : Acquired e p s e₁) :
    e₁.stores.issued = e.stores.issued + 1 := by
  rw [h.stores]
  rfl

namespace Known

variable {c : Nat} {b : BackendName} {e e₁ : Engine} {s : Session}

/-- **Every step leaves every session known.** -/
theorem step (h : Known c e) (hs : Step c e e₁) : Known c e₁ := by
  cases hs with
  | aside hbooks hissued => exact h.of_contexts hbooks.contexts hissued
  | @detached b p s e₁ hc hp hnone ha =>
    have hissued := issued_acquired ha
    have hc₁ := ha.inRange hc
    have hle : ∀ k, k < e.stores.issued → k < e₁.stores.issued := fun k hk => by omega
    have hlt : e.stores.issued < e₁.stores.issued := by omega
    rintro t ⟨b', ht⟩
    rw [Engine.context_setContext hc₁] at ht
    rcases ht with ht | ht
    · obtain ⟨k, hk, hid⟩ := h t ⟨b', .inl ht⟩
      exact ⟨k, hle k hk, hid⟩
    · simp only [SortedMap.get?_insert] at ht
      split at ht
      · cases ht
        exact ⟨e.stores.issued, hlt, ha.id⟩
      · obtain ⟨k, hk, hid⟩ := h t ⟨b', .inr ht⟩
        exact ⟨k, hle k hk, hid⟩
  | @pushed b p s e₁ hc hp ha =>
    have hissued := issued_acquired ha
    have h₁ : Known c e₁ := h.of_contexts ha.contexts (by omega)
    have hst := h₁.stack b
    rw [Engine.context_congr ha.contexts] at hst
    exact h₁.setStack (ha.inRange hc) (known_push hst ⟨e.stores.issued, by omega, ha.id⟩)
  | @swapped b s t st hc hst hid =>
    have hknown := h.stack b
    rw [hst] at hknown
    exact h.setStack hc (known_push (fun t ht => hknown t (List.mem_cons_of_mem _ ht))
      (hid ▸ hknown s List.mem_cons_self))
  | @dropped b p s st hc hst hp hs =>
    have hknown := h.stack b
    rw [hst] at hknown
    have hset : Known c (e.setStack c b st) := h.setStack hc fun t ht => hknown t (List.mem_cons_of_mem _ ht)
    exact hset.of_contexts (Engine.contexts_release ..) (Nat.le_of_eq (congrArg _ (Engine.stores_release ..).symm))

theorem steps (h : Known c e) (hs : Steps c e e₁) : Known c e₁ := hs.keeps .step h

/-- A session with the next identifier is not one that the context has. -/
theorem ne_of_next (h : Known c e) (hs : s.id = Ulid.issued e.stores.issued) :
    ∀ t, (e.context c).has t → t.id ≠ s.id := by
  intro t ht hid
  obtain ⟨k, hk, hkid⟩ := h t ht
  rw [hkid, hs] at hid
  have := Ulid.issued_inj hid
  omega

end Known

/-! ## Calls -/

namespace Propagates

variable {r : Registry} {c : Nat} {calls : List Definition} {d : Definition} {before after : Engine} {p : Nat}
  {visit : Option Visit} {outcome : Outcome Failure Unit}

theorem of_resolved {res : Resolution} (hp : r.get? d.backend = some p)
    (hr : d.mode.resolve (propagated calls d.backend).1 = .ok res)
    (hnone : visit = none → ∃ err, outcome = .failed (.transaction (.resource err)))
    (hin : (propagated (calls ++ [d]) d.backend).2 = (propagated calls d.backend).2 →
      ∃ v, visit = some v ∧ v.entered = before)
    (hfresh : ∀ v, visit = some v → (propagated (calls ++ [d]) d.backend).2 ≠ (propagated calls d.backend).2 →
      Fresh c d.backend before v.entered (propagated (calls ++ [d]) d.backend).1)
    (hafter : ∀ b, (after.context c).stack b = (before.context c).stack b) :
    Propagates r c calls d before visit outcome after := by
  refine ⟨fun h => ?_, fun _ hm ha => ?_, fun _ hm ha => ?_, fun _ _ => hnone, fun _ _ _ => hin, hfresh, hafter⟩
  · rw [hp] at h
    cases h
  · rw [hm, ha] at hr
    cases hr
  · rw [hm, ha] at hr
    cases hr

theorem of_unknown (hp : r.get? d.backend = none) : Propagates r c calls d before none
    (.failed (.transaction (.resource (.unknownBackend d.backend)))) before := by
  refine ⟨fun _ => ⟨rfl, rfl⟩, fun hp' => ?_, fun hp' => ?_, fun _ _ _ => ⟨_, rfl⟩, fun hp' => ?_,
    fun v hv => (by cases hv), fun b => rfl⟩
  all_goals
    rw [hp] at hp'
    cases hp'

theorem of_violated {v : Violation} (hp : r.get? d.backend = some p)
    (hr : d.mode.resolve (propagated calls d.backend).1 = .error v) :
    Propagates r c calls d before none (.failed (.transaction (v.toError d.operation))) before := by
  refine ⟨fun h => ?_, fun _ hm ha => ?_, fun _ hm ha => ?_, fun hm hn _ => ?_, fun _ hm hn _ => ?_,
    fun w hw => (by cases hw), fun b => rfl⟩
  · rw [hp] at h
    cases h
  · rw [hm, ha] at hr
    cases hr
    exact ⟨rfl, rfl⟩
  · rw [hm, ha] at hr
    cases hr
    exact ⟨rfl, rfl⟩
  all_goals
    rcases resolve_eq_error.1 hr with ⟨hmode, ha, -⟩ | ⟨hmode, ha, -⟩
    · rw [hm hmode] at ha
      cases ha
    · rw [hn hmode] at ha
      cases ha

end Propagates

/-- **A call does what its mode says**, if its work does. -/
theorem Course.nested {e : Engine} {r : Registry} {c : Nat} {calls : List Definition} {d : Definition}
    {work : Engine → Ran} {called : (Outcome Failure Unit × Option (Visit × List Event)) × Engine}
    (h : Course e c d (visit work) called) (hc : c < e.contexts.size) (hreg : (e.context c).registry = r)
    (hs : Situated c calls e) (hn : Known c e) (hkept : ∀ e', c < e'.contexts.size → Kept c e' (work e').2)
    (hwork : ∀ e', c < e'.contexts.size → (e'.context c).registry = r → Situated c (calls ++ [d]) e' → Known c e' →
      ∀ ev ∈ (work e').1.2, ev.Propagates r c) :
    ∀ ev ∈ eventsOf calls d e called, ev.Propagates r c := by
  have hk := (h.kept hc hkept).stack
  have hactive : (e.context c).isActive d.backend = (propagated calls d.backend).1 := congrArg Prod.fst (hs d.backend)
  have hdepth := propagated_concat calls d d.backend
  rw [if_pos rfl] at hdepth
  have hgrows : ∀ {res}, d.mode.resolve (propagated calls d.backend).1 = .ok res → res.isInitiator = true →
      (propagated (calls ++ [d]) d.backend).2 ≠ (propagated calls d.backend).2 := by
    intro res hr hi
    rw [hdepth, propagate_initiator hr hi (propagated calls d.backend).2]
    omega
  have hlast : ∀ {ev : Event} {events : List Event}, (∀ ev' ∈ events, ev'.Propagates r c) → ev.Propagates r c →
      ∀ ev' ∈ events ++ [ev], ev'.Propagates r c := fun hevents hev =>
    List.forall_mem_append.2 ⟨hevents, List.forall_mem_singleton.2 hev⟩
  cases h with
  | unknown hp => exact hlast (List.forall_mem_nil _) (.of_unknown (hreg ▸ hp))
  | violated hp hr =>
    rw [hactive] at hr
    exact hlast (List.forall_mem_nil _) (.of_violated (hreg ▸ hp) hr)
  | inPlace hp hr hi =>
    rw [hactive] at hr
    have hsame := propagate_inPlace hr hi (propagated calls d.backend).2
    refine hlast (hwork e hc hreg (hs.stay hsame) hn) ?_
    refine .of_resolved (hreg ▸ hp) hr (fun hv => by cases hv) (fun _ => ⟨_, rfl, rfl⟩) (fun v hv hne => ?_) hk
    rw [hdepth] at hne
    exact absurd (congrArg Prod.snd hsame) hne
  | @starved p res err hp hr hi =>
    rw [hactive] at hr
    refine hlast (List.forall_mem_nil _) (.of_resolved (hreg ▸ hp) hr (fun _ => ⟨err, rfl⟩) (fun heq => ?_) ?_ hk)
    · exact absurd heq (hgrows hr hi)
    · intro v hv
      cases hv
  | @suspended p s e₁ hp hr ha inside hinside =>
    rw [hactive] at hr
    have hi : Framed c d.backend s e inside := hinside ▸ .push hc ha.contexts
    have hni : Known c inside := hinside ▸ hn.step (.pushed hc hp ha)
    have hprop := propagate_suspend hr (propagated calls d.backend).2
    have hsituated : Situated c (calls ++ [d]) inside := hs.push hi.stack (by rw [ha.outside]; exact hprop)
    refine hlast (hwork inside (hi.inRange hc) (hi.registry.trans hreg) hsituated hni) ?_
    refine .of_resolved (hreg ▸ hp) hr (fun hv => by cases hv) (fun heq => absurd heq (hgrows hr rfl))
      (fun v hv _ => ?_) hk
    cases hv
    rw [hdepth, hprop]
    exact ⟨s, hi.stack, ha.outside, ha.id, hn.ne_of_next ha.id⟩
  | @notBegun p s e₁ err hp hr ha framed hframed hb =>
    rw [hactive] at hr
    refine hlast (List.forall_mem_nil _) (.of_resolved (hreg ▸ hp) hr (fun _ => ⟨err, rfl⟩) (fun heq => ?_) ?_ hk)
    · exact absurd heq (hgrows hr rfl)
    · intro v hv
      cases hv
  | @begun p s tx e₁ hp hr ha framed hframed hb inside hinside back hback ended hended =>
    rw [hactive] at hr
    obtain ⟨hid, htx⟩ := Session.begin_ok (Engine.enter_ok hb).1
    have hi := framed_inside hc ha hframed hinside
    have hni : Known c inside := hn.steps (steps_inside hc hp ha hframed hb hinside)
    have hprop := propagate_begin hr (propagated calls d.backend).2
    have hsituated : Situated c (calls ++ [d]) inside := hs.push hi.stack (by rw [htx]; exact hprop)
    refine hlast (hwork inside (hi.inRange hc) (hi.registry.trans hreg) hsituated hni) ?_
    refine .of_resolved (hreg ▸ hp) hr (fun hv => by cases hv) (fun heq => absurd heq (hgrows hr rfl))
      (fun v hv _ => ?_) hk
    cases hv
    rw [hdepth, hprop]
    exact ⟨tx, hi.stack, htx, hid.trans ha.id, fun t ht => hid ▸ hn.ne_of_next ha.id t ht⟩

/-- **Work and its calls are as the modes say**, at every moment. -/
theorem exec_nested {r : Registry} (c : Nat) : ∀ (w : Work) (calls : List Definition) (e : Engine),
    c < e.contexts.size → (e.context c).registry = r → Situated c calls e → Known c e →
    ∀ ev ∈ (exec c w calls e).1.2, ev.Propagates r c
  | .done outcome, calls, e, hc, hreg, hs, hn => List.forall_mem_singleton.2 hs
  | .look next, calls, e, hc, hreg, hs, hn =>
    forall_since (List.forall_mem_singleton.2 hs) (exec_nested c (next e) calls e hc hreg hs hn)
  | .resource b next, calls, e, hc, hreg, hs, hn => by
    have hk := kept_resource hc b
    exact forall_since (List.forall_mem_singleton.2 hs) (exec_nested c _ calls _ (hk.size ▸ hc)
      (hk.registry.trans hreg) (hs.kept hk) (hn.steps (Engine.steps_resource hc b)))
  | .write s t change next, calls, e, hc, hreg, hs, hn => by
    have hk := kept_sameBooks (c := c) (e.sameBooks_apply s t change)
    exact forall_since (List.forall_mem_cons.2 ⟨hs, List.forall_mem_singleton.2 trivial⟩) (exec_nested c _ calls _
      (hk.size ▸ hc) (hk.registry.trans hreg) (hs.kept hk) (hn.steps (e.steps_apply c s t change)))
  | .begin s next, calls, e, hc, hreg, hs, hn => by
    have hk := kept_sameBooks (c := c) (e.sameBooks_enter s)
    exact forall_since (List.forall_mem_singleton.2 hs) (exec_nested c _ calls _ (hk.size ▸ hc)
      (hk.registry.trans hreg) (hs.kept hk) (hn.steps (e.steps_enter c s)))
  | .finish tx v next, calls, e, hc, hreg, hs, hn => by
    unfold exec
    split
    · exact forall_since (List.forall_mem_singleton.2 hs) (exec_nested c _ calls e hc hreg hs hn)
    · have hk := kept_sameBooks (c := c) (e.sameBooks_finish tx v)
      exact forall_since (List.forall_mem_singleton.2 hs) (exec_nested c _ calls _ (hk.size ▸ hc)
        (hk.registry.trans hreg) (hs.kept hk) (hn.steps (e.steps_finish c tx v)))
  | .run d body next, calls, e, hc, hreg, hs, hn => by
    have hcourse := exec_course hc d body (calls ++ [d])
    have hkept : ∀ e', c < e'.contexts.size → Kept c e' (exec c body (calls ++ [d]) e').2 := fun e' hc' =>
      exec_kept c body (calls ++ [d]) e' hc'
    have hstepped := hcourse.stepped hc hkept (fun e' hc' => exec_stepped c body (calls ++ [d]) e' hc') calls
    have hk := hcourse.kept hc hkept
    have hcall := hcourse.nested hc hreg hs hn hkept fun e' hc' hreg' hs' hn' =>
      exec_nested c body (calls ++ [d]) e' hc' hreg' hs' hn'
    exact forall_since (List.forall_mem_cons.2 ⟨hs, hcall⟩) (exec_nested c _ calls _ (hk.size ▸ hc)
      (hk.registry.trans hreg) (hs.kept hk) (hn.steps hstepped.steps))

/-- **Propagation is what the modes make of one another.**  Whatever work is done in a new context, inside any calls on
any data sources: whether a transaction is running and how many frames there are, for each data source, is what the
modes of its own enclosing calls come to; and every call does what its mode says. -/
theorem propagation_refines_fold (e₀ : Engine) (r : Registry) (w : Work) :
    ∀ ev ∈ (exec (e₀.addContext r).1 w [] (e₀.addContext r).2).1.2, ev.Propagates r (e₀.addContext r).1 := by
  have hx := Engine.context_addContext e₀ r
  refine exec_nested _ w [] _ (Engine.size_addContext e₀ r) (by rw [hx]) (fun b => ?_) ?_
  · rw [hx]
    rfl
  · rintro s ⟨b, hs⟩
    rw [hx] at hs
    rcases hs with hs | hs <;> cases hs

/-- A call that must not be made in a transaction, in a transaction. -/
def Work.neverInside : Work :=
  .run { operation := "outer" } (.run { operation := "inner", mode := .never } (.done (.value ())) .done) .done

theorem neverInside_refines_fold :
    let events := (exec 0 Work.neverInside [] (Engine.single.addContext Registry.single).2).1.2
    ∃ h : 2 < events.length, events.get ⟨2, h⟩ ∈ events ∧ (events.get ⟨2, h⟩).Propagates Registry.single 0 := by
  have h : 2 < (exec 0 Work.neverInside [] (Engine.single.addContext Registry.single).2).1.2.length := by
    decide +kernel
  exact ⟨h, List.get_mem _ _,
    propagation_refines_fold Engine.single Registry.single Work.neverInside _ (List.get_mem _ _)⟩

end Demarcate
