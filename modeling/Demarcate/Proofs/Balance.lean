import Demarcate.Proofs.Steps
/-!
# Balance — every frame is taken off, and every session given back

Whatever work does in a context, a call leaves the stacks as it found them, and where it takes a frame off or swaps its
session back, the frame is there (`Balanced`).  Every step of work keeps the accounts (`Accounted.step`): a provider
counts, beyond what it counted when the context was made, the frames of its data source and the session besides.
That session is one and the same for the context's life (`Lasting`), it is in no transaction, and closing the context
gives it back.
-/
namespace Demarcate

open Engine (Acquired SameBooks Step Steps handsOut)
open Work (exec visit Ran)

/-- How many sessions a context has of a data source: its frames, and the session besides. -/
def Context.held (x : Context) (b : BackendName) : Nat :=
  x.depth b + if (x.detached.get? b).isSome then 1 else 0

/-- Every data source has a provider, and no other data source has the same. -/
structure Engine.Serves (e : Engine) (r : Registry) : Prop where
  inRange : ∀ b p, r.get? b = some p → p < e.providers.size
  own : ∀ b b' p, r.get? b = some p → r.get? b' = some p → b = b'

/-- `Owed e₀ r held e`: since `e₀`, the providers of the data sources `r` have handed out as many sessions as are `held`
and not given back. -/
structure Owed (e₀ : Engine) (r : Registry) (held : BackendName → Nat) (e : Engine) : Prop where
  serves : e₀.Serves r
  size : e.providers.size = e₀.providers.size
  source : ∀ p, (e.provider p).source = (e₀.provider p).source
  opened : ∀ b p, r.get? b = some p → (e.provider p).opened = (e₀.provider p).opened + UInt64.ofNat (held b)
  others : ∀ p, (∀ b, r.get? b ≠ some p) → (e.provider p).opened = (e₀.provider p).opened

/-- `Accounted e₀ r c e`: what was handed out since `e₀` is what the context `c` has. -/
structure Accounted (e₀ : Engine) (r : Registry) (c : Nat) (e : Engine) : Prop where
  registry : (e.context c).registry = r
  owed : Owed e₀ r (e.context c).held e
  /-- What it has besides its frames is in no transaction, and from the data source's own provider. -/
  detached : ∀ b s, (e.context c).detached.get? b = some s →
    s.isInTransaction = false ∧ ∃ p, r.get? b = some p ∧ handsOut (e₀.provider p).source s = true

/-- The sessions that a context has besides its frames stay the ones they are. -/
def Lasting (c : Nat) (e e' : Engine) : Prop :=
  ∀ b s, (e.context c).detached.get? b = some s → (e'.context c).detached.get? b = some s

theorem Lasting.trans {c : Nat} {e e₁ e₂ : Engine} (h₁ : Lasting c e e₁) (h₂ : Lasting c e₁ e₂) : Lasting c e e₂ :=
  fun b s hs => h₂ b s (h₁ b s hs)

/-- What holds of a call that has ended. -/
structure Balanced (c : Nat) (d : Definition) (before : Engine) (called : Option Visit)
    (outcome : Outcome Failure Unit) (after : Engine) : Prop where
  /-- The stacks are as they were. -/
  stack : ∀ b, (after.context c).stack b = (before.context c).stack b
  /-- Nothing unwinds the call but its own work. -/
  unwound : ∀ text, outcome = .unwound text ↔ ∃ v, called = some v ∧ v.outcome = .unwound text
  /-- The work found the stacks as they were before the call, or with one frame more, and left them so. -/
  visit : ∀ v, called = some v → (∀ b, (v.left.context c).stack b = (v.entered.context c).stack b) ∧
    (v.entered = before ∨ ∃ s, ∀ b, (v.entered.context c).stack b =
      if b = d.backend then ((before.context c).stack b).push s else (before.context c).stack b)

namespace Event

def Balanced (c : Nat) : Event → Prop
  | .called _ d before visit outcome after => Demarcate.Balanced c d before visit outcome after
  | _ => True

end Event

/-! ## What is acquired and what is released -/

namespace Owed

variable {e₀ e e₁ : Engine} {r : Registry} {held held' : BackendName → Nat} {b : BackendName} {p : Nat} {s : Session}

theorem congr (h : Owed e₀ r held e) (hproviders : e₁.providers = e.providers) (hheld : ∀ b, held' b = held b) :
    Owed e₀ r held' e₁ := by
  have hp := Engine.provider_congr hproviders
  refine ⟨h.serves, by rw [hproviders, h.size], fun p => ?_, fun b p hb => ?_, fun p hb => ?_⟩
  · rw [hp, h.source]
  · rw [hp, h.opened b p hb, hheld]
  · rw [hp, h.others p hb]

theorem acquired (h : Owed e₀ r held e) (hb : r.get? b = some p) (ha : Acquired e p s e₁)
    (hheld : ∀ b', held' b' = held b' + if b' = b then 1 else 0) : Owed e₀ r held' e₁ := by
  have hp := Engine.provider_congr ha.providers
  have hin : p < e.providers.size := h.size ▸ h.serves.inRange b p hb
  refine ⟨h.serves, ?_, fun q => ?_, fun b' q hq => ?_, fun q hq => ?_⟩
  · rw [ha.providers, Engine.size_setOpened, h.size]
  · rw [hp, Engine.source_setOpened, h.source]
  · rw [hp, Engine.opened_setOpened hin, hheld]
    by_cases hqp : q = p
    · subst hqp
      have hbb := h.serves.own b' b q hq hb
      rw [if_pos rfl, h.opened b q hb, if_pos hbb, hbb, UInt64.ofNat_add, UInt64.add_assoc]
      rfl
    · have hne : b' ≠ b := fun hbb => hqp (by
        rw [hbb, hb] at hq
        exact (Option.some.inj hq).symm)
      rw [if_neg hqp, if_neg hne, h.opened b' q hq, Nat.add_zero]
  · have hqp : q ≠ p := fun hqp => hq b (hqp ▸ hb)
    rw [hp, Engine.opened_setOpened hin, if_neg hqp, h.others q hq]

theorem released (h : Owed e₀ r held e) (hb : r.get? b = some p) (hs : handsOut (e₀.provider p).source s = true)
    (hheld : ∀ b', held b' = held' b' + if b' = b then 1 else 0) : Owed e₀ r held' (e.release p s) := by
  have hrelease := Engine.providers_release (e := e) (p := p) (s := s) (by rw [h.source]; exact hs)
  have hp := Engine.provider_congr hrelease
  have hin : p < e.providers.size := h.size ▸ h.serves.inRange b p hb
  refine ⟨h.serves, ?_, fun q => ?_, fun b' q hq => ?_, fun q hq => ?_⟩
  · rw [hrelease, Engine.size_setOpened, h.size]
  · rw [hp, Engine.source_setOpened, h.source]
  · rw [hp, Engine.opened_setOpened hin]
    by_cases hqp : q = p
    · subst hqp
      have hbb := h.serves.own b' b q hq hb
      rw [if_pos rfl, h.opened b q hb, hheld, if_pos rfl, hbb, UInt64.ofNat_add, ← UInt64.add_assoc]
      exact UInt64.add_sub_cancel _ _
    · have hne : b' ≠ b := fun hbb => hqp (by
        rw [hbb, hb] at hq
        exact (Option.some.inj hq).symm)
      have := hheld b'
      rw [if_neg hne, Nat.add_zero] at this
      rw [if_neg hqp, h.opened b' q hq, this]
  · have hqp : q ≠ p := fun hqp => hq b (hqp ▸ hb)
    rw [hp, Engine.opened_setOpened hin, if_neg hqp, h.others q hq]

end Owed

namespace Accounted

variable {e₀ e e₁ : Engine} {r : Registry} {c : Nat} {b : BackendName} {p : Nat} {s : Session}

theorem sameBooks (h : Accounted e₀ r c e) (hb : SameBooks e e₁) : Accounted e₀ r c e₁ := by
  have hx := hb.context c
  refine ⟨hx ▸ h.registry, h.owed.congr hb.providers fun b => by rw [hx], hx ▸ h.detached⟩

theorem framed (h : Accounted e₀ r c e) (hc : c < e.contexts.size) (hb : r.get? b = some p) (ha : Acquired e p s e₁) :
    Accounted e₀ r c (e₁.setStack c b (((e.context c).stack b).push s)) := by
  have hc₁ := ha.inRange hc
  have hx := Engine.context_congr ha.contexts c
  refine ⟨?_, (h.owed.acquired hb ha fun b' => rfl).congr rfl fun b' => ?_, ?_⟩
  · rw [Engine.context_setStack hc₁, hx]
    exact h.registry
  · unfold Context.held Context.depth
    rw [Engine.stack_setStack hc₁, Engine.context_setStack hc₁, hx]
    by_cases hbb : b' = b
    · rw [if_pos hbb, if_pos hbb, hbb, FrameStack.depth_push, Nat.add_right_comm]
      rfl
    · rw [if_neg hbb, if_neg hbb]
      rfl
  · rw [Engine.context_setStack hc₁, hx]
    exact h.detached

theorem swapped {st : FrameStack Session} (h : Accounted e₀ r c e) (hc : c < e.contexts.size)
    (hst : (e.context c).stack b = st.push s) (t : Session) : Accounted e₀ r c (e.setStack c b (st.push t)) := by
  refine ⟨?_, h.owed.congr rfl fun b' => ?_, ?_⟩
  · rw [Engine.context_setStack hc]
    exact h.registry
  · unfold Context.held Context.depth
    rw [Engine.stack_setStack hc, Engine.context_setStack hc]
    by_cases hbb : b' = b
    · rw [if_pos hbb, hbb, hst]
      rfl
    · rw [if_neg hbb]
      rfl
  · rw [Engine.context_setStack hc]
    exact h.detached

theorem dropped {st : FrameStack Session} (h : Accounted e₀ r c e) (hc : c < e.contexts.size) (hb : r.get? b = some p)
    (hs : handsOut (e₀.provider p).source s = true) (hst : (e.context c).stack b = st.push s) :
    Accounted e₀ r c ((e.setStack c b st).release p s) := by
  have hx : ((e.setStack c b st).release p s).context c = (e.context c).setStack b st := by
    rw [Engine.context_congr (Engine.contexts_release ..), Engine.context_setStack hc]
  have hset : Owed e₀ r (e.context c).held (e.setStack c b st) := h.owed.congr rfl fun b => rfl
  refine ⟨hx ▸ h.registry, hset.released hb hs fun b' => ?_, hx ▸ h.detached⟩
  rw [hx]
  unfold Context.held Context.depth
  rw [Context.stack_setStack]
  by_cases hbb : b' = b
  · rw [if_pos hbb, if_pos hbb, hbb, hst, FrameStack.depth_push, Nat.add_right_comm]
    rfl
  · rw [if_neg hbb, if_neg hbb]
    rfl

/-- A session is acquired to be kept besides the frames. -/
theorem kept (h : Accounted e₀ r c e) (hc : c < e.contexts.size) (hb : r.get? b = some p)
    (hnone : (e.context c).detached.get? b = none) (ha : Acquired e p s e₁) :
    Accounted e₀ r c
      (e₁.setContext c { e.context c with detached := (e.context c).detached.insert b s }) := by
  have hc₁ := ha.inRange hc
  refine ⟨?_, (h.owed.acquired hb ha fun b' => rfl).congr rfl fun b' => ?_, fun b' t ht => ?_⟩
  · rw [Engine.context_setContext hc₁]
    exact h.registry
  · unfold Context.held Context.depth
    rw [Engine.context_setContext hc₁]
    simp only [SortedMap.get?_insert]
    by_cases hbb : b' = b
    · rw [if_pos hbb, if_pos hbb, hbb, hnone]
      rfl
    · rw [if_neg hbb, if_neg hbb]
      rfl
  · rw [Engine.context_setContext hc₁] at ht
    simp only [SortedMap.get?_insert] at ht
    by_cases hbb : b' = b
    · rw [if_pos hbb, Option.some.injEq] at ht
      subst ht
      exact ⟨ha.outside, p, hbb ▸ hb, by rw [← h.owed.source]; exact ha.handed⟩
    · rw [if_neg hbb] at ht
      exact h.detached b' t ht

/-- **Every step keeps the accounts.** -/
theorem step (h : Accounted e₀ r c e) (hs : Step c e e₁) : Accounted e₀ r c e₁ := by
  cases hs with
  | aside hbooks hissued => exact h.sameBooks hbooks
  | detached hc hp hnone ha => exact h.kept hc (h.registry ▸ hp) hnone ha
  | pushed hc hp ha => exact h.framed hc (h.registry ▸ hp) ha
  | swapped hc hst hid => exact h.swapped hc hst _
  | dropped hc hst hp hs =>
    rw [h.owed.source] at hs
    exact h.dropped hc (h.registry ▸ hp) hs hst

end Accounted

/-! ## Sessions besides the frames -/

theorem Lasting.of_eq {c : Nat} {e e₁ : Engine} (h : (e₁.context c).detached = (e.context c).detached) :
    Lasting c e e₁ := fun b s hs => by
  rw [h]
  exact hs

/-- **No step touches a session besides the frames.** -/
theorem Lasting.of_step {c : Nat} {e e₁ : Engine} (h : Step c e e₁) : Lasting c e e₁ := by
  cases h with
  | aside hbooks hissued => exact of_eq (by rw [hbooks.context])
  | @detached b p s e₁ hc hp hnone ha =>
    intro b' t ht
    rw [Engine.context_setContext (ha.inRange hc)]
    simp only [SortedMap.get?_insert]
    by_cases hbb : b' = b
    · rw [hbb, hnone] at ht
      cases ht
    · rw [if_neg hbb]
      exact ht
  | pushed hc hp ha =>
    refine of_eq ?_
    rw [Engine.context_setStack (ha.inRange hc), Engine.context_congr ha.contexts]
    rfl
  | swapped hc hst hid =>
    refine of_eq ?_
    rw [Engine.context_setStack hc]
    rfl
  | dropped hc hst hp hs =>
    refine of_eq ?_
    rw [Engine.context_congr (Engine.contexts_release ..), Engine.context_setStack hc]
    rfl

theorem Lasting.of_steps {c : Nat} {e e₁ : Engine} (h : Steps c e e₁) : Lasting c e e₁ :=
  h.keeps (fun hlasting hs => hlasting.trans (.of_step hs)) (of_eq rfl)

/-! ## Calls are balanced -/

namespace Balanced

variable {c : Nat} {d : Definition} {e e₁ : Engine} {outcome : Outcome Failure Unit}

theorem refused (hk : Kept c e e₁) (hnot : ∀ text, outcome ≠ .unwound text) : Balanced c d e none outcome e₁ := by
  refine ⟨hk.stack, fun text => ⟨fun ht => absurd ht (hnot text), ?_⟩, fun v hv => by cases hv⟩
  rintro ⟨v, hv, -⟩
  cases hv

theorem visited {v : Visit} (hk : Kept c e e₁) (hv : Kept c v.entered v.left)
    (hentered : v.entered = e ∨ ∃ s, Framed c d.backend s e v.entered)
    (hunwound : ∀ text, outcome = .unwound text ↔ v.outcome = .unwound text) :
    Balanced c d e (some v) outcome e₁ := by
  refine ⟨hk.stack, fun text => ?_, fun v' hv' => ?_⟩
  · rw [hunwound]
    exact ⟨fun ht => ⟨v, rfl, ht⟩, fun ⟨v', hv', ht⟩ => Option.some.inj hv' ▸ ht⟩
  · cases hv'
    exact ⟨hv.stack, hentered.imp_right fun ⟨s, hs⟩ => ⟨s, hs.stack⟩⟩

end Balanced

/-- **A call is balanced whatever course it takes.** -/
theorem Course.balanced {c : Nat} {d : Definition} {e : Engine} {work : Engine → Ran}
    {called : (Outcome Failure Unit × Option (Visit × List Event)) × Engine} (h : Course e c d (visit work) called)
    (hc : c < e.contexts.size) (hkept : ∀ e', c < e'.contexts.size → Kept c e' (work e').2) :
    Balanced c d e (called.1.2.map (·.1)) called.1.1 called.2 := by
  have hk := h.kept hc hkept
  cases h with
  | unknown hp => exact .refused hk fun text ht => by cases ht
  | violated hp hr => exact .refused hk fun text ht => by cases ht
  | inPlace hp hr hi => exact .visited hk (hkept e hc) (.inl rfl) fun text => Iff.rfl
  | starved hp hr hi => exact .refused hk fun text ht => by cases ht
  | @suspended p s e₁ hp hr ha inside hinside =>
    have hi : Framed c d.backend s e inside := hinside ▸ .push hc ha.contexts
    exact .visited hk (hkept inside (hi.inRange hc)) (.inr ⟨s, hi⟩) fun text => Iff.rfl
  | notBegun hp hr ha framed hframed hb => exact .refused hk fun text ht => by cases ht
  | @begun p s tx e₁ hp hr ha framed hframed hb inside hinside back hback ended hended =>
    have hi := framed_inside hc ha hframed hinside
    refine .visited hk (hkept inside (hi.inRange hc)) (.inr ⟨tx, hi⟩) fun text => ?_
    rw [hended]
    exact combine_eq_unwound

theorem exec_balanced (c : Nat) : ∀ (w : Work) (calls : List Definition) (e : Engine), c < e.contexts.size →
    ∀ ev ∈ (exec c w calls e).1.2, ev.Balanced c := by
  refine exec_events c (fun _ _ => trivial) (fun _ _ _ _ _ => trivial) fun d body calls e called hc hcourse => ?_
  exact hcourse.balanced hc fun e' hc' => exec_kept c body (calls ++ [d]) e' hc'

/-! ## The life of a context -/

theorem Owed.releasedAll {e₀ : Engine} {r : Registry} {held : BackendName → Nat} : ∀ (l : List (BackendName × Session))
    (e : Engine), (l.map (·.1)).Nodup →
    (∀ b s, (b, s) ∈ l → ∃ p, r.get? b = some p ∧ handsOut (e₀.provider p).source s = true) →
    Owed e₀ r (fun b => held b + if b ∈ l.map (·.1) then 1 else 0) e →
    Owed e₀ r held (l.foldl (fun e (b, s) =>
      match r.get? b with
      | some p => e.release p s
      | none => e) e)
  | [], e, _, _, h => h.congr rfl fun b => by simp
  | (b, s) :: l, e, hnodup, hl, h => by
    rw [List.map_cons, List.nodup_cons] at hnodup
    obtain ⟨p, hp, hs⟩ := hl b s List.mem_cons_self
    rw [List.foldl_cons]
    simp only [hp]
    refine releasedAll l _ hnodup.2 (fun b' s' h' => hl b' s' (List.mem_cons_of_mem _ h')) ?_
    refine h.released hp hs fun b' => ?_
    rw [List.map_cons]
    by_cases hb : b' = b
    · subst hb
      rw [if_pos List.mem_cons_self, if_pos rfl, if_neg hnodup.1]
    · simp only [List.mem_cons, hb, false_or, if_false, Nat.add_zero]

/-- **Closing a context gives back what it has besides its frames.** -/
theorem owed_closeContext {e₀ e : Engine} {r : Registry} {c : Nat} (h : Accounted e₀ r c e) :
    Owed e₀ r (e.context c).depth (e.closeContext c) := by
  unfold Engine.closeContext
  simp only
  rw [h.registry]
  apply Owed.releasedAll
  · exact SortedMap.nodup_keys (e.context c).detached
  · intro b s hs
    exact (h.detached b s (SortedMap.get?_eq_some_iff.2 hs)).2
  · refine h.owed.congr rfl fun b => ?_
    unfold Context.held
    congr 1
    have hmem : (b ∈ (e.context c).detached.entries.map (·.1)) ↔ ((e.context c).detached.get? b).isSome = true := by
      rw [Option.isSome_iff_exists, List.mem_map]
      constructor
      · rintro ⟨⟨b', s⟩, hs, rfl⟩
        exact ⟨s, SortedMap.get?_eq_some_iff.2 hs⟩
      · rintro ⟨s, hs⟩
        exact ⟨(b, s), SortedMap.get?_eq_some_iff.1 hs, rfl⟩
    simp only [hmem]

theorem accounted_addContext {e₀ : Engine} {r : Registry} (hr : e₀.Serves r) :
    Accounted e₀ r (e₀.addContext r).1 (e₀.addContext r).2 := by
  have hx := Engine.context_addContext e₀ r
  refine ⟨by rw [hx], ⟨hr, rfl, fun p => rfl, fun b p hb => ?_, fun p hb => rfl⟩, fun b s hs => ?_⟩
  · rw [hx]
    exact (UInt64.add_zero _).symm
  · rw [hx] at hs
    cases hs

/-- **Frames and sessions are balanced on every way out.**  Whatever work is done in a new context, and however it ends:
the stacks are empty again; every call in it was balanced; at every moment the providers had handed out just what the
context had, and what it had besides its frames it keeps; and with the context closed, nothing is left handed out. -/
theorem work_is_balanced {e₀ : Engine} {r : Registry} (hr : e₀.Serves r) (w : Work) :
    let c := (e₀.addContext r).1
    let ran := exec c w [] (e₀.addContext r).2
    (∀ b, (ran.2.context c).stack b = {}) ∧
      (∀ ev ∈ ran.1.2, ev.Balanced c ∧ ∀ m ∈ ev.moments, Accounted e₀ r c m ∧ Lasting c m ran.2) ∧
      ∀ p, ((ran.2.closeContext c).provider p).opened = (e₀.provider p).opened := by
  intro c ran
  have hc := Engine.size_addContext e₀ r
  have hran : Stepped c _ ran := exec_stepped c w [] _ hc
  have haccounted : ∀ {m}, Steps c (e₀.addContext r).2 m → Accounted e₀ r c m := fun hm =>
    hm.keeps .step (accounted_addContext hr)
  have hempty : ∀ b, (ran.2.context c).stack b = {} := fun b => by
    rw [(exec_kept c w [] _ hc).stack b, Engine.context_addContext]
    rfl
  refine ⟨hempty, fun ev hev => ⟨exec_balanced c w [] _ hc ev hev, fun m hm => ?_⟩, fun p => ?_⟩
  · obtain ⟨hbefore, hafter⟩ := hran.moments ev hev m hm
    exact ⟨haccounted hbefore, .of_steps hafter⟩
  have howed := owed_closeContext (haccounted hran.steps)
  by_cases hp : ∃ b, r.get? b = some p
  · obtain ⟨b, hb⟩ := hp
    rw [howed.opened b p hb]
    unfold Context.depth
    rw [hempty b]
    exact UInt64.add_zero _
  · exact howed.others p fun b hb => hp ⟨b, hb⟩

theorem serves_single : Engine.single.Serves Registry.single := by
  have hget : ∀ b p, Registry.single.get? b = some p → b = BackendName.default ∧ p = 0 := by
    intro b p hb
    unfold Registry.single at hb
    rw [SortedMap.get?_insert] at hb
    split at hb
    · rename_i hd
      cases hb
      exact ⟨hd, rfl⟩
    · cases hb
  refine ⟨fun b p hb => ?_, fun b b' p hb hb' => ?_⟩
  · rw [(hget b p hb).2]
    decide
  · rw [(hget b p hb).1, (hget b' p hb').1]

/-- A transaction in a transaction, of which the inner one unwinds and the outer one goes on. -/
def Work.unwindsInside : Work :=
  .run { operation := "outer" }
    (.run { operation := "inner", mode := .requiresNew } (.done (.unwound "boom")) fun _ => .done (.value ()))
    fun outcome => .resource BackendName.default fun _ => .done outcome

theorem unwindsInside_is_balanced :
    Engine.single.Serves Registry.single ∧
      let ran := exec 0 Work.unwindsInside [] (Engine.single.addContext Registry.single).2
      (∀ b, (ran.2.context 0).stack b = {}) ∧
        (∀ ev ∈ ran.1.2, ev.Balanced 0 ∧
          ∀ m ∈ ev.moments, Accounted Engine.single Registry.single 0 m ∧ Lasting 0 m ran.2) ∧
        ∀ p, ((ran.2.closeContext 0).provider p).opened = (Engine.single.provider p).opened :=
  ⟨serves_single, work_is_balanced serves_single Work.unwindsInside⟩

end Demarcate
