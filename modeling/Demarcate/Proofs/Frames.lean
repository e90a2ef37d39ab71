import Demarcate.Interceptor
/-!
# Frames — what the bookkeeping changes, and what it leaves alone

The engine's parts change apart from one another: the contexts by `setStack` and `resource`, the providers by `acquire`
and `release`, the stores by the sessions' work, and the plan by every call of a provider.  A stack that is set counts
as it was set last (`setStack_setStack`), so a push, a swap and a pop leave one `setStack` behind.
-/
namespace Demarcate

theorem getD_setIfInBounds {α : Type} (xs : Array α) (i j : Nat) (x d : α) :
    (xs.setIfInBounds i x).getD j d = if j = i ∧ i < xs.size then x else xs.getD j d := by
  rw [Array.getD_eq_getD_getElem?, Array.getD_eq_getD_getElem?, Array.getElem?_setIfInBounds]
  by_cases hj : i = j
  · subst hj
    by_cases hi : i < xs.size <;> simp [hi]
  · have hj' : j ≠ i := fun h => hj h.symm
    simp [hj, hj']

namespace Context

theorem stack_setStack (x : Context) (b b' : BackendName) (st : FrameStack Session) :
    (x.setStack b st).stack b' = if b' = b then st else x.stack b' := by
  unfold stack setStack
  rw [SortedMap.get?_insert]
  split <;> rfl

theorem setStack_setStack (x : Context) (b : BackendName) (s t : FrameStack Session) :
    (x.setStack b s).setStack b t = x.setStack b t := by
  unfold setStack
  have h : (x.frames.insert b s).insert b t = x.frames.insert b t := by
    apply SortedMap.ext_get?
    intro k
    rw [SortedMap.get?_insert, SortedMap.get?_insert, SortedMap.get?_insert]
    by_cases hk : k = b <;> simp [hk]
  rw [h]

theorem popFrame?_of_stack {x : Context} {b : BackendName} {s : Session} {st : FrameStack Session}
    (h : x.stack b = st.push s) : x.popFrame? b = some (s, x.setStack b st) := by
  unfold popFrame?
  rw [h, FrameStack.pop?_push]
  rfl

theorem swapTop?_of_stack {x : Context} {b : BackendName} {s t : Session} {st : FrameStack Session}
    (h : x.stack b = st.push s) : x.swapTop? b t = some (s, x.setStack b (st.push t)) := by
  unfold swapTop?
  rw [h, FrameStack.replaceTop?_push]
  rfl

end Context

namespace Engine

theorem context_congr {e e' : Engine} (h : e'.contexts = e.contexts) (c : Nat) : e'.context c = e.context c := by
  unfold context
  rw [h]

theorem provider_congr {e e' : Engine} (h : e'.providers = e.providers) (p : Nat) : e'.provider p = e.provider p := by
  unfold provider
  rw [h]

/-! ## Contexts -/

theorem size_setContext (e : Engine) (c : Nat) (x : Context) :
    (e.setContext c x).contexts.size = e.contexts.size := Array.size_setIfInBounds

theorem context_setContext {e : Engine} {c : Nat} (h : c < e.contexts.size) (x : Context) :
    (e.setContext c x).context c = x := by
  unfold context setContext
  simp [Array.getD, h]

theorem setContext_setContext (e : Engine) (c : Nat) (x y : Context) :
    (e.setContext c x).setContext c y = e.setContext c y := by
  unfold setContext
  simp

def setStack (e : Engine) (c : Nat) (b : BackendName) (st : FrameStack Session) : Engine :=
  e.setContext c ((e.context c).setStack b st)

@[simp] theorem stores_setStack (e : Engine) (c : Nat) (b : BackendName) (st : FrameStack Session) :
    (e.setStack c b st).stores = e.stores := rfl

@[simp] theorem plan_setStack (e : Engine) (c : Nat) (b : BackendName) (st : FrameStack Session) :
    (e.setStack c b st).plan = e.plan := rfl

@[simp] theorem size_setStack (e : Engine) (c : Nat) (b : BackendName) (st : FrameStack Session) :
    (e.setStack c b st).contexts.size = e.contexts.size := size_setContext ..

theorem context_setStack {e : Engine} {c : Nat} (h : c < e.contexts.size) (b : BackendName) (st : FrameStack Session) :
    (e.setStack c b st).context c = (e.context c).setStack b st := context_setContext h _

theorem stack_setStack {e : Engine} {c : Nat} (h : c < e.contexts.size) (b b' : BackendName)
    (st : FrameStack Session) :
    ((e.setStack c b st).context c).stack b' = if b' = b then st else (e.context c).stack b' := by
  rw [context_setStack h, Context.stack_setStack]

/-- **A stack counts as it was set last.** -/
theorem setStack_setStack {e : Engine} {c : Nat} (h : c < e.contexts.size) (b : BackendName)
    (s t : FrameStack Session) : (e.setStack c b s).setStack c b t = e.setStack c b t := by
  unfold setStack
  rw [context_setContext h, setContext_setContext, Context.setStack_setStack]

theorem pushFrame_eq (e : Engine) (c : Nat) (b : BackendName) (s : Session) :
    e.pushFrame c b s = e.setStack c b (((e.context c).stack b).push s) := rfl

theorem swapTop?_of_stack {e : Engine} {c : Nat} {b : BackendName} {s t : Session} {st : FrameStack Session}
    (h : (e.context c).stack b = st.push s) : e.swapTop? c b t = some (s, e.setStack c b (st.push t)) := by
  unfold swapTop?
  rw [Context.swapTop?_of_stack h]
  rfl

theorem dropFrame?_of_stack {e : Engine} {c : Nat} {b : BackendName} {s : Session} {st : FrameStack Session} {p : Nat}
    (h : (e.context c).stack b = st.push s) (hp : (e.context c).registry.get? b = some p) :
    e.dropFrame? c b = some ((e.setStack c b st).release p s) := by
  unfold dropFrame?
  rw [Context.popFrame?_of_stack h]
  have hp' : ((e.context c).setStack b st).registry.get? b = some p := hp
  simp only [hp']
  rfl

theorem context_addContext (e : Engine) (r : Registry) :
    (e.addContext r).2.context (e.addContext r).1 = { registry := r } := by
  unfold addContext context
  simp

theorem size_addContext (e : Engine) (r : Registry) : (e.addContext r).1 < (e.addContext r).2.contexts.size := by
  unfold addContext
  simp

/-! ## Calls of a provider -/

/-- Only the stores and the plan have changed. -/
structure SameBooks (e e' : Engine) : Prop where
  contexts : e'.contexts = e.contexts
  providers : e'.providers = e.providers

namespace SameBooks

theorem context {e e' : Engine} (h : SameBooks e e') (c : Nat) : e'.context c = e.context c :=
  context_congr h.contexts c

theorem provider {e e' : Engine} (h : SameBooks e e') (p : Nat) : e'.provider p = e.provider p :=
  provider_congr h.providers p

end SameBooks

theorem sameBooks_count (e : Engine) (k : ProviderCall) : SameBooks e (e.count k).2 := by
  unfold count
  split <;> exact ⟨rfl, rfl⟩

theorem stores_count (e : Engine) (k : ProviderCall) : (e.count k).2.stores = e.stores := by
  unfold count
  split <;> rfl

theorem provider_setOpened (e : Engine) (p : Nat) (n : UInt64) (q : Nat) :
    (e.setOpened p n).provider q =
      if q = p ∧ p < e.providers.size then { e.provider p with opened := n } else e.provider q :=
  getD_setIfInBounds ..

theorem opened_setOpened {e : Engine} {p : Nat} (hp : p < e.providers.size) (n : UInt64) (q : Nat) :
    ((e.setOpened p n).provider q).opened = if q = p then n else (e.provider q).opened := by
  rw [provider_setOpened]
  by_cases hq : q = p <;> simp [hq, hp]

theorem source_setOpened (e : Engine) (p : Nat) (n : UInt64) (q : Nat) :
    ((e.setOpened p n).provider q).source = (e.provider q).source := by
  rw [provider_setOpened]
  split
  · rename_i h
    rw [h.1]
  · rfl

theorem size_setOpened (e : Engine) (p : Nat) (n : UInt64) : (e.setOpened p n).providers.size = e.providers.size :=
  Array.size_setIfInBounds

/-- `Acquired e p s e'`: the provider `p` hands out the session `s`, which leaves `e'`. -/
structure Acquired (e : Engine) (p : Nat) (s : Session) (e' : Engine) : Prop where
  id : s.id = Ulid.issued e.stores.issued
  outside : s.isInTransaction = false
  handed : handsOut (e.provider p).source s = true
  stores : e'.stores = e.stores.issue.2
  contexts : e'.contexts = e.contexts
  providers : e'.providers = (e.setOpened p ((e.provider p).opened + 1)).providers

theorem Acquired.inRange {e e' : Engine} {c p : Nat} {s : Session} (h : Acquired e p s e')
    (hc : c < e.contexts.size) : c < e'.contexts.size := by
  rw [h.contexts]
  exact hc

/-- **What an acquisition does**: it counts, and hands out a session with the next identifier or nothing. -/
theorem acquire_cases (e : Engine) (p : Nat) :
    (∃ s e', e.acquire p = (.ok s, e') ∧ Acquired e p s e') ∨
      ∃ err, e.acquire p = (.error err, (e.count .acquire).2) := by
  have hsame := sameBooks_count e .acquire
  have hstores := stores_count e .acquire
  unfold acquire
  generalize e.count .acquire = counted at hsame hstores ⊢
  obtain ⟨fault, e₁⟩ := counted
  cases fault with
  | some fault => exact .inr ⟨fault, rfl⟩
  | none =>
    refine .inl ⟨_, _, rfl, ?_⟩
    have hset : (e₁.setOpened p ((e.provider p).opened + 1)).providers =
        (e.setOpened p ((e.provider p).opened + 1)).providers := by
      unfold setOpened
      rw [hsame.provider, hsame.providers]
    have hissue : (e₁.setOpened p ((e.provider p).opened + 1)).stores = e.stores := hstores
    rw [source_setOpened, hsame.provider, hissue]
    cases hs : (e.provider p).source with
    | memory store => exact ⟨rfl, rfl, by rw [hs]; rfl, rfl, hsame.contexts, hset⟩
    | git handle => exact ⟨rfl, rfl, by rw [hs]; rfl, rfl, hsame.contexts, hset⟩

/-- **What asking for a session does**: where there is a frame or a session besides, nothing; else one is acquired and
kept, if the provider hands one out. -/
theorem resource_cases (e : Engine) (c : Nat) (b : BackendName) :
    (e.resource c b).2 = e ∨
      (∃ p s e₁, (e.context c).registry.get? b = some p ∧ (e.context c).detached.get? b = none ∧ Acquired e p s e₁ ∧
        (e.resource c b).2 = e₁.setContext c { e.context c with detached := (e.context c).detached.insert b s }) ∨
      (e.resource c b).2 = (e.count .acquire).2 := by
  unfold resource provider?
  split
  · exact .inl rfl
  · exact .inl rfl
  · rename_i hcurrent hdetached
    cases hp : (e.context c).registry.get? b with
    | none => exact .inl rfl
    | some p =>
      simp only
      obtain ⟨s, e₁, hacquire, ha⟩ | ⟨err, hacquire⟩ := e.acquire_cases p
      · rw [hacquire]
        simp only
        rw [context_congr ha.contexts]
        exact .inr (.inl ⟨p, s, e₁, rfl, hdetached, ha, rfl⟩)
      · rw [hacquire]
        exact .inr (.inr rfl)

@[simp] theorem stores_release (e : Engine) (p : Nat) (s : Session) : (e.release p s).stores = e.stores := by
  have h := stores_count e .release
  unfold release
  simp only
  split <;> exact h

@[simp] theorem contexts_release (e : Engine) (p : Nat) (s : Session) : (e.release p s).contexts = e.contexts := by
  have h := (sameBooks_count e .release).contexts
  unfold release
  simp only
  split <;> exact h

/-- **What a release does**: the provider that handed the session out counts one session less. -/
theorem providers_release {e : Engine} {p : Nat} {s : Session} (h : handsOut (e.provider p).source s = true) :
    (e.release p s).providers = (e.setOpened p ((e.provider p).opened - 1)).providers := by
  have hsame := sameBooks_count e .release
  unfold release
  simp only [hsame.provider, h, if_true]
  unfold setOpened
  rw [hsame.provider, hsame.providers]

/-! ## Work on the stores -/

theorem sameBooks_apply (e : Engine) (s : Session) (t : TableName) (c : Change) : SameBooks e (e.apply s t c).2 :=
  ⟨rfl, rfl⟩

/-- Begins a transaction, unless the call is planned to fail. -/
def enter (e : Engine) (s : Session) : Except ResourceError Session × Engine :=
  match e.count .begin with
  | (some fault, e) => (.error fault, e)
  | (none, e) => ((s.begin e.stores).1, { e with stores := (s.begin e.stores).2 })

/-- A native transaction is entered, and what was entered is finished. -/
theorem transact_eq {α : Type} (e : Engine) (s : Session) (work : Session → Engine → (Verdict × α) × Engine) :
    e.transact s work = match e.enter s with
      | (.error err, e) => (.refused err, e)
      | (.ok tx, e) =>
        let ran := work tx e
        let ended := ran.2.finish tx ran.1.1
        (.ended ended.1 ran.1.2, ended.2) := by
  unfold transact enter
  generalize e.count .begin = counted
  obtain ⟨fault, e₁⟩ := counted
  cases fault with
  | some fault => rfl
  | none =>
    rcases hb : s.begin e₁.stores with ⟨begun, stores⟩
    simp only [hb]
    cases begun <;> rfl

theorem sameBooks_enter (e : Engine) (s : Session) : SameBooks e (e.enter s).2 := by
  have h := sameBooks_count e .begin
  unfold enter
  generalize e.count .begin = counted at h ⊢
  obtain ⟨fault, e₁⟩ := counted
  cases fault <;> exact ⟨h.contexts, h.providers⟩

/-- What entering a transaction does to the stores is what beginning it does, or nothing. -/
theorem enter_cases (e : Engine) (s : Session) :
    (∃ err, (e.enter s).1 = .error err ∧ (e.enter s).2.stores = e.stores) ∨
      ((e.enter s).1 = (s.begin e.stores).1 ∧ (e.enter s).2.stores = (s.begin e.stores).2) := by
  have h := stores_count e .begin
  unfold enter
  generalize e.count .begin = counted at h ⊢
  obtain ⟨fault, e₁⟩ := counted
  cases fault with
  | some fault => exact .inl ⟨fault, rfl, h⟩
  | none =>
    simp only at h
    refine .inr ⟨?_, ?_⟩
    · rw [← h]
    · rw [← h]

theorem enter_ok {e : Engine} {s tx : Session} (h : (e.enter s).1 = .ok tx) :
    (s.begin e.stores).1 = .ok tx ∧ (e.enter s).2.stores = (s.begin e.stores).2 := by
  obtain ⟨err, herr, -⟩ | ⟨hbegin, hstores⟩ := e.enter_cases s
  · rw [herr] at h
    cases h
  · exact ⟨hbegin.symm.trans h, hstores⟩

/-- **What the end of a transaction does to the stores**: the transaction is committed, or it comes to nothing. -/
theorem finish_cases (e : Engine) (tx : Session) (v : Verdict) :
    (v = .commit ∧ (e.finish tx v).1 = .value () ∧ (tx.commit e.stores).1 = .ok () ∧
      (e.finish tx v).2.stores = (tx.commit e.stores).2) ∨
    (¬ (v = .commit ∧ (e.finish tx v).1 = .value ()) ∧
      ((e.finish tx v).2.stores = tx.abort e.stores ∨ (e.finish tx v).2.stores = tx.rollback e.stores ∨
        ∃ err, (tx.commit e.stores).1 = .error err ∧ (e.finish tx v).2.stores = (tx.commit e.stores).2)) := by
  cases v with
  | unwind text => exact .inr ⟨(fun h => by cases h.1), .inl rfl⟩
  | rollback =>
    have h := stores_count e .rollback
    unfold finish
    generalize e.count .rollback = counted at h ⊢
    obtain ⟨fault, e₁⟩ := counted
    simp only at h
    cases fault <;> exact .inr ⟨(fun h => by cases h.1), .inr (.inl (by rw [← h]))⟩
  | commit =>
    have h := stores_count e .commit
    unfold finish
    generalize e.count .commit = counted at h ⊢
    obtain ⟨fault, e₁⟩ := counted
    simp only at h
    cases fault with
    | some fault => exact .inr ⟨(fun h => by cases h.2), .inr (.inl (by rw [← h]))⟩
    | none =>
      simp only
      rw [h]
      generalize tx.commit e.stores = committed
      obtain ⟨done, stores⟩ := committed
      cases done with
      | ok u => exact .inl ⟨trivial, rfl, rfl, rfl⟩
      | error err => exact .inr ⟨(fun h => by cases h.2), .inr (.inr ⟨err, rfl, rfl⟩)⟩

theorem count_setStack (e : Engine) (c : Nat) (b : BackendName) (st : FrameStack Session) (k : ProviderCall) :
    (e.setStack c b st).count k = ((e.count k).1, (e.count k).2.setStack c b st) := by
  unfold count
  rw [plan_setStack]
  cases e.plan <;> rfl

theorem finish_setStack (e : Engine) (c : Nat) (b : BackendName) (st : FrameStack Session) (tx : Session)
    (v : Verdict) : (e.setStack c b st).finish tx v = ((e.finish tx v).1, (e.finish tx v).2.setStack c b st) := by
  cases v with
  | unwind text => rfl
  | rollback =>
    unfold finish
    rw [e.count_setStack c b st .rollback]
    generalize e.count .rollback = counted
    obtain ⟨fault, e₁⟩ := counted
    cases fault <;> rfl
  | commit =>
    unfold finish
    rw [e.count_setStack c b st .commit]
    generalize e.count .commit = counted
    obtain ⟨fault, e₁⟩ := counted
    cases fault with
    | some fault => rfl
    | none =>
      simp only [stores_setStack]
      generalize tx.commit e₁.stores = committed
      obtain ⟨done, stores⟩ := committed
      cases done <;> rfl

theorem sameBooks_finish (e : Engine) (tx : Session) (v : Verdict) : SameBooks e (e.finish tx v).2 := by
  cases v with
  | unwind text => exact ⟨rfl, rfl⟩
  | rollback =>
    have h := sameBooks_count e .rollback
    unfold finish
    generalize e.count .rollback = counted at h ⊢
    obtain ⟨fault, e₁⟩ := counted
    cases fault <;> exact ⟨h.contexts, h.providers⟩
  | commit =>
    have h := sameBooks_count e .commit
    unfold finish
    generalize e.count .commit = counted at h ⊢
    obtain ⟨fault, e₁⟩ := counted
    cases fault with
    | some fault => exact ⟨h.contexts, h.providers⟩
    | none =>
      simp only
      rcases tx.commit e₁.stores with ⟨done, stores⟩
      cases done <;> exact ⟨h.contexts, h.providers⟩

end Engine
end Demarcate
