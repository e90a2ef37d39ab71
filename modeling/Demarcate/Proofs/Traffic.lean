import Demarcate.Proofs.Views
/-!
# Traffic — what many sessions do on one store

Sessions work on one store side by side, outside of transactions or in any number of transactions that overlap.  What
they do comes one thing after the other (`Traffic.step`): something is read or changed, by a session or through the
handle of a transaction; a transaction begins, and ends once; a repository is swept.  A handle can be kept, and is
still used when its transaction has ended.

A transaction is known by the count of its identifier.  Whatever was begun has a handle of its own on the store, and
what has ended was begun (`Regular`).  From there a step comes to one of four things (`Turn`), from which all is read
off that stays so from step to step.
-/
namespace Demarcate

/-! ## Sources -/

namespace Source

/-- A session outside of transactions. -/
def session (src : Source) (id : Ulid) : Session :=
  match src with
  | .memory i => .memory id i none
  | .git i => .git id i none

/-- The store is there. -/
def IsIn (st : Stores) : Source → Prop
  | .memory i => i < st.memories.size
  | .git i => i < st.handles.size

/-- The session is one inside the `n`-th transaction. -/
def IsTwin (n : Nat) (s : Session) : Source → Prop
  | .memory i => ∃ id, s = .memory id i (some (Ulid.issued n))
  | .git i => ∃ id base, s = .git id i (some ⟨Ulid.issued n, base⟩)

variable {src : Source}

theorem IsIn.of_steady {st st' : Stores} (hin : src.IsIn st) (h : st.Steady st') : src.IsIn st' := by
  cases src with
  | memory i =>
    show i < st'.memories.size
    rw [h.memories]
    exact hin
  | git i =>
    show i < st'.handles.size
    rw [h.handles]
    exact hin

theorem isInTransaction_session (src : Source) (id : Ulid) : (src.session id).isInTransaction = false := by
  cases src <;> rfl

/-- A session outside of transactions begins one under the next identifier. -/
theorem isTwin_begin {id : Ulid} {st : Stores} {tx : Session} (h : ((src.session id).begin st).1 = .ok tx) :
    src.IsTwin st.issued tx := by
  obtain ⟨id', i, hs, hb⟩ | ⟨id', i, base, r, handle, hs, -, -, hb⟩ | ⟨e, hb, -⟩ :=
    Session.begin_cases st (src.session id)
  · rw [hb] at h
    cases h
    cases src with
    | memory j =>
      cases hs
      exact ⟨id, rfl⟩
    | git j => cases hs
  · rw [hb] at h
    cases h
    cases src with
    | memory j => cases hs
    | git j =>
      cases hs
      exact ⟨id, base, rfl⟩
  · rw [hb] at h
    cases h

/-- A session inside a transaction begins no other one. -/
theorem IsTwin.begin {n : Nat} {s : Session} (h : src.IsTwin n s) (st : Stores) :
    s.begin st = (.error .nestedTransaction, st) := by
  cases src with
  | memory i =>
    obtain ⟨id, rfl⟩ := h
    rfl
  | git i =>
    obtain ⟨id, base, rfl⟩ := h
    rfl

end Source

/-! ## What happens -/

namespace Traffic

/-- Through what something is done. -/
inductive Through where
  | session (id : Ulid)
  | handle (n : Nat)

inductive Operation where
  | get (s : Slot)
  | scan (t : TableName)
  | count (t : TableName)
  /-- A change, at a reading of the clock. -/
  | change (reading : Nat) (t : TableName) (c : Change)

inductive Event where
  | operate (through : Through) (op : Operation)
  | begin (through : Through)
  | finish (n : Nat) (v : Engine.Verdict)
  | sweep

inductive Answer where
  /-- There was nothing to do it with. -/
  | nothing
  | row (r : Except StorageError (Option Row))
  | rows (r : Except StorageError (List Row))
  | count (r : Except StorageError Nat)
  | changed (r : Outcome StorageError Unit)
  /-- A transaction has begun, or was refused. -/
  | begun (r : Except ResourceError Nat)
  | ended (r : Outcome ResourceError Unit)
  | swept (n : Nat)

structure Entry where
  event : Event
  answer : Answer
  /-- It was done through the handle of a transaction that had ended. -/
  late : Bool

end Traffic

open Traffic

structure Traffic where
  source : Source
  stores : Stores
  /-- The transactions that were begun, each with the session inside it. -/
  handles : SortedMap Nat Session := ∅
  /-- The transactions that have ended, and whether they were committed. -/
  fates : SortedMap Nat Bool := ∅

def Session.perform (st : Stores) (s : Session) : Operation → Answer × Stores
  | .get slot => (.row (s.get st slot), st)
  | .scan t => (.rows (s.scan st t), st)
  | .count t => (.count ((s.scan st t).map List.length), st)
  | .change reading t c =>
    let (result, st) := s.apply { st with readings := reading } t c
    (.changed result, st)

theorem Session.steady_perform (st : Stores) (s : Session) (op : Operation) : st.Steady (s.perform st op).2 := by
  cases op with
  | change reading t c =>
    have hread : st.Steady { st with readings := reading } := ⟨rfl, rfl, rfl⟩
    exact hread.trans (s.steady_apply _ t c)
  | get slot => exact .refl st
  | scan t => exact .refl st
  | count t => exact .refl st

/-- What a session does comes to its store in memory alone. -/
def Memory.Store.perform (m : Memory.Store) (tx : Option Ulid) : Operation → Answer × Memory.Store
  | .get slot => (.row (.ok (m.get tx slot)), m)
  | .scan t => (.rows (.ok (m.scan tx t)), m)
  | .count t => (.count (.ok (m.scan tx t).length), m)
  | .change reading t c =>
    match m.apply (Clock.stamp reading) tx t c with
    | .value m => (.changed (.value ()), m)
    | .failed e => (.changed (.failed e), m)
    | .unwound text => (.changed (.unwound text), m)

theorem Session.perform_memory {st : Stores} {i : Nat} (hi : i < st.memories.size) (id : Ulid) (tx : Option Ulid)
    (op : Operation) :
    ((Session.memory id i tx).perform st op).1 = ((st.memory i).perform tx op).1 ∧
      ((Session.memory id i tx).perform st op).2.memory i = ((st.memory i).perform tx op).2 := by
  cases op with
  | get slot => exact ⟨rfl, rfl⟩
  | scan t => exact ⟨rfl, rfl⟩
  | count t => exact ⟨rfl, rfl⟩
  | change reading t c =>
    have hmemory : ({ st with readings := reading } : Stores).readClock.2.memory i = st.memory i := rfl
    have hstamp : ({ st with readings := reading } : Stores).readClock.1 = Clock.stamp reading := rfl
    simp only [perform, apply, Memory.Store.perform, hmemory, hstamp]
    cases (st.memory i).apply (Clock.stamp reading) tx t c with
    | failed e => exact ⟨rfl, hmemory⟩
    | unwound text => exact ⟨rfl, hmemory⟩
    | value m => exact ⟨rfl, (memory_setMemory ..).trans (if_pos ⟨rfl, hi⟩)⟩

namespace Traffic

def session? (k : Traffic) : Through → Option Session
  | .session id => some (k.source.session id)
  | .handle n => k.handles.get? n

/-- The session inside a transaction that has not ended. -/
def running? (k : Traffic) (n : Nat) : Option Session :=
  match k.fates.get? n with
  | none => k.handles.get? n
  | some _ => none

/-- Whether a transaction that ended in this way was committed. -/
def isCommitted : Engine.Verdict → Outcome ResourceError Unit → Bool
  | .commit, .value () => true
  | _, _ => false

def react (k : Traffic) : Event → Answer × Traffic
  | .operate through op =>
    match k.session? through with
    | none => (.nothing, k)
    | some s =>
      let (answer, stores) := s.perform k.stores op
      (answer, { k with stores })
  | .begin through =>
    match k.session? through with
    | none => (.nothing, k)
    | some s =>
      match s.begin k.stores with
      | (.ok tx, stores) =>
        let n := k.stores.issued
        (.begun (.ok n), { k with stores, handles := k.handles.insert n tx })
      | (.error e, stores) => (.begun (.error e), { k with stores })
  | .finish n v =>
    match k.running? n with
    | none => (.nothing, k)
    | some tx =>
      let (outcome, e) := Engine.finish { stores := k.stores } tx v
      (.ended outcome, { k with stores := e.stores, fates := k.fates.insert n (isCommitted v outcome) })
  | .sweep =>
    match k.source with
    | .memory _ => (.nothing, k)
    | .git i =>
      let (count, stores) := k.stores.cleanup i
      (.swept count, { k with stores })

def isLate (k : Traffic) : Event → Bool
  | .operate (.handle n) _ | .begin (.handle n) => k.fates.contains n
  | _ => false

def step (k : Traffic) (e : Event) : Traffic := (k.react e).2

def run (k : Traffic) (events : List Event) : Traffic := events.foldl step k

/-- What is answered while something happens. -/
def trace (k : Traffic) : List Event → List Entry
  | [] => []
  | e :: events => ⟨e, (k.react e).1, k.isLate e⟩ :: trace (k.step e) events

/-- The traffic on a source, from a moment on at which no transaction is under way. -/
def on (source : Source) (stores : Stores) : Traffic := { source, stores }

/-! ## The steps one by one -/

variable {k : Traffic}

theorem react_operate {through : Through} {s : Session} (h : k.session? through = some s) (op : Operation) :
    k.react (.operate through op) = ((s.perform k.stores op).1, { k with stores := (s.perform k.stores op).2 }) := by
  unfold react
  simp only [h]

theorem react_operate_none {through : Through} (h : k.session? through = none) (op : Operation) :
    k.react (.operate through op) = (.nothing, k) := by
  unfold react
  simp only [h]

theorem react_begin_none {through : Through} (h : k.session? through = none) :
    k.react (.begin through) = (.nothing, k) := by
  unfold react
  simp only [h]

theorem react_begin_ok {through : Through} {s tx : Session} (h : k.session? through = some s)
    (hb : (s.begin k.stores).1 = .ok tx) : k.react (.begin through) = (.begun (.ok k.stores.issued),
      { k with stores := (s.begin k.stores).2, handles := k.handles.insert k.stores.issued tx }) := by
  unfold react
  simp only [h]
  generalize s.begin k.stores = begun at hb ⊢
  obtain ⟨made, st⟩ := begun
  cases hb
  rfl

theorem react_begin_error {through : Through} {s : Session} {e : ResourceError} (h : k.session? through = some s)
    (hb : (s.begin k.stores).1 = .error e) :
    k.react (.begin through) = (.begun (.error e), { k with stores := (s.begin k.stores).2 }) := by
  unfold react
  simp only [h]
  generalize s.begin k.stores = begun at hb ⊢
  obtain ⟨made, st⟩ := begun
  cases hb
  rfl

theorem react_finish {n : Nat} {tx : Session} (h : k.running? n = some tx) (v : Engine.Verdict) :
    k.react (.finish n v) = (.ended (Engine.finish { stores := k.stores } tx v).1,
      { k with
        stores := (Engine.finish { stores := k.stores } tx v).2.stores
        fates := k.fates.insert n (isCommitted v (Engine.finish { stores := k.stores } tx v).1) }) := by
  unfold react
  simp only [h]

theorem react_finish_none {n : Nat} (h : k.running? n = none) (v : Engine.Verdict) :
    k.react (.finish n v) = (.nothing, k) := by
  unfold react
  simp only [h]

theorem react_sweep_memory {i : Nat} (h : k.source = .memory i) : k.react .sweep = (.nothing, k) := by
  unfold react
  simp only [h]

theorem react_sweep_git {i : Nat} (h : k.source = .git i) : k.react .sweep =
    (.swept (k.stores.cleanup i).1, { k with stores := (k.stores.cleanup i).2 }) := by
  unfold react
  simp only [h]

theorem running?_eq_some_iff {n : Nat} {tx : Session} :
    k.running? n = some tx ↔ k.handles.get? n = some tx ∧ k.fates.get? n = none := by
  unfold running?
  split
  · rename_i h
    simp [h]
  · rename_i b h
    simp [h]

/-! ## What every traffic satisfies -/

/-- The store is there, and each transaction that was begun has a session inside it. -/
structure Regular (k : Traffic) : Prop where
  isIn : k.source.IsIn k.stores
  twins : ∀ n s, k.handles.get? n = some s → n < k.stores.issued ∧ k.source.IsTwin n s
  begun : ∀ n b, k.fates.get? n = some b → ∃ s, k.handles.get? n = some s

theorem regular_on {source : Source} {st : Stores} (h : source.IsIn st) : (on source st).Regular :=
  ⟨h, (fun n s hs => by cases hs), fun n b hb => by cases hb⟩

/-- What a step comes to: the stores are worked on, a transaction begins or its beginning takes an identifier for
nothing, or a transaction ends. -/
inductive Turn (k : Traffic) : Event → Traffic → Prop where
  | work {e : Event} {stores : Stores} (steady : k.stores.Steady stores)
      (idle : ∀ n v, e = .finish n v → k.running? n = none) : Turn k e { k with stores }
  | refuse {id : Ulid} {stores : Stores} (steady : k.stores.issue.2.Steady stores) :
      Turn k (.begin (.session id)) { k with stores }
  | begin {id : Ulid} {stores : Stores} {tx : Session} (steady : k.stores.issue.2.Steady stores)
      (made : ((k.source.session id).begin k.stores).1 = .ok tx) (twin : k.source.IsTwin k.stores.issued tx) :
      Turn k (.begin (.session id)) { k with stores, handles := k.handles.insert k.stores.issued tx }
  | finish {n : Nat} {v : Engine.Verdict} {stores : Stores} {tx : Session} {committed : Bool}
      (running : k.running? n = some tx) (steady : k.stores.Steady stores) :
      Turn k (.finish n v) { k with stores, fates := k.fates.insert n committed }

namespace Regular

variable (h : k.Regular)

include h

/-- What is done is done by a session outside of transactions, or by one inside. -/
theorem session?_cases {through : Through} {s : Session} (hs : k.session? through = some s) :
    (∃ id, through = .session id ∧ s = k.source.session id) ∨
      ∃ n, through = .handle n ∧ k.handles.get? n = some s ∧ k.source.IsTwin n s := by
  cases through with
  | session id => exact .inl ⟨id, rfl, (Option.some.inj hs).symm⟩
  | handle n => exact .inr ⟨n, rfl, hs, (h.twins n s hs).2⟩

/-- A transaction inside another one is refused. -/
theorem react_begin_inside {n : Nat} {s : Session} (hs : k.handles.get? n = some s) :
    k.react (.begin (.handle n)) = (.begun (.error .nestedTransaction), k) := by
  have hsession : k.session? (.handle n) = some s := hs
  have hb := (h.twins n s hs).2.begin k.stores
  rw [react_begin_error hsession (by rw [hb]), hb]

theorem step_begin_inside (n : Nat) : k.step (.begin (.handle n)) = k := by
  cases hs : k.handles.get? n with
  | none => exact congrArg Prod.snd (@react_begin_none k (.handle n) hs)
  | some s => exact congrArg Prod.snd (h.react_begin_inside hs)

/-- **What beginning does**: a transaction inside another one is refused; otherwise an identifier is taken, and there is
a session inside a new transaction, or there is none. -/
theorem begin_cases {through : Through} {s : Session} (hs : k.session? through = some s) :
    k.react (.begin through) = (.begun (.error .nestedTransaction), k) ∨
      ∃ id, through = .session id ∧ k.stores.issue.2.Steady ((k.source.session id).begin k.stores).2 ∧
        ((∃ e, ((k.source.session id).begin k.stores).1 = .error e ∧ k.react (.begin through) =
            (.begun (.error e), { k with stores := ((k.source.session id).begin k.stores).2 })) ∨
          ∃ tx, ((k.source.session id).begin k.stores).1 = .ok tx ∧ k.source.IsTwin k.stores.issued tx ∧
            k.react (.begin through) = (.begun (.ok k.stores.issued),
              { k with
                stores := ((k.source.session id).begin k.stores).2
                handles := k.handles.insert k.stores.issued tx })) := by
  obtain ⟨id, hth, rfl⟩ | ⟨n, hth, hn, -⟩ := h.session?_cases hs
  · refine .inr ⟨id, hth, Session.steady_begin _ (k.source.isInTransaction_session id), ?_⟩
    cases hb : ((k.source.session id).begin k.stores).1 with
    | error e => exact .inl ⟨e, rfl, react_begin_error hs hb⟩
    | ok tx => exact .inr ⟨tx, rfl, Source.isTwin_begin hb, react_begin_ok hs hb⟩
  · exact .inl (hth ▸ h.react_begin_inside hn)

theorem of_steady {stores : Stores} (hst : k.stores.Steady stores) : Regular { k with stores } :=
  ⟨h.isIn.of_steady hst, fun n s hn => hst.issued ▸ h.twins n s hn, h.begun⟩

theorem of_issue {stores : Stores} (hst : k.stores.issue.2.Steady stores) : Regular { k with stores } := by
  refine ⟨Source.IsIn.of_steady ?_ hst, fun n s hn => ⟨?_, (h.twins n s hn).2⟩, h.begun⟩
  · exact h.isIn
  · have hlt := (h.twins n s hn).1
    have hissued : stores.issued = k.stores.issued + 1 := hst.issued
    simp only [hissued]
    omega

/-- **What a step can do.** -/
theorem turn (e : Event) : Turn k e (k.step e) := by
  have hidle : (∀ n v, e = .finish n v → k.running? n = none) → Turn k e k := Turn.work (.refl k.stores)
  unfold Traffic.step
  cases e with
  | operate through op =>
    cases hs : k.session? through with
    | none =>
      rw [react_operate_none hs]
      exact hidle fun n v he => by cases he
    | some s =>
      rw [react_operate hs]
      exact .work (s.steady_perform k.stores op) fun n v he => by cases he
  | begin through =>
    cases hs : k.session? through with
    | none =>
      rw [react_begin_none hs]
      exact hidle fun n v he => by cases he
    | some s =>
      obtain hb | ⟨id, rfl, hsteady, ⟨e, -, hb⟩ | ⟨tx, htx, htwin, hb⟩⟩ := h.begin_cases hs
      · rw [hb]
        exact hidle fun n v he => by cases he
      · rw [hb]
        exact .refuse hsteady
      · rw [hb]
        exact .begin hsteady htx htwin
  | finish n v =>
    cases hs : k.running? n with
    | none =>
      rw [react_finish_none hs]
      refine hidle fun m v' he => ?_
      cases he
      exact hs
    | some tx =>
      rw [react_finish hs]
      exact .finish hs (Session.steady_finish k.stores tx v)
  | sweep =>
    cases hk : k.source with
    | memory i =>
      rw [react_sweep_memory hk]
      exact hidle fun n v he => by cases he
    | git i =>
      rw [react_sweep_git hk]
      exact .work (.setRepository ..) fun n v he => by cases he

theorem step (e : Event) : (k.step e).Regular := by
  have hturn := h.turn e
  generalize k.step e = k' at hturn
  cases hturn with
  | work hsteady hidle => exact h.of_steady hsteady
  | refuse hsteady => exact h.of_issue hsteady
  | @begin id stores tx hsteady htx htwin =>
    have hissue := h.of_issue hsteady
    refine ⟨hissue.isIn, fun n s hn => ?_, fun n b hn => ?_⟩
    · simp only [SortedMap.get?_insert] at hn
      split at hn
      · rename_i heq
        cases hn
        have hissued : stores.issued = k.stores.issued + 1 := hsteady.issued
        simp only [hissued, heq]
        exact ⟨Nat.lt_succ_self _, htwin⟩
      · exact hissue.twins n s hn
    · simp only [SortedMap.get?_insert]
      split
      · exact ⟨tx, rfl⟩
      · exact h.begun n b hn
  | @finish n v stores tx committed hs hsteady =>
    have hst := h.of_steady hsteady
    refine ⟨hst.isIn, hst.twins, fun m b hm => ?_⟩
    simp only [SortedMap.get?_insert] at hm
    split at hm
    · rename_i heq
      exact ⟨tx, heq ▸ (running?_eq_some_iff.1 hs).1⟩
    · exact h.begun m b hm

end Regular

theorem Regular.run (events : List Event) : ∀ {k : Traffic}, k.Regular → (k.run events).Regular := by
  induction events with
  | nil => exact id
  | cons e events ih => exact fun h => ih (h.step e)

/-- What is known of a traffic stays known. -/
structure Later (k k' : Traffic) : Prop where
  source : k'.source = k.source
  issued : k.stores.issued ≤ k'.stores.issued
  handles : ∀ n s, k.handles.get? n = some s → k'.handles.get? n = some s
  fates : ∀ n b, k.fates.get? n = some b → k'.fates.get? n = some b

namespace Later

theorem refl (k : Traffic) : Later k k := ⟨rfl, Nat.le_refl _, fun _ _ h => h, fun _ _ h => h⟩

theorem trans {k₁ k₂ : Traffic} (h₁ : Later k k₁) (h₂ : Later k₁ k₂) : Later k k₂ :=
  ⟨h₂.source.trans h₁.source, Nat.le_trans h₁.issued h₂.issued, fun n s h => h₂.handles n s (h₁.handles n s h),
    fun n b h => h₂.fates n b (h₁.fates n b h)⟩

theorem of_stores {stores : Stores} (h : k.stores.issued ≤ stores.issued) : Later k { k with stores } :=
  ⟨rfl, h, fun _ _ h => h, fun _ _ h => h⟩

end Later

theorem Regular.later (h : k.Regular) (e : Event) : Later k (k.step e) := by
  have hturn := h.turn e
  generalize k.step e = k' at hturn
  cases hturn with
  | work hsteady hidle => exact .of_stores (Nat.le_of_eq hsteady.issued.symm)
  | refuse hsteady => exact .of_stores (hsteady.issued ▸ Nat.le_succ _)
  | begin hsteady htx htwin =>
    refine ⟨rfl, hsteady.issued ▸ Nat.le_succ _, fun n s hn => ?_, fun _ _ h => h⟩
    have hlt := (h.twins n s hn).1
    rw [SortedMap.get?_insert, if_neg (by omega)]
    exact hn
  | finish hs hsteady =>
    refine ⟨rfl, Nat.le_of_eq hsteady.issued.symm, fun _ _ h => h, fun m b hm => ?_⟩
    simp only [SortedMap.get?_insert]
    rw [if_neg]
    · exact hm
    · rintro rfl
      rw [(running?_eq_some_iff.1 hs).2] at hm
      cases hm

/-- **What runs after a step** ran before and was not ended, or has begun. -/
theorem Regular.running_step (h : k.Regular) {e : Event} {n : Nat} {s : Session} (hs : (k.step e).running? n = some s) :
    (k.running? n = some s ∧ ∀ v, e ≠ .finish n v) ∨
      ∃ id, e = .begin (.session id) ∧ n = k.stores.issued ∧ ((k.source.session id).begin k.stores).1 = .ok s := by
  have hturn := h.turn e
  generalize k.step e = k' at hturn hs
  cases hturn with
  | work hsteady hidle =>
    refine .inl ⟨hs, fun v he => ?_⟩
    have hnone : k.running? n = none := hidle n v he
    have hsome : k.running? n = some s := hs
    rw [hnone] at hsome
    cases hsome
  | refuse hsteady => exact .inl ⟨hs, fun v he => by cases he⟩
  | @begin id stores tx hsteady htx htwin =>
    obtain ⟨hhandle, hfate⟩ := running?_eq_some_iff.1 hs
    simp only [SortedMap.get?_insert] at hhandle
    split at hhandle
    · rename_i hn
      cases hhandle
      exact .inr ⟨id, rfl, hn, htx⟩
    · exact .inl ⟨running?_eq_some_iff.2 ⟨hhandle, hfate⟩, fun v he => by cases he⟩
  | @finish m v stores tx committed hm hsteady =>
    obtain ⟨hhandle, hfate⟩ := running?_eq_some_iff.1 hs
    simp only [SortedMap.get?_insert] at hfate
    split at hfate
    · cases hfate
    · rename_i hne
      refine .inl ⟨running?_eq_some_iff.2 ⟨hhandle, hfate⟩, fun v' he => ?_⟩
      cases he
      exact hne rfl

/-- Only beginning takes an identifier. -/
theorem Regular.issued_step (h : k.Regular) {e : Event} (he : ∀ through, e ≠ .begin through) :
    (k.step e).stores.issued = k.stores.issued := by
  have hturn := h.turn e
  generalize k.step e = k' at hturn
  cases hturn with
  | work hsteady hidle => exact hsteady.issued
  | refuse hsteady => exact absurd rfl (he _)
  | begin hsteady htx htwin => exact absurd rfl (he _)
  | finish hs hsteady => exact hsteady.issued

/-- A transaction that was not begun has not ended. -/
theorem Regular.fates_issued (h : k.Regular) : k.fates.get? k.stores.issued = none := by
  cases hf : k.fates.get? k.stores.issued with
  | none => rfl
  | some b =>
    obtain ⟨s, hs⟩ := h.begun _ b hf
    exact absurd (h.twins _ s hs).1 (Nat.lt_irrefl _)

/-- A transaction that begins runs. -/
theorem Regular.running_begun (h : k.Regular) {through : Through} {n : Nat}
    (hbegin : (k.react (.begin through)).1 = .begun (.ok n)) :
    ∃ id tx, through = .session id ∧ n = k.stores.issued ∧ ((k.source.session id).begin k.stores).1 = .ok tx ∧
      (k.step (.begin through)).running? n = some tx := by
  cases hs : k.session? through with
  | none =>
    rw [react_begin_none hs] at hbegin
    cases hbegin
  | some s =>
    obtain hb | ⟨id, rfl, -, ⟨e, -, hb⟩ | ⟨tx, hmade, -, hb⟩⟩ := h.begin_cases hs
    · rw [hb] at hbegin
      cases hbegin
    · rw [hb] at hbegin
      cases hbegin
    rw [hb] at hbegin
    cases hbegin
    refine ⟨id, tx, rfl, rfl, hmade, ?_⟩
    unfold Traffic.step
    rw [hb]
    exact running?_eq_some_iff.2 ⟨(SortedMap.get?_insert ..).trans (if_pos rfl), h.fates_issued⟩

/-- What runs before a step and is not ended by it runs on. -/
theorem Regular.running_kept (h : k.Regular) {e : Event} {n : Nat} {s : Session} (hs : k.running? n = some s)
    (he : ∀ v, e ≠ .finish n v) : (k.step e).running? n = some s := by
  obtain ⟨hhandle, hfate⟩ := running?_eq_some_iff.1 hs
  refine running?_eq_some_iff.2 ⟨(h.later e).handles n s hhandle, ?_⟩
  have hturn := h.turn e
  generalize k.step e = k' at hturn
  cases hturn with
  | work hsteady hidle => exact hfate
  | refuse hsteady => exact hfate
  | begin hsteady htx htwin => exact hfate
  | @finish m v stores tx committed hm hsteady =>
    simp only [SortedMap.get?_insert]
    rw [if_neg fun heq : n = m => he v (by rw [heq])]
    exact hfate

theorem Regular.later_run (events : List Event) : ∀ {k : Traffic}, k.Regular → Later k (k.run events) := by
  induction events with
  | nil => exact fun _ => .refl _
  | cons e events ih => exact fun h => (h.later e).trans (ih (h.step e))

/-! ## Parts of a run -/

theorem run_append (k : Traffic) (events more : List Event) : k.run (events ++ more) = (k.run events).run more :=
  List.foldl_append ..

theorem trace_append (events more : List Event) :
    ∀ k : Traffic, k.trace (events ++ more) = k.trace events ++ (k.run events).trace more := by
  induction events with
  | nil => exact fun _ => rfl
  | cons e events ih => exact fun k => congrArg (_ :: ·) (ih (k.step e))

/-- What is in a trace has happened at some moment of the run. -/
theorem mem_trace {entry : Entry} {events : List Event} : ∀ {k : Traffic}, entry ∈ k.trace events →
    ∃ before after, events = before ++ entry.event :: after ∧
      entry.answer = ((k.run before).react entry.event).1 := by
  induction events with
  | nil => exact fun h => by cases h
  | cons e events ih =>
    intro k h
    obtain rfl | h := List.mem_cons.1 h
    · exact ⟨[], events, rfl, rfl⟩
    · obtain ⟨before, after, heq, hanswer⟩ := ih h
      exact ⟨e :: before, after, by rw [heq]; rfl, hanswer⟩

/-! ## On a store in memory -/

section Memory

variable {k : Traffic} {i : Nat} (hi : i < k.stores.memories.size)

include hi

theorem operate_memory {through : Through} {id : Ulid} {tx : Option Ulid}
    (hs : k.session? through = some (.memory id i tx)) (op : Operation) :
    (k.react (.operate through op)).1 = ((k.stores.memory i).perform tx op).1 ∧
      (k.step (.operate through op)).stores.memory i = ((k.stores.memory i).perform tx op).2 := by
  unfold Traffic.step
  rw [react_operate hs]
  exact Session.perform_memory hi id tx op

theorem begin_memory {id : Ulid} (hs : k.session? (.session id) = some (.memory id i none)) :
    (k.react (.begin (.session id))).1 = .begun (.ok k.stores.issued) ∧
      (k.step (.begin (.session id))).stores.memory i = (k.stores.memory i).begin (Ulid.issued k.stores.issued) := by
  obtain ⟨hmade, hmemory⟩ := Session.begin_memory hi id
  unfold Traffic.step
  rw [react_begin_ok hs hmade]
  exact ⟨rfl, hmemory⟩

theorem finish_memory {n : Nat} {id u : Ulid} (hs : k.running? n = some (.memory id i (some u))) (v : Engine.Verdict) :
    (k.react (.finish n v)).1 = .ended ((k.stores.memory i).finish u v).1 ∧
      (k.step (.finish n v)).stores.memory i = ((k.stores.memory i).finish u v).2 ∧
      (k.step (.finish n v)).fates.get? n = some (isCommitted v ((k.stores.memory i).finish u v).1) := by
  obtain ⟨houtcome, hmemory⟩ := Session.finish_memory hi id u v
  unfold Traffic.step
  rw [react_finish hs, houtcome]
  exact ⟨rfl, hmemory, (SortedMap.get?_insert ..).trans (if_pos rfl)⟩

end Memory

/-- What a step does to the store in memory `i`. -/
inductive MemoryMove (k : Traffic) (i : Nat) (m : Memory.Store) : Event → Prop where
  | idle (e : Event) (store : m = k.stores.memory i) : MemoryMove k i m e
  | outside {id : Ulid} {op : Operation} (store : m = ((k.stores.memory i).perform none op).2) :
      MemoryMove k i m (.operate (.session id) op)
  | inside {n : Nat} {op : Operation}
      (answer : (k.react (.operate (.handle n) op)).1 = ((k.stores.memory i).perform (some (Ulid.issued n)) op).1)
      (store : m = ((k.stores.memory i).perform (some (Ulid.issued n)) op).2) :
      MemoryMove k i m (.operate (.handle n) op)
  | begin {id : Ulid} (store : m = (k.stores.memory i).begin (Ulid.issued k.stores.issued)) :
      MemoryMove k i m (.begin (.session id))
  | finish {n : Nat} {v : Engine.Verdict} (running : ∃ s, k.running? n = some s)
      (store : m = ((k.stores.memory i).finish (Ulid.issued n) v).2) : MemoryMove k i m (.finish n v)

theorem session?_memory {i : Nat} (hk : k.source = .memory i) (id : Ulid) :
    k.session? (.session id) = some (.memory id i none) := by
  unfold session?
  rw [hk]
  rfl

section Memory

variable {i : Nat} (h : k.Regular) (hk : k.source = .memory i)

include h hk

theorem Regular.isIn_memory : i < k.stores.memories.size := by
  have := h.isIn
  rw [hk] at this
  exact this

theorem Regular.twin_memory {n : Nat} {s : Session} (hs : k.handles.get? n = some s) :
    ∃ id, s = .memory id i (some (Ulid.issued n)) := by
  have := (h.twins n s hs).2
  rw [hk] at this
  exact this

/-- **What a step can do** to the store. -/
theorem Regular.memoryMove (e : Event) : MemoryMove k i ((k.step e).stores.memory i) e := by
  have hidle : ∀ {a : Answer}, k.react e = (a, k) → MemoryMove k i ((k.step e).stores.memory i) e := fun he =>
    .idle e (by unfold Traffic.step; rw [he])
  have hi := h.isIn_memory hk
  cases e with
  | operate through op =>
    cases through with
    | session id => exact .outside (operate_memory hi (session?_memory hk id) op).2
    | handle n =>
      cases hs : k.session? (.handle n) with
      | none => exact hidle (react_operate_none hs op)
      | some s =>
        obtain ⟨id, rfl⟩ := h.twin_memory hk hs
        obtain ⟨hanswer, hstore⟩ := operate_memory hi hs op
        exact .inside hanswer hstore
  | begin through =>
    cases through with
    | session id => exact .begin (begin_memory hi (session?_memory hk id)).2
    | handle n =>
      cases hs : k.session? (.handle n) with
      | none => exact hidle (react_begin_none hs)
      | some s => exact hidle (h.react_begin_inside hs)
  | finish n v =>
    cases hs : k.running? n with
    | none => exact hidle (react_finish_none hs v)
    | some s =>
      obtain ⟨id, rfl⟩ := h.twin_memory hk (running?_eq_some_iff.1 hs).1
      exact .finish ⟨_, hs⟩ (finish_memory hi hs v).2.1
  | sweep => exact hidle (react_sweep_memory hk)

end Memory

end Traffic
end Demarcate
