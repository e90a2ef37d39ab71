import Demarcate.Proofs.Course
import Demarcate.Proofs.Pending
/-!
# Atomicity — a transaction's writes are committed together or not at all

Work that is done in a transaction can do anything, call others that begin and end transactions of their own, and
have other sessions write in between.  None of this touches what the transaction keeps (`Spared`), except for its own
writes, and these change nothing that is committed (`exec_keeping`).  So all that there is to a call that begins a
transaction is its end: `run_is_all_or_nothing` says when the writes are committed, and what the call returns.  What
is read outside then is what was read before, or what the last write has left (`get_unchanged`, `get_changed`).
-/
namespace Demarcate

open Engine (Acquired SameBooks)
open Work (exec visit since eventsOf Ran)

namespace Session

/-- The writes of a transaction among some events, with what it had in the slot before and after. -/
def writesIn (tx : Session) (events : List Event) : List Written :=
  events.filterMap fun
    | .wrote s slot before (.value ()) after =>
      if s.sameTransaction before.stores tx then
        some ⟨slot, tx.content before.stores slot, tx.content after.stores slot⟩
      else none
    | _ => none

theorem writesIn_append (tx : Session) (events events' : List Event) :
    tx.writesIn (events ++ events') = tx.writesIn events ++ tx.writesIn events' := List.filterMap_append

section Wrote

variable {tx s : Session} {calls : List Definition} {slot : Slot} {e e' : Engine} {o : Outcome StorageError Unit}

theorem writesIn_own (hs : s.sameTransaction e.stores tx = true) (ho : o = .value ()) :
    tx.writesIn [.seen calls e, .wrote s slot e o e'] =
      [⟨slot, tx.content e.stores slot, tx.content e'.stores slot⟩] := by
  rw [ho]
  unfold writesIn
  simp [hs]

theorem writesIn_failed (ho : o ≠ .value ()) : tx.writesIn [.seen calls e, .wrote s slot e o e'] = [] := by
  cases o with
  | value u => exact absurd rfl ho
  | failed err => rfl
  | unwound text => rfl

theorem writesIn_other (hs : s.sameTransaction e.stores tx = false) :
    tx.writesIn [.seen calls e, .wrote s slot e o e'] = [] := by
  unfold writesIn
  cases o <;> simp [hs]

end Wrote

end Session

/-! ## What does not touch a transaction -/

/-- `Spared tx st st'`: of the two states of the stores, the second has what the transaction of `tx` keeps. -/
structure Spared (tx : Session) (st st' : Stores) : Prop where
  site : ∀ i, (st'.handle i).site = (st.handle i).site
  sound : st.disk.Sound → st'.disk.Sound
  pending : ∀ {log}, tx.Pending st log → tx.Pending st' log

namespace Spared

variable {tx : Session} {st st₁ st₂ : Stores}

theorem refl (tx : Session) (st : Stores) : Spared tx st st := ⟨fun _ => rfl, id, id⟩

theorem of_eq (h : st₁ = st) : Spared tx st st₁ := h ▸ .refl tx st

theorem trans (h₁ : Spared tx st st₁) (h₂ : Spared tx st₁ st₂) : Spared tx st st₂ :=
  ⟨fun i => (h₂.site i).trans (h₁.site i), fun h => h₂.sound (h₁.sound h), fun h => h₂.pending (h₁.pending h)⟩

theorem of_confined {ps : List Place} (hc : Confined ps st st₁) (hp : tx.place st ∉ ps)
    (hsound : st.disk.Sound → st₁.disk.Sound) : Spared tx st st₁ :=
  ⟨hc.site, hsound, fun h => h.confined hc hp⟩

end Spared

section Steps

variable {e : Engine} {tx : Session}

theorem spared_acquired {p : Nat} {s : Session} {e₁ : Engine} (h : Acquired e p s e₁) :
    Spared tx e.stores e₁.stores := by
  rw [h.stores]
  exact .of_confined (confined_issue _) List.not_mem_nil id

theorem spared_resource (c : Nat) (b : BackendName) : Spared tx e.stores (e.resource c b).2.stores := by
  obtain hsame | ⟨p, s, e₁, hp, hnone, ha, hkept⟩ | hcount := e.resource_cases c b
  · rw [hsame]
    exact .refl ..
  · have h : Spared tx e.stores e₁.stores := spared_acquired ha
    rw [hkept]
    exact h
  · rw [hcount]
    exact .of_eq (e.stores_count .acquire)

/-- A transaction that begins is not the one that runs. -/
theorem spared_enter {log : List Written} (h : tx.Pending e.stores log) (s : Session) :
    Spared tx e.stores (e.enter s).2.stores ∧
      ∀ tx', (e.enter s).1 = .ok tx' → tx.place e.stores ≠ tx'.place e.stores := by
  have hplace : ∀ tx', (e.enter s).1 = .ok tx' → tx.place e.stores ≠ tx'.place e.stores :=
    fun tx' htx => h.place_ne (Engine.enter_ok htx).1
  refine ⟨?_, hplace⟩
  cases henter : (e.enter s).1 with
  | ok tx' =>
    refine .of_confined (confined_enter_ok henter) ?_ fun hs => every_enter Git.Repository.closed_sound hs s
    rw [List.mem_singleton]
    exact hplace tx' henter
  | error err =>
    exact .of_confined (confined_enter_error henter) List.not_mem_nil fun hs =>
      every_enter Git.Repository.closed_sound hs s

theorem pending_enter {s : Session} (h : (e.enter s).1 = .ok tx) : tx.Pending (e.enter s).2.stores [] := by
  obtain ⟨hbegin, hstores⟩ := Engine.enter_ok h
  rw [hstores]
  exact Session.pending_begin hbegin

theorem spared_finish (htx : tx.isInTransaction = true) {s : Session} (hne : tx.place e.stores ≠ s.place e.stores)
    (v : Engine.Verdict) : Spared tx e.stores (e.finish s v).2.stores := by
  refine .of_confined (confined_finish e s v) ?_ fun h => every_finish Git.Repository.closed_sound h s v
  rw [List.mem_cons, List.mem_singleton, not_or]
  exact ⟨(Session.place_outside_ne htx).symm, hne⟩

theorem spared_apply (htx : tx.isInTransaction = true) {s : Session} (hs : s.sameTransaction e.stores tx = false)
    (t : TableName) (c : Change) : Spared tx e.stores (e.apply s t c).2.stores := by
  refine .of_confined (Session.confined_apply e.stores s t c) ?_ fun h =>
    Session.every_apply Git.Repository.closed_sound h s t c
  rw [List.mem_singleton]
  intro hplace
  rw [(Session.sameTransaction_iff htx).2 hplace.symm] at hs
  cases hs

end Steps

/-! ## Work in a transaction -/

/-- A write of the transaction itself leaves what is committed as it was. -/
def Event.Isolated (tx : Session) : Event → Prop
  | .wrote s _ before _ after =>
    s.sameTransaction before.stores tx = true → tx.committed after.stores = tx.committed before.stores
  | _ => True

/-- `Keeping tx st log ran`: work that found the writes of `log` kept in the stores `st` has left its own there too. -/
structure Keeping (tx : Session) (st : Stores) (log : List Written) (ran : Ran) : Prop where
  site : ∀ i, (ran.2.stores.handle i).site = (st.handle i).site
  sound : ran.2.stores.disk.Sound
  pending : tx.Pending ran.2.stores (log ++ tx.writesIn ran.1.2)
  isolated : ∀ ev ∈ ran.1.2, ev.Isolated tx

namespace Keeping

variable {tx : Session} {st : Stores} {log : List Written} {events : List Event} {o : Outcome Failure Unit} {e : Engine}
  {ran : Ran}

theorem since (h₁ : Keeping tx st log ((o, events), e)) (h₂ : Keeping tx e.stores (log ++ tx.writesIn events) ran) :
    Keeping tx st log (since events ran) := by
  refine ⟨fun i => (h₂.site i).trans (h₁.site i), h₂.sound, ?_, fun ev hev => ?_⟩
  · have h := h₂.pending
    rw [List.append_assoc, ← Session.writesIn_append] at h
    exact h
  · rcases List.mem_append.1 hev with hev | hev
    · exact h₁.isolated ev hev
    · exact h₂.isolated ev hev

/-- Nothing that is done to the stores is done by the transaction. -/
theorem of_spared (h : Spared tx st e.stores) (hs : st.disk.Sound) (hp : tx.Pending st log)
    (hwrites : tx.writesIn events = []) (hevents : ∀ ev ∈ events, ev.Isolated tx) :
    Keeping tx st log ((o, events), e) := by
  refine ⟨h.site, h.sound hs, ?_, hevents⟩
  show tx.Pending e.stores (log ++ tx.writesIn events)
  rw [hwrites, List.append_nil]
  exact h.pending hp

theorem seen {before : Engine} (calls : List Definition) (h : Spared tx before.stores e.stores)
    (hs : before.stores.disk.Sound) (hp : tx.Pending before.stores log) :
    Keeping tx before.stores log ((o, [.seen calls before]), e) := by
  refine .of_spared h hs hp rfl fun ev hev => ?_
  rw [List.mem_singleton] at hev
  rw [hev]
  trivial

theorem refused {before : Engine} {calls : List Definition} {d : Definition} {called : Outcome Failure Unit}
    (h : Spared tx before.stores e.stores) (hs : before.stores.disk.Sound) (hp : tx.Pending before.stores log) :
    Keeping tx before.stores log ((o, eventsOf calls d before ((called, none), e)), e) := by
  refine .of_spared h hs hp rfl fun ev hev => ?_
  rw [List.mem_singleton.1 hev]
  trivial

theorem visited {before inside : Engine} {calls : List Definition} {d : Definition} {called : Outcome Failure Unit}
    {v : Visit} (hb : Spared tx before.stores inside.stores) (hk : Keeping tx inside.stores log ran)
    (ha : Spared tx ran.2.stores e.stores) :
    Keeping tx before.stores log ((o, eventsOf calls d before ((called, some (v, ran.1.2)), e)), e) := by
  refine ⟨fun i => (ha.site i).trans ((hk.site i).trans (hb.site i)), ha.sound hk.sound, ?_, fun ev hev => ?_⟩
  · show tx.Pending e.stores (log ++ tx.writesIn (ran.1.2 ++ [.called calls d before (some v) called e]))
    rw [Session.writesIn_append]
    exact ha.pending ((List.append_nil (tx.writesIn ran.1.2)).symm ▸ hk.pending)
  · rcases List.mem_append.1 hev with hev | hev
    · exact hk.isolated ev hev
    · rw [List.mem_singleton.1 hev]
      trivial

end Keeping

theorem keeping_apply {tx : Session} {log : List Written} {e : Engine} (hs : e.stores.disk.Sound)
    (h : tx.Pending e.stores log) (calls : List Definition) (s : Session) (t : TableName) (c : Change)
    (o : Outcome Failure Unit) :
    Keeping tx e.stores log
      ((o, [.seen calls e, .wrote s ⟨t, c.key⟩ e (e.apply s t c).1 (e.apply s t c).2]), (e.apply s t c).2) := by
  have hconfined := Session.confined_apply e.stores s t c
  have hisolated : s.sameTransaction e.stores tx = true →
      tx.committed (s.apply e.stores t c).2 = tx.committed e.stores := by
    intro hsame
    have hplace := (Session.sameTransaction_iff h.inside).1 hsame
    refine Session.committed_congr hs hconfined.site (hconfined.same _ ?_)
    rw [List.mem_singleton, hplace]
    exact Session.place_outside_ne h.inside
  refine ⟨hconfined.site, Session.every_apply Git.Repository.closed_sound hs s t c, ?_, fun ev hev => ?_⟩
  · show tx.Pending (s.apply e.stores t c).2 (log ++ tx.writesIn [.seen calls e, .wrote s _ e _ _])
    cases hsame : s.sameTransaction e.stores tx with
    | false =>
      rw [Session.writesIn_other hsame, List.append_nil]
      exact (spared_apply h.inside hsame t c).pending h
    | true =>
      obtain hw | hw : (e.apply s t c).1 = .value () ∨ (e.apply s t c).1 ≠ .value () := by
        cases (e.apply s t c).1 <;> simp
      · rw [Session.writesIn_own hsame hw]
        exact h.write hsame hw
      · rw [Session.writesIn_failed hw, List.append_nil]
        obtain ⟨id, i, inside, m, -, -, ha⟩ | ⟨id, i, inside, commit, r, -, -, ha⟩ | ⟨-, ha⟩ :=
          Session.apply_cases e.stores s t c
        · exact absurd (congrArg Prod.fst ha) hw
        · exact absurd (congrArg Prod.fst ha) hw
        · rw [ha]
          exact h.confined (confined_readClock _) List.not_mem_nil
  · rcases List.mem_cons.1 hev with rfl | hev
    · trivial
    · rw [List.mem_singleton.1 hev]
      exact hisolated

section Course

variable {e : Engine} {c : Nat} {d : Definition} {tx : Session}

theorem Kept.mem {e₁ : Engine} (h : Kept c e e₁) (htx : ∃ b, tx ∈ ((e.context c).stack b).frames) :
    ∃ b, tx ∈ ((e₁.context c).stack b).frames := by
  obtain ⟨b, hb⟩ := htx
  exact ⟨b, by rw [h.stack]; exact hb⟩

theorem Framed.mem {b : BackendName} {t : Session} {e₁ : Engine} (h : Framed c b t e e₁)
    (htx : ∃ b, tx ∈ ((e.context c).stack b).frames) : ∃ b, tx ∈ ((e₁.context c).stack b).frames := by
  obtain ⟨b', hb⟩ := htx
  refine ⟨b', ?_⟩
  rw [h.stack]
  split
  · exact List.mem_cons_of_mem _ hb
  · exact hb

/-- **A call keeps what a transaction keeps that it is made in**, and its work's writes. -/
theorem Course.keeping {log : List Written} {body : Work} {calls : List Definition}
    {called : (Outcome Failure Unit × Option (Visit × List Event)) × Engine}
    (h : Course e c d (visit fun e => exec c body (calls ++ [d]) e) called) (hc : c < e.contexts.size)
    (htx : ∃ b, tx ∈ ((e.context c).stack b).frames) (hs : e.stores.disk.Sound) (hp : tx.Pending e.stores log)
    (hwork : ∀ e', c < e'.contexts.size → (∃ b, tx ∈ ((e'.context c).stack b).frames) → e'.stores.disk.Sound →
      tx.Pending e'.stores log → Keeping tx e'.stores log (exec c body (calls ++ [d]) e')) :
    Keeping tx e.stores log ((called.1.1, eventsOf calls d e called), called.2) := by
  cases h with
  | unknown hb => exact .refused (.refl ..) hs hp
  | violated hb hr => exact .refused (.refl ..) hs hp
  | inPlace hb hr hi => exact .visited (.refl ..) (hwork e hc htx hs hp) (.refl ..)
  | starved hb hr hi => exact .refused (.of_eq (e.stores_count .acquire)) hs hp
  | @suspended p s e₁ hb hr ha inside hinside =>
    have hi : Framed c d.backend s e inside := hinside ▸ .push hc ha.contexts
    have hacquired : Spared tx e.stores e₁.stores := spared_acquired ha
    have hbefore : Spared tx e.stores inside.stores := hinside ▸ hacquired
    refine .visited hbefore (hwork inside (hi.inRange hc) (hi.mem htx) (hbefore.sound hs) (hbefore.pending hp)) ?_
    exact .of_eq (Engine.stores_release ..)
  | @notBegun p s e₁ err hb hr ha framed hframed herr =>
    have hacquired : Spared tx e.stores e₁.stores := spared_acquired ha
    have hbefore : Spared tx e.stores framed.stores := hframed ▸ hacquired
    have henter := (spared_enter (hbefore.pending hp) s).1
    refine .refused (hbefore.trans (henter.trans ?_)) hs hp
    exact .of_eq (Engine.stores_release ..)
  | @begun p s t e₁ hb hr ha framed hframed hok inside hinside back hback ended hended =>
    have hacquired : Spared tx e.stores e₁.stores := spared_acquired ha
    have hbefore : Spared tx e.stores framed.stores := hframed ▸ hacquired
    obtain ⟨henter, hne⟩ := spared_enter (hbefore.pending hp) s
    have hi := framed_inside hc ha hframed hinside
    have hentered : Spared tx framed.stores inside.stores := hinside ▸ henter
    have hinner := hbefore.trans hentered
    have hk := hwork inside (hi.inRange hc) (hi.mem htx) (hinner.sound hs) (hinner.pending hp)
    refine .visited hinner hk ?_
    -- sites do not change, so the two transactions are in different places at the end too
    have hsite : ∀ i, (back.stores.handle i).site = (framed.stores.handle i).site := by
      intro i
      rw [hback]
      exact (hk.site i).trans (hentered.site i)
    have hplace : tx.place back.stores ≠ t.place back.stores := by
      rw [tx.place_congr hsite, t.place_congr hsite]
      exact hne t hok
    have hfinish : Spared tx back.stores ended.2.stores := hended ▸ spared_finish hp.inside hplace _
    rw [Engine.stores_release, Engine.stores_setStack]
    have hleft : back.stores = (exec c body (calls ++ [d]) inside).2.stores := by
      rw [hback]
      rfl
    exact hleft ▸ hfinish

end Course

/-- **Whatever work does, a transaction that it is in keeps its own writes and nothing else.** -/
theorem exec_keeping (c : Nat) (tx : Session) : ∀ (w : Work) (calls : List Definition) (e : Engine)
    (log : List Written), c < e.contexts.size → (∃ b, tx ∈ ((e.context c).stack b).frames) → e.stores.disk.Sound →
    tx.Pending e.stores log → Keeping tx e.stores log (exec c w calls e)
  | .done outcome, calls, e, log, hc, htx, hs, h => .seen calls (.refl ..) hs h
  | .look next, calls, e, log, hc, htx, hs, h => by
    have h₁ : Keeping tx e.stores log ((.value (), [.seen calls e]), e) := .seen calls (.refl ..) hs h
    exact h₁.since (exec_keeping c tx (next e) calls e _ hc htx h₁.sound h₁.pending)
  | .resource b next, calls, e, log, hc, htx, hs, h => by
    have hk := kept_resource hc b
    have h₁ : Keeping tx e.stores log ((.value (), [.seen calls e]), (e.resource c b).2) :=
      .seen calls (spared_resource c b) hs h
    exact h₁.since (exec_keeping c tx _ calls _ _ (hk.size ▸ hc) (hk.mem htx) h₁.sound h₁.pending)
  | .write s t change next, calls, e, log, hc, htx, hs, h => by
    have hk := kept_sameBooks (c := c) (e.sameBooks_apply s t change)
    have h₁ := keeping_apply hs h calls s t change (.value ())
    exact h₁.since (exec_keeping c tx _ calls _ _ (hk.size ▸ hc) (hk.mem htx) h₁.sound h₁.pending)
  | .begin s next, calls, e, log, hc, htx, hs, h => by
    have hk := kept_sameBooks (c := c) (e.sameBooks_enter s)
    have h₁ : Keeping tx e.stores log ((.value (), [.seen calls e]), (e.enter s).2) :=
      .seen calls (spared_enter h s).1 hs h
    exact h₁.since (exec_keeping c tx _ calls _ _ (hk.size ▸ hc) (hk.mem htx) h₁.sound h₁.pending)
  | .finish s v next, calls, e, log, hc, htx, hs, h => by
    unfold exec
    split
    · have h₁ : Keeping tx e.stores log ((.value (), [.seen calls e]), e) := .seen calls (.refl ..) hs h
      exact h₁.since (exec_keeping c tx _ calls e _ hc htx h₁.sound h₁.pending)
    · rename_i hholds
      have hk := kept_sameBooks (c := c) (e.sameBooks_finish s v)
      -- the transaction is in a frame, so it is not the one that is ended here
      have hne : tx.place e.stores ≠ s.place e.stores := fun hplace => by
        obtain ⟨b, hb⟩ := htx
        exact hholds (Context.holds_of_mem hb ((Session.sameTransaction_iff h.inside).2 hplace.symm))
      have h₁ : Keeping tx e.stores log ((.value (), [.seen calls e]), (e.finish s v).2) :=
        .seen calls (spared_finish h.inside hne v) hs h
      exact h₁.since (exec_keeping c tx _ calls _ _ (hk.size ▸ hc) (hk.mem htx) h₁.sound h₁.pending)
  | .run d body next, calls, e, log, hc, htx, hs, h => by
    have hcourse := exec_course hc d body (calls ++ [d])
    have hk := hcourse.kept hc fun e' hc' => exec_kept c body (calls ++ [d]) e' hc'
    have h₀ : Keeping tx e.stores log ((.value (), [.seen calls e]), e) := .seen calls (.refl ..) hs h
    have h₁ := hcourse.keeping hc htx h₀.sound h₀.pending fun e' hc' htx' hs' h' =>
      exec_keeping c tx body (calls ++ [d]) e' _ hc' htx' hs' h'
    exact h₀.since (h₁.since (exec_keeping c tx _ calls _ _ (hk.size ▸ hc) (hk.mem htx) h₁.sound h₁.pending))

/-! ## The end of a call -/

section Finish

variable {e : Engine} {tx : Session} {v : Engine.Verdict}

theorem finish_landed {log : List Written} (h : tx.Pending e.stores log) (hs : e.stores.disk.Sound)
    (hv : (e.finish tx .commit).1 = .value ()) :
    Landed log (tx.committed e.stores) (tx.committed (e.finish tx .commit).2.stores) := by
  obtain ⟨-, -, hok, hstores⟩ | ⟨hnot, -⟩ := e.finish_cases tx .commit
  · rw [hstores]
    exact h.landed hs hok
  · exact absurd ⟨rfl, hv⟩ hnot

theorem finish_nothing (htx : tx.isInTransaction = true) (hs : e.stores.disk.Sound)
    (hv : ¬ (v = .commit ∧ (e.finish tx v).1 = .value ())) :
    tx.committed (e.finish tx v).2.stores = tx.committed e.stores := by
  have hconfined : Confined [tx.place e.stores] e.stores (e.finish tx v).2.stores := by
    obtain ⟨hcommit, hok, -, -⟩ | ⟨-, hstores | hstores | ⟨err, herr, hstores⟩⟩ := e.finish_cases tx v
    · exact absurd ⟨hcommit, hok⟩ hv
    · rw [hstores]
      exact Session.confined_abort ..
    · rw [hstores]
      exact Session.confined_rollback ..
    · rw [hstores]
      exact Session.confined_commit_error herr
  refine Session.committed_congr hs hconfined.site (hconfined.same _ ?_)
  rw [List.mem_singleton]
  exact Session.place_outside_ne htx

end Finish

/-- The work of a call has ended in a way that the call's directive commits, and the commit reports no error. -/
def Commits (d : Definition) (tx : Session) (v : Visit) : Prop :=
  (v.outcome = .value () ∨ ∃ f, v.outcome = .failed f ∧ d.directive.shouldRollback f.kind = false) ∧
    (v.left.finish tx .commit).1 = .value ()

/-- What is to be true of a call that has begun the transaction of `tx`: its work is `v`, in which `events` happened,
and it ends with `result` and leaves the stores `after`. -/
structure AllOrNothing (d : Definition) (tx : Session) (v : Visit) (events : List Event)
    (result : Outcome Failure Unit) (after : Stores) : Prop where
  /-- None of the transaction's writes is committed before the end. -/
  isolated : ∀ ev ∈ events, ev.Isolated tx
  /-- All of them are at the end -/
  landed : Commits d tx v → Landed (tx.writesIn events) (tx.committed v.left.stores) (tx.committed after)
  /-- or nothing is. -/
  nothing : ¬ Commits d tx v → tx.committed after = tx.committed v.left.stores
  value : result = .value () ↔ v.outcome = .value () ∧ Commits d tx v
  notCommitted : ∀ err, v.outcome = .value () → (v.left.finish tx .commit).1 = .failed err →
    result = .failed (.transaction (.resource err))
  failed : ∀ f, v.outcome = .failed f → result = .failed f
  unwound : ∀ text, v.outcome = .unwound text ↔ result = .unwound text

/-- A transaction that has kept its writes is ended by the verdict on its work. -/
theorem Keeping.finish {d : Definition} {tx : Session} {entered left : Engine} {o : Outcome Failure Unit}
    {events : List Event} (h : Keeping tx entered.stores [] ((o, events), left)) :
    AllOrNothing d tx ⟨entered, o, left⟩ events
      (Engine.combine (left.finish tx (Engine.verdictOf d.directive o)).1 o)
      (left.finish tx (Engine.verdictOf d.directive o)).2.stores := by
  have hpending : tx.Pending left.stores (tx.writesIn events) := h.pending
  refine ⟨h.isolated, ?_, ?_, ?_, ?_, ?_, fun text => combine_eq_unwound.symm⟩
  · rintro ⟨hv, hreported⟩
    rw [verdictOf_eq_commit.2 hv]
    exact finish_landed hpending h.sound hreported
  · intro hnot
    refine finish_nothing hpending.inside h.sound fun hended => hnot ⟨verdictOf_eq_commit.1 hended.1, ?_⟩
    rw [← hended.1]
    exact hended.2
  · rw [combine_eq_value]
    constructor
    · rintro ⟨hreported, ho⟩
      rw [verdictOf_eq_commit.2 (.inl ho)] at hreported
      exact ⟨ho, .inl ho, hreported⟩
    · rintro ⟨ho, hv, hreported⟩
      rw [verdictOf_eq_commit.2 hv]
      exact ⟨hreported, ho⟩
  · intro err ho hreported
    simp only at ho hreported
    rw [verdictOf_eq_commit.2 (.inl ho), hreported, ho]
    rfl
  · intro f ho
    simp only at ho
    rw [ho]
    exact combine_failed

/-- **A transaction's writes are committed together or not at all, and a call tells the truth about it.**  Let a call
begin a transaction, do any work in it, and return or unwind.  If its work has ended in a way that is to be committed
and the commit reports no error, all that was written in the transaction is committed, at the end; otherwise nothing
is.  The call returns a value only with all of it committed, the commit's error where only the commit failed, and the
work's own error or unwinding where the work did not return a value. -/
theorem run_is_all_or_nothing {e e' : Engine} {c : Nat} {d : Definition} {body : Work} {calls : List Definition}
    {result : Outcome Failure Unit} {v : Visit} {events : List Event} (he : e.stores.Reachable)
    (hc : c < e.contexts.size)
    (hd : d.mode = .requiresNew ∨ d.mode = .required ∧ (e.context c).isActive d.backend = false)
    (hrun : e.run c d (visit fun e => exec c body calls e) = ((result, some (v, events)), e')) :
    ∃ tx, (v.entered.context c).current? d.backend = some tx ∧ tx.isInTransaction = true ∧
      AllOrNothing d tx v events result e'.stores := by
  have hresolve : d.mode.resolve ((e.context c).isActive d.backend) = .ok .begin := by
    rcases hd with hd | ⟨hd, hactive⟩
    · rw [hd]
      cases (e.context c).isActive d.backend <;> rfl
    · rw [hd, hactive]
      rfl
  have hcourse := exec_course hc d body calls
  rw [hrun] at hcourse
  cases hcourse with
  | inPlace hb hr hi =>
    rw [hresolve] at hr
    cases hr
    cases hi
  | suspended hb hr ha inside hinside =>
    rw [hresolve] at hr
    cases hr
  | @begun p s tx e₁ hb hr ha framed hframed hok inside hinside back hback ended hended =>
    have hsound : e₁.stores.disk.Sound := by
      rw [ha.stores]
      exact he.sound
    have hi := framed_inside hc ha hframed hinside
    have hentered : tx.Pending inside.stores [] := hinside ▸ pending_enter hok
    have hframedSound : framed.stores.disk.Sound := hframed ▸ hsound
    have hinsideSound : inside.stores.disk.Sound :=
      hinside ▸ every_enter Git.Repository.closed_sound hframedSound s
    have hmem : tx ∈ ((inside.context c).stack d.backend).frames := by
      rw [hi.top]
      exact List.mem_cons_self
    have hk := exec_keeping c tx body calls inside [] (hi.inRange hc) ⟨_, hmem⟩ hinsideSound hentered
    simp only [visit] at hback hended ⊢
    generalize exec c body calls inside = ran at hk hback hended ⊢
    obtain ⟨⟨o, events⟩, left⟩ := ran
    rw [hback, Engine.finish_setStack] at hended
    have hreport : ended.1 = (left.finish tx (Engine.verdictOf d.directive o)).1 := by rw [hended]
    have hstores : ended.2.stores = (left.finish tx (Engine.verdictOf d.directive o)).2.stores := by rw [hended]; rfl
    have htop : (inside.context c).current? d.backend = some tx := by
      unfold Context.current?
      rw [hi.top, FrameStack.current?_push]
    simp only [Engine.stores_release, Engine.stores_setStack, hreport, hstores]
    exact ⟨tx, htop, hentered.inside, hk.finish⟩

section Reads

variable {d : Definition} {tx : Session} {v : Visit} {events : List Event} {result : Outcome Failure Unit}
  {after : Stores} (h : AllOrNothing d tx v events result after) {slot : Slot} {found found' : Option Row}

include h

/-- **Outside of the transaction a row is read as before**, where nothing is committed or the transaction has not
written the row. -/
theorem AllOrNothing.get_unchanged (hkept : ¬ Commits d tx v ∨ bounds (tx.writesIn events) slot = none)
    (hbefore : tx.outside.get v.left.stores slot = .ok found) (hafter : tx.outside.get after slot = .ok found') :
    found' = found := by
  refine Session.get_unique ?_ hafter hbefore
  show tx.committed after slot = tx.committed v.left.stores slot
  by_cases hcommits : Commits d tx v
  · have hlanded := h.landed hcommits slot
    rw [hkept.resolve_left (not_not_intro hcommits)] at hlanded
    exact hlanded
  · rw [h.nothing hcommits]

/-- **A row that the transaction has changed is read as its last write has left it**, if all is committed. -/
theorem AllOrNothing.get_changed (hcommits : Commits d tx v) {first last : Content}
    (hbounds : bounds (tx.writesIn events) slot = some (first, last)) (hchanged : first ≠ last) {s : Session}
    {st : Stores} (hlast : s.content st slot = last) (hinside : s.get st slot = .ok found)
    (hafter : tx.outside.get after slot = .ok found') : found' = found := by
  refine Session.get_unique ?_ hafter hinside
  have hlanded := h.landed hcommits slot
  rw [hbounds] at hlanded
  rw [hlast]
  exact hlanded.resolve_right fun hsame => hchanged hsame.1

end Reads

def Work.inserts : Work :=
  .resource BackendName.default fun
    | .ok s => .write s ⟨"users"⟩ (.insert ⟨⟨"ada"⟩, 1, "", "", ∅⟩) fun
      | .value () => .done (.value ())
      | .failed err => .done (.failed (.storage err))
      | .unwound text => .done (.unwound text)
    | .error err => .done (.failed (.transaction err))

/-- It is inserted in a transaction of its own. -/
def Definition.inserting : Definition := { operation := "insert", mode := .requiresNew }

def Engine.inserted : (Outcome Failure Unit × Option (Visit × List Event)) × Engine :=
  (Engine.single.addContext Registry.single).2.run 0 .inserting (visit fun e => exec 0 Work.inserts [] e)

theorem inserts_is_all_or_nothing :
    (Engine.single.addContext Registry.single).2.stores.Reachable ∧
      0 < (Engine.single.addContext Registry.single).2.contexts.size ∧ Definition.inserting.mode = .requiresNew ∧
      ∃ v events tx, Engine.inserted = ((.value (), some (v, events)), Engine.inserted.2) ∧
        (v.entered.context 0).current? Definition.inserting.backend = some tx ∧ tx.isInTransaction = true ∧
        AllOrNothing .inserting tx v events (.value ()) Engine.inserted.2.stores := by
  have he : (Engine.single.addContext Registry.single).2.stores.Reachable := .addMemory (.new 0 0)
  have hc : 0 < (Engine.single.addContext Registry.single).2.contexts.size := by decide
  have hvalue : Engine.inserted.1.1 = .value () := by decide +kernel
  have hran : Engine.inserted.1.2.isSome = true := by decide +kernel
  obtain ⟨⟨v, events⟩, hvisit⟩ := Option.isSome_iff_exists.1 hran
  have hrun : Engine.inserted = ((.value (), some (v, events)), Engine.inserted.2) := by rw [← hvalue, ← hvisit]
  obtain ⟨tx, htop, hinside, htruth⟩ := run_is_all_or_nothing he hc (.inl rfl) hrun
  exact ⟨he, hc, rfl, v, events, tx, hrun, htop, hinside, htruth⟩

end Demarcate
