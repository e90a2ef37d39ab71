import Demarcate.Proofs.Git.Renumbering
import Demarcate.Proofs.Upkeep
/-!
# Alongside — two traffics that are followed side by side

Two traffics in which the same transactions were begun and the same have ended (`Beside`) do the same kind of thing in a
step: nothing, or what a session does outside of transactions, or what one does inside a transaction that is on both
sides (`Pair`).  On opened repositories that are alike each thing that a session does comes to the same, and leaves them
alike (`View.Like`).
-/
namespace Demarcate

open Git (CommitId Transaction branchAt branchOf)

namespace Traffic

/-- The same transactions were begun, whose sessions are in `T` to each other, and the same have ended. -/
structure Beside (T : Session → Session → Prop) (k k' : Traffic) : Prop where
  regular : k.Regular
  regular' : k'.Regular
  source : k'.source = k.source
  issued : k'.stores.issued = k.stores.issued
  handles : ∀ n, (k.handles.get? n = none ∧ k'.handles.get? n = none) ∨
    ∃ s s', k.handles.get? n = some s ∧ k'.handles.get? n = some s' ∧ T s s'
  ended : ∀ n, k'.fates.contains n = k.fates.contains n

/-- What two traffics do in a step. -/
inductive Pair (T : Session → Session → Prop) (k k' : Traffic) : Event → Prop where
  | idle {e : Event} {a : Answer} (h : k.react e = (a, k)) (h' : k'.react e = (a, k')) : Pair T k k' e
  | outside (id : Ulid) (op : Operation) : Pair T k k' (.operate (.session id) op)
  | inside {n : Nat} {s s' : Session} (hs : k.handles.get? n = some s) (hs' : k'.handles.get? n = some s')
      (hT : T s s') (op : Operation) : Pair T k k' (.operate (.handle n) op)
  | begin (id : Ulid) : Pair T k k' (.begin (.session id))
  | finish {n : Nat} {s s' : Session} (hs : k.running? n = some s) (hs' : k'.running? n = some s') (hT : T s s')
      (v : Engine.Verdict) : Pair T k k' (.finish n v)
  | sweep : Pair T k k' .sweep

theorem running?_eq_none {k : Traffic} {n : Nat} (h : k.handles.get? n = none ∨ k.fates.contains n = true) :
    k.running? n = none := by
  unfold running?
  split
  · rename_i hf
    refine h.resolve_right fun hc => ?_
    unfold SortedMap.contains at hc
    rw [hf] at hc
    cases hc
  · rfl

namespace Beside

variable {T : Session → Session → Prop} {k k' : Traffic} (h : Beside T k k')

include h

theorem running (n : Nat) : (k.running? n = none ∧ k'.running? n = none) ∨
    ∃ s s', k.running? n = some s ∧ k'.running? n = some s' ∧ T s s' := by
  obtain ⟨hs, hs'⟩ | ⟨s, s', hs, hs', hT⟩ := h.handles n
  · exact .inl ⟨running?_eq_none (.inl hs), running?_eq_none (.inl hs')⟩
  have hended := h.ended n
  cases hc : k.fates.contains n with
  | true => exact .inl ⟨running?_eq_none (.inr hc), running?_eq_none (.inr (hended.trans hc))⟩
  | false =>
    unfold SortedMap.contains at hc hended
    refine .inr ⟨s, s', running?_eq_some_iff.2 ⟨hs, Option.not_isSome_iff_eq_none.1 ?_⟩,
      running?_eq_some_iff.2 ⟨hs', Option.not_isSome_iff_eq_none.1 ?_⟩, hT⟩
    · rw [hc]
      exact Bool.false_ne_true
    · rw [hended, hc]
      exact Bool.false_ne_true

/-- **Both do the same kind of thing.** -/
theorem pair (e : Event) : Pair T k k' e := by
  cases e with
  | operate through op =>
    cases through with
    | session id => exact .outside id op
    | handle n =>
      obtain ⟨hs, hs'⟩ | ⟨s, s', hs, hs', hT⟩ := h.handles n
      · exact .idle (@react_operate_none k (.handle n) hs op) (@react_operate_none k' (.handle n) hs' op)
      · exact .inside hs hs' hT op
  | begin through =>
    cases through with
    | session id => exact .begin id
    | handle n =>
      obtain ⟨hs, hs'⟩ | ⟨s, s', hs, hs', -⟩ := h.handles n
      · exact .idle (@react_begin_none k (.handle n) hs) (@react_begin_none k' (.handle n) hs')
      · exact .idle (h.regular.react_begin_inside hs) (h.regular'.react_begin_inside hs')
  | finish n v =>
    obtain ⟨hs, hs'⟩ | ⟨s, s', hs, hs', hT⟩ := h.running n
    · exact .idle (react_finish_none hs v) (react_finish_none hs' v)
    · exact .finish hs hs' hT v
  | sweep => exact .sweep

theorem mono {T' : Session → Session → Prop} (hT : ∀ s s', T s s' → T' s s') : Beside T' k k' :=
  ⟨h.regular, h.regular', h.source, h.issued,
    fun n => (h.handles n).imp_right fun ⟨s, s', hs, hs', hss⟩ => ⟨s, s', hs, hs', hT s s' hss⟩, h.ended⟩

theorem of_steady {st st' : Stores} (hst : k.stores.Steady st) (hst' : k'.stores.Steady st') :
    Beside T { k with stores := st } { k' with stores := st' } :=
  ⟨h.regular.of_steady hst, h.regular'.of_steady hst', h.source, hst'.issued.trans (h.issued.trans hst.issued.symm),
    h.handles, h.ended⟩

/-- **A step leaves them beside each other**, if a transaction is begun on both sides or on neither. -/
theorem step (e : Event) (hbegin : ∀ id, e = .begin (.session id) →
      (∃ err err', ((k.source.session id).begin k.stores).1 = .error err ∧
        ((k.source.session id).begin k'.stores).1 = .error err') ∨
      ∃ s s', ((k.source.session id).begin k.stores).1 = .ok s ∧ ((k.source.session id).begin k'.stores).1 = .ok s' ∧
        T s s') :
    Beside T (k.step e) (k'.step e) := by
  have hregular := h.regular.step e
  have hregular' := h.regular'.step e
  have hsource : (k'.step e).source = (k.step e).source := by
    rw [(h.regular'.later e).source, (h.regular.later e).source, h.source]
  unfold Traffic.step at hregular hregular' hsource ⊢
  cases h.pair e with
  | idle he he' =>
    rw [he, he']
    exact h
  | outside id op =>
    have hs : k.session? (.session id) = some (k.source.session id) := rfl
    have hs' : k'.session? (.session id) = some (k'.source.session id) := rfl
    rw [react_operate hs, react_operate hs']
    exact h.of_steady (Session.steady_perform ..) (Session.steady_perform ..)
  | @inside n s s' hs hs' hT op =>
    have hsession : k.session? (.handle n) = some s := hs
    have hsession' : k'.session? (.handle n) = some s' := hs'
    rw [react_operate hsession, react_operate hsession']
    exact h.of_steady (Session.steady_perform ..) (Session.steady_perform ..)
  | begin id =>
    have hs : k.session? (.session id) = some (k.source.session id) := rfl
    have hs' : k'.session? (.session id) = some (k.source.session id) := by
      rw [← h.source]
      rfl
    have hissued : ((k.source.session id).begin k'.stores).2.issued =
        ((k.source.session id).begin k.stores).2.issued := by
      rw [(Session.steady_begin _ (k.source.isInTransaction_session id)).issued,
        (Session.steady_begin _ (k.source.isInTransaction_session id)).issued]
      exact congrArg (· + 1) h.issued
    obtain ⟨err, err', he, he'⟩ | ⟨s, s', he, he', hT⟩ := hbegin id rfl
    · rw [react_begin_error hs he] at hregular hsource ⊢
      rw [react_begin_error hs' he'] at hregular' hsource ⊢
      exact ⟨hregular, hregular', hsource, hissued, h.handles, h.ended⟩
    · rw [react_begin_ok hs he] at hregular hsource ⊢
      rw [react_begin_ok hs' he'] at hregular' hsource ⊢
      refine ⟨hregular, hregular', hsource, hissued, fun n => ?_, h.ended⟩
      simp only [SortedMap.get?_insert, h.issued]
      split
      · exact .inr ⟨s, s', rfl, rfl, hT⟩
      · exact h.handles n
  | @finish n s s' hs hs' hT v =>
    rw [react_finish hs] at hregular hsource ⊢
    rw [react_finish hs'] at hregular' hsource ⊢
    have hissued := (Session.steady_finish k.stores s v).issued
    have hissued' := (Session.steady_finish k'.stores s' v).issued
    refine ⟨hregular, hregular', hsource, hissued'.trans (h.issued.trans hissued.symm), h.handles, fun m => ?_⟩
    have hended := h.ended m
    unfold SortedMap.contains at hended ⊢
    simp only [SortedMap.get?_insert]
    split
    · rfl
    · exact hended
  | sweep =>
    cases hk : k.source with
    | memory i =>
      rw [react_sweep_memory hk, react_sweep_memory (h.source.trans hk)]
      exact h
    | git i =>
      rw [react_sweep_git hk, react_sweep_git (h.source.trans hk)]
      exact h.of_steady (.setRepository _ i _) (.setRepository _ i _)

/-- What is done through a handle on one side leaves them beside each other. -/
theorem left (n : Nat) (op : Operation) : Beside T (k.step (.operate (.handle n) op)) k' := by
  unfold Traffic.step
  cases hs : k.handles.get? n with
  | none =>
    rw [@react_operate_none k (.handle n) hs op]
    exact h
  | some s =>
    have hsession : k.session? (.handle n) = some s := hs
    rw [react_operate hsession]
    exact h.of_steady (Session.steady_perform ..) (.refl _)

end Beside
end Traffic

/-! ## Stores in memory -/

namespace Memory.Store

open Traffic (Operation Answer isCommitted)

/-- **What is done on equal tables, with equal writes, is answered alike** and leaves them equal. -/
theorem perform_congr {m m' : Store} {tx : Option Ulid} (ht : m'.tables = m.tables)
    (hw : ∀ u, tx = some u → m'.writeSet u = m.writeSet u) (op : Operation) :
    (m'.perform tx op).1 = (m.perform tx op).1 ∧ (m'.perform tx op).2.tables = (m.perform tx op).2.tables ∧
      ∀ u, tx = some u → (m'.perform tx op).2.writeSet u = (m.perform tx op).2.writeSet u := by
  have hget : ∀ s, m'.get tx s = m.get tx s := fun s => by
    unfold get
    cases tx with
    | none => exact congrArg (Tables.row? · s) ht
    | some u => rw [Option.bind_some, Option.bind_some, hw u rfl, ht]
  have hscan : ∀ t, m'.scan tx t = m.scan tx t := fun t => by
    unfold scan
    cases tx with
    | none => simp only [ht]
    | some u => simp only [ht, hw u rfl]
  cases op with
  | get s => exact ⟨congrArg (fun row => Answer.row (.ok row)) (hget s), ht, hw⟩
  | scan t => exact ⟨congrArg (fun rows => Answer.rows (.ok rows)) (hscan t), ht, hw⟩
  | count t => exact ⟨congrArg (fun rows => Answer.count (.ok (List.length rows))) (hscan t), ht, hw⟩
  | change reading t c =>
    simp only [perform, apply]
    cases tx with
    | none =>
      simp only [applyDirectly, ht]
      cases c.resolve (Clock.stamp reading) t (m.tables.row? ⟨t, c.key⟩) with
      | value row => exact ⟨rfl, rfl, fun u hu => by cases hu⟩
      | failed e => exact ⟨rfl, ht, hw⟩
      | unwound text => exact ⟨rfl, ht, hw⟩
    | some u =>
      have hset : ∀ ws : WriteSet, (m'.setWriteSet u ws).tables = (m.setWriteSet u ws).tables ∧
          ∀ v, some u = some v → (m'.setWriteSet u ws).writeSet v = (m.setWriteSet u ws).writeSet v := fun ws =>
        ⟨ht, fun v hv => by
          cases hv
          rw [writeSet_setWriteSet, writeSet_setWriteSet, if_pos rfl, if_pos rfl]⟩
      simp only [applyBuffered, hw u rfl, ht]
      cases (m.writeSet u).get? ⟨t, c.key⟩ with
      | some pending =>
        simp only
        cases c.resolve (Clock.stamp reading) t pending.write with
        | value row => exact ⟨rfl, hset _⟩
        | failed e => exact ⟨rfl, ht, hw⟩
        | unwound text => exact ⟨rfl, ht, hw⟩
      | none =>
        simp only
        cases c.resolve (Clock.stamp reading) t (m.tables.row? ⟨t, c.key⟩) with
        | value row => exact ⟨rfl, hset _⟩
        | failed e => exact ⟨rfl, ht, hw⟩
        | unwound text => exact ⟨rfl, ht, hw⟩

/-- What is done in a transaction changes its own writes and nothing else. -/
theorem perform_inside (m : Store) (u : Ulid) (op : Operation) :
    (m.perform (some u) op).2.tables = m.tables ∧
      ∀ v, v ≠ u → (m.perform (some u) op).2.writeSet v = m.writeSet v := by
  cases op with
  | change reading t c =>
    simp only [perform]
    cases ha : m.apply (Clock.stamp reading) (some u) t c with
    | value m' =>
      obtain ⟨p, rfl, -⟩ := applyBuffered_value ha
      refine ⟨rfl, fun v hv => ?_⟩
      rw [writeSet_setWriteSet, if_neg hv]
    | failed e => exact ⟨rfl, fun _ _ => rfl⟩
    | unwound text => exact ⟨rfl, fun _ _ => rfl⟩
  | get s => exact ⟨rfl, fun _ _ => rfl⟩
  | scan t => exact ⟨rfl, fun _ _ => rfl⟩
  | count t => exact ⟨rfl, fun _ _ => rfl⟩

/-- What is done outside of transactions changes no writes of theirs. -/
theorem writeSet_perform_none (m : Store) (op : Operation) (u : Ulid) :
    (m.perform none op).2.writeSet u = m.writeSet u := by
  cases op with
  | change reading t c =>
    simp only [perform]
    cases ha : m.apply (Clock.stamp reading) none t c with
    | value m' =>
      obtain ⟨row, -, rfl⟩ := apply_none_value ha
      rfl
    | failed e => rfl
    | unwound text => rfl
  | get s => rfl
  | scan t => rfl
  | count t => rfl

/-- **The end of a transaction** lays its writes over the tables, if it is committed, and changes no other writes. -/
theorem finish_cases (m : Store) (u : Ulid) (vd : Engine.Verdict) :
    (∀ v, v ≠ u → (m.finish u vd).2.writeSet v = m.writeSet v) ∧
      ((isCommitted vd (m.finish u vd).1 = true ∧ (m.finish u vd).2.tables = (m.writeSet u).laidOver m.tables) ∨
        isCommitted vd (m.finish u vd).1 = false ∧ (m.finish u vd).2.tables = m.tables) := by
  have hdiscard : ∀ v, v ≠ u → (m.discard u).writeSet v = m.writeSet v := fun v hv => by
    unfold discard
    rw [writeSet_setWriteSet, if_neg hv]
  cases vd with
  | unwind text => exact ⟨fun _ _ => rfl, .inr ⟨rfl, rfl⟩⟩
  | rollback => exact ⟨hdiscard, .inr ⟨rfl, rfl⟩⟩
  | commit =>
    unfold finish
    simp only
    obtain ⟨-, hc⟩ | ⟨slot, slots, hc⟩ := commit_cases m u
    · rw [hc]
      exact ⟨hdiscard, .inl ⟨rfl, rfl⟩⟩
    · rw [hc]
      exact ⟨hdiscard, .inr ⟨rfl, rfl⟩⟩

/-- **A transaction ends alike** on equal tables, with equal writes. -/
theorem finish_congr {m m' : Store} {u : Ulid} (ht : m'.tables = m.tables) (hw : m'.writeSet u = m.writeSet u)
    (vd : Engine.Verdict) :
    (m'.finish u vd).1 = (m.finish u vd).1 ∧ (m'.finish u vd).2.tables = (m.finish u vd).2.tables := by
  cases vd with
  | unwind text => exact ⟨rfl, ht⟩
  | rollback => exact ⟨rfl, ht⟩
  | commit =>
    have hdiscard : (m'.discard u).tables = (m.discard u).tables := ht
    unfold finish commit
    simp only [hw, hdiscard]
    cases stale (m.discard u).tables (m.writeSet u) with
    | nil => exact ⟨rfl, rfl⟩
    | cons slot slots => exact ⟨rfl, ht⟩

end Memory.Store

/-! ## Opened repositories -/

namespace Git.View

open Traffic (Operation Answer isCommitted)
open Repository (Like)

/-- The same handle, on repositories that are alike. -/
structure Alike (ρ : CommitId → CommitId → Prop) (aside : String → Prop) (v v' : View) : Prop where
  repository : Like ρ aside v.repository v'.repository
  handle : v'.handle = v.handle

variable {ρ : CommitId → CommitId → Prop} {aside : String → Prop} {v v' : View}

namespace Alike

variable (h : Alike ρ aside v v')

include h

theorem snapshot {tx : Option Transaction} (htx : ¬ aside (branchAt tx)) :
    (∃ a b, Session.snapshot v.repository tx = .ok a ∧ Session.snapshot v'.repository tx = .ok b ∧ ρ a b) ∨
      ∃ e, Session.snapshot v.repository tx = .error e ∧ Session.snapshot v'.repository tx = .error e := by
  rw [snapshot_eq, snapshot_eq]
  exact (h.repository.resolve fun n hn => normal?_branchAt hn ▸ htx).imp_right fun ⟨ha, hb⟩ => ⟨_, ha, hb⟩

theorem read {tx : Option Transaction} (htx : ¬ aside (branchAt tx)) (s : Slot) : v'.read tx s = v.read tx s := by
  unfold View.read
  obtain ⟨a, b, ha, hb, hab⟩ | ⟨e, ha, hb⟩ := h.snapshot htx
  · rw [ha, hb, ok_bind, ok_bind]
    unfold Repository.readRow
    rw [h.repository.treeAt hab]
  · rw [ha, hb]
    rfl

theorem scan {tx : Option Transaction} (htx : ¬ aside (branchAt tx)) (t : TableName) :
    v'.scan tx t = v.scan tx t := by
  unfold View.scan
  obtain ⟨a, b, ha, hb, hab⟩ | ⟨e, ha, hb⟩ := h.snapshot htx
  · rw [ha, hb, ok_bind, ok_bind]
    unfold Repository.scanTable
    rw [h.repository.treeAt hab]
  · rw [ha, hb]
    rfl

variable (hnamed : v.repository.WellNamed) (hnamed' : v'.repository.WellNamed)

/-- A branch is begun on both sides, or on neither. -/
theorem begin (hmain : ¬ aside RefName.main) (u : Ulid) :
    (∃ e, v.begin u = (.error e, v) ∧ v'.begin u = (.error e, v')) ∨
      ∃ a b w w', v.begin u = (.ok a, w) ∧ v'.begin u = (.ok b, w') ∧ ρ a b ∧ Alike ρ aside w w' ∧
        w'.repository.refs.get? (branchOf u) = some (.commit b) := by
  unfold View.begin
  obtain ⟨n, a, b, hn, ha, hb, hab⟩ | ⟨e, ha, hb⟩ := h.repository.branch hmain u.lowerText
  · obtain rfl := normal?_branchOf hn
    rw [ha, hb]
    refine .inr ⟨a, b, _, _, rfl, rfl, hab, ⟨h.repository.moveTo _ hab, ?_⟩, ?_⟩
    · rw [h.handle]
    · exact (SortedMap.get?_insert ..).trans (if_pos rfl)
  · rw [ha, hb]
    exact .inl ⟨e, rfl, rfl⟩

theorem drop (u : Ulid) : Alike ρ aside (v.drop u) (v'.drop u) := by
  refine ⟨?_, by rw [handle_drop, handle_drop, h.handle]⟩
  unfold View.drop
  simp only
  obtain ⟨n, hd, hd'⟩ | ⟨e, hd, hd'⟩ := h.repository.deleteRef (branchOf u)
  · rw [hd, hd']
    exact h.repository.erase n
  · rw [hd, hd']
    exact h.repository

theorem sweep : v'.sweep.1 = v.sweep.1 ∧ Alike ρ aside v.sweep.2 v'.sweep.2 := by
  have hids : v'.repository.transactionIds = v.repository.transactionIds := by
    unfold Repository.transactionIds
    rw [SortedMap.keys_congr h.repository.names]
  unfold View.sweep Handle.cleanup
  simp only [hids, h.handle]
  obtain ⟨hcount, hlike⟩ := Repository.Like.deleteBranches
    (v.repository.transactionIds.filter fun id => !v.handle.live.contains id) h.repository
  exact ⟨hcount.symm, hlike, rfl⟩

include hnamed hnamed'

/-- **What is done on a branch is answered alike**, and leaves the repositories alike. -/
theorem perform {tx : Option Transaction} (htx : ¬ aside (branchAt tx)) (op : Operation) :
    (v'.perform tx op).1 = (v.perform tx op).1 ∧
      ∃ ρ', (∀ a b, ρ a b → ρ' a b) ∧ Alike ρ' aside (v.perform tx op).2 (v'.perform tx op).2 := by
  cases op with
  | get s => exact ⟨congrArg Answer.row (h.read htx s), ρ, fun _ _ hab => hab, h⟩
  | scan t => exact ⟨congrArg Answer.rows (h.scan htx t), ρ, fun _ _ hab => hab, h⟩
  | count t =>
    exact ⟨congrArg (fun rows => Answer.count (Except.map List.length rows)) (h.scan htx t), ρ, fun _ _ hab => hab, h⟩
  | change reading t c =>
    simp only [View.perform, View.apply]
    rw [commitOn_eq, commitOn_eq, h.handle]
    obtain ⟨s, s', hs, hs', hlike⟩ | ⟨e, hs, hs'⟩ | ⟨text, hs, hs'⟩ := h.repository.commitTo hnamed hnamed'
      (fun n hn => normal?_branchAt hn ▸ htx) v.handle.author (Clock.stamp reading) t c
      (tx.map fun tx => tx.id.lowerText)
    · rw [hs, hs']
      exact ⟨rfl, _, fun _ _ hab => .inl hab, hlike, h.handle⟩
    · rw [hs, hs']
      exact ⟨rfl, ρ, fun _ _ hab => hab, h⟩
    · rw [hs, hs']
      exact ⟨rfl, ρ, fun _ _ hab => hab, h⟩

/-- **The end of a transaction is answered alike**, and leaves the repositories alike. -/
theorem finish (hmain : ¬ aside RefName.main) {u : Ulid} (htx : ¬ aside (branchOf u)) {a b : CommitId} (hab : ρ a b)
    (vd : Engine.Verdict) :
    (v'.finish ⟨u, b⟩ vd).1 = (v.finish ⟨u, a⟩ vd).1 ∧
      ∃ ρ', (∀ a b, ρ a b → ρ' a b) ∧ Alike ρ' aside (v.finish ⟨u, a⟩ vd).2 (v'.finish ⟨u, b⟩ vd).2 := by
  cases vd with
  | unwind text => exact ⟨rfl, ρ, fun _ _ hab => hab, h.drop u⟩
  | rollback => exact ⟨rfl, ρ, fun _ _ hab => hab, h.drop u⟩
  | commit =>
    simp only [View.finish]
    unfold View.commit
    rw [h.handle]
    obtain ⟨o, o', s, s', ρ', hs, hs', hagainst, hρ, hlike⟩ | ⟨e, hs, hs'⟩ := h.repository.merge hnamed hnamed' hmain
      (fun n hn => normal?_branchOf hn ▸ htx) hab v.handle.author
    · rw [hs, hs']
      have hverdict : verdict ⟨u, b⟩ o' = verdict ⟨u, a⟩ o := by
        cases o <;> cases o' <;> cases hagainst <;> rfl
      have halike : Alike ρ' aside ⟨s, v.handle⟩ ⟨s', v.handle⟩ := ⟨hlike, rfl⟩
      exact ⟨congrArg Outcome.ofExcept hverdict, ρ', hρ, halike.drop u⟩
    · rw [hs, hs']
      exact ⟨rfl, ρ, fun _ _ hab => hab, h.drop u⟩

end Alike

/-! ## Transactions that are not committed -/

/-- What is done in a transaction does not rest on its base. -/
theorem perform_base (v : View) (u : Ulid) (a b : CommitId) (op : Operation) :
    v.perform (some ⟨u, a⟩) op = v.perform (some ⟨u, b⟩) op := by
  cases op with
  | change reading t c =>
    simp only [perform, apply]
    rw [commitOn_eq, commitOn_eq]
    rfl
  | get s => rfl
  | scan t => rfl
  | count t => rfl

/-- A transaction that is not committed leaves no more than the end of its branch. -/
theorem finish_uncommitted {u : Ulid} {base : CommitId} {vd : Engine.Verdict}
    (h : isCommitted vd (v.finish ⟨u, base⟩ vd).1 = false) : (v.finish ⟨u, base⟩ vd).2 = v.drop u := by
  cases vd with
  | unwind text => rfl
  | rollback => rfl
  | commit =>
    simp only [finish] at h ⊢
    unfold commit at h ⊢
    simp only at h ⊢
    cases hm : v.repository.merge v.handle.author u.lowerText base with
    | error e => rfl
    | ok merged =>
      obtain ⟨o, r⟩ := merged
      simp only [hm] at h ⊢
      cases o with
      | conflict paths => rw [Repository.merge_conflict hm]
      | unchanged => cases h
      | fastForward id => cases h
      | merged id => cases h

/-- Neither does a transaction whose branch is where it was begun. -/
theorem finish_at_base (hnamed : v.repository.WellNamed) {u : Ulid} {base : CommitId}
    (h : v.repository.refs.get? (branchOf u) = some (.commit base)) (vd : Engine.Verdict) :
    (v.finish ⟨u, base⟩ vd).2 = v.drop u := by
  cases vd with
  | unwind text => rfl
  | rollback => rfl
  | commit =>
    simp only [finish]
    unfold commit
    simp only
    obtain ⟨id, hid⟩ | hid := Repository.resolve_cases v.repository (RefName.ofTransaction u.lowerText)
    · have hbase : id = base := by
        obtain ⟨n, hn, href, -⟩ := Repository.resolve_eq_ok_iff.1 hid
        obtain rfl := normal?_branchOf hn
        rw [h] at href
        cases href
        rfl
      rw [Repository.merge_eq hnamed hid, if_pos hbase]
    · have hmerge : v.repository.merge v.handle.author u.lowerText base =
          .error (.refNotFound (RefName.ofTransaction u.lowerText)) := by
        unfold Repository.merge Repository.transactionTip
        rw [hid]
        rfl
      rw [hmerge]

end Git.View
end Demarcate
