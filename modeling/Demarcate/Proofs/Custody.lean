import Demarcate.Proofs.Snapshot
/-!
# Custody — the transactions that a handle knows, and their branches

Transactions are begun through a handle by sessions, which end them whatever comes of the work in them, or directly,
under any name and until they are given up; other handles leave branches behind; and the handle sweeps
(`Custody.Event`).  It knows the transactions by the names that they were given, and takes the branches by theirs.

What is done does one of three things: it takes away no branch of a transaction that the handle knows, it begins a
transaction, or it gives one up (`Git.View.Turn`).  So the handle knows the transactions that were begun through it and
not given up since (`Custody.isOpen`), and each has its branch as long as no name was given that is another spelling of
its branch's (`Plain`): a sweep does not find the one by the other.
-/
namespace Demarcate

open Git (CommitId Handle Transaction branchAt branchOf)
open Git.RefName (normal? ofTransaction)

namespace SortedMap

variable {κ α : Type} [Ord κ] [Std.LawfulEqOrd κ] [DecidableEq κ]

theorem contains_insert [Std.TransOrd κ] (m : SortedMap κ α) (k k' : κ) (v : α) :
    (m.insert k v).contains k' = (decide (k' = k) || m.contains k') := by
  unfold contains
  rw [get?_insert]
  split <;> simp [*]

theorem contains_erase (m : SortedMap κ α) (k k' : κ) :
    (m.erase k).contains k' = (decide (k' ≠ k) && m.contains k') := by
  unfold contains
  rw [get?_erase]
  split <;> simp [*]

end SortedMap

namespace Git

open Repository (WellNamed Moves Spares)
open RefName (normal? ofTransaction transaction?)

theorem RefName.transaction?_ofTransaction (id : String) : transaction? (ofTransaction id) = some id := by
  unfold transaction? ofTransaction
  simp [String.toList_append]

/-! ## What a sweep counts -/

namespace Repository

variable {r : Repository}

theorem mem_transactionIds {id : String} : id ∈ r.transactionIds ↔ r.refs.contains (ofTransaction id) = true := by
  unfold transactionIds SortedMap.contains
  rw [List.mem_filterMap, Option.isSome_iff_exists]
  constructor
  · rintro ⟨name, hname, hid⟩
    obtain rfl := RefName.eq_of_transaction? hid
    exact SortedMap.mem_keys_iff.1 hname
  · exact fun h => ⟨_, SortedMap.mem_keys_iff.2 h, RefName.transaction?_ofTransaction id⟩

theorem nodup_transactionIds (r : Repository) : r.transactionIds.Nodup := by
  refine List.Pairwise.filterMap _ (fun m n hne id hm id' hn heq => hne ?_) r.refs.nodup_keys
  rw [RefName.eq_of_transaction? hm, RefName.eq_of_transaction? hn, heq]

/-- Where all branches are there, all are deleted. -/
theorem deleteBranches_count : ∀ {ids : List String} {r : Repository}, r.WellNamed → ids.Nodup →
    (∀ id ∈ ids, r.refs.contains (ofTransaction id) = true) → (Handle.deleteBranches ids r).1 = ids.length
  | [], _, _, _, _ => rfl
  | id :: ids, r, h, hnodup, hthere => by
    obtain ⟨hid, hnodup⟩ := List.nodup_cons.1 hnodup
    have hhere := hthere id List.mem_cons_self
    obtain ⟨t, ht⟩ := Option.isSome_iff_exists.1 hhere
    have hdelete := deleteRef_eq (r := r) (h.normal _ t ht)
    rw [if_pos hhere] at hdelete
    unfold Handle.deleteBranches
    rw [hdelete]
    refine congrArg (· + 1) (deleteBranches_count (h.erase _) hnodup fun id' hid' => ?_)
    have hne : ofTransaction id' ≠ ofTransaction id := fun heq => hid (RefName.ofTransaction_inj heq ▸ hid')
    rw [SortedMap.contains_erase, hthere id' (List.mem_cons_of_mem _ hid'), decide_eq_true hne]
    rfl

end Repository

namespace View

/-- The transactions that have a branch and that the handle does not know. -/
def strays (v : View) : List String := v.repository.transactionIds.filter fun id => !v.handle.live.contains id

theorem mem_strays {v : View} {id : String} : id ∈ v.strays ↔
    v.repository.refs.contains (ofTransaction id) = true ∧ v.handle.live.contains id = false := by
  unfold strays
  rw [List.mem_filter, Repository.mem_transactionIds, Bool.not_eq_true']

theorem nodup_strays (v : View) : v.strays.Nodup := v.repository.nodup_transactionIds.filter _

section Sweep

variable {v : View} (h : v.repository.WellNamed)

include h

theorem sweep_count : v.sweep.1 = v.strays.length :=
  Repository.deleteBranches_count h v.nodup_strays fun _ hid => (mem_strays.1 hid).1

theorem sweep_stray {id : String} (hid : v.handle.live.contains id = false) :
    v.sweep.2.repository.refs.get? (ofTransaction id) = none := by
  cases hthere : v.repository.refs.get? (ofTransaction id) with
  | none => exact sweep_gone hthere
  | some t =>
    have hstray : id ∈ v.strays := mem_strays.2 ⟨by unfold SortedMap.contains; rw [hthere]; rfl, hid⟩
    obtain ⟨refs, hrefs, hgone, -⟩ := Repository.deleteBranches_eq v.strays v.repository
    have hswept : v.sweep.2.repository = { v.repository with refs } := hrefs
    rw [hswept]
    exact hgone id hstray _ (h.normal _ t hthere)

/-- After a sweep there is nothing to sweep. -/
theorem strays_sweep : v.sweep.2.strays = [] := by
  refine List.eq_nil_iff_forall_not_mem.2 fun id hid => ?_
  obtain ⟨hthere, hlive⟩ := mem_strays.1 hid
  unfold SortedMap.contains at hthere
  rw [sweep_stray h hlive] at hthere
  cases hthere

end Sweep

/-! ## Transactions under names of one's own choosing -/

def beginAs (v : View) (id : String) : Except StorageError CommitId × View :=
  match v.repository.branch id with
  | .ok (base, r) => (.ok base, ⟨r, { v.handle with live := v.handle.live.insert id () }⟩)
  | .error e => (.error e, v)

def abandon (v : View) (id : String) : View :=
  let handle := { v.handle with live := v.handle.live.erase id }
  match v.repository.deleteRef (ofTransaction id) with
  | .ok r => ⟨r, handle⟩
  | .error _ => { v with handle }

theorem begin_eq (v : View) (u : Ulid) : v.begin u = v.beginAs u.lowerText := rfl

theorem drop_eq (v : View) (u : Ulid) : v.drop u = v.abandon u.lowerText := by
  unfold drop abandon branchOf
  cases v.repository.deleteRef (ofTransaction u.lowerText) with
  | error e => rfl
  | ok r => rfl

theorem handle_abandon (v : View) (id : String) :
    (v.abandon id).handle = { v.handle with live := v.handle.live.erase id } := by
  unfold abandon
  simp only
  split <;> rfl

theorem beginAs_ok {v : View} {id : String} {base : CommitId} {r : Repository}
    (h : v.repository.branch id = .ok (base, r)) :
    v.beginAs id = (.ok base, ⟨r, { v.handle with live := v.handle.live.insert id () }⟩) := by
  unfold beginAs
  rw [h]

/-- A transaction whose branch is there already is refused. -/
theorem beginAs_taken {v : View} {id n : String} (hn : normal? (ofTransaction id) = some n)
    (hthere : v.repository.refs.contains n = true) : ∃ e, v.beginAs id = (.error e, v) := by
  unfold beginAs
  cases hb : v.repository.branch id with
  | error e => exact ⟨e, rfl⟩
  | ok begun =>
    obtain ⟨m, hm, hnone, -⟩ := Repository.branch_ok hb
    rw [hn] at hm
    cases hm
    unfold SortedMap.contains at hthere
    rw [hnone] at hthere
    cases hthere

end View

end Git

/-! ## What is done, and what is told of it -/

namespace Custody

/-- The name is spelled as that of its branch. -/
def Plain (id : String) : Prop := ∀ n, normal? (ofTransaction id) = some n → n = ofTransaction id

theorem plain_lowerText (u : Ulid) : Plain u.lowerText := fun _ => Git.normal?_branchOf

inductive Mark where
  | begun (id : String)
  | abandoned (id : String)

def Mark.id : Mark → String
  | .begun id | .abandoned id => id

/-- Whether a transaction was begun and not given up since.  The last mark is the first. -/
def isOpen (id : String) : List Mark → Bool
  | [] => false
  | .begun id' :: marks => decide (id = id') || isOpen id marks
  | .abandoned id' :: marks => decide (id ≠ id') && isOpen id marks

end Custody

namespace Git.View

open Custody (Mark Plain isOpen)
open Repository (Moves)

/-- What the handle `i` is seen to do: it takes away no branch of a transaction that the handle knows, begins a
transaction, or gives one up. -/
inductive Turn (v : View) : List Mark → View → Prop where
  | quiet {v' : View} (handle : v'.handle = v.handle) (kept : ∀ id, v.handle.live.contains id = true →
      v.repository.refs.contains (ofTransaction id) = true → v'.repository.refs.contains (ofTransaction id) = true) :
      Turn v [] v'
  | begun {id : String} {base : CommitId} {r : Repository} (branch : v.repository.branch id = .ok (base, r)) :
      Turn v [.begun id] ⟨r, { v.handle with live := v.handle.live.insert id () }⟩
  | abandoned {v' : View} (quiet : Turn v [] v') (id : String) : Turn v [.abandoned id] (v'.abandon id)

/-- Each transaction that the handle knows has its branch. -/
def Backed (v : View) : Prop :=
  ∀ id, v.handle.live.contains id = true → v.repository.refs.contains (ofTransaction id) = true

variable {v v' : View} {marks : List Mark}

theorem Turn.live (h : Turn v marks v') {before : List Mark}
    (hlive : ∀ id, v.handle.live.contains id = isOpen id before) (id : String) :
    v'.handle.live.contains id = isOpen id (marks ++ before) := by
  cases h with
  | quiet handle => rw [handle, hlive]; rfl
  | begun branch =>
    show (v.handle.live.insert _ ()).contains id = _
    rw [SortedMap.contains_insert, hlive]
    rfl
  | abandoned quiet =>
    cases quiet with
    | quiet handle =>
      rw [handle_abandon, handle]
      show (v.handle.live.erase _).contains id = _
      rw [SortedMap.contains_erase, hlive]
      rfl

theorem Backed.turn (h : v.Backed) (ht : Turn v marks v') (hplain : ∀ m ∈ marks, Plain m.id) : v'.Backed := by
  cases ht with
  | quiet handle kept =>
    intro id hid
    rw [handle] at hid
    exact kept id hid (h id hid)
  | @begun id base r branch =>
    intro id' hid'
    obtain ⟨n, hn, -, -, rfl⟩ := Repository.branch_ok branch
    obtain rfl := hplain _ List.mem_cons_self n hn
    have hid' : (v.handle.live.insert id ()).contains id' = true := hid'
    show (v.repository.refs.insert _ _).contains _ = true
    rw [SortedMap.contains_insert, Bool.or_eq_true, decide_eq_true_eq] at hid' ⊢
    obtain rfl | hid' := hid'
    · exact .inl rfl
    · exact .inr (h id' hid')
  | @abandoned v₁ quiet id =>
    cases quiet with
    | quiet handle kept =>
      intro id' hid'
      rw [handle_abandon, handle] at hid'
      have hid' : (v.handle.live.erase id).contains id' = true := hid'
      rw [SortedMap.contains_erase, Bool.and_eq_true, decide_eq_true_eq] at hid'
      obtain ⟨hne, hlive⟩ := hid'
      have hthere := kept id' hlive (h id' hlive)
      unfold abandon
      simp only
      split
      · rename_i r hd
        obtain ⟨n, hn, rfl⟩ := Repository.deleteRef_ok hd
        have hne : ofTransaction id' ≠ n :=
          hplain _ List.mem_cons_self n hn ▸ fun heq => hne (RefName.ofTransaction_inj heq)
        show (v₁.repository.refs.erase n).contains _ = true
        rw [SortedMap.contains_erase, hthere, decide_eq_true hne]
        rfl
      · exact hthere

/-! ## The turns -/

theorem Turn.refl (v : View) : Turn v [] v := .quiet rfl fun _ _ hid => hid

theorem contains_of_moves {r r' : Repository} {name n : String} (h : Moves name r r') (hn : n ≠ name) :
    r'.refs.contains n = r.refs.contains n := by
  unfold SortedMap.contains
  rw [h.refs n hn]

/-- Whatever is done in a transaction or outside of them takes no branch away. -/
theorem contains_of_perform (v : View) (tx : Option Transaction) (op : Traffic.Operation) {id : String}
    (h : v.repository.refs.contains (ofTransaction id) = true) :
    (v.perform tx op).2.repository.refs.contains (ofTransaction id) = true := by
  by_cases hid : ofTransaction id = branchAt tx
  · rw [hid] at h ⊢
    rw [contains_perform, h]
  · rw [contains_of_moves (v.moves_perform tx op).1 hid, h]

theorem turn_perform (v : View) (tx : Option Transaction) (op : Traffic.Operation) : Turn v [] (v.perform tx op).2 :=
  .quiet (v.moves_perform tx op).2 fun _ _ hthere => v.contains_of_perform tx op hthere

theorem turn_beginAs (v : View) (id : String) :
    (∃ base, (v.beginAs id).1 = .ok base ∧ Turn v [.begun id] (v.beginAs id).2) ∨
      ∃ e, v.beginAs id = (.error e, v) := by
  unfold beginAs
  cases hb : v.repository.branch id with
  | error e => exact .inr ⟨e, rfl⟩
  | ok begun => exact .inl ⟨begun.1, rfl, .begun hb⟩

theorem turn_finish (h : v.repository.WellNamed) (tx : Transaction) (vd : Engine.Verdict) :
    Turn v [.abandoned tx.id.lowerText] (v.finish tx vd).2 := by
  obtain ⟨r, hmoves, -, hend⟩ := finish_cases h tx vd
  have hquiet : Turn v [] ⟨r, v.handle⟩ :=
    .quiet rfl fun id _ hthere => (contains_of_moves hmoves (RefName.ofTransaction_ne_main id)).trans hthere
  rw [hend, drop_eq]
  exact .abandoned hquiet _

/-- Another handle begins a transaction. -/
theorem turn_branch {id : String} {base : CommitId} {r : Repository} (h : v.repository.branch id = .ok (base, r)) :
    Turn v [] { v with repository := r } := by
  obtain ⟨n, -, -, -, rfl⟩ := Repository.branch_ok h
  refine .quiet rfl fun id' _ hthere => ?_
  show (v.repository.refs.insert _ _).contains _ = true
  rw [SortedMap.contains_insert, hthere, Bool.or_true]

theorem turn_sweep (h : v.repository.WellNamed) : Turn v [] v.sweep.2 := by
  refine .quiet rfl fun id hid hthere => ?_
  have hspares := sweep_spares h fun id' hid' => RefName.ofTransaction_inj hid' ▸ hid
  unfold SortedMap.contains at hthere ⊢
  rw [hspares.ref, hthere]

end Git.View

namespace Stores

variable {st : Stores} {i : Nat} (hi : i < st.handles.size)

include hi

theorem beginBranch_viewAs (id : String) : (st.beginBranch i id).1 = ((st.view i).beginAs id).1 ∧
    (st.beginBranch i id).2.view i = ((st.view i).beginAs id).2 := by
  unfold beginBranch Handle.begin Git.View.beginAs
  simp only [view]
  cases (st.repository i).branch id with
  | error e => exact ⟨rfl, rfl⟩
  | ok begun => exact ⟨rfl, view_setBoth hi _ rfl⟩

theorem abandonBranch_view (id : String) : (st.abandonBranch i id).2.view i = (st.view i).abandon id := by
  unfold abandonBranch Handle.abandon Git.View.abandon
  simp only [view]
  cases (st.repository i).deleteRef (ofTransaction id) with
  | error e => exact view_setHandle hi rfl
  | ok r => exact view_setBoth hi r rfl

end Stores

open Custody (Mark)

/-- A repository that is worked on through the handle `handle`. -/
structure Custody where
  handle : Nat
  stores : Stores
  /-- The sessions inside transactions that have begun and not ended. -/
  running : List Session := []
  /-- What was begun and given up through the handle, the last first. -/
  marks : List Mark := []

namespace Custody

open Git.View (Turn Backed)
open Git.Repository (WellNamed closed_wellNamed)

inductive Event where
  /-- A session reads or changes something, outside of transactions or in one, which may have ended. -/
  | operate (session : Ulid) (tx : Option Transaction) (op : Traffic.Operation)
  /-- A session begins a transaction. -/
  | enter (session : Ulid)
  /-- The work in a transaction has ended. -/
  | leave (tx : Session) (v : Engine.Verdict)
  | begin (id : String)
  | abandon (id : String)
  /-- A transaction is begun through another handle and left behind. -/
  | strand (other : Handle) (id : String)
  | sweep

/-- Whether an event gives the name to a transaction of the handle. -/
def Event.Gives (id : String) : Event → Prop
  | .begin id' | .abandon id' => id' = id
  | _ => False

def view (k : Custody) : Git.View := k.stores.view k.handle

def step (k : Custody) : Event → Custody
  | .operate session tx op => { k with stores := ((Session.git session k.handle tx).perform k.stores op).2 }
  | .enter session =>
    match (Session.git session k.handle none).begin k.stores with
    | (.ok tx, stores) =>
      { k with stores, running := tx :: k.running, marks := tx.transaction?.toList.map .begun ++ k.marks }
    | (.error _, stores) => { k with stores }
  | .leave tx v =>
    if tx ∈ k.running then
      { k with
        stores := (Engine.finish { stores := k.stores } tx v).2.stores
        running := k.running.erase tx
        marks := tx.transaction?.toList.map .abandoned ++ k.marks }
    else k
  | .begin id =>
    match k.stores.beginBranch k.handle id with
    | (.ok _, stores) => { k with stores, marks := .begun id :: k.marks }
    | (.error _, stores) => { k with stores }
  | .abandon id =>
    { k with stores := (k.stores.abandonBranch k.handle id).2, marks := .abandoned id :: k.marks }
  | .strand other id =>
    match other.begin (k.stores.repository k.handle) id with
    | .ok (_, _, r) => { k with stores := k.stores.setRepository k.handle r }
    | .error _ => k
  | .sweep => { k with stores := (k.stores.cleanup k.handle).2 }

def run (k : Custody) (events : List Event) : Custody := events.foldl step k

/-- A handle from the moment on at which it was opened. -/
def on (handle : Nat) (stores : Stores) : Custody := { handle, stores }

variable {k : Custody}

/-! ## Steps -/

theorem step_enter_ok {session : Ulid} {tx : Session}
    (h : ((Session.git session k.handle none).begin k.stores).1 = .ok tx) :
    k.step (.enter session) = { k with
      stores := ((Session.git session k.handle none).begin k.stores).2
      running := tx :: k.running
      marks := tx.transaction?.toList.map .begun ++ k.marks } := by
  simp only [step]
  generalize (Session.git session k.handle none).begin k.stores = begun at h ⊢
  obtain ⟨made, st⟩ := begun
  cases h
  rfl

theorem step_enter_error {session : Ulid} {e : ResourceError}
    (h : ((Session.git session k.handle none).begin k.stores).1 = .error e) :
    k.step (.enter session) = { k with stores := ((Session.git session k.handle none).begin k.stores).2 } := by
  simp only [step]
  generalize (Session.git session k.handle none).begin k.stores = begun at h ⊢
  obtain ⟨made, st⟩ := begun
  cases h
  rfl

theorem step_begin_ok {id : String} {base : CommitId} (h : (k.stores.beginBranch k.handle id).1 = .ok base) :
    k.step (.begin id) =
      { k with stores := (k.stores.beginBranch k.handle id).2, marks := .begun id :: k.marks } := by
  simp only [step]
  generalize k.stores.beginBranch k.handle id = begun at h ⊢
  obtain ⟨made, st⟩ := begun
  cases h
  rfl

theorem step_begin_error {id : String} {e : StorageError} (h : (k.stores.beginBranch k.handle id).1 = .error e) :
    k.step (.begin id) = { k with stores := (k.stores.beginBranch k.handle id).2 } := by
  simp only [step]
  generalize k.stores.beginBranch k.handle id = begun at h ⊢
  obtain ⟨made, st⟩ := begun
  cases h
  rfl

theorem step_leave {tx : Session} (h : tx ∈ k.running) (v : Engine.Verdict) : k.step (.leave tx v) = { k with
    stores := (Engine.finish { stores := k.stores } tx v).2.stores
    running := k.running.erase tx
    marks := tx.transaction?.toList.map .abandoned ++ k.marks } := if_pos h

theorem step_strand (k : Custody) (other : Handle) (id : String) :
    k.step (.strand other id) = k ∨ ∃ base r, k.view.repository.branch id = .ok (base, r) ∧
      k.step (.strand other id) = { k with stores := k.stores.setRepository k.handle r } := by
  simp only [step]
  cases hb : other.begin (k.stores.repository k.handle) id with
  | error e => exact .inl rfl
  | ok begun =>
    obtain ⟨made, hmade, hb⟩ := bind_ok hb
    cases hb
    exact .inr ⟨_, _, hmade, rfl⟩

/-- What is known of a handle at all times. -/
structure Kept (k : Custody) : Prop where
  isIn : k.handle < k.stores.handles.size
  named : k.stores.disk.Every WellNamed
  running : ∀ s ∈ k.running, ∃ id tx, s = .git id k.handle (some tx)
  live : ∀ id, k.view.handle.live.contains id = isOpen id k.marks

/-- The step from `k` to `k'`, as it is seen from the handle. -/
structure Seen (k : Custody) (e : Event) (k' : Custody) : Prop where
  handle : k'.handle = k.handle
  size : k'.stores.handles.size = k.stores.handles.size
  named : k'.stores.disk.Every WellNamed
  running : ∀ s ∈ k'.running, s ∈ k.running ∨ ∃ id tx, s = .git id k.handle (some tx)
  turn : ∃ marks v, k'.marks = marks ++ k.marks ∧ k'.view = v ∧ Turn k.view marks v ∧
    ∀ m ∈ marks, Plain m.id ∨ e.Gives m.id

namespace Kept

variable (h : k.Kept)

include h

theorem wellNamed : k.view.repository.WellNamed := h.named.repository closed_wellNamed _

/-- **What a step can do**, as it is seen from the handle. -/
theorem seen (e : Event) : Seen k e (k.step e) := by
  have hkept : ∀ s ∈ k.running, s ∈ k.running ∨ ∃ id tx, s = .git id k.handle (some tx) := fun s hs => .inl hs
  have hquiet : ∀ m ∈ ([] : List Mark), Plain m.id ∨ e.Gives m.id := fun m hm => by cases hm
  cases e with
  | operate session tx op =>
    have hview := (Session.perform_view k.stores (i := k.handle) session tx op).2
    exact ⟨rfl, (Session.steady_perform ..).handles, Session.every_perform closed_wellNamed h.named _ op, hkept,
      [], _, rfl, hview, Git.View.turn_perform k.view tx op, hquiet⟩
  | enter session =>
    obtain ⟨hmade, hview⟩ := Session.begin_view h.isIn session
    have hsize := (Session.steady_begin k.stores (s := .git session k.handle none) rfl).handles
    have hnamed := Session.every_begin closed_wellNamed h.named (.git session k.handle none)
    obtain ⟨base, hok, hturn⟩ | ⟨e, he⟩ := Git.View.turn_beginAs k.view (Ulid.issued k.stores.issued).lowerText
    · have hok : ((k.stores.view k.handle).begin _).1 = .ok base := hok
      rw [hok] at hmade
      rw [step_enter_ok hmade]
      refine ⟨rfl, hsize, hnamed, fun s hs => ?_, _, _, rfl, hview, hturn, fun m hm => ?_⟩
      · obtain rfl | hs := List.mem_cons.1 hs
        · exact .inr ⟨_, _, rfl⟩
        · exact .inl hs
      · obtain rfl := List.mem_singleton.1 hm
        exact .inl (plain_lowerText _)
    · have he : (k.stores.view k.handle).begin _ = (.error e, k.view) := he
      rw [he] at hmade hview
      rw [step_enter_error hmade]
      exact ⟨rfl, hsize, hnamed, hkept, [], _, rfl, hview, .refl k.view, hquiet⟩
  | leave tx v =>
    by_cases hs : tx ∈ k.running
    · obtain ⟨id, t, rfl⟩ := h.running tx hs
      have hview := (Session.finish_view h.isIn id t v).2
      have hdisk : ({ stores := k.stores } : Engine).stores.disk.Every WellNamed := h.named
      rw [step_leave hs]
      refine ⟨rfl, (Session.steady_finish ..).handles, every_finish closed_wellNamed hdisk _ v,
        fun s hs => .inl (List.mem_of_mem_erase hs), _, _, rfl, hview, Git.View.turn_finish h.wellNamed t v,
        fun m hm => ?_⟩
      obtain rfl := List.mem_singleton.1 hm
      exact .inl (plain_lowerText _)
    · have hidle : k.step (.leave tx v) = k := if_neg hs
      rw [hidle]
      exact ⟨rfl, rfl, h.named, hkept, [], _, rfl, rfl, .refl k.view, hquiet⟩
  | begin id =>
    obtain ⟨hmade, hview⟩ := Stores.beginBranch_viewAs h.isIn id
    have hsize := (Stores.Steady.beginBranch k.stores k.handle id).handles
    have hnamed := Stores.every_beginBranch closed_wellNamed h.named k.handle id
    obtain ⟨base, hok, hturn⟩ | ⟨e, he⟩ := Git.View.turn_beginAs k.view id
    · rw [step_begin_ok (hmade.trans hok)]
      refine ⟨rfl, hsize, hnamed, hkept, [.begun id], _, rfl, hview, hturn, fun m hm => ?_⟩
      obtain rfl := List.mem_singleton.1 hm
      exact .inr rfl
    · have he : (k.stores.view k.handle).beginAs _ = (.error e, k.view) := he
      rw [he] at hmade hview
      rw [step_begin_error hmade]
      exact ⟨rfl, hsize, hnamed, hkept, [], _, rfl, hview, .refl k.view, hquiet⟩
  | abandon id =>
    have hnamed := Stores.every_abandonBranch closed_wellNamed h.named k.handle id
    refine ⟨rfl, (Stores.Steady.abandonBranch ..).handles, hnamed, hkept, [.abandoned id], _, rfl,
      Stores.abandonBranch_view h.isIn id, .abandoned (.refl k.view) id, fun m hm => ?_⟩
    obtain rfl := List.mem_singleton.1 hm
    exact .inr rfl
  | strand other id =>
    obtain hidle | ⟨base, r, hbranch, hstep⟩ := k.step_strand other id
    · rw [hidle]
      exact ⟨rfl, rfl, h.named, hkept, [], _, rfl, rfl, .refl k.view, hquiet⟩
    · rw [hstep]
      exact ⟨rfl, rfl, h.named.setRepository _ (closed_wellNamed.branch h.wellNamed hbranch), hkept, [], _, rfl,
        Stores.view_setRepository k.stores k.handle r, Git.View.turn_branch hbranch, hquiet⟩
  | sweep =>
    exact ⟨rfl, rfl, Stores.every_cleanup closed_wellNamed h.named k.handle, hkept, [], _, rfl,
      (Stores.cleanup_view k.stores k.handle).2, Git.View.turn_sweep h.wellNamed, hquiet⟩

theorem step (e : Event) : (k.step e).Kept := by
  obtain ⟨hhandle, hsize, hnamed, hrunning, marks, v, hmarks, hview, hturn, -⟩ := h.seen e
  refine ⟨by rw [hhandle, hsize]; exact h.isIn, hnamed, fun s hs => ?_, fun id => ?_⟩
  · rw [hhandle]
    exact (hrunning s hs).elim (h.running s) fun hs => hs
  · rw [hview, hmarks]
    exact hturn.live h.live id

theorem backed (hback : k.view.Backed) {e : Event} (hplain : ∀ id, e.Gives id → Plain id) :
    (k.step e).view.Backed := by
  obtain ⟨-, -, -, -, marks, v, -, hview, hturn, hnames⟩ := h.seen e
  rw [hview]
  exact hback.turn hturn fun m hm => (hnames m hm).elim (fun hm => hm) (hplain m.id)

/-- A transaction that ends leaves neither its branch nor its name behind. -/
theorem leave {s : Session} (hs : s ∈ k.running) (vd : Engine.Verdict) : ∃ id, s.transaction? = some id ∧
    (k.step (.leave s vd)).view.repository.refs.get? (ofTransaction id) = none ∧
      (k.step (.leave s vd)).view.handle.live.contains id = false := by
  obtain ⟨id, tx, rfl⟩ := h.running s hs
  obtain ⟨r, -, hnamed, hend⟩ := Git.View.finish_cases h.wellNamed tx vd
  have hview : (k.step (.leave (.git id k.handle (some tx)) vd)).view = Git.View.drop ⟨r, k.view.handle⟩ tx.id := by
    rw [step_leave hs, ← hend]
    exact (Session.finish_view h.isIn id tx vd).2
  refine ⟨tx.id.lowerText, rfl, ?_, ?_⟩
  · rw [hview]
    exact Git.View.drop_gone hnamed tx.id
  · rw [hview, Git.View.handle_drop]
    show (k.view.handle.live.erase _).contains _ = false
    rw [SortedMap.contains_erase, decide_eq_false fun hne => hne rfl]
    rfl

end Kept

theorem Kept.run (events : List Event) : ∀ {k : Custody}, k.Kept → (k.run events).Kept := by
  induction events with
  | nil => exact fun h => h
  | cons e events ih => exact fun h => ih (h.step e)

theorem Kept.handle_run (events : List Event) : ∀ {k : Custody}, k.Kept → (k.run events).handle = k.handle := by
  induction events with
  | nil => exact fun _ => rfl
  | cons e events ih => exact fun h => (ih (h.step e)).trans (h.seen e).handle

theorem Kept.backed_run (events : List Event) (hplain : ∀ e ∈ events, ∀ id, e.Gives id → Plain id) :
    ∀ {k : Custody}, k.Kept → k.view.Backed → (k.run events).view.Backed := by
  induction events with
  | nil => exact fun _ hback => hback
  | cons e events ih =>
    exact fun h hback => ih (fun e he => hplain e (List.mem_cons_of_mem _ he)) (h.step e)
      (h.backed hback (hplain e List.mem_cons_self))

theorem kept_on {st : Stores} {i : Nat} (hst : st.Reachable) (hi : i < st.handles.size)
    (hnew : (st.handle i).live = ∅) : (on i st).Kept where
  isIn := hi
  named := hst.every closed_wellNamed
  running s hs := by cases hs
  live id := by
    show (st.handle i).live.contains id = false
    rw [hnew]
    rfl

end Custody

/-! ## The branches of a handle -/

namespace Stores

/-- What a sweep through the handle `i` does. -/
structure Sweeps (st : Stores) (i : Nat) : Prop where
  /-- It counts the branches of the transactions that the handle does not know. -/
  counted : ∃ strays : List String, strays.Nodup ∧ (st.cleanup i).1 = strays.length ∧ ∀ id, id ∈ strays ↔
    (st.view i).repository.refs.contains (ofTransaction id) = true ∧ (st.view i).handle.live.contains id = false
  gone : ∀ id, (st.view i).handle.live.contains id = false →
    ((st.cleanup i).2.view i).repository.refs.get? (ofTransaction id) = none
  kept : ∀ name, (∀ id, name = ofTransaction id → (st.view i).handle.live.contains id = true) →
    Git.Repository.Spares name (st.view i).repository ((st.cleanup i).2.view i).repository
  main : Git.Repository.Spares Git.RefName.main (st.view i).repository ((st.cleanup i).2.view i).repository
  handle : ((st.cleanup i).2.view i).handle = (st.view i).handle
  /-- A second one finds nothing. -/
  again : ((st.cleanup i).2.cleanup i).1 = 0

/-- What becomes of transactions that are refused. -/
structure Refuses (st : Stores) (i : Nat) : Prop where
  taken : ∀ id n, normal? (ofTransaction id) = some n → (st.view i).repository.refs.contains n = true →
    ∃ e, (st.beginBranch i id).1 = .error e
  unchanged : ∀ id e, (st.beginBranch i id).1 = .error e → (st.beginBranch i id).2 = st
  /-- A session takes an identifier all the same. -/
  session : ∀ id e, ((Session.git id i none).begin st).1 = .error e →
    ((Session.git id i none).begin st).2.view i = st.view i

variable {st : Stores} {i : Nat}

theorem sweeps (h : (st.view i).repository.WellNamed) : st.Sweeps i := by
  obtain ⟨hcount, hview⟩ := st.cleanup_view i
  have hspares : ∀ name, (∀ id, name = ofTransaction id → (st.view i).handle.live.contains id = true) →
      Git.Repository.Spares name (st.view i).repository ((st.cleanup i).2.view i).repository := fun name hname =>
    hview ▸ Git.View.sweep_spares h hname
  have hnamed : (st.view i).sweep.2.repository.WellNamed :=
    Git.Repository.closed_wellNamed.deleteBranches _ h
  refine ⟨⟨_, (st.view i).nodup_strays, hcount.trans (Git.View.sweep_count h), fun id => Git.View.mem_strays⟩,
    fun id hid => ?_, hspares, hspares _ fun id hid => absurd hid.symm (Git.RefName.ofTransaction_ne_main id), ?_, ?_⟩
  · rw [hview]
    exact Git.View.sweep_stray h hid
  · rw [hview]
    rfl
  · rw [((st.cleanup i).2.cleanup_view i).1, hview, Git.View.sweep_count hnamed, Git.View.strays_sweep h]
    rfl

theorem refuses (hi : i < st.handles.size) : st.Refuses i := by
  refine ⟨fun id n hn hthere => ?_, fun id e he => ?_, fun id e he => ?_⟩
  · obtain ⟨e, hb⟩ := Git.View.beginAs_taken hn hthere
    exact ⟨e, (beginBranch_viewAs hi id).1.trans (congrArg Prod.fst hb)⟩
  · obtain ⟨base, r, h, -, -, hb⟩ | ⟨e, hb⟩ := beginBranch_cases st i id
    · rw [hb] at he
      cases he
    · rw [hb]
  · obtain ⟨hmade, hview⟩ := Session.begin_view hi id
    obtain ⟨e, hb⟩ | ⟨base, r, -, hb⟩ := (st.view i).begin_cases (Ulid.issued st.issued)
    · rw [hview, hb]
    · rw [hmade, hb] at he
      cases he

end Stores

namespace Custody

/-- **The handle knows what was begun through it and not given up**, and of what it knows it keeps the branches. -/
theorem branches_follow_transactions {st : Stores} (hst : st.Reachable) {i : Nat} (hi : i < st.handles.size)
    (hnew : (st.handle i).live = ∅) (events : List Event) :
    let k := (on i st).run events
    (∀ id, k.view.handle.live.contains id = isOpen id k.marks) ∧
      ((∀ e ∈ events, ∀ id, e.Gives id → Plain id) → k.view.Backed) ∧
      (∀ s ∈ k.running, ∀ vd, ∃ id, s.transaction? = some id ∧
        (k.step (.leave s vd)).view.repository.refs.get? (ofTransaction id) = none ∧
        (k.step (.leave s vd)).view.handle.live.contains id = false) ∧
      k.stores.Refuses i ∧ k.stores.Sweeps i := by
  intro k
  have hkept := kept_on hst hi hnew
  have hk := hkept.run events
  have hhandle : ((on i st).run events).handle = i := hkept.handle_run events
  refine ⟨hk.live, fun hplain => hkept.backed_run events hplain fun id hid => ?_, fun s hs => hk.leave hs,
    Stores.refuses (hhandle ▸ hk.isIn), Stores.sweeps ?_⟩
  · rw [hkept.live] at hid
    cases hid
  · have hnamed := hk.wellNamed
    unfold view at hnamed
    rwa [hhandle] at hnamed

section Fresh

open Stores (openedTwice)

variable {id n : String} (hn : normal? (ofTransaction id) = some n)
  (hclash : ∀ o ∈ Git.RefName.occupied ++ [Git.RefName.main], Git.RefName.clash n o = false)

include hn hclash

/-- In a repository that has only `main` every name is free. -/
theorem begin_openedTwice : ((on 1 (openedTwice .default)).step (.begin id)).marks = [.begun id] ∧
    ((on 1 (openedTwice .default)).step (.begin id)).view.repository.refs.contains n = true := by
  obtain ⟨r, hview, honly, tip, c, htip, -, -, -⟩ := Stores.view_openedTwice .default
  have hbranch := Git.Repository.branch_free hn htip hclash honly
  have hbegun := Git.View.beginAs_ok (v := (openedTwice .default).view 1) (by rw [hview]; exact hbranch)
  obtain ⟨hmade, hafter⟩ := Stores.beginBranch_viewAs (Stores.size_openedTwice .default) id
  rw [hbegun] at hmade hafter
  have hstep := step_begin_ok (k := on 1 (openedTwice .default)) hmade
  refine ⟨by rw [hstep]; rfl, ?_⟩
  rw [hstep]
  show (((openedTwice .default).beginBranch 1 id).2.view 1).repository.refs.contains n = true
  rw [hafter]
  show (r.refs.insert n _).contains n = true
  rw [SortedMap.contains_insert, decide_eq_true rfl]
  rfl

end Fresh

/-- A transaction that is begun under a plain name keeps its branch. -/
theorem plain_name_keeps_branch :
    let k := (on 1 (Stores.openedTwice .default)).run [.begin "z", .sweep]
    (Stores.openedTwice .default).Reachable ∧ 1 < (Stores.openedTwice .default).handles.size ∧
      ((Stores.openedTwice .default).handle 1).live = ∅ ∧ k.view.handle.live.contains "z" = true ∧
      k.view.repository.refs.contains (ofTransaction "z") = true := by
  intro k
  have hlive : ((Stores.openedTwice .default).handle 1).live = ∅ :=
    congrArg Git.Handle.live (Stores.handle_openedTwice .default)
  obtain ⟨hknown, hbacked, -⟩ := branches_follow_transactions (Stores.reachable_openedTwice .default)
    (Stores.size_openedTwice .default) hlive [.begin "z", .sweep]
  have hmarks : k.marks = [.begun "z"] := (begin_openedTwice (n := ofTransaction "z") (by decide) (by decide)).1
  have hz : k.view.handle.live.contains "z" = true := (hknown "z").trans (by rw [hmarks]; rfl)
  have hplain : ∀ e ∈ [Event.begin "z", .sweep], ∀ id, e.Gives id → Plain id := by
    intro e he id hid
    rcases List.mem_cons.1 he with rfl | he
    · obtain rfl : "z" = id := hid
      exact fun n => Git.RefName.normal?_ofTransaction (by decide)
    · obtain rfl := List.mem_singleton.1 he
      cases hid
  exact ⟨Stores.reachable_openedTwice .default, Stores.size_openedTwice .default, hlive, hz, hbacked hplain _ hz⟩

/-- One that is begun under another spelling of its branch's name loses the branch, although the handle knows it. -/
theorem other_spelling_loses_branch :
    let begun := (on 1 (Stores.openedTwice .default)).step (.begin "/z")
    let swept := begun.step .sweep
    normal? (ofTransaction "/z") = some (ofTransaction "z") ∧
      begun.view.repository.refs.contains (ofTransaction "z") = true ∧
      isOpen "/z" swept.marks = true ∧ swept.view.handle.live.contains "/z" = true ∧
      swept.view.repository.refs.contains (ofTransaction "z") = false := by
  intro begun swept
  have hn : normal? (ofTransaction "/z") = some (ofTransaction "z") := by decide
  obtain ⟨hmarks, hthere⟩ := begin_openedTwice hn (by decide)
  have hlive : ((Stores.openedTwice .default).handle 1).live = ∅ :=
    congrArg Git.Handle.live (Stores.handle_openedTwice .default)
  have hbegun := (kept_on (Stores.reachable_openedTwice .default) (Stores.size_openedTwice .default) hlive).step
    (.begin "/z")
  have hknown : ∀ id, begun.view.handle.live.contains id = isOpen id [.begun "/z"] := fun id => by
    rw [hbegun.live, hmarks]
  have hgone := Git.View.sweep_stray hbegun.wellNamed (hknown "z")
  refine ⟨hn, hthere, ?_, hknown "/z", ?_⟩
  · show isOpen "/z" begun.marks = true
    rw [hmarks]
    rfl
  · unfold SortedMap.contains
    rw [show swept.view = begun.view.sweep.2 from (Stores.cleanup_view begun.stores begun.handle).2, hgone]
    rfl

end Custody
end Demarcate
