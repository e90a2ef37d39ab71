import Demarcate.Proofs.Opening
/-!
# Manning — what the handles of a database know of the transactions that run

Sessions begin transactions through the handles on several repositories, end them, and change rows inside them and
outside.  All the while a handle knows the transactions that run through it, each by a name of its own, and they have
their branches, if no two of the handles are on one repository (`Manned`).  Each thing that is done keeps this
(`Held.apply`, `begin`, `finish`), and so does a sweep through all the handles (`Held.sweepAll`), which spares a branch
just if every handle on the repository knows it (`Held.kept_iff`).
-/
namespace Demarcate

open Git.Repository (WellNamed closed_wellNamed)
open Git.RefName (ofTransaction)

/-! ## One sweep after the other -/

namespace Stores

variable {st : Stores} {i : Nat}

/-- A sweep is seen through every handle on the repository. -/
theorem repository_cleanup {j : Nat} (hsite : (st.handle j).site = (st.handle i).site) :
    ((st.cleanup j).2.view i).repository = (st.view j).sweep.2.repository := by
  have hsame : (st.cleanup j).2.repository i = (st.cleanup j).2.repository j := repository_congr hsite.symm
  exact hsame.trans (congrArg Git.View.repository (cleanup_view st j).2)

theorem trims_cleanup (hnamed : st.disk.Every WellNamed) (hi : st.Housed i) {kept : String → Prop} {j : Nat}
    (hlive : (st.handle j).site = (st.handle i).site → ∀ id, kept (ofTransaction id) →
      (st.handle j).live.contains id = true) :
    Git.View.Trims kept (st.view i) ((st.cleanup j).2.view i) := by
  by_cases hsite : (st.handle j).site = (st.handle i).site
  · have htrims := Git.View.Trims.sweep (v := st.view j) (hnamed.repository closed_wellNamed _) (hlive hsite)
    have hsame : (st.view i).repository = (st.view j).repository := repository_congr hsite.symm
    refine ⟨?_, rfl⟩
    rw [repository_cleanup hsite, hsame]
    exact htrims.repository
  · rw [(Through.cleanup st j).view hi (Ne.symm hsite)]
    exact .refl kept _

/-- A branch that is gone, or that the handle does not know, is gone after a sweep. -/
theorem gone_cleanup (hnamed : st.disk.Every WellNamed) (hi : st.Housed i) {id : String} {j : Nat}
    (h : (st.view i).repository.refs.get? (ofTransaction id) = none ∨
      (st.handle j).site = (st.handle i).site ∧ (st.handle j).live.contains id = false) :
    ((st.cleanup j).2.view i).repository.refs.get? (ofTransaction id) = none := by
  by_cases hsite : (st.handle j).site = (st.handle i).site
  · rw [repository_cleanup hsite]
    obtain hgone | ⟨-, hstray⟩ := h
    · have hsame : (st.view i).repository = (st.view j).repository := repository_congr hsite.symm
      rw [hsame] at hgone
      exact Git.View.sweep_gone hgone
    · exact Git.View.sweep_stray (v := st.view j) (hnamed.repository closed_wellNamed _) hstray
  · rw [(Through.cleanup st j).view hi (Ne.symm hsite)]
    exact h.resolve_right fun hstray => hsite hstray.1

/-- Sweeps the repositories of several handles. -/
def sweepAll (st : Stores) (handles : List Nat) : Stores := handles.foldl (fun st j => (st.cleanup j).2) st

theorem handle_sweepAll : ∀ (handles : List Nat) (st : Stores) (i : Nat), (st.sweepAll handles).handle i = st.handle i
  | [], _, _ => rfl
  | j :: handles, st, i => handle_sweepAll handles (st.cleanup j).2 i

theorem memories_sweepAll : ∀ (handles : List Nat) (st : Stores), (st.sweepAll handles).memories = st.memories
  | [], _ => rfl
  | j :: handles, st => memories_sweepAll handles (st.cleanup j).2

theorem named_sweepAll : ∀ (handles : List Nat) {st : Stores}, st.disk.Every WellNamed →
    (st.sweepAll handles).disk.Every WellNamed
  | [], _, h => h
  | j :: handles, _, h => named_sweepAll handles (every_cleanup closed_wellNamed h j)

theorem housed_sweepAll : ∀ (handles : List Nat) {st : Stores}, st.Housed i → (st.sweepAll handles).Housed i
  | [], _, h => h
  | j :: handles, st, h => housed_sweepAll handles ((Through.cleanup st j).housed h)

/-- **What every handle on the repository knows is kept.** -/
theorem trims_sweepAll {kept : String → Prop} : ∀ {handles : List Nat} {st : Stores}, st.disk.Every WellNamed →
    st.Housed i → (∀ j ∈ handles, (st.handle j).site = (st.handle i).site → ∀ id, kept (ofTransaction id) →
      (st.handle j).live.contains id = true) →
    Git.View.Trims kept (st.view i) ((st.sweepAll handles).view i)
  | [], st, _, _, _ => .refl kept _
  | j :: handles, st, hnamed, hi, hlive => by
    have hfirst := trims_cleanup hnamed hi (hlive j List.mem_cons_self)
    have hrest := trims_sweepAll (every_cleanup closed_wellNamed hnamed j) ((Through.cleanup st j).housed hi)
      fun k hk => hlive k (List.mem_cons_of_mem _ hk)
    exact hfirst.trans hrest

/-- **What one handle on the repository does not know is gone.** -/
theorem gone_sweepAll {id : String} : ∀ {handles : List Nat} {st : Stores}, st.disk.Every WellNamed → st.Housed i →
    ((st.view i).repository.refs.get? (ofTransaction id) = none ∨
      ∃ j ∈ handles, (st.handle j).site = (st.handle i).site ∧ (st.handle j).live.contains id = false) →
    ((st.sweepAll handles).view i).repository.refs.get? (ofTransaction id) = none
  | [], st, _, _, h => h.resolve_right fun ⟨_, hj, _⟩ => by cases hj
  | j :: handles, st, hnamed, hi, h => by
    have hnamed' : (st.cleanup j).2.disk.Every WellNamed := every_cleanup closed_wellNamed hnamed j
    show (((st.cleanup j).2.sweepAll handles).view i).repository.refs.get? (ofTransaction id) = none
    refine gone_sweepAll hnamed' ((Through.cleanup st j).housed hi) ?_
    obtain hgone | ⟨k, hk, hstray⟩ := h
    · exact .inl (gone_cleanup hnamed hi (.inl hgone))
    · obtain rfl | hk := List.mem_cons.1 hk
      · exact .inl (gone_cleanup hnamed hi (.inr hstray))
      · exact .inr ⟨k, hk, hstray⟩

end Stores

/-! ## What is known of the transactions that run -/

namespace Session

/-- The session works in memory, or through one of the handles. -/
def On (handles : List Nat) : Session → Prop
  | .memory .. => True
  | .git _ i _ => i ∈ handles

/-- The handle and the name of a transaction on a repository. -/
def branch? : Session → Option (Nat × String)
  | .git _ i (some tx) => some (i, tx.id.lowerText)
  | _ => none

end Session

namespace Stores

open Custody (Mark Plain plain_lowerText)
open Git.View (Backed Turn)

/-- The handles lead to repositories, and sessions in transactions run through them. -/
structure Fit (st : Stores) (handles : List Nat) (running : List Session) : Prop where
  named : st.disk.Every WellNamed
  housed : ∀ i ∈ handles, st.Housed i
  inside : ∀ s ∈ running, s.isInTransaction = true ∧ s.On handles

/-- Every handle knows the transactions that run through it, each by a name of its own, and whatever it knows has a
branch. -/
structure Manned (st : Stores) (handles : List Nat) (running : List Session) : Prop where
  backed : ∀ i ∈ handles, (st.view i).Backed
  live : ∀ k ∈ running.filterMap Session.branch?, (st.handle k.1).live.contains k.2 = true
  distinct : (running.filterMap Session.branch?).Nodup

/-- The repositories are manned, if each handle has its own. -/
structure Held (st : Stores) (handles : List Nat) (running : List Session) : Prop where
  fit : st.Fit handles running
  manned : st.Apart handles → st.Manned handles running

variable {st st₁ : Stores} {handles : List Nat} {running : List Session}

theorem Fit.wellNamed (h : st.Fit handles running) (i : Nat) : (st.view i).repository.WellNamed :=
  h.named.repository closed_wellNamed _

namespace Manned

variable (h : st.Manned handles running)

include h

theorem sublist {running' : List Session} (hsub : running'.Sublist running) : st.Manned handles running' :=
  ⟨h.backed, fun k hk => h.live k ((hsub.filterMap _).subset hk), h.distinct.sublist (hsub.filterMap _)⟩

variable (hfit : st.Fit handles running) {j : Nat} (ht : Through j st st₁)

include hfit ht

/-- No branch was taken away, whosever handle it was done through. -/
theorem kept (hhandle : ∀ i, st₁.handle i = st.handle i)
    (hkept : ∀ id, (st.view j).repository.refs.contains (ofTransaction id) = true →
      (st₁.view j).repository.refs.contains (ofTransaction id) = true) : st₁.Manned handles running := by
  refine ⟨fun i hi id hid => ?_, fun k hk => by rw [hhandle]; exact h.live k hk, h.distinct⟩
  have hid : (st₁.handle i).live.contains id = true := hid
  rw [hhandle] at hid
  have hthere := h.backed i hi id hid
  by_cases hsite : (st.handle i).site = (st.handle j).site
  · have hbefore : (st.view i).repository = (st.view j).repository := repository_congr hsite
    have hafter : (st₁.view i).repository = (st₁.view j).repository :=
      repository_congr (by rw [hhandle, hhandle, hsite])
    rw [hafter]
    exact hkept id (hbefore ▸ hthere)
  · rw [ht.view (hfit.housed i hi) hsite]
    exact hthere

variable (hapart : st.Apart handles) (hj : j ∈ handles)

include hapart hj

/-- A handle on another repository has no part in the turn. -/
theorem backed_turn {marks : List Mark} (hturn : Turn (st.view j) marks (st₁.view j))
    (hplain : ∀ m ∈ marks, Plain m.id) : ∀ i ∈ handles, (st₁.view i).Backed := by
  intro i hi
  by_cases hij : i = j
  · rw [hij]
    exact (h.backed j hj).turn hturn hplain
  · rw [ht.view (hfit.housed i hi) fun hsite => hij (hapart i hi j hj hsite)]
    exact h.backed i hi

theorem begun {s : Session} {id : String} (hs : s.branch? = some (j, id)) (hid : Plain id)
    (hnew : (st.handle j).live.contains id = false) (hturn : Turn (st.view j) [.begun id] (st₁.view j)) :
    st₁.Manned handles (s :: running) := by
  have hlive : ∀ id', (st₁.handle j).live.contains id' = (decide (id' = id) || (st.handle j).live.contains id') := by
    intro id'
    have hhandle : (st₁.handle j).live = (st.handle j).live.insert id () := by
      generalize hv : st₁.view j = v at hturn
      cases hturn with
      | begun branch => exact congrArg (fun v : Git.View => v.handle.live) hv
    rw [hhandle, SortedMap.contains_insert]
  have hkeys : (s :: running).filterMap Session.branch? = (j, id) :: running.filterMap Session.branch? :=
    List.filterMap_cons_some hs
  refine ⟨h.backed_turn hfit ht hapart hj hturn (fun m hm => ?_), fun k hk => ?_, ?_⟩
  · obtain rfl := List.mem_singleton.1 hm
    exact hid
  · rw [hkeys] at hk
    obtain rfl | hk := List.mem_cons.1 hk
    · rw [hlive, decide_eq_true rfl]
      rfl
    · by_cases hkj : k.1 = j
      · rw [hkj, hlive, ← hkj, h.live k hk, Bool.or_true]
      · rw [ht.handle _ hkj]
        exact h.live k hk
  · rw [hkeys]
    refine List.nodup_cons.2 ⟨fun hmem => ?_, h.distinct⟩
    rw [h.live _ hmem] at hnew
    cases hnew

theorem ended {s : Session} {id : String} (hs : s.branch? = some (j, id)) (hmem : s ∈ running) (hid : Plain id)
    (hturn : Turn (st.view j) [.abandoned id] (st₁.view j)) : st₁.Manned handles (running.erase s) := by
  have hlive : ∀ id', (st₁.handle j).live.contains id' = (decide (id' ≠ id) && (st.handle j).live.contains id') := by
    intro id'
    have hhandle : (st₁.handle j).live = (st.handle j).live.erase id := by
      generalize hv : st₁.view j = v at hturn
      cases hturn with
      | @abandoned v' hquiet _ =>
        have hview : (st₁.view j).handle = _ := (congrArg Git.View.handle hv).trans (Git.View.handle_abandon v' id)
        cases hquiet with
        | quiet handle kept =>
          rw [handle] at hview
          exact congrArg Git.Handle.live hview
    rw [hhandle, SortedMap.contains_erase]
  -- the name is not that of another transaction that runs
  have hperm := (List.perm_cons_erase hmem).filterMap Session.branch?
  rw [List.filterMap_cons_some hs] at hperm
  obtain ⟨hother, hdistinct⟩ := List.nodup_cons.1 (hperm.nodup_iff.1 h.distinct)
  refine ⟨h.backed_turn hfit ht hapart hj hturn (fun m hm => ?_), fun k hk => ?_, hdistinct⟩
  · obtain rfl := List.mem_singleton.1 hm
    exact hid
  · have hknown := h.live k (hperm.mem_iff.2 (List.mem_cons_of_mem _ hk))
    by_cases hkj : k.1 = j
    · have hne : k.2 ≠ id := fun hkid => hother (by rw [← hkid, ← hkj]; exact hk)
      rw [hkj] at hknown ⊢
      rw [hlive, hknown, decide_eq_true hne]
      rfl
    · rw [ht.handle _ hkj]
      exact hknown

end Manned

namespace Held

open Git.View (turn_beginAs turn_finish)

/-- Neither the disk nor the handles were touched. -/
theorem aside (h : st.Held handles running) (hdisk : st₁.disk = st.disk) (hhandles : st₁.handles = st.handles) :
    st₁.Held handles running := by
  obtain ⟨memories, disk, opened, issued, readings⟩ := st₁
  obtain rfl : disk = st.disk := hdisk
  obtain rfl : opened = st.handles := hhandles
  refine ⟨⟨h.fit.named, fun i hi => ⟨(h.fit.housed i hi).isIn, (h.fit.housed i hi).there⟩, h.fit.inside⟩,
    fun hapart => ?_⟩
  have hmanned := h.manned hapart
  exact ⟨hmanned.backed, hmanned.live, hmanned.distinct⟩

theorem cons (h : st.Held handles running) {s : Session} (hs : s.isInTransaction = true ∧ s.On handles)
    (hbranch : s.branch? = none) : st.Held handles (s :: running) := by
  refine ⟨⟨h.fit.named, h.fit.housed, List.forall_mem_cons.2 ⟨hs, h.fit.inside⟩⟩, fun hapart => ?_⟩
  have hmanned := h.manned hapart
  have hkeys : (s :: running).filterMap Session.branch? = running.filterMap Session.branch? :=
    List.filterMap_cons_none hbranch
  exact ⟨hmanned.backed, hkeys ▸ hmanned.live, hkeys ▸ hmanned.distinct⟩

theorem erase (h : st.Held handles running) (s : Session) : st.Held handles (running.erase s) :=
  ⟨⟨h.fit.named, h.fit.housed, fun t ht => h.fit.inside t (List.mem_of_mem_erase ht)⟩,
    fun hapart => (h.manned hapart).sublist List.erase_sublist⟩

/-- Handles stay on their repositories, so the step is checked against what held before it. -/
theorem through (h : st.Held handles running) {j : Nat} (ht : Through j st st₁)
    (hnamed : st₁.disk.Every WellNamed) {running' : List Session}
    (hinside : ∀ s ∈ running', s.isInTransaction = true ∧ s.On handles)
    (hmanned : st.Apart handles → st.Manned handles running → st₁.Manned handles running') :
    st₁.Held handles running' := by
  refine ⟨⟨hnamed, fun i hi => ht.housed (h.fit.housed i hi), hinside⟩, fun hapart => ?_⟩
  have hapart : st.Apart handles := fun i hi k hk hsite => hapart i hi k hk (by rw [ht.site, ht.site, hsite])
  exact hmanned hapart (h.manned hapart)

/-- A change leaves what is known, whosever session makes it. -/
theorem apply (h : st.Held handles running) (s : Session) (t : TableName) (c : Change) :
    (s.apply st t c).2.Held handles running := by
  obtain ⟨_, _, _, m, -, -, happly⟩ | ⟨id, j, tx, _, r, rfl, -, happly⟩ | ⟨-, happly⟩ := Session.apply_cases st s t c
  · rw [happly]
    exact h.aside rfl rfl
  · have ht := Session.through_apply st id j tx t c
    have hnamed := Session.every_apply closed_wellNamed h.fit.named (.git id j tx) t c
    refine h.through ht hnamed h.fit.inside fun _ hmanned => ?_
    refine hmanned.kept h.fit ht (fun i => by rw [happly]; rfl) fun id' hthere => ?_
    have hview := (Session.perform_view st (i := j) id tx (.change st.readings t c)).2
    have hkept := (st.view j).contains_of_perform tx (.change st.readings t c) hthere
    rw [← hview] at hkept
    exact hkept
  · rw [happly]
    exact h.aside rfl rfl

/-- A transaction has begun. -/
theorem begin (h : st.Held handles running) {s tx : Session} (hs : s.On handles)
    (hb : (s.begin st).1 = .ok tx) : (s.begin st).2.Held handles (tx :: running) := by
  cases s with
  | memory id i inside =>
    cases inside with
    | some t => cases hb
    | none =>
      cases hb
      have hbegun : ((Session.memory id i none).begin st).2.Held handles running := h.aside rfl rfl
      exact hbegun.cons ⟨rfl, trivial⟩ rfl
  | git id j inside =>
    cases inside with
    | some t => cases hb
    | none =>
      have ht := Session.through_begin st id j
      have hnamed := Session.every_begin closed_wellNamed h.fit.named (.git id j none)
      obtain ⟨hmade, hview⟩ := Session.begin_view (h.fit.housed j hs).isIn id
      obtain ⟨base, hok, hturn⟩ | ⟨e, he⟩ := turn_beginAs (st.view j) (Ulid.issued st.issued).lowerText
      · have hok : ((st.view j).begin (Ulid.issued st.issued)).1 = .ok base := hok
        rw [hok, hb] at hmade
        cases hmade
        refine h.through ht hnamed (List.forall_mem_cons.2 ⟨⟨rfl, hs⟩, h.fit.inside⟩) fun hapart hmanned => ?_
        refine hmanned.begun h.fit ht hapart hs rfl (plain_lowerText _) ?_ (hview ▸ hturn)
        -- a name that the handle knows has its branch, so no transaction begins under it
        rw [← Bool.not_eq_true]
        intro hknown
        obtain ⟨e, he⟩ := Git.View.beginAs_taken (Git.RefName.normal?_branch _) (hmanned.backed j hs _ hknown)
        rw [Git.View.begin_eq, he] at hok
        cases hok
      · have he : (st.view j).begin (Ulid.issued st.issued) = (.error e, st.view j) := he
        rw [he, hb] at hmade
        cases hmade

/-- A transaction has ended. -/
theorem finish (h : st.Held handles running) {s : Session} (hmem : s ∈ running) (v : Engine.Verdict) :
    (Engine.finish { stores := st } s v).2.stores.Held handles (running.erase s) := by
  obtain ⟨hin, hs⟩ := h.fit.inside s hmem
  cases s with
  | memory id i tx =>
    obtain ⟨o, memories, hend, -⟩ := Session.finish_beside (rfl : st.memories = st.memories) id i tx v
    have hended : { st with memories }.Held handles running := h.aside rfl rfl
    rw [hend]
    exact hended.erase _
  | git id j tx =>
    cases tx with
    | none => cases hin
    | some tx =>
      have ht := Session.through_finish id j { stores := st } tx v
      have hnamed := every_finish (e := { stores := st }) closed_wellNamed h.fit.named (.git id j (some tx)) v
      have hview := (Session.finish_view (h.fit.housed j hs).isIn id tx v).2
      refine h.through ht hnamed (fun s hs => h.fit.inside s (List.mem_of_mem_erase hs)) fun hapart hmanned => ?_
      refine hmanned.ended h.fit ht hapart hs rfl hmem (plain_lowerText _) ?_
      rw [hview]
      exact turn_finish (h.fit.wellNamed j) tx v

/-- **A branch is kept by the sweep of all just if every handle on its repository knows it.** -/
theorem kept_iff (h : st.Held handles running) {i : Nat} (hi : i ∈ handles) {id : String}
    (hthere : (st.view i).repository.refs.contains (ofTransaction id) = true) :
    ((st.sweepAll handles).view i).repository.refs.contains (ofTransaction id) = true ↔
      ∀ j ∈ handles, (st.handle j).site = (st.handle i).site → (st.handle j).live.contains id = true := by
  constructor
  · intro hkept j hj hsite
    rw [← Bool.not_eq_false]
    intro hstray
    have hgone := gone_sweepAll h.fit.named (h.fit.housed i hi) (.inr ⟨j, hj, hsite, hstray⟩)
    unfold SortedMap.contains at hkept
    rw [hgone] at hkept
    cases hkept
  · intro hknown
    have htrims : Git.View.Trims (· = ofTransaction id) (st.view i) ((st.sweepAll handles).view i) :=
      trims_sweepAll h.fit.named (h.fit.housed i hi) fun j hj hsite id' hid' => by
        rw [Git.RefName.ofTransaction_inj hid']
        exact hknown j hj hsite
    unfold SortedMap.contains
    rw [htrims.repository.refs _ rfl]
    exact hthere

/-- The sweep of all leaves what is known. -/
theorem sweepAll (h : st.Held handles running) : (st.sweepAll handles).Held handles running := by
  have hhandle := handle_sweepAll handles st
  refine ⟨⟨named_sweepAll handles h.fit.named, fun i hi => housed_sweepAll handles (h.fit.housed i hi),
    h.fit.inside⟩, fun hapart => ?_⟩
  have hapart : st.Apart handles := fun i hi j hj hsite => hapart i hi j hj (by rw [hhandle, hhandle, hsite])
  have hmanned := h.manned hapart
  refine ⟨fun i hi id hid => ?_, fun k hk => by rw [hhandle]; exact hmanned.live k hk, hmanned.distinct⟩
  have hlive : (st.handle i).live.contains id = true := by
    have hid : ((st.sweepAll handles).handle i).live.contains id = true := hid
    rwa [hhandle] at hid
  refine (h.kept_iff hi (hmanned.backed i hi id hlive)).2 fun j hj hsite => ?_
  rw [hapart j hj i hi hsite]
  exact hlive

end Held

end Stores
end Demarcate
