import Demarcate.Proofs.Manning
/-!
# Sweeping — what a database's sweep leaves of its own transactions

Units of work run in the contexts of a database, one in another or side by side.  What all of them do comes, one thing
after the other, to steps of a few kinds (`Engine.Busy`), and a call adds no other (`Busy.run`).

A sweep goes over the repositories of the database, over each by its data source's handle, which knows the transactions
that were begun through it.  While no two data sources are on one repository the sweep makes no difference to what runs
(`sweep_spares_running`); where two are, each is a stranger to the other's transactions.
-/
namespace Demarcate

open Git (Transaction branchOf)
open Git.Repository (closed_wellNamed)

theorem Session.begin_refused {st : Stores} {s : Session} {err : ResourceError} (hb : (s.begin st).1 = .error err) :
    (s.begin st).2.disk = st.disk ∧ (s.begin st).2.handles = st.handles := by
  cases s with
  | memory id i inside =>
    cases inside with
    | some t => exact ⟨rfl, rfl⟩
    | none => cases hb
  | git id i inside =>
    cases inside with
    | some t => exact ⟨rfl, rfl⟩
    | none =>
      simp only [begin] at hb ⊢
      obtain ⟨base, r, h, -, -, hmade⟩ | ⟨e, hmade⟩ := beginBranch_cases st.issue.2 i st.issue.1.lowerText
      · rw [hmade] at hb
        cases hb
      · rw [hmade]
        exact ⟨rfl, rfl⟩

/-! ## A database at work -/

/-- The session works on the database, outside of transactions or in one that runs. -/
def Deed.AtWork (handles : List Nat) (running : List Session) (d : Deed) : Prop :=
  d.session.On handles ∧ (d.session.isInTransaction = true → d.session ∈ running)

namespace Engine

variable {e e' : Engine} {reg : Registry} {running : List Session}

theorem cleanupProviders_eq : ∀ (ps : List Nat) (e : Engine),
    (cleanupProviders ps e).2 = { e with stores := e.stores.sweepAll (ps.filterMap e.handle?) }
  | [], _ => rfl
  | p :: ps, e => by
    show (cleanupProviders ps (e.cleanupProvider p).2).2 = _
    rw [cleanupProviders_eq ps]
    cases hp : e.handle? p with
    | none =>
      have hsame : (e.cleanupProvider p).2 = e := by
        unfold cleanupProvider
        rw [hp]
      rw [hsame, List.filterMap_cons_none hp]
    | some i =>
      have hswept : (e.cleanupProvider p).2 = { e with stores := (e.stores.cleanup i).2 } := by
        unfold cleanupProvider
        rw [hp]
      rw [hswept, List.filterMap_cons_some hp]
      rfl

/-- **A database's sweep goes over its repositories**, and does nothing else. -/
theorem cleanupDatabase_eq (e : Engine) (reg : Registry) :
    (e.cleanupDatabase reg).2 = { e with stores := e.stores.sweepAll (e.gits reg) } :=
  cleanupProviders_eq reg.values e

/-- Neither the disk nor the handles were touched, and every provider is on its store. -/
structure Aside (e e' : Engine) : Prop where
  disk : e'.stores.disk = e.stores.disk
  handles : e'.stores.handles = e.stores.handles
  source : ∀ p, (e'.provider p).source = (e.provider p).source

/-- `Busy reg e running`: the engine at some point of what is done in the contexts of a database, and the sessions
inside the transactions that run. -/
inductive Busy (reg : Registry) : Engine → List Session → Prop where
  | opened {e₀ e : Engine} {config : EngineConfig} (hst : e₀.stores.Reachable)
      (hopen : e₀.openDatabase config = (.ok reg, e)) : Busy reg e []
  /-- A context is made or dropped, a session is handed out or given back, a call puts a frame on a stack or takes one
  off, a row is read. -/
  | aside {e e' : Engine} {running : List Session} (h : Busy reg e running) (ha : Aside e e') : Busy reg e' running
  /-- A session changes a row, whoever's it is. -/
  | wrote {e : Engine} {running : List Session} (h : Busy reg e running) (s : Session) (t : TableName)
      (c : Change) : Busy reg (e.apply s t c).2 running
  | entered {e : Engine} {running : List Session} (h : Busy reg e running) {s tx : Session}
      (hs : s.On (e.gits reg)) (hb : (e.enter s).1 = .ok tx) : Busy reg (e.enter s).2 (tx :: running)
  | ended {e : Engine} {running : List Session} (h : Busy reg e running) {tx : Session} (htx : tx ∈ running)
      (v : Verdict) : Busy reg (e.finish tx v).2 (running.erase tx)
  | swept {e : Engine} {running : List Session} (h : Busy reg e running) : Busy reg (e.cleanupDatabase reg).2 running

/-- A planned fault turns a commit into a rollback. -/
theorem finish_stores (e : Engine) (tx : Session) (v : Verdict) :
    ∃ w, (e.finish tx v).2.stores = (finish { stores := e.stores } tx w).2.stores := by
  have hcount : ∀ k, (e.count k).2.stores = e.stores := e.stores_count
  cases v with
  | unwind text => exact ⟨.unwind text, rfl⟩
  | rollback =>
    have hcount := hcount .rollback
    refine ⟨.rollback, ?_⟩
    unfold finish
    simp only
    generalize e.count .rollback = counted at hcount ⊢
    obtain ⟨fault, e₁⟩ := counted
    cases fault <;> exact congrArg tx.rollback hcount
  | commit =>
    have hcount := hcount .commit
    generalize hcounted : e.count .commit = counted at hcount
    obtain ⟨fault, e₁⟩ := counted
    cases fault with
    | some fault =>
      refine ⟨.rollback, ?_⟩
      unfold finish
      rw [hcounted]
      exact congrArg tx.rollback hcount
    | none =>
      refine ⟨.commit, ?_⟩
      rw [Session.finish_commit]
      unfold finish
      rw [hcounted]
      have hcount : e₁.stores = e.stores := hcount
      simp only [hcount]
      generalize tx.commit e.stores = committed
      obtain ⟨result, st⟩ := committed
      cases result <;> rfl

theorem Opens.held {e₀ e : Engine} {reg : Registry} (h : Opens e₀ reg e) (hst : e₀.stores.Reachable) :
    e.stores.Held (e.gits reg) [] := by
  refine ⟨⟨(h.reachable hst).every closed_wellNamed, fun i hi => (h.unused i hi).housed, (fun s hs => by cases hs)⟩,
    fun _ => ⟨fun i hi id hid => ?_, (fun k hk => by cases hk), List.nodup_nil⟩⟩
  have hid : (e.stores.handle i).live.contains id = true := hid
  rw [(h.unused i hi).live] at hid
  cases hid

/-- **What is known of the transactions that run, is known at all times.** -/
theorem Busy.held (h : Busy reg e running) : e.stores.Held (e.gits reg) running := by
  induction h with
  | opened hst hopen => exact (opens_of_openDatabase hopen).held hst
  | aside h ha ih =>
    rw [gits_congr ha.source]
    exact ih.aside ha.disk ha.handles
  | wrote h s t c ih => exact ih.apply s t c
  | @entered e running h s tx hs hb ih =>
    obtain ⟨hbegin, hstores⟩ := enter_ok hb
    rw [gits_congr fun p => congrArg Provider.source ((e.sameBooks_enter s).provider p), hstores]
    exact ih.begin hs hbegin
  | @ended e running h tx htx v ih =>
    obtain ⟨w, hstores⟩ := e.finish_stores tx v
    rw [gits_congr fun p => congrArg Provider.source ((e.sameBooks_finish tx v).provider p), hstores]
    exact ih.finish htx w
  | @swept e running h ih =>
    have hgits : (e.cleanupDatabase reg).2.gits reg = e.gits reg := gits_congr fun p => by rw [cleanupDatabase_eq]; rfl
    rw [hgits, cleanupDatabase_eq]
    exact ih.sweepAll

/-! ## Calls -/

theorem Aside.trans {e₁ e₂ : Engine} (h₁ : Aside e e₁) (h₂ : Aside e₁ e₂) : Aside e e₂ :=
  ⟨h₂.disk.trans h₁.disk, h₂.handles.trans h₁.handles, fun p => (h₂.source p).trans (h₁.source p)⟩

theorem aside_setContext (e : Engine) (c : Nat) (x : Context) : Aside e (e.setContext c x) := ⟨rfl, rfl, fun _ => rfl⟩

theorem aside_count (e : Engine) (k : ProviderCall) : Aside e (e.count k).2 := by
  have hstores := e.stores_count k
  exact ⟨by rw [hstores], by rw [hstores], fun p => congrArg Provider.source ((e.sameBooks_count k).provider p)⟩

theorem aside_setOpened (e : Engine) (p : Nat) (n : UInt64) : Aside e (e.setOpened p n) :=
  ⟨rfl, rfl, source_setOpened e p n⟩

theorem aside_acquire (e : Engine) (p : Nat) : Aside e (e.acquire p).2 := by
  have hcount := aside_count e .acquire
  unfold acquire
  generalize e.count .acquire = counted at hcount ⊢
  obtain ⟨fault, e₁⟩ := counted
  cases fault with
  | some fault => exact hcount
  | none =>
    have hopened := aside_setOpened e₁ p ((e₁.provider p).opened + 1)
    exact hcount.trans ⟨hopened.disk, hopened.handles, hopened.source⟩

theorem contexts_acquire (e : Engine) (p : Nat) : (e.acquire p).2.contexts = e.contexts := by
  obtain ⟨s, e₁, hacquire, ha⟩ | ⟨err, hacquire⟩ := e.acquire_cases p
  · rw [hacquire]
    exact ha.contexts
  · rw [hacquire]
    exact (e.sameBooks_count .acquire).contexts

theorem aside_release (e : Engine) (p : Nat) (s : Session) : Aside e (e.release p s) := by
  have hcount := aside_count e .release
  unfold release
  simp only
  split
  · exact hcount.trans (aside_setOpened ..)
  · exact hcount

/-- A transaction that was not begun has changed no more than the next identifier. -/
theorem aside_enter {s : Session} {err : ResourceError} (hb : (e.enter s).1 = .error err) : Aside e (e.enter s).2 := by
  have hsource := fun p => congrArg Provider.source ((e.sameBooks_enter s).provider p)
  obtain ⟨-, -, hstores⟩ | ⟨hbegin, hstores⟩ := e.enter_cases s
  · exact ⟨by rw [hstores], by rw [hstores], hsource⟩
  · rw [hbegin] at hb
    obtain ⟨hdisk, hhandles⟩ := Session.begin_refused hb
    exact ⟨by rw [hstores, hdisk], by rw [hstores, hhandles], hsource⟩

/-- A session that a provider of the database hands out works on the database. -/
theorem on_of_acquire {b : BackendName} {p : Nat} (hp : reg.get? b = some p) {s : Session}
    (ha : (e.acquire p).1 = .ok s) : s.On (e.gits reg) := by
  have hbooks := e.sameBooks_count .acquire
  unfold acquire at ha
  generalize e.count .acquire = counted at hbooks ha
  obtain ⟨fault, e₁⟩ := counted
  cases fault with
  | some fault => cases ha
  | none =>
    simp only at ha
    rw [source_setOpened, hbooks.provider] at ha
    cases hsource : (e.provider p).source with
    | memory i =>
      rw [hsource] at ha
      cases ha
      trivial
    | git i =>
      rw [hsource] at ha
      cases ha
      exact mem_gits.2 ⟨b, p, hp, hsource⟩

/-- The context is one of the database's. -/
structure Hosts (c : Nat) (reg : Registry) (e : Engine) : Prop where
  inRange : c < e.contexts.size
  registry : (e.context c).registry = reg

theorem Hosts.of_contexts {c : Nat} {e e' : Engine} (h : Hosts c reg e) (hcontexts : e'.contexts = e.contexts) :
    Hosts c reg e' := ⟨hcontexts ▸ h.inRange, by rw [context_congr hcontexts]; exact h.registry⟩

theorem Hosts.setContext {c : Nat} (h : Hosts c reg e) {x : Context} (hx : x.registry = reg) :
    Hosts c reg (e.setContext c x) :=
  ⟨(size_setContext e c x).symm ▸ h.inRange, by rw [context_setContext h.inRange]; exact hx⟩

theorem swapTop?_some {c : Nat} {b : BackendName} {s previous : Session} (h : e.swapTop? c b s = some (previous, e')) :
    ∃ x : Context, x.registry = (e.context c).registry ∧ e' = e.setContext c x := by
  unfold swapTop? Context.swapTop? at h
  simp only [Option.map_map, Option.map_eq_some_iff, Function.comp_apply] at h
  obtain ⟨⟨_, st⟩, -, h⟩ := h
  cases h
  exact ⟨(e.context c).setStack b st, rfl, rfl⟩

namespace Busy

section Frames

variable {c : Nat} (hc : Hosts c reg e)

include hc

theorem setContext (h : Busy reg e running) {x : Context} (hx : x.registry = (e.context c).registry) :
    Busy reg (e.setContext c x) running ∧ Hosts c reg (e.setContext c x) :=
  ⟨h.aside (aside_setContext e c x), hc.setContext (hx.trans hc.registry)⟩

theorem dropFrame (h : Busy reg e running) {b : BackendName} (hdrop : e.dropFrame? c b = some e') :
    Busy reg e' running ∧ Hosts c reg e' := by
  unfold dropFrame? Context.popFrame? at hdrop
  cases hpop : ((e.context c).stack b).pop? with
  | none =>
    rw [hpop] at hdrop
    cases hdrop
  | some popped =>
    obtain ⟨s, rest⟩ := popped
    rw [hpop] at hdrop
    have hset := h.setContext hc (x := (e.context c).setStack b rest) rfl
    simp only [Option.map_some] at hdrop
    split at hdrop
    · cases hdrop
      exact ⟨hset.1.aside (aside_release ..), hset.2.of_contexts (contexts_release ..)⟩
    · cases hdrop
      exact hset

theorem planCall (h : Busy reg e running) (d : Definition) :
    (Busy reg (e.planCall c d).2 running ∧ Hosts c reg (e.planCall c d).2) ∧
      ∀ s wrap, (e.planCall c d).1 = .ok (.onFresh s wrap) → s.On ((e.planCall c d).2.gits reg) := by
  unfold Engine.planCall provider?
  rw [hc.registry]
  cases hp : reg.get? d.backend with
  | none => exact ⟨⟨h, hc⟩, fun s wrap hs => by cases hs⟩
  | some p =>
    simp only
    split
    · exact ⟨⟨h, hc⟩, fun s wrap hs => by cases hs⟩
    split
    · have haside := aside_acquire e p
      have hon := fun s => on_of_acquire (e := e) hp (s := s)
      have hcontexts := contexts_acquire e p
      generalize e.acquire p = acquired at haside hon hcontexts ⊢
      obtain ⟨made, e₁⟩ := acquired
      cases made with
      | error err => exact ⟨⟨h.aside haside, hc.of_contexts hcontexts⟩, fun s wrap hs => by cases hs⟩
      | ok s =>
        refine ⟨⟨h.aside haside, hc.of_contexts hcontexts⟩, fun s' wrap hs => ?_⟩
        cases hs
        rw [gits_congr haside.source]
        exact hon s rfl
    · exact ⟨⟨h, hc⟩, fun s wrap hs => by cases hs⟩

end Frames

section Work

variable {c : Nat} {β : Type} {work : Engine → (Outcome Failure Unit × β) × Engine}
  (hwork : ∀ {e running}, Busy reg e running → Hosts c reg e →
    Busy reg (work e).2 running ∧ Hosts c reg (work e).2)

include hwork

theorem runSwapped (h : Busy reg e running) (hc : Hosts c reg e) (b : BackendName) (s : Session) :
    Busy reg (e.runSwapped c b s work).2 running ∧ Hosts c reg (e.runSwapped c b s work).2 := by
  unfold Engine.runSwapped
  cases hin : e.swapTop? c b s with
  | none => exact ⟨h, hc⟩
  | some swapped =>
    obtain ⟨previous, e₁⟩ := swapped
    obtain ⟨x, hx, rfl⟩ := swapTop?_some hin
    have hentered := h.setContext hc hx
    have hdone := hwork hentered.1 hentered.2
    simp only
    generalize work (e.setContext c x) = ran at hdone ⊢
    obtain ⟨⟨outcome, report⟩, e₂⟩ := ran
    cases hout : e₂.swapTop? c b previous with
    | none => exact hdone
    | some swapped =>
      obtain ⟨_, e₃⟩ := swapped
      obtain ⟨x, hx, rfl⟩ := swapTop?_some hout
      exact hdone.1.setContext hdone.2 hx

theorem runWrapped (h : Busy reg e running) (hc : Hosts c reg e) (d : Definition) {s : Session}
    (hs : s.On (e.gits reg)) :
    Busy reg (e.runWrapped c d s work).2 running ∧ Hosts c reg (e.runWrapped c d s work).2 := by
  have hcontexts := (e.sameBooks_enter s).contexts
  unfold Engine.runWrapped
  rw [transact_eq]
  cases hb : e.enter s with | mk begun e₁ =>
    cases begun with
    | error err =>
      have haside := aside_enter (e := e) (s := s) (by rw [hb])
      rw [hb] at hcontexts haside
      exact ⟨h.aside haside, hc.of_contexts hcontexts⟩
    | ok tx =>
      have hentered := h.entered hs (congrArg Prod.fst hb)
      rw [hb] at hcontexts hentered
      have hran := runSwapped hwork hentered (hc.of_contexts hcontexts) d.backend tx
      simp only
      generalize e₁.runSwapped c d.backend tx work = ran at hran ⊢
      obtain ⟨ran, e₂⟩ := ran
      have hended := hran.1.ended List.mem_cons_self (verdictOf d.directive ran.1)
      rw [List.erase_cons_head] at hended
      exact ⟨hended, hran.2.of_contexts (sameBooks_finish ..).contexts⟩

theorem runFramed (h : Busy reg e running) (hc : Hosts c reg e) (d : Definition) {s : Session}
    (hs : s.On (e.gits reg)) (wrap : Bool) :
    Busy reg (e.runFramed c d s wrap work).2 running ∧ Hosts c reg (e.runFramed c d s wrap work).2 := by
  have hframed := h.setContext hc (x := (e.context c).pushFrame d.backend s) rfl
  unfold Engine.runFramed
  cases wrap with
  | true =>
    have hran := runWrapped hwork hframed.1 hframed.2 d (s := s) hs
    simp only [if_true]
    unfold Engine.pushFrame
    generalize (e.setContext c ((e.context c).pushFrame d.backend s)).runWrapped c d s work = ran at hran ⊢
    obtain ⟨⟨outcome, report⟩, e₁⟩ := ran
    cases hdrop : e₁.dropFrame? c d.backend with
    | none => exact hran
    | some e₂ => exact hran.1.dropFrame hran.2 hdrop
  | false =>
    have hran := hwork hframed.1 hframed.2
    simp only [Bool.false_eq_true, if_false]
    unfold Engine.pushFrame
    generalize work (e.setContext c ((e.context c).pushFrame d.backend s)) = ran at hran ⊢
    obtain ⟨⟨outcome, report⟩, e₁⟩ := ran
    cases hdrop : e₁.dropFrame? c d.backend with
    | none => exact hran
    | some e₂ => exact hran.1.dropFrame hran.2 hdrop

/-- **A call adds no step of another kind**, whatever its work does. -/
theorem run (h : Busy reg e running) (hc : Hosts c reg e) (d : Definition) :
    Busy reg (e.run c d work).2 running ∧ Hosts c reg (e.run c d work).2 := by
  obtain ⟨hplanned, hfresh⟩ := h.planCall hc d
  unfold Engine.run
  generalize e.planCall c d = planned at hplanned hfresh ⊢
  obtain ⟨plan, e₁⟩ := planned
  cases plan with
  | error err => exact hplanned
  | ok plan =>
    cases plan with
    | inPlace => exact hwork hplanned.1 hplanned.2
    | onFresh s wrap => exact runFramed hwork hplanned.1 hplanned.2 d (hfresh s wrap rfl) wrap

end Work

end Busy

end Engine

namespace Git.View

variable {v : View} {u : Ulid}

/-- A transaction that begins has a branch. -/
theorem contains_begin {base : CommitId} (h : (v.begin u).1 = .ok base) :
    (v.begin u).2.repository.refs.contains (branchOf u) = true := by
  obtain ⟨e, he⟩ | ⟨base, r, hbranch, hbegun⟩ := begin_cases v u
  · rw [he] at h
    cases h
  · obtain ⟨n, hn, -, -, rfl⟩ := Repository.branch_ok hbranch
    obtain rfl := normal?_branchOf hn
    rw [hbegun]
    exact (SortedMap.contains_insert ..).trans (by rw [decide_eq_true rfl]; rfl)

/-- In a transaction that has lost its branch nothing can be read, and it cannot be committed. -/
theorem lost (h : v.repository.refs.get? (branchOf u) = none) (base : CommitId) :
    (∀ s, (v.perform (some ⟨u, base⟩) (.get s)).1 = .row (.error (.refNotFound (branchOf u)))) ∧
      (v.finish ⟨u, base⟩ .commit).1 = .failed (.storage (.refNotFound (branchOf u))) := by
  have htip : v.repository.resolve (branchOf u) = .error (.refNotFound (branchOf u)) := by
    obtain ⟨id, hid⟩ | hnone := v.repository.resolve_cases (branchOf u)
    · obtain ⟨n, hn, href, -⟩ := Repository.resolve_eq_ok_iff.1 hid
      obtain rfl := normal?_branchOf hn
      rw [h] at href
      cases href
    · exact hnone
  refine ⟨fun s => ?_, ?_⟩
  · have hread : v.read (some ⟨u, base⟩) s = .error (.refNotFound (branchOf u)) := by
      have hsnapshot : Session.snapshot v.repository (some ⟨u, base⟩) = v.repository.resolve (branchOf u) :=
        snapshot_eq ..
      unfold read
      rw [hsnapshot, htip]
      rfl
    exact congrArg Traffic.Answer.row hread
  · have hmerge : v.repository.merge v.handle.author u.lowerText base = .error (.refNotFound (branchOf u)) := by
      have hresolve : v.repository.transactionTip u.lowerText = .error (.refNotFound (branchOf u)) := htip
      unfold Repository.merge
      rw [hresolve]
      rfl
    simp only [finish]
    unfold commit
    rw [hmerge]
    rfl

end Git.View

namespace Engine

variable {e : Engine} {reg : Registry} {running : List Session}

theorem contains_enter {id : Ulid} {i : Nat} (hi : i < e.stores.handles.size) {tx : Transaction}
    (h : (e.enter (.git id i none)).1 = .ok (.git id i (some tx))) :
    ((e.enter (.git id i none)).2.stores.view i).repository.refs.contains (branchOf tx.id) = true := by
  obtain ⟨hbegin, hstores⟩ := enter_ok h
  obtain ⟨hmade, hview⟩ := Session.begin_view hi id
  rw [hstores, hview]
  rw [hbegin] at hmade
  cases hbegun : ((e.stores.view i).begin (Ulid.issued e.stores.issued)).1 with
  | error err =>
    rw [hbegun] at hmade
    cases hmade
  | ok base =>
    rw [hbegun] at hmade
    cases hmade
    exact Git.View.contains_begin hbegun

/-- What is answered in a transaction that has lost its branch. -/
theorem answers_lost {st : Stores} {i : Nat} (hi : i < st.handles.size) {tx : Transaction}
    (h : (st.view i).repository.refs.get? (branchOf tx.id) = none) (id : Ulid) (slot : Slot) :
    Deed.answers [.operate (.git id i (some tx)) (.get slot), .finish (.git id i (some tx)) .commit] st =
      [.row (.error (.refNotFound (branchOf tx.id))),
        .ended (.failed (.storage (.refNotFound (branchOf tx.id))))] := by
  obtain ⟨hread, hcommit⟩ := Git.View.lost h tx.base
  have hget := (Session.perform_view st (i := i) id (some tx) (.get slot)).1.trans (hread slot)
  have hended := (Session.finish_view hi id tx .commit).1.trans hcommit
  show [((Session.git id i (some tx)).perform st (.get slot)).1,
    .ended (Engine.finish { stores := st } (.git id i (some tx)) .commit).1] = _
  rw [hget, hended]

/-- The repository is found by another data source. -/
theorem reopened : (Stores.openRepository {} { path := "data" }).2.openRepository
    { path := "data", createIfMissing := false } = (.ok 1, Stores.openedTwice .default) := by
  obtain ⟨r, -, hopen⟩ := Stores.reopen_data .default
  have htwice : Stores.openedTwice .default = _ := congrArg Prod.snd hopen
  rw [htwice]
  exact hopen

/-- A transaction begins through its handle. -/
theorem Busy.enter_openedTwice (h : Busy reg e []) (hplan : e.plan = none)
    (hstores : e.stores = Stores.openedTwice .default) (hi : 1 ∈ e.gits reg) : ∃ (tx : Transaction) (e₁ : Engine),
      e.enter (.git ⟨0⟩ 1 none) = (.ok (.git ⟨0⟩ 1 (some tx)), e₁) ∧ Busy reg e₁ [.git ⟨0⟩ 1 (some tx)] ∧
        e₁.providers = e.providers ∧ e.stores.Through 1 e₁.stores := by
  obtain ⟨-, hanswer, -⟩ := Traffic.begins_openedTwice .default ⟨0⟩
  obtain ⟨_, s, hthrough, -, hok, -⟩ := (Traffic.ready_openedTwice .default).tended.regular.running_begun hanswer
  cases hthrough
  obtain ⟨id, base, rfl⟩ := Source.isTwin_begin hok
  obtain rfl : id = ⟨0⟩ := (Session.begin_ok hok).1
  have hbegun : (e.enter (.git ⟨0⟩ 1 none)).1 =
      .ok (.git ⟨0⟩ 1 (some ⟨Ulid.issued (Stores.openedTwice .default).issued, base⟩)) := by
    unfold enter count
    rw [hplan]
    simp only [hstores]
    exact hok
  have hthrough := Session.through_begin e.stores ⟨0⟩ 1
  rw [← (enter_ok hbegun).2] at hthrough
  exact ⟨_, _, Prod.ext hbegun rfl, h.entered (s := .git ⟨0⟩ 1 none) hi hbegun, (e.sameBooks_enter _).providers,
    hthrough⟩

/-! ## The sweep -/

/-- What is used through a handle: `main`, and the branches of the transactions that run. -/
def InUse (running : List Session) (i : Nat) (n : String) : Prop :=
  n = Git.RefName.main ∨ ∃ id tx, .git id i (some tx) ∈ running ∧ n = branchOf tx.id

/-- A sweep by the handles of which each has its repository for itself leaves what is in use. -/
theorem trims_of_held {st : Stores} {handles : List Nat} (h : st.Held handles running) (hapart : st.Apart handles) :
    Stores.Trims handles (InUse running) st (st.sweepAll handles) := by
  refine ⟨Stores.memories_sweepAll _ _, hapart, h.fit.named, Stores.named_sweepAll _ h.fit.named, h.fit.housed,
    fun i hi => Stores.housed_sweepAll _ (h.fit.housed i hi), fun i hi => ?_⟩
  refine Stores.trims_sweepAll h.fit.named (h.fit.housed i hi) fun j hj hsite id hid => ?_
  rw [hapart j hj i hi hsite]
  obtain hmain | ⟨id', tx, hmem, hbranch⟩ := hid
  · exact absurd hmain (Git.RefName.ofTransaction_ne_main id)
  · rw [Git.RefName.ofTransaction_inj hbranch]
    exact (h.manned hapart).live (i, tx.id.lowerText) (List.mem_filterMap.2 ⟨_, hmem, rfl⟩)

/-- Who is at work uses no branch but those. -/
theorem keeps_of_atWork {handles : List Nat} {d : Deed} (h : d.AtWork handles running) :
    d.session.Keeps handles (InUse running) := by
  obtain ⟨hwithin, hrunning⟩ := h
  generalize d.session = s at hwithin hrunning
  cases s with
  | memory id i tx => trivial
  | git id i tx =>
    refine ⟨hwithin, ?_⟩
    cases tx with
    | none => exact .inl rfl
    | some tx => exact .inr ⟨id, tx, hrunning rfl, rfl⟩

/-- **A database's sweep spares its own transactions, if no two data sources are on one repository**: they keep their
branches, and whatever is read, changed and committed afterwards is answered as if there had been no sweep.  In any case
the branch of one that runs is kept just if every data source on its repository knows the transaction. -/
theorem sweep_spares_running (h : Busy reg e running) :
    let swept := (e.cleanupDatabase reg).2
    (∀ id i tx, .git id i (some tx) ∈ running →
      (e.stores.view i).repository.refs.contains (branchOf tx.id) = true →
      ((swept.stores.view i).repository.refs.contains (branchOf tx.id) = true ↔
        ∀ j ∈ e.gits reg, (e.stores.handle j).site = (e.stores.handle i).site →
          (e.stores.handle j).live.contains tx.id.lowerText = true)) ∧
      (e.Apart reg →
        (∀ id i tx, .git id i (some tx) ∈ running →
          (swept.stores.view i).repository.refs.contains (branchOf tx.id) = true ∧
            Git.Repository.Spares (branchOf tx.id) (e.stores.view i).repository
              (swept.stores.view i).repository) ∧
          ∀ deeds : List Deed, (∀ d ∈ deeds, d.AtWork (e.gits reg) running) →
            Deed.answers deeds swept.stores = Deed.answers deeds e.stores) := by
  intro swept
  have hheld := h.held
  have hswept : swept.stores = e.stores.sweepAll (e.gits reg) := congrArg Engine.stores (cleanupDatabase_eq e reg)
  have hon : ∀ id i tx, .git id i (some tx) ∈ running → i ∈ e.gits reg := fun id i tx hmem =>
    (hheld.fit.inside _ hmem).2
  rw [hswept]
  refine ⟨fun id i tx hmem hthere => hheld.kept_iff (hon id i tx hmem) hthere, fun hapart => ?_⟩
  have htrims := trims_of_held hheld hapart.stores
  refine ⟨fun id i tx hmem => ?_, fun deeds hdeeds =>
    Deed.answers_trims (fun i _ => .inl rfl) (fun d hd => keeps_of_atWork (hdeeds d hd)) htrims⟩
  have hrepository := (htrims.views i (hon id i tx hmem)).repository
  have hbranch := hrepository.refs (branchOf tx.id) (.inr ⟨id, tx, hmem, rfl⟩)
  have hmanned := hheld.manned hapart.stores
  have hlive := hmanned.live (i, tx.id.lowerText) (List.mem_filterMap.2 ⟨_, hmem, rfl⟩)
  refine ⟨?_, ⟨hrepository.number, fun n c hc => by rw [hrepository.commits]; exact hc⟩, hbranch⟩
  unfold SortedMap.contains
  rw [hbranch]
  exact hmanned.backed i (hon id i tx hmem) _ hlive

/-- A data source that has its repository for itself keeps the branch of a transaction that runs. -/
theorem lone_source_keeps_branch :
    ∃ (reg : Registry) (e : Engine) (tx : Transaction), Busy reg e [.git ⟨0⟩ 1 (some tx)] ∧ e.Apart reg ∧
      ((e.cleanupDatabase reg).2.stores.view 1).repository.refs.contains (branchOf tx.id) = true := by
  let config : EngineConfig :=
    { sources := .ofList [(.default, .git { path := "data", createIfMissing := false })], cleanupOnOpen := false }
  let opened : Engine := { stores := Stores.openedTwice .default, providers := #[{ source := .git 1 }] }
  let reg : Registry := .ofList [(.default, 0)]
  have hopen : ({ stores := (Stores.openRepository {} { path := "data" }).2 } : Engine).openDatabase config =
      (.ok reg, opened) := by
    have hvalid : config.validate = .ok () := rfl
    have hsources : openSources config.cleanupOnOpen config.sources.entries
        ({ stores := (Stores.openRepository {} { path := "data" }).2 } : Engine) = (.ok reg, opened) :=
      openSources_git reopened rfl
    unfold openDatabase
    rw [hvalid]
    simp only [hsources]
  have hbusy : Busy reg opened [] := .opened (.openRepository (.new 0 0) _) hopen
  obtain ⟨tx, e, -, hrunning, -, -⟩ := hbusy.enter_openedTwice rfl rfl (List.mem_singleton.2 rfl)
  have hapart : e.Apart reg := fun b b' p p' i j hb hb' _ _ _ => by
    have hname : ∀ b p, reg.get? b = some p → b = .default := fun b p hp => by
      obtain hentry | hentry := List.mem_cons.1 (SortedMap.get?_eq_some_iff.1 hp)
      · exact congrArg Prod.fst hentry
      · cases hentry
    rw [hname b p hb, hname b' p' hb']
  obtain ⟨-, hspared⟩ := sweep_spares_running hrunning
  exact ⟨reg, e, tx, hrunning, hapart, ((hspared hapart).1 ⟨0⟩ 1 tx List.mem_cons_self).1⟩

/-- Where two data sources are on one repository, the sweep takes the branch of a transaction that runs. -/
theorem shared_repository_loses_branch :
    let config : EngineConfig :=
      { sources := .ofList [(⟨"a"⟩, .git { path := "data" }),
          (⟨"b"⟩, .git { path := "data", createIfMissing := false })]
        cleanupOnOpen := false }
    ∃ (reg : Registry) (opened e : Engine) (tx : Transaction),
      config.validate = .ok () ∧ ({} : Engine).openDatabase config = (.ok reg, opened) ∧
      opened.enter (.git ⟨0⟩ 1 none) = (.ok (.git ⟨0⟩ 1 (some tx)), e) ∧ Busy reg e [.git ⟨0⟩ 1 (some tx)] ∧
      (e.stores.view 1).repository.refs.contains (branchOf tx.id) = true ∧
      ((e.cleanupDatabase reg).2.stores.view 1).repository.refs.contains (branchOf tx.id) = false ∧
      ∀ slot, Deed.answers [.operate (.git ⟨0⟩ 1 (some tx)) (.get slot), .finish (.git ⟨0⟩ 1 (some tx)) .commit]
        (e.cleanupDatabase reg).2.stores = [.row (.error (.refNotFound (branchOf tx.id))),
          .ended (.failed (.storage (.refNotFound (branchOf tx.id))))] := by
  intro config
  let opened : Engine :=
    { stores := Stores.openedTwice .default, providers := #[{ source := .git 0 }, { source := .git 1 }] }
  let reg : Registry := .ofList [(⟨"a"⟩, 0), (⟨"b"⟩, 1)]
  have hvalid : config.validate = .ok () := rfl
  have hopen : ({} : Engine).openDatabase config = (.ok reg, opened) := by
    obtain ⟨r, -, hdata⟩ := Stores.open_data
    have hfirst : Stores.openRepository {} { path := "data" } =
        (.ok 0, (Stores.openRepository {} { path := "data" }).2) := Prod.ext (by rw [hdata]) rfl
    have hsecond : openSources false [(⟨"b"⟩, .git { path := "data", createIfMissing := false })]
        { stores := (Stores.openRepository {} { path := "data" }).2, providers := #[{ source := .git 0 }] } =
        (.ok (.ofList [(⟨"b"⟩, 1)]), opened) := openSources_git reopened rfl
    have hboth : openSources false
        [(⟨"a"⟩, .git { path := "data" }), (⟨"b"⟩, .git { path := "data", createIfMissing := false })] {} =
        (.ok ((.ofList [(⟨"b"⟩, 1)] : Registry).insert ⟨"a"⟩ 0), opened) := openSources_git hfirst hsecond
    have hsources : openSources config.cleanupOnOpen config.sources.entries {} = (.ok reg, opened) := hboth
    unfold openDatabase
    rw [hvalid]
    simp only [hsources]
  have hbusy : Busy reg opened [] := .opened (.new 0 0) hopen
  obtain ⟨tx, e, hbegun, hrunning, hproviders, hthrough⟩ :=
    hbusy.enter_openedTwice rfl rfl (List.mem_cons_of_mem _ (List.mem_singleton.2 rfl))
  obtain ⟨r, -, htwice⟩ := Stores.openedTwice_eq .default
  have hthrough : (Stores.openedTwice .default).Through 1 e.stores := hthrough
  -- the other handle on the repository knows nothing of the transaction
  have hstranger : (e.stores.handle 0).live.contains tx.id.lowerText = false := by
    rw [hthrough.handle 0 (by decide), htwice]
    rfl
  have hsite : (e.stores.handle 0).site = (e.stores.handle 1).site := by
    rw [hthrough.site, hthrough.site, htwice]
    rfl
  have hgits : e.gits reg = [0, 1] := gits_congr fun p => congrArg Provider.source (provider_congr hproviders p)
  have hfit := hrunning.held.fit
  rw [hgits] at hfit
  have hhoused := hfit.housed 1 (List.mem_cons_of_mem _ (List.mem_singleton.2 rfl))
  have hgone : ((e.stores.sweepAll [0, 1]).view 1).repository.refs.get? (branchOf tx.id) = none :=
    Stores.gone_sweepAll hfit.named hhoused (.inr ⟨0, List.mem_cons_self, hsite, hstranger⟩)
  have hswept : (e.cleanupDatabase reg).2.stores = e.stores.sweepAll [0, 1] := by rw [cleanupDatabase_eq, hgits]
  refine ⟨reg, opened, e, tx, hvalid, hopen, hbegun, hrunning, ?_, ?_, fun slot => ?_⟩
  · have hthere := contains_enter (e := opened) (Stores.size_openedTwice .default) (congrArg Prod.fst hbegun)
    rwa [hbegun] at hthere
  · rw [hswept]
    unfold SortedMap.contains
    rw [hgone]
    rfl
  · rw [hswept]
    exact answers_lost (Stores.housed_sweepAll [0, 1] hhoused).isIn hgone ⟨0⟩ slot

end Engine
end Demarcate
