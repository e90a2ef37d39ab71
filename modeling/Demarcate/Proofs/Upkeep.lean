import Demarcate.Proofs.Git.Ancestry
import Demarcate.Proofs.Traffic
/-!
# Upkeep — the branches of a repository that sessions work on

Everything that is done to a repository moves the branch that it is done on, or `main` and a branch that goes with its
transaction; a sweep takes away the branches that the handle knows nothing of.  So the branch of a transaction that has
not ended stays where its own changes have moved it (`Tended.spares`), and the branch of one that has ended is gone
(`Tended.gone`).  That rests on identifiers with different names, which they have while 48 bits hold the time in them.
-/
namespace Demarcate

namespace Ulid

/-- The identifier's time has 48 bits, as many as it can have. -/
def IsProper (u : Ulid) : Prop := u.value < 281474976710656 * perMillisecond

instance (u : Ulid) : Decidable u.IsProper := inferInstanceAs (Decidable (_ < _))

/-- The first millisecond's identifiers are proper ones. -/
theorem isProper_issued {n : Nat} (h : n < perMillisecond) : (issued n).IsProper := by
  show epoch * perMillisecond + n < 281474976710656 * perMillisecond
  unfold epoch perMillisecond at *
  omega

theorem toLower_alphabet_inj {a b : Nat} (ha : a < 32) (hb : b < 32)
    (h : (alphabet.getD a '0').toLower = (alphabet.getD b '0').toLower) : a = b := by
  have hnodup : (alphabet.map Char.toLower).Nodup := by decide
  have hlength : (alphabet.map Char.toLower).length = 32 := by decide
  have hat : ∀ i (hi : i < (alphabet.map Char.toLower).length),
      (alphabet.map Char.toLower)[i] = (alphabet.getD i '0').toLower := by
    intro i hi
    rw [List.getElem_map, List.getD_eq_getElem?_getD, List.getElem?_eq_getElem, Option.getD_some]
  have hapart := List.pairwise_iff_getElem.1 hnodup
  rw [← hat a (by omega), ← hat b (by omega)] at h
  obtain hlt | heq | hlt := Nat.lt_trichotomy a b
  · exact absurd h (hapart a b _ _ hlt)
  · exact heq
  · exact absurd h.symm (hapart b a _ _ hlt)

theorem digits_inj : ∀ {width m n : Nat}, m < Nat.pow 32 width → n < Nat.pow 32 width →
    (digits width m).map Char.toLower = (digits width n).map Char.toLower → m = n
  | 0, m, n, hm, hn, _ => (Nat.lt_one_iff.1 hm).trans (Nat.lt_one_iff.1 hn).symm
  | width + 1, m, n, hm, hn, h => by
    unfold digits at h
    rw [List.map_append, List.map_append] at h
    obtain ⟨hlead, hlast⟩ := List.append_inj h (by simp [length_digits])
    have hdiv : m / 32 = n / 32 :=
      digits_inj (Nat.div_lt_of_lt_mul (Nat.mul_comm .. ▸ hm)) (Nat.div_lt_of_lt_mul (Nat.mul_comm .. ▸ hn)) hlead
    have hmod : m % 32 = n % 32 :=
      toLower_alphabet_inj (Nat.mod_lt _ (by decide)) (Nat.mod_lt _ (by decide)) (List.head_eq_of_cons_eq hlast)
    omega

theorem lowerText_inj {u v : Ulid} (hu : u.IsProper) (hv : v.IsProper) (h : u.lowerText = v.lowerText) : u = v := by
  unfold lowerText at h
  have hlt : 281474976710656 * perMillisecond < Nat.pow 32 width := by decide
  have hvalue : u.value = v.value :=
    digits_inj (Nat.lt_trans hu hlt) (Nat.lt_trans hv hlt) (String.ofList_injective h)
  cases u
  cases v
  exact congrArg _ hvalue

end Ulid

namespace Git

open Repository (Grown Moves WellNamed)

theorem branchOf_inj {u v : Ulid} (hu : u.IsProper) (hv : v.IsProper) (h : branchOf u = branchOf v) : u = v :=
  Ulid.lowerText_inj hu hv (RefName.ofTransaction_inj h)

theorem branchOf_ne_main (u : Ulid) : branchOf u ≠ RefName.main := RefName.ofTransaction_ne_main _

theorem normal?_branchAt {tx : Option Transaction} {n : String} (h : RefName.normal? (branchAt tx) = some n) :
    n = branchAt tx := by
  cases tx with
  | none => exact Option.some.inj (h.symm.trans RefName.normal?_main)
  | some tx => exact normal?_branchOf h

/-- Commits are only added, and what the reference leads to stays. -/
structure Repository.Spares (name : String) (r r' : Repository) : Prop where
  grown : Grown r r'
  ref : r'.refs.get? name = r.refs.get? name

namespace Repository.Spares

variable {name : String} {r r₁ r₂ : Repository}

theorem refl (name : String) (r : Repository) : Spares name r r := ⟨.refl r, rfl⟩

theorem trans (h₁ : Spares name r r₁) (h₂ : Spares name r₁ r₂) : Spares name r r₂ :=
  ⟨h₁.grown.trans h₂.grown, h₂.ref.trans h₁.ref⟩

theorem of_moves {other : String} (h : Moves other r r₁) (hne : name ≠ other) : Spares name r r₁ :=
  ⟨.of_moves h, h.refs name hne⟩

end Repository.Spares

theorem RefName.eq_of_transaction? {name id : String} (h : transaction? name = some id) : name = ofTransaction id := by
  unfold transaction? at h
  simp only at h
  split at h
  · rename_i hlead
    cases h
    obtain ⟨rest, hrest⟩ := List.isPrefixOf_iff_prefix.1 hlead
    rw [← String.toList_inj]
    unfold ofTransaction
    rw [String.toList_append, String.toList_ofList, ← hrest, List.drop_left]
  · cases h

/-! ## What a view's functions move -/

namespace View

open Traffic (Operation Answer)

def perform (v : View) (tx : Option Transaction) : Operation → Answer × View
  | .get s => (.row (v.read tx s), v)
  | .scan t => (.rows (v.scan tx t), v)
  | .count t => (.count ((v.scan tx t).map List.length), v)
  | .change reading t c =>
    (.changed (v.apply (Clock.stamp reading) tx t c).1, (v.apply (Clock.stamp reading) tx t c).2)

variable {v : View} {tx : Option Transaction}

theorem moves_commitOn {now : String} {t : TableName} {c : Change} {id : CommitId} {r : Repository}
    (h : v.commitOn now tx t c = .value (id, r)) : Moves (branchAt tx) v.repository r := by
  rw [commitOn_eq] at h
  obtain ⟨n, hn, hmoves⟩ := Repository.moves_commitTo h
  obtain rfl := normal?_branchAt hn
  exact hmoves

theorem moves_perform (v : View) (tx : Option Transaction) (op : Operation) :
    Moves (branchAt tx) v.repository (v.perform tx op).2.repository ∧ (v.perform tx op).2.handle = v.handle := by
  cases op with
  | change reading t c =>
    have hafter : (v.perform tx (.change reading t c)).2 = (v.after (v.commitOn (Clock.stamp reading) tx t c)).2 := rfl
    rw [hafter]
    cases hc : v.commitOn (Clock.stamp reading) tx t c with
    | value made => exact ⟨moves_commitOn hc, rfl⟩
    | failed e => exact ⟨.refl .., rfl⟩
    | unwound text => exact ⟨.refl .., rfl⟩
  | get s => exact ⟨.refl .., rfl⟩
  | scan t => exact ⟨.refl .., rfl⟩
  | count t => exact ⟨.refl .., rfl⟩

/-- A branch that is worked on is there before and afterwards, or neither. -/
theorem contains_perform (v : View) (tx : Option Transaction) (op : Operation) :
    (v.perform tx op).2.repository.refs.contains (branchAt tx) = v.repository.refs.contains (branchAt tx) := by
  cases op with
  | change reading t c =>
    have hafter : (v.perform tx (.change reading t c)).2 = (v.after (v.commitOn (Clock.stamp reading) tx t c)).2 := rfl
    rw [hafter]
    cases hc : v.commitOn (Clock.stamp reading) tx t c with
    | value made =>
      rw [commitOn_eq] at hc
      obtain ⟨n, parent, before, next, commit, hn, href, -, -, hr⟩ := Repository.commitTo_value hc
      obtain rfl := normal?_branchAt hn
      unfold after SortedMap.contains
      simp only [hr, SortedMap.get?_insert, if_true, href, Option.isSome_some]
    | failed e => rfl
    | unwound text => rfl
  | get s => rfl
  | scan t => rfl
  | count t => rfl

/-- **What beginning does**, if it does anything. -/
theorem begin_cases (v : View) (u : Ulid) :
    (∃ e, v.begin u = (.error e, v)) ∨
      ∃ base r, v.repository.branch u.lowerText = .ok (base, r) ∧
        v.begin u = (.ok base, ⟨r, { v.handle with live := v.handle.live.insert u.lowerText () }⟩) := by
  unfold begin
  cases hb : v.repository.branch u.lowerText with
  | error e => exact .inl ⟨e, rfl⟩
  | ok begun => exact .inr ⟨begun.1, begun.2, rfl, rfl⟩

theorem handle_drop (v : View) (u : Ulid) :
    (v.drop u).handle = { v.handle with live := v.handle.live.erase u.lowerText } := by
  unfold drop
  simp only
  split <;> rfl

theorem moves_drop (v : View) (u : Ulid) : Moves (branchOf u) v.repository (v.drop u).repository := by
  unfold drop
  simp only
  split
  · rename_i r hd
    obtain ⟨n, hn, rfl⟩ := Repository.deleteRef_ok hd
    rw [normal?_branchOf hn]
    exact .erase ..
  · exact .refl ..

/-- A branch that is given up is gone. -/
theorem drop_gone (h : v.repository.WellNamed) (u : Ulid) : (v.drop u).repository.refs.get? (branchOf u) = none := by
  unfold drop
  simp only
  split
  · rename_i r hd
    obtain ⟨n, hn, rfl⟩ := Repository.deleteRef_ok hd
    rw [normal?_branchOf hn]
    exact (SortedMap.get?_erase ..).trans (if_pos rfl)
  · rename_i e hd
    cases hget : v.repository.refs.get? (branchOf u) with
    | none => rfl
    | some t =>
      -- a branch that is there can be deleted
      have hcontains : v.repository.refs.contains (branchOf u) = true := by
        unfold SortedMap.contains
        rw [hget]
        rfl
      have hdelete := Repository.deleteRef_eq (r := v.repository) (h.normal _ t hget)
      unfold branchOf at hd hdelete hcontains
      rw [hdelete, if_pos hcontains] at hd
      cases hd

/-- **What the end of a transaction does**: `main` may have moved, and the branch is given up. -/
theorem finish_cases (h : v.repository.WellNamed) (tx : Transaction) (vd : Engine.Verdict) :
    ∃ r, Moves RefName.main v.repository r ∧ r.WellNamed ∧
      (v.finish tx vd).2 = View.drop ⟨r, v.handle⟩ tx.id := by
  cases vd with
  | unwind text => exact ⟨v.repository, .refl .., h, rfl⟩
  | rollback => exact ⟨v.repository, .refl .., h, rfl⟩
  | commit =>
    simp only [finish]
    unfold commit
    cases hm : v.repository.merge v.handle.author tx.id.lowerText tx.base with
    | error e => exact ⟨v.repository, .refl .., h, rfl⟩
    | ok merged => exact ⟨merged.2, Repository.moves_merge hm, Repository.closed_wellNamed.merge h hm, rfl⟩

/-- **A sweep spares the branches of the transactions that the handle knows**, and every reference that is no branch of
a transaction. -/
theorem sweep_spares (h : v.repository.WellNamed) {name : String}
    (hname : ∀ id, name = RefName.ofTransaction id → v.handle.live.contains id = true) :
    Repository.Spares name v.repository v.sweep.2.repository := by
  unfold sweep Handle.cleanup
  simp only
  generalize hids : (v.repository.transactionIds.filter fun id => !v.handle.live.contains id) = ids
  obtain ⟨refs, hrefs, -, hkept⟩ := Repository.deleteBranches_eq ids v.repository
  rw [hrefs]
  refine ⟨⟨rfl, fun _ _ h => h⟩, hkept name fun id hid hn => ?_⟩
  rw [← hids, List.mem_filter, Bool.not_eq_true'] at hid
  obtain ⟨hmem, hdead⟩ := hid
  obtain ⟨key, hkey, htransaction⟩ := List.mem_filterMap.1 hmem
  obtain ⟨t, ht⟩ := SortedMap.mem_keys_iff.1 hkey
  obtain rfl := RefName.eq_of_transaction? htransaction
  rw [h.normal _ t ht, Option.some.injEq] at hn
  rw [hname id hn.symm] at hdead
  cases hdead

theorem handle_sweep (v : View) : v.sweep.2.handle = v.handle := rfl

theorem sweep_gone {name : String} (h : v.repository.refs.get? name = none) :
    v.sweep.2.repository.refs.get? name = none := by
  unfold sweep Handle.cleanup
  simp only
  obtain ⟨refs, hrefs, hgone, hkept⟩ := Repository.deleteBranches_eq
    (v.repository.transactionIds.filter fun id => !v.handle.live.contains id) v.repository
  rw [hrefs]
  by_cases hdeleted : ∃ id ∈ v.repository.transactionIds.filter (fun id => !v.handle.live.contains id),
      RefName.normal? (RefName.ofTransaction id) = some name
  · obtain ⟨id, hid, hn⟩ := hdeleted
    exact hgone id hid name hn
  · exact (hkept name fun id hid hn => hdeleted ⟨id, hid, hn⟩).trans h

/-- In a transaction that has no branch nothing can be done. -/
theorem perform_gone {u : Ulid} (h : v.repository.refs.get? (branchOf u) = none) (base : CommitId) (op : Operation) :
    (v.perform (some ⟨u, base⟩) op).2 = v := by
  cases op with
  | change reading t c =>
    have hafter : (v.perform (some ⟨u, base⟩) (.change reading t c)).2 =
        (v.after (v.commitOn (Clock.stamp reading) (some ⟨u, base⟩) t c)).2 := rfl
    rw [hafter]
    cases hc : v.commitOn (Clock.stamp reading) (some ⟨u, base⟩) t c with
    | failed e => rfl
    | unwound text => rfl
    | value made =>
      unfold commitOn at hc
      obtain ⟨n, parent, before, next, commit, hn, href, -⟩ := Repository.commitTo_value hc
      rw [normal?_branchOf hn, h] at href
      cases href
  | get s => rfl
  | scan t => rfl
  | count t => rfl

/-! ## What a branch is at -/

/-- The reference is at a commit, which can be read. -/
structure At (v : View) (name : String) (id : CommitId) (c : Commit) : Prop where
  ref : v.repository.refs.get? name = some (.commit id)
  commit : v.repository.commit? id = some c

namespace At

variable {v v' : View} {name : String} {id : CommitId} {c : Commit}

theorem spared (h : v.At name id c) (hs : Repository.Spares name v.repository v'.repository) : v'.At name id c :=
  ⟨hs.ref.trans h.ref, hs.grown.commit? h.commit⟩

theorem unique {id' : CommitId} {c' : Commit} (h : v.At name id c) (h' : v.At name id' c') : id = id' ∧ c = c' := by
  have href := h.ref
  rw [h'.ref] at href
  cases href
  exact ⟨rfl, Option.some.inj (h.commit.symm.trans h'.commit)⟩

theorem resolve (h : v.At name id c) (hnamed : v.repository.WellNamed) : v.repository.resolve name = .ok id :=
  Repository.resolve_of_ref (hnamed.normal _ _ h.ref) h.ref h.commit

section Reading

variable {tx : Option Transaction} (h : v.At (branchAt tx) id c) (hnamed : v.repository.WellNamed)

include h hnamed

theorem snapshot : Session.snapshot v.repository tx = .ok id := by
  rw [View.snapshot_eq]
  exact h.resolve hnamed

theorem read (s : Slot) : v.read tx s = Repository.rowIn c.tree s := by
  unfold View.read Repository.readRow
  rw [h.snapshot hnamed, ok_bind, Repository.treeAt_eq h.commit, ok_bind]

theorem scan (t : TableName) : v.scan tx t = Repository.tableIn c.tree t := by
  unfold View.scan Repository.scanTable
  rw [h.snapshot hnamed, ok_bind, Repository.treeAt_eq h.commit, ok_bind]

end Reading

end At

/-- A transaction begins where `main` is. -/
theorem begin_at {v : View} {u : Ulid} {base : CommitId} (h : (v.begin u).1 = .ok base) :
    ∃ c, v.At RefName.main base c ∧ (v.begin u).2.At (branchOf u) base c := by
  obtain ⟨e, hb⟩ | ⟨base', r, hbranch, hb⟩ := v.begin_cases u
  · rw [hb] at h
    cases h
  rw [hb] at h ⊢
  cases h
  obtain ⟨n, hn, -, htip, rfl⟩ := Repository.branch_ok hbranch
  obtain rfl := normal?_branchOf hn
  obtain ⟨n', hn', href, hsome⟩ := Repository.resolve_eq_ok_iff.1 htip
  rw [RefName.normal?_main] at hn'
  cases hn'
  obtain ⟨c, hc⟩ := Option.isSome_iff_exists.1 hsome
  exact ⟨c, ⟨href, hc⟩, (SortedMap.get?_insert ..).trans (if_pos rfl), hc⟩

end View
end Git

open Git (branchOf)

namespace Session

variable {st : Stores} {i : Nat}

theorem every_perform {Q : Git.Repository → Prop} (hQ : Git.Repository.Closed Q) (h : st.disk.Every Q) (s : Session)
    (op : Traffic.Operation) : (s.perform st op).2.disk.Every Q := by
  cases op with
  | change reading t c =>
    have hread : { st with readings := reading }.disk.Every Q := h
    exact every_apply hQ hread s t c
  | get slot => exact h
  | scan t => exact h
  | count t => exact h

theorem perform_view (st : Stores) (id : Ulid) (tx : Option Git.Transaction) (op : Traffic.Operation) :
    ((Session.git id i tx).perform st op).1 = ((st.view i).perform tx op).1 ∧
      ((Session.git id i tx).perform st op).2.view i = ((st.view i).perform tx op).2 := by
  cases op with
  | get s => exact ⟨rfl, rfl⟩
  | scan t => exact ⟨rfl, rfl⟩
  | count t => exact ⟨rfl, rfl⟩
  | change reading t c =>
    have hread : Stores.view { st with readings := reading } i = st.view i := rfl
    obtain ⟨hresult, hview⟩ :=
      @apply_view { st with readings := reading } i id tx t c
    rw [hread] at hresult hview
    simp only [perform, Git.View.perform, hresult, hview, and_self]

end Session

namespace Traffic

/-- All identifiers that were issued are proper ones. -/
def Numbered (k : Traffic) : Prop := ∀ n < k.stores.issued, (Ulid.issued n).IsProper

theorem numbered_of_issued {k : Traffic} {count : Nat} (h : k.stores.issued = count)
    (hcount : count ≤ Ulid.perMillisecond) : k.Numbered := fun _ hn =>
  Ulid.isProper_issued (Nat.lt_of_lt_of_le (h ▸ hn) hcount)

/-- What is done is done on `main` or, through a handle, in the transaction. -/
def Acts (k : Traffic) (i : Nat) : Through → Option Git.Transaction → Prop
  | .session _, tx => tx = none
  | .handle n, tx => ∃ id base, k.handles.get? n = some (.git id i (some ⟨Ulid.issued n, base⟩)) ∧
    tx = some ⟨Ulid.issued n, base⟩

theorem every_step {Q : Git.Repository → Prop} (hQ : Git.Repository.Closed Q) {k : Traffic}
    (h : k.stores.disk.Every Q) (e : Event) : (k.step e).stores.disk.Every Q := by
  unfold step
  cases e with
  | operate through op =>
    cases hs : k.session? through with
    | none =>
      rw [react_operate_none hs]
      exact h
    | some s =>
      rw [react_operate hs]
      exact Session.every_perform hQ h s op
  | begin through =>
    cases hs : k.session? through with
    | none =>
      rw [react_begin_none hs]
      exact h
    | some s =>
      have hbegin := Session.every_begin hQ h s
      cases hb : (s.begin k.stores).1 with
      | ok tx =>
        rw [react_begin_ok hs hb]
        exact hbegin
      | error err =>
        rw [react_begin_error hs hb]
        exact hbegin
  | finish n v =>
    cases hs : k.running? n with
    | none =>
      rw [react_finish_none hs]
      exact h
    | some tx =>
      have hstores : ({ stores := k.stores } : Engine).stores.disk.Every Q := h
      rw [react_finish hs]
      exact every_finish hQ hstores tx v
  | sweep =>
    cases hk : k.source with
    | memory i =>
      rw [react_sweep_memory hk]
      exact h
    | git i =>
      rw [react_sweep_git hk]
      exact Stores.every_cleanup hQ h i

/-- Whether an event is in the branch of the `n`-th transaction. -/
def Touches (k : Traffic) (n : Nat) : Event → Prop
  | .operate (.handle m) _ | .finish m _ => m = n
  | .begin _ => k.stores.issued = n
  | _ => False

/-- The repository's functions keep what they keep, the handle knows the transactions that have not ended, and those
that have ended have no branches. -/
structure Tended (i : Nat) (k : Traffic) : Prop where
  regular : k.Regular
  source : k.source = .git i
  every : ∀ {Q}, Git.Repository.Closed Q → k.stores.disk.Every Q
  live : ∀ n tx, k.running? n = some tx → (k.stores.view i).handle.live.contains (Ulid.issued n).lowerText = true
  gone : ∀ n b, k.fates.get? n = some b → (k.stores.view i).repository.refs.get? (branchOf (Ulid.issued n)) = none

/-- What a step does to the part of the stores that is seen from the handle `i`, and to what is known of the
transactions. -/
inductive Move (k : Traffic) (i : Nat) (k' : Traffic) : Event → Prop where
  | idle (e : Event) (view : k'.stores.view i = k.stores.view i) (handles : k'.handles = k.handles)
      (fates : k'.fates = k.fates) : Move k i k' e
  | perform {through : Through} {op : Operation} {tx : Option Git.Transaction} (acts : k.Acts i through tx)
      (view : k'.stores.view i = ((k.stores.view i).perform tx op).2) (handles : k'.handles = k.handles)
      (fates : k'.fates = k.fates) : Move k i k' (.operate through op)
  | begin {through : Through} {id : Ulid} {base : Git.CommitId} {r : Git.Repository}
      (issued : k.stores.issued < k'.stores.issued)
      (branch : (k.stores.view i).repository.branch (Ulid.issued k.stores.issued).lowerText = .ok (base, r))
      (view : k'.stores.view i = ⟨r, { (k.stores.view i).handle with
        live := (k.stores.view i).handle.live.insert (Ulid.issued k.stores.issued).lowerText () }⟩)
      (handles : k'.handles =
        k.handles.insert k.stores.issued (.git id i (some ⟨Ulid.issued k.stores.issued, base⟩)))
      (fates : k'.fates = k.fates) : Move k i k' (.begin through)
  | finish {n : Nat} {v : Engine.Verdict} {s : Session} {r : Git.Repository} {committed : Bool}
      (running : k.running? n = some s) (moves : Git.Repository.Moves Git.RefName.main (k.stores.view i).repository r)
      (named : r.WellNamed) (view : k'.stores.view i = Git.View.drop ⟨r, (k.stores.view i).handle⟩ (Ulid.issued n))
      (handles : k'.handles = k.handles) (fates : k'.fates = k.fates.insert n committed) : Move k i k' (.finish n v)
  | sweep (view : k'.stores.view i = (k.stores.view i).sweep.2) (handles : k'.handles = k.handles)
      (fates : k'.fates = k.fates) : Move k i k' .sweep

namespace Tended

variable {k : Traffic} {i : Nat} (h : k.Tended i)

include h

theorem isIn : i < k.stores.handles.size := by
  have := h.regular.isIn
  rw [h.source] at this
  exact this

theorem sound : (k.stores.view i).repository.Sound :=
  Git.Disk.Every.repository Git.Repository.closed_sound (h.every Git.Repository.closed_sound) _

theorem orderly : (k.stores.view i).repository.Orderly :=
  Git.Disk.Every.repository Git.Repository.closed_orderly (h.every Git.Repository.closed_orderly) _

theorem twin {n : Nat} {s : Session} (hs : k.handles.get? n = some s) :
    ∃ id base, s = .git id i (some ⟨Ulid.issued n, base⟩) := by
  have := (h.regular.twins n s hs).2
  rw [h.source] at this
  exact this

/-! ### Steps, as they are seen from the handle -/

theorem acts {through : Through} {s : Session} (hs : k.session? through = some s) :
    ∃ id tx, s = .git id i tx ∧ k.Acts i through tx := by
  cases through with
  | session id =>
    cases hs
    rw [h.source]
    exact ⟨id, none, rfl, rfl⟩
  | handle n =>
    obtain ⟨id, base, rfl⟩ := h.twin hs
    exact ⟨id, _, rfl, id, base, hs, rfl⟩

theorem operate {through : Through} {s : Session} (hs : k.session? through = some s) (op : Operation) :
    ∃ tx, k.Acts i through tx ∧ (k.react (.operate through op)).1 = ((k.stores.view i).perform tx op).1 ∧
      (k.step (.operate through op)).stores.view i = ((k.stores.view i).perform tx op).2 := by
  obtain ⟨id, tx, rfl, hacts⟩ := h.acts hs
  obtain ⟨hanswer, hview⟩ := Session.perform_view k.stores (i := i) id tx op
  refine ⟨tx, hacts, ?_⟩
  unfold Traffic.step
  rw [react_operate hs]
  exact ⟨hanswer, hview⟩

/-- **What beginning does**: a transaction inside another one is refused, and so is one whose branch cannot be made. -/
theorem begin {through : Through} {s : Session} (hs : k.session? through = some s) :
    k.react (.begin through) = (.begun (.error .nestedTransaction), k) ∨
      ∃ id, through = .session id ∧ (k.step (.begin through)).fates = k.fates ∧
        (k.step (.begin through)).stores.issued = k.stores.issued + 1 ∧
        (k.step (.begin through)).stores.view i = ((k.stores.view i).begin (Ulid.issued k.stores.issued)).2 ∧
        match ((k.stores.view i).begin (Ulid.issued k.stores.issued)).1 with
        | .error e => (k.react (.begin through)).1 = .begun (.error (.storage e)) ∧
            (k.step (.begin through)).handles = k.handles
        | .ok base => (k.react (.begin through)).1 = .begun (.ok k.stores.issued) ∧
            (k.step (.begin through)).handles =
              k.handles.insert k.stores.issued (.git id i (some ⟨Ulid.issued k.stores.issued, base⟩)) := by
  obtain hb | ⟨id, rfl, hsteady, hcases⟩ := h.regular.begin_cases hs
  · exact .inl hb
  refine .inr ⟨id, rfl, ?_⟩
  obtain ⟨hmade, hview⟩ := Session.begin_view h.isIn id
  have hissued : ((Session.git id i none).begin k.stores).2.issued = k.stores.issued + 1 := by
    rw [h.source] at hsteady
    exact hsteady.issued
  have hsession : k.source.session id = .git id i none := by
    rw [h.source]
    rfl
  rw [hsession] at hcases
  unfold Traffic.step
  obtain ⟨e, he, hb⟩ | ⟨tx, htx, -, hb⟩ := hcases
  · rw [hb]
    refine ⟨rfl, hissued, hview, ?_⟩
    rw [hmade] at he
    cases hbegin : ((k.stores.view i).begin (Ulid.issued k.stores.issued)).1 with
    | error e' =>
      rw [hbegin] at he
      cases he
      exact ⟨rfl, rfl⟩
    | ok base =>
      rw [hbegin] at he
      cases he
  · rw [hb]
    refine ⟨rfl, hissued, hview, ?_⟩
    rw [hmade] at htx
    cases hbegin : ((k.stores.view i).begin (Ulid.issued k.stores.issued)).1 with
    | error e' =>
      rw [hbegin] at htx
      cases htx
    | ok base =>
      rw [hbegin] at htx
      cases htx
      exact ⟨rfl, rfl⟩

/-- A transaction that begins has a branch at its base. -/
theorem begins {through : Through} {n : Nat} (hbegin : (k.react (.begin through)).1 = .begun (.ok n)) :
    ∃ id base, ((k.stores.view i).begin (Ulid.issued n)).1 = .ok base ∧
      (k.step (.begin through)).stores.view i = ((k.stores.view i).begin (Ulid.issued n)).2 ∧
      (k.step (.begin through)).running? n = some (.git id i (some ⟨Ulid.issued n, base⟩)) := by
  obtain ⟨id, tx, rfl, rfl, hmade, hrunning⟩ := h.regular.running_begun hbegin
  obtain ⟨hbase, hview⟩ := Session.begin_view h.isIn id
  have hsession : k.source.session id = .git id i none := by
    rw [h.source]
    rfl
  have hstep : (k.step (.begin (.session id))).stores = ((k.source.session id).begin k.stores).2 := by
    unfold Traffic.step
    rw [react_begin_ok rfl hmade]
  rw [hsession] at hmade hstep
  rw [hbase] at hmade
  cases hbegin : ((k.stores.view i).begin (Ulid.issued k.stores.issued)).1 with
  | error e =>
    rw [hbegin] at hmade
    cases hmade
  | ok base =>
    rw [hbegin] at hmade
    cases hmade
    exact ⟨id, base, rfl, by rw [hstep]; exact hview, hrunning⟩

/-- A session that is not in a transaction begins one where a branch can be made. -/
theorem begins_session (id : Ulid) {base : Git.CommitId}
    (hmade : ((k.stores.view i).begin (Ulid.issued k.stores.issued)).1 = .ok base) :
    (k.react (.begin (.session id))).1 = .begun (.ok k.stores.issued) ∧
      (k.step (.begin (.session id))).stores.issued = k.stores.issued + 1 ∧
      (k.step (.begin (.session id))).stores.view i = ((k.stores.view i).begin (Ulid.issued k.stores.issued)).2 ∧
      ∃ s, (k.step (.begin (.session id))).running? k.stores.issued = some s := by
  have hok : ((k.source.session id).begin k.stores).1 = .ok (.git id i (some ⟨Ulid.issued k.stores.issued, base⟩)) := by
    rw [h.source]
    have hbase := (Session.begin_view h.isIn id).1
    rw [hmade] at hbase
    exact hbase
  have hsession : k.session? (.session id) = some (k.source.session id) := rfl
  have hanswer := congrArg Prod.fst (react_begin_ok hsession hok)
  obtain ⟨_, _, _, hview, hrunning⟩ := h.begins hanswer
  obtain hrefused | ⟨_, -, -, hissued, -⟩ := h.begin hsession
  · rw [hrefused] at hanswer
    cases hanswer
  · exact ⟨hanswer, hissued, hview, _, hrunning⟩

theorem finish {n : Nat} {s : Session} (hs : k.running? n = some s) (v : Engine.Verdict) :
    ∃ id base, s = .git id i (some ⟨Ulid.issued n, base⟩) ∧
      (k.react (.finish n v)).1 = .ended ((k.stores.view i).finish ⟨Ulid.issued n, base⟩ v).1 ∧
      (k.step (.finish n v)).stores.view i = ((k.stores.view i).finish ⟨Ulid.issued n, base⟩ v).2 ∧
      (k.step (.finish n v)).handles = k.handles ∧
      (k.step (.finish n v)).fates =
        k.fates.insert n (isCommitted v ((k.stores.view i).finish ⟨Ulid.issued n, base⟩ v).1) := by
  obtain ⟨id, base, rfl⟩ := h.twin (running?_eq_some_iff.1 hs).1
  obtain ⟨houtcome, hview⟩ := Session.finish_view h.isIn id ⟨Ulid.issued n, base⟩ v
  refine ⟨id, base, rfl, ?_⟩
  unfold Traffic.step
  rw [react_finish hs, houtcome]
  exact ⟨rfl, hview, rfl, rfl⟩

theorem sweep : k.react .sweep = (.swept (k.stores.view i).sweep.1, { k with stores := (k.stores.cleanup i).2 }) ∧
    (k.step .sweep).stores.view i = (k.stores.view i).sweep.2 := by
  obtain ⟨hcount, hview⟩ := Stores.cleanup_view k.stores i
  unfold Traffic.step
  rw [react_sweep_git h.source, ← hcount]
  exact ⟨rfl, hview⟩

/-- **What a step can do**, as it is seen from the handle. -/
theorem move (e : Event) : Move k i (k.step e) e := by
  cases e with
  | operate through op =>
    cases hs : k.session? through with
    | none =>
      unfold Traffic.step
      rw [react_operate_none hs]
      exact .idle _ rfl rfl rfl
    | some s =>
      obtain ⟨tx, hacts, -, hview⟩ := h.operate hs op
      refine .perform hacts hview ?_ ?_
      · unfold Traffic.step
        rw [react_operate hs]
      · unfold Traffic.step
        rw [react_operate hs]
  | begin through =>
    cases hs : k.session? through with
    | none =>
      unfold Traffic.step
      rw [react_begin_none hs]
      exact .idle _ rfl rfl rfl
    | some s =>
      obtain hb | ⟨id, -, hfates, hissued, hview, hcases⟩ := h.begin hs
      · unfold Traffic.step
        rw [hb]
        exact .idle _ rfl rfl rfl
      obtain ⟨e, hb⟩ | ⟨base, r, hbranch, hb⟩ := (k.stores.view i).begin_cases (Ulid.issued k.stores.issued)
      · rw [hb] at hview hcases
        exact .idle _ hview hcases.2 hfates
      · rw [hb] at hview hcases
        exact .begin (hissued ▸ Nat.lt_succ_self _) hbranch hview hcases.2 hfates
  | finish n v =>
    cases hs : k.running? n with
    | none =>
      unfold Traffic.step
      rw [react_finish_none hs]
      exact .idle _ rfl rfl rfl
    | some s =>
      obtain ⟨id, base, -, -, hview, hhandles, hfates⟩ := h.finish hs v
      obtain ⟨r, hmoves, hnamed, hend⟩ := Git.View.finish_cases h.orderly.named ⟨Ulid.issued n, base⟩ v
      exact .finish hs hmoves hnamed (hview.trans hend) hhandles hfates
  | sweep =>
    refine .sweep h.sweep.2 ?_ ?_
    · unfold Traffic.step
      rw [h.sweep.1]
    · unfold Traffic.step
      rw [h.sweep.1]

/-- **A branch stays**, where nothing is done in it, and no sweep finds it without its transaction. -/
theorem spares (e : Event) {name : String} (hmain : name ≠ Git.RefName.main)
    (htouches : ∀ n < (k.step e).stores.issued, k.Touches n e → name ≠ branchOf (Ulid.issued n))
    (hlive : e = .sweep → ∀ id, name = Git.RefName.ofTransaction id →
      (k.stores.view i).handle.live.contains id = true) :
    Git.Repository.Spares name (k.stores.view i).repository ((k.step e).stores.view i).repository := by
  have hlt : ∀ {n : Nat} {s : Session}, k.handles.get? n = some s → n < (k.step e).stores.issued := fun hs =>
    Nat.lt_of_lt_of_le (h.regular.twins _ _ hs).1 (h.regular.later e).issued
  cases h.move e with
  | idle _ hview =>
    rw [hview]
    exact .refl ..
  | @perform through op tx hacts hview =>
    rw [hview]
    refine .of_moves (Git.View.moves_perform _ tx op).1 ?_
    cases through with
    | session id =>
      cases hacts
      exact hmain
    | handle n =>
      obtain ⟨id, base, hs, rfl⟩ := hacts
      exact htouches n (hlt hs) rfl
  | begin hissued hbranch hview =>
    rw [hview]
    exact .of_moves (Session.moves_branch hbranch) (htouches _ hissued rfl)
  | @finish n v s r b hs hmoves hnamed hview =>
    have hdrop := Git.View.moves_drop ⟨r, (k.stores.view i).handle⟩ (Ulid.issued n)
    rw [hview]
    exact .trans (.of_moves hmoves hmain) (.of_moves hdrop (htouches n (hlt (running?_eq_some_iff.1 hs).1) rfl))
  | sweep hview =>
    rw [hview]
    exact Git.View.sweep_spares h.orderly.named (hlive rfl)

/-! ### What stays so -/

theorem author_step (e : Event) :
    ((k.step e).stores.view i).handle.author = (k.stores.view i).handle.author := by
  cases h.move e with
  | idle _ hview => rw [hview]
  | @perform through op tx hacts hview => rw [hview, (Git.View.moves_perform _ tx op).2]
  | begin hissued hbranch hview => rw [hview]
  | finish hs hmoves hnamed hview => rw [hview, Git.View.handle_drop]
  | sweep hview => rw [hview, Git.View.handle_sweep]

section Numbered

variable {e : Event} (hn : (k.step e).Numbered)

include hn

theorem isProper {n : Nat} {s : Session} (hs : k.handles.get? n = some s) : (Ulid.issued n).IsProper :=
  hn n (Nat.lt_of_lt_of_le (h.regular.twins n s hs).1 (h.regular.later e).issued)

/-- Transactions have branches of their own. -/
theorem branch_ne {m n : Nat} {s t : Session} (hm : k.handles.get? m = some s) (ht : k.handles.get? n = some t)
    (hne : m ≠ n) : branchOf (Ulid.issued m) ≠ branchOf (Ulid.issued n) := fun heq =>
  hne (Ulid.issued_inj (Git.branchOf_inj (h.isProper hn hm) (h.isProper hn ht) heq))

/-- The handle goes on knowing the transactions that have not ended. -/
theorem live_step {n : Nat} {tx : Session} (htx : (k.step e).running? n = some tx) :
    ((k.step e).stores.view i).handle.live.contains (Ulid.issued n).lowerText = true := by
  obtain ⟨hhandle, hfate⟩ := running?_eq_some_iff.1 htx
  have hlive : k.handles.get? n = some tx → k.fates.get? n = none →
      (k.stores.view i).handle.live.contains (Ulid.issued n).lowerText = true := fun hhandle hfate =>
    h.live n tx (running?_eq_some_iff.2 ⟨hhandle, hfate⟩)
  cases h.move e with
  | idle _ hview hhandles hfates =>
    rw [hview]
    exact hlive (hhandles ▸ hhandle) (hfates ▸ hfate)
  | @perform through op tx' hacts hview hhandles hfates =>
    rw [hview, (Git.View.moves_perform _ tx' op).2]
    exact hlive (hhandles ▸ hhandle) (hfates ▸ hfate)
  | begin hissued hbranch hview hhandles hfates =>
    rw [hhandles, SortedMap.get?_insert] at hhandle
    rw [hview, SortedMap.contains, SortedMap.get?_insert]
    split
    · rfl
    · rename_i hne
      rw [if_neg fun heq => hne (by rw [heq])] at hhandle
      exact hlive hhandle (hfates ▸ hfate)
  | @finish m v s r b hs hmoves hnamed hview hhandles hfates =>
    rw [hfates, SortedMap.get?_insert] at hfate
    rw [hhandles] at hhandle
    split at hfate
    · cases hfate
    rename_i hne
    have hapart := h.branch_ne hn hhandle (running?_eq_some_iff.1 hs).1 hne
    rw [hview, Git.View.handle_drop, SortedMap.contains, SortedMap.get?_erase,
      if_neg fun heq => hapart (by unfold branchOf; rw [heq])]
    exact hlive hhandle hfate
  | sweep hview hhandles hfates =>
    rw [hview]
    exact hlive (hhandles ▸ hhandle) (hfates ▸ hfate)

/-- The branch of a transaction that has ended stays away. -/
theorem gone_step {n : Nat} {fate : Bool} (hf : (k.step e).fates.get? n = some fate) :
    ((k.step e).stores.view i).repository.refs.get? (branchOf (Ulid.issued n)) = none := by
  cases h.move e with
  | idle _ hview hhandles hfates =>
    rw [hview]
    exact h.gone n fate (hfates ▸ hf)
  | @perform through op tx' hacts hview hhandles hfates =>
    have hgone := h.gone n fate (hfates ▸ hf)
    rw [hview]
    cases through with
    | session id =>
      cases hacts
      rw [(Git.View.moves_perform _ none op).1.refs _ (Git.branchOf_ne_main _)]
      exact hgone
    | handle m =>
      obtain ⟨id, base, hm, rfl⟩ := hacts
      by_cases hmn : n = m
      · subst hmn
        rw [Git.View.perform_gone hgone base op]
        exact hgone
      · obtain ⟨s, hs⟩ := h.regular.begun n fate (hfates ▸ hf)
        rw [(Git.View.moves_perform _ _ op).1.refs _ (h.branch_ne hn hs hm hmn)]
        exact hgone
  | begin hissued hbranch hview hhandles hfates =>
    obtain ⟨s, hs⟩ := h.regular.begun n fate (hfates ▸ hf)
    have hlt := (h.regular.twins n s hs).1
    have hapart : branchOf (Ulid.issued n) ≠ branchOf (Ulid.issued k.stores.issued) := fun heq => by
      have := Ulid.issued_inj (Git.branchOf_inj (h.isProper hn hs) (hn _ hissued) heq)
      omega
    rw [hview, (Session.moves_branch hbranch).refs _ hapart]
    exact h.gone n fate (hfates ▸ hf)
  | @finish m v s r b hs hmoves hnamed hview hhandles hfates =>
    rw [hfates, SortedMap.get?_insert] at hf
    split at hf
    · rename_i heq
      rw [hview, heq]
      exact Git.View.drop_gone hnamed (Ulid.issued m)
    · rename_i hne
      obtain ⟨t, ht⟩ := h.regular.begun n fate hf
      have hapart := h.branch_ne hn ht (running?_eq_some_iff.1 hs).1 hne
      rw [hview, (Git.View.moves_drop _ _).refs _ hapart]
      exact (hmoves.refs _ (Git.branchOf_ne_main _)).trans (h.gone n fate hf)
  | sweep hview hhandles hfates =>
    rw [hview]
    exact Git.View.sweep_gone (h.gone n fate (hfates ▸ hf))

/-- **The branch of a transaction goes on standing** where it stands, while the transaction runs and nothing is done
through its handle. -/
theorem spares_running {n : Nat} {s : Session} (hs : k.running? n = some s)
    (hrunning : ∃ s, (k.step e).running? n = some s) (hother : ∀ op, e ≠ .operate (.handle n) op) :
    Git.Repository.Spares (branchOf (Ulid.issued n)) (k.stores.view i).repository
      ((k.step e).stores.view i).repository := by
  have hhandle := (running?_eq_some_iff.1 hs).1
  refine h.spares e (Git.branchOf_ne_main _) (fun m hlt htouches heq => ?_) fun _ id hid => ?_
  · have hmn : m ≠ n := by
      rintro rfl
      cases e with
      | operate through op =>
        cases through with
        | session id => exact htouches
        | handle m' => exact hother op (by rw [show m' = m from htouches])
      | begin through =>
        have hbegun := (h.regular.twins _ _ hhandle).1
        have hnew : k.stores.issued = m := htouches
        omega
      | finish m' v =>
        have hsame : m' = m := htouches
        subst hsame
        obtain ⟨s', hs'⟩ := hrunning
        obtain ⟨id, base, -, -, -, -, hfates⟩ := h.finish hs v
        have hnone := (running?_eq_some_iff.1 hs').2
        rw [hfates, SortedMap.get?_insert, if_pos rfl] at hnone
        cases hnone
      | sweep => exact htouches
    exact hmn (Ulid.issued_inj (Git.branchOf_inj (hn m hlt) (h.isProper hn hhandle) heq.symm))
  · rw [← Git.RefName.ofTransaction_inj hid]
    exact h.live n s hs

theorem step : (k.step e).Tended i where
  regular := h.regular.step e
  source := (h.regular.later e).source.trans h.source
  every hQ := every_step hQ (h.every hQ) e
  live _ _ htx := h.live_step hn htx
  gone _ _ hf := h.gone_step hn hf

end Numbered

end Tended

theorem Numbered.of_later {k k' : Traffic} (h : k'.Numbered) (hlater : Later k k') : k.Numbered :=
  fun n hn => h n (Nat.lt_of_lt_of_le hn hlater.issued)

theorem Tended.run {i : Nat} (events : List Event) : ∀ {k : Traffic}, k.Tended i → (k.run events).Numbered →
    (k.run events).Tended i := by
  induction events with
  | nil => exact fun h _ => h
  | cons e events ih =>
    intro k h hn
    exact ih (h.step (hn.of_later ((h.regular.step e).later_run events))) hn

theorem Tended.author_run {i : Nat} (events : List Event) : ∀ {k : Traffic}, k.Tended i → (k.run events).Numbered →
    ((k.run events).stores.view i).handle.author = (k.stores.view i).handle.author := by
  induction events with
  | nil => exact fun _ _ => rfl
  | cons e events ih =>
    intro k h hn
    have hstep := h.step (hn.of_later ((h.regular.step e).later_run events))
    exact (ih hstep hn).trans (h.author_step e)

theorem tended_on {st : Stores} {i : Nat} (hst : st.Reachable) (hi : i < st.handles.size) :
    (on (.git i) st).Tended i where
  regular := regular_on hi
  source := rfl
  every hQ := hst.every hQ
  live _ _ htx := by
    rw [running?_eq_some_iff] at htx
    cases htx.1
  gone _ _ hf := by cases hf

end Traffic
end Demarcate
