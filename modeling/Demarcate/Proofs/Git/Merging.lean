import Demarcate.Proofs.Git.ThreeWay
/-!
# Merging — the merges of a repository that is worked on

Wherever a repository has got to (`Chronicle`), a transaction that has a branch began at a base, and a merge finds the
three commits that it looks at (`Upright.sides`).  `merge_is_three_way` says what it comes to.  Where no handle makes
commits that cannot be read (`Legible`) it has an outcome, unless it has to make a commit under a signature that none
can be made under (`Unsigned`); and through the handle that the repository was made with it always has one, if all was
done through that handle.
-/
namespace Demarcate.Git

/-! ## Commits that can be read -/

namespace Chronicle

/-- Commits that are made through a handle which comes into being can be read. -/
def Event.Unbroken : Event → Prop
  | .call _ _ => True
  | .opened _ _ author => author.Unbroken
  | .remade _ _ author => author.Unbroken

theorem unbroken_of_calls {events : List Event} (h : ∀ e ∈ events, ∃ i k, e = .call i k) :
    ∀ e ∈ events, e.Unbroken := by
  intro e he
  obtain ⟨i, k, rfl⟩ := h e he
  trivial

/-- Every commit can be read, and so will be those that are made through the handles. -/
structure Legible (c : Chronicle) : Prop where
  handles : ∀ h ∈ c.handles, h.author.Unbroken
  commits : ∀ commit ∈ c.repository.commits, commit.isReadable = true

namespace Legible

variable {c : Chronicle}

theorem isReadable (h : c.Legible) {id : CommitId} {commit : Commit} (hid : c.repository.kept? id = some commit) :
    commit.isReadable = true := by
  unfold Repository.kept? at hid
  split at hid
  · exact h.commits _ (Array.mem_of_getElem? hid)
  · cases hid

/-- Nothing but a signature is missing for a merge where all can be read. -/
theorem mergeable (h : c.Legible) {base head : CommitId} (m : Sides c.repository base head) {writes : Nat}
    {author : Signature} (hsigned : ¬ m.Unsigned writes author) : m.Mergeable writes author :=
  ⟨h.isReadable m.kept_head, fun _ => h.isReadable m.kept_tip, hsigned⟩

theorem setHandle (h : c.Legible) {hd : Handle} (hhd : hd.author.Unbroken) (i : Nat) :
    ∀ h' ∈ c.handles.setIfInBounds i hd, h'.author.Unbroken := by
  intro h' hmem
  rcases Array.mem_or_eq_of_mem_setIfInBounds hmem with hmem | rfl
  · exact h.handles h' hmem
  · exact hhd

theorem pushHandle (h : c.Legible) {hd : Handle} (hhd : hd.author.Unbroken) :
    ∀ h' ∈ c.handles.push hd, h'.author.Unbroken := by
  intro h' hmem
  rcases Array.mem_push.1 hmem with hmem | rfl
  · exact h.handles h' hmem
  · exact hhd

theorem extend (h : c.Legible) {commit : Commit} (hread : commit.isReadable = true) (n : String) :
    ∀ c' ∈ (c.repository.extend n commit).commits, c'.isReadable = true := by
  intro c' hmem
  rcases Array.mem_push.1 hmem with hmem | rfl
  · exact h.commits c' hmem
  · exact hread

theorem commitTo (h : c.Legible) (hup : c.Upright) {author : Signature} (hauthor : author.Unbroken)
    {now branch : String} {table : TableName} {change : Change} {tx : Option String} {id : CommitId} {r : Repository}
    (hc : c.repository.commitTo author now branch table change tx = .value (id, r)) :
    ∀ commit ∈ r.commits, commit.isReadable = true := by
  obtain ⟨n, parent, before, existing, row, shown, -, -, -, -, -, hshown, -, rfl⟩ :=
    Repository.commitTo_made hup.orderly.named hc
  exact h.extend (Repository.readable_of_stamp hauthor hshown ..) n

theorem merge (h : c.Legible) (hup : c.Upright) {author : Signature} (hauthor : author.Unbroken) {tx : String}
    {base : CommitId} {outcome : MergeOutcome} {r : Repository}
    (hm : c.repository.merge author tx base = .ok (outcome, r)) : ∀ commit ∈ r.commits, commit.isReadable = true := by
  obtain ⟨theirs, htheirs, -⟩ := bind_ok hm
  rw [Repository.merge_eq hup.orderly.named htheirs] at hm
  split at hm
  · cases hm
    exact h.commits
  obtain ⟨ours, -, hm⟩ := bind_ok hm
  split at hm
  · cases hm
    exact h.commits
  obtain ⟨before, -, hm⟩ := bind_ok hm
  obtain ⟨here, -, hm⟩ := bind_ok hm
  obtain ⟨there, -, hm⟩ := bind_ok hm
  split at hm
  · cases hm
    exact h.commits
  obtain ⟨shown, hshown, hm⟩ := bind_ok hm
  cases hm
  exact h.extend (Repository.readable_of_stamp hauthor hshown ..) _

theorem call (h : c.Legible) (hup : c.Upright) (i : Nat) {hd : Handle} (hhd : hd.author.Unbroken) (k : Call) :
    (c.call i hd k).Legible := by
  have hchanged : ∀ begun made, (∀ id r, made = .value (id, r) → ∀ commit ∈ r.commits, commit.isReadable = true) →
      (c.changed begun made).Legible := by
    intro begun made hmade
    cases made with
    | value made => exact ⟨h.handles, hmade _ _ rfl⟩
    | failed e => exact h
    | unwound text => exact h
  cases k with
  | commitToMain now table change => exact hchanged _ _ fun id r hc => h.commitTo hup hhd hc
  | begin id =>
    unfold Chronicle.call
    simp only
    split
    · rename_i hb
      obtain ⟨⟨base, r⟩, hbranch, hb⟩ := bind_ok hb
      cases hb
      obtain ⟨n, -, -, -, rfl⟩ := Repository.branch_ok hbranch
      refine ⟨h.setHandle ?_ i, h.commits⟩
      exact hhd
    · exact h
  | commitToTransaction now id table change => exact hchanged _ _ fun id r hc => h.commitTo hup hhd hc
  | merge id =>
    unfold Chronicle.call
    simp only
    split
    · exact h
    split
    · rename_i hm
      exact ⟨h.handles, h.merge hup hhd hm⟩
    · exact h
  | abandon id =>
    unfold Chronicle.call Handle.abandon
    simp only
    split
    · rename_i ha
      rw [Prod.mk.injEq] at ha
      obtain ⟨hd, rfl⟩ := ha
      obtain ⟨n, -, rfl⟩ := Repository.deleteRef_ok hd
      refine ⟨h.setHandle ?_ i, h.commits⟩
      exact hhd
    · rename_i ha
      rw [Prod.mk.injEq] at ha
      obtain ⟨-, rfl⟩ := ha
      refine ⟨h.setHandle ?_ i, h.commits⟩
      exact hhd
  | cleanup =>
    unfold Chronicle.call Handle.cleanup
    obtain ⟨refs, hrefs, -⟩ := Repository.deleteBranches_eq
      (c.repository.transactionIds.filter fun id => !hd.live.contains id) c.repository
    simp only
    rw [hrefs]
    exact ⟨h.handles, h.commits⟩

theorem step (h : c.Legible) (hup : c.Upright) {e : Event} (he : e.Unbroken) : (c.step e).Legible := by
  unfold Chronicle.step
  split
  · split
    · rename_i hd hget
      exact h.call hup _ (h.handles _ (Array.mem_of_getElem? hget)) _
    · exact h
  · refine ⟨h.pushHandle ?_, h.commits⟩
    exact he
  · split
    · rename_i hs
      exact absurd hs hup.not_started
    · exact h

theorem run : ∀ {events : List Event} {c : Chronicle}, c.Legible → c.Upright → (∀ e ∈ events, e.Unbroken) →
    (c.run events).Legible
  | [], _, h, _, _ => h
  | e :: _, _, h, hup, he => by
    have hstep := h.step hup (he e List.mem_cons_self)
    exact hstep.run (hup.step e).1 fun e' he' => he e' (List.mem_cons_of_mem _ he')

end Legible

/-! ## Merges of a repository that is made -/

/-- A transaction that has a branch was begun, and the three commits that its merge looks at are there. -/
theorem Upright.sides {c : Chronicle} (h : c.Upright) {id : String} {head : CommitId}
    (hhead : c.branch? id = some head) :
    ∃ n b, RefName.normal? (RefName.ofTransaction id) = some n ∧ c.repository.leads? n = some head ∧
      c.begun? id = some b ∧ b.Stands c.repository head ∧ Nonempty (Sides c.repository b.base head) := by
  obtain ⟨n, hn, hleads⟩ := Option.bind_eq_some_iff.1 hhead
  have href := Repository.leads?_eq_some_iff.1 hleads
  obtain ⟨head', b, hhead', hb, hstands⟩ := h.branches n _ href (RefName.normal?_ofTransaction_ne_main hn)
  cases hhead'
  have hbegun : c.begun? id = some b := by
    unfold begun?
    rw [hn]
    exact hb
  have hkept : ∀ {name id}, c.repository.refs.get? name = some (.commit id) →
      ∃ commit, c.repository.kept? id = some commit := by
    intro name id hid
    obtain ⟨hstore, hlt⟩ := h.sound.refs name id hid
    unfold Repository.kept?
    rw [if_pos hstore]
    exact ⟨_, Array.getElem?_eq_getElem hlt⟩
  obtain ⟨tip, htip⟩ := h.main
  obtain ⟨ours, hours⟩ := hkept (Repository.leads?_eq_some_iff.1 htip)
  obtain ⟨theirs, htheirs⟩ := hkept href
  obtain ⟨before, hbefore⟩ := Option.isSome_iff_exists.1 hstands.base
  exact ⟨n, b, hn, hleads, hbegun, hstands, ⟨{
    tip, before, ours, theirs
    tip_main := htip
    kept_base := Repository.kept?_of_commit? hbefore
    kept_tip := hours
    kept_head := htheirs }⟩⟩

section Init

variable {d d' : Disk} {path : String} {author : Signature} {h : Handle}
  (hnew : d.repositories.get? (Disk.outOfDotGit (siteOf path)) = none)
  (hinit : Handle.initAt d path author = (.ok h, d'))

include hnew hinit

theorem legible_first : (first (d'.repository h.site) h).Legible := by
  obtain ⟨rfl, number, hs⟩ := initAt_ok hnew hinit
  obtain ⟨husable, -, hcommits, -, -⟩ := Repository.start_fresh hs
  refine ⟨fun h' hh => ?_, hcommits⟩
  have hh' : h' ∈ #[h] := hh
  rw [List.mem_toArray, List.mem_singleton] at hh'
  rw [hh']
  exact husable.unbroken

/-- **A merge goes three ways.**  Whatever has been done to a repository since it was made, a transaction that has a
branch began at a base, and its merge finds the commits of the three sides.  It comes to the right outcome for them
exactly where they can be read and a commit that has to be made can be signed.  Where every commit that was made through
a handle can be read, the signature is all that may be missing; and through the handle that the repository was made with
nothing is, if nothing was done through another one. -/
theorem merge_is_three_way (events : List Event) {id : String} {head : CommitId}
    (hhead : ((first (d'.repository h.site) h).run events).branch? id = some head) :
    let c := (first (d'.repository h.site) h).run events
    ∃ b, c.begun? id = some b ∧ ∃ m : Sides c.repository b.base head,
      Tree.clashes m.before.tree m.ours.tree m.theirs.tree = [] ∧
      (∀ author, m.Returns b.writes author id (c.repository.merge author id b.base)) ∧
      ((∀ e ∈ events, e.Unbroken) → ∀ author,
        (¬ m.Unsigned b.writes author →
          ∃ outcome r', c.repository.merge author id b.base = .ok (outcome, r') ∧ ThreeWay m b.writes outcome r') ∧
        (m.Unsigned b.writes author → c.repository.merge author id b.base = .error .git)) ∧
      ((∀ e ∈ events, ∃ i k, e = .call i k) →
        ∃ outcome r', c.repository.merge h.author id b.base = .ok (outcome, r') ∧ ThreeWay m b.writes outcome r') := by
  intro c
  obtain ⟨hauthor, number, hs⟩ := initAt_ok hnew hinit
  have hfirst := upright_first hs h
  have hup : c.Upright := (hfirst.run events).1
  obtain ⟨n, b, hn, hleads, hbegun, hstands, ⟨m⟩⟩ := hup.sides hhead
  obtain ⟨hlaid, hlaid', hlaid''⟩ := m.laid hup.orderly
  have hreturns := fun author => hstands.merge_returns m hup.orderly author hn hleads
  have hlegible : (∀ e ∈ events, e.Unbroken) → c.Legible := (legible_first hnew hinit).run hfirst
  refine ⟨b, hbegun, m, Tree.clashes_eq_nil hlaid hlaid' hlaid'', hreturns, fun he author => ?_, fun hcalls => ?_⟩
  · have hall := hlegible he
    refine ⟨fun hsigned => (hreturns author).outcome_iff.2 (hall.mergeable m hsigned), fun hunsigned => ?_⟩
    exact (hreturns author).eq_of_unsigned (hall.isReadable m.kept_head) (hall.isReadable m.kept_tip) hunsigned
  · obtain ⟨⟨shown, hshown, -⟩, -⟩ := Repository.start_fresh hs
    rw [← hauthor] at hshown
    have hall := hlegible (unbroken_of_calls hcalls)
    exact (hreturns h.author).outcome_iff.2 (hall.mergeable m (Sides.signed_of_stamp hshown))

end Init

/-! ## A transaction beside a `main` that moves -/

/-- A row that is inserted once. -/
def noted (key : String) : Row := ⟨⟨key⟩, 1, "t", "t", ∅⟩

/-- A transaction is begun and inserts a row, and another row is inserted on `main`. -/
def diverged : List Event :=
  [.call 0 (.begin "a"), .call 0 (.commitToTransaction "t" "a" ⟨"notes"⟩ (.insert (noted "x"))),
    .call 0 (.commitToMain "t" ⟨"notes"⟩ (.insert (noted "y")))]

theorem calls_diverged : ∀ e ∈ diverged, ∃ i k, e = .call i k := by
  intro e he
  simp only [diverged, List.mem_cons, List.not_mem_nil, or_false] at he
  rcases he with rfl | rfl | rfl
  · exact ⟨_, _, rfl⟩
  · exact ⟨_, _, rfl⟩
  · exact ⟨_, _, rfl⟩

theorem branch_a {number : Nat} {author : Signature} {r : Repository}
    (hs : ({ number } : Repository).start author = .ok r) :
    r.branch "a" = .ok (⟨number, 0⟩, r.moveTo "refs/heads/tx/a" ⟨number, 0⟩) := by
  obtain ⟨-, -, -, hmain, hrefs⟩ := Repository.start_fresh hs
  obtain ⟨before, hbefore, -⟩ := Repository.start_tip hs
  exact Repository.branch_free (by decide) (Repository.resolve_of_ref RefName.normal?_main hmain hbefore) (by decide)
    hrefs

section Steps

variable {c : Chronicle} {i : Nat} {hd : Handle} (hhandle : c.handles[i]? = some hd)

include hhandle

theorem step_begin {id n : String} {base : CommitId} {r : Repository}
    (hn : RefName.normal? (RefName.ofTransaction id) = some n) (hbranch : c.repository.branch id = .ok (base, r)) :
    ∃ hd' : Handle, hd'.author = hd.author ∧ c.step (.call i (.begin id)) =
      ⟨r, c.handles.setIfInBounds i hd', c.begun.insert n { base }⟩ := by
  have hbegin : hd.begin c.repository id = .ok (base, { hd with live := hd.live.insert id () }, r) := by
    unfold Handle.begin
    rw [hbranch]
    rfl
  refine ⟨{ hd with live := hd.live.insert id () }, rfl, ?_⟩
  unfold step
  simp only
  rw [hhandle]
  unfold call
  simp only
  rw [hbegin]
  unfold note
  rw [hn]

theorem step_commitToMain {now : String} {table : TableName} {change : Change} {made : CommitId × Repository}
    (h : c.repository.commitToMain hd.author now table change = .value made) :
    c.step (.call i (.commitToMain now table change)) = { c with repository := made.2 } := by
  unfold step
  simp only
  rw [hhandle]
  unfold call
  simp only
  rw [h]
  rfl

theorem step_commitToTransaction {now id : String} {table : TableName} {change : Change}
    {made : CommitId × Repository} (h : c.repository.commitToTransaction hd.author now id table change = .value made) :
    c.step (.call i (.commitToTransaction now id table change)) =
      { c with repository := made.2, begun := c.count id } := by
  unfold step
  simp only
  rw [hhandle]
  unfold call
  simp only
  rw [h]
  rfl

end Steps

/-- A row is inserted on a branch and another one on `main`, where both are at a commit that has neither. -/
theorem insert_on_both {r : Repository} (h : r.WellNamed) {author shown : Signature} (hshown : author.stamp? = some shown)
    {name n : String} (hn : RefName.normal? name = some n) (hne : RefName.main ≠ n) {base : CommitId} {before : Commit}
    (hbefore : r.commit? base = some before) (hbranch : r.refs.get? n = some (.commit base))
    (hmain : r.refs.get? RefName.main = some (.commit base)) (now : String) {table : TableName} (tx : Option String)
    (hnone : ∀ key, Repository.rowIn before.tree ⟨table, key⟩ = .ok none) (row row' : Row) :
    ∃ x y : Commit, x.tree = Repository.withRow before.tree ⟨table, row.key⟩ (some row) ∧
      y.tree = Repository.withRow before.tree ⟨table, row'.key⟩ (some row') ∧
      r.commitTo author now name table (.insert row) tx = .value (r.next, r.extend n x) ∧
      (r.extend n x).commitTo author now RefName.main table (.insert row') none =
        .value ((r.extend n x).next, (r.extend n x).extend RefName.main y) := by
  obtain ⟨x, hxtree, -, hx⟩ := Repository.commitTo_insert h now row tx (Repository.resolve_of_ref hn hbranch hbefore) hn
    hbefore (hnone _) hshown
  have hnamed := Repository.closed_wellNamed.commitTo h hx
  have hbefore' := (Repository.grown_extend r n x).commit? hbefore
  have hmain' : (r.extend n x).refs.get? RefName.main = some (.commit base) :=
    (SortedMap.get?_insert ..).trans ((if_neg hne).trans hmain)
  obtain ⟨y, hytree, -, hy⟩ := Repository.commitTo_insert hnamed now row' none
    (Repository.resolve_of_ref RefName.normal?_main hmain' hbefore') RefName.normal?_main hbefore' (hnone _) hshown
  exact ⟨x, y, hxtree, hytree, hx, hy⟩

/-- What the repository has come to: a commit on the transaction's branch and one on `main`, each with a row of its
own. -/
theorem run_diverged {number : Nat} {r : Repository} {h : Handle}
    (hs : ({ number } : Repository).start h.author = .ok r) :
    ∃ before x y : Commit, ∃ handles, r.commit? ⟨number, 0⟩ = some before ∧
      (∃ row, x.tree = Repository.withRow before.tree ⟨⟨"notes"⟩, ⟨"x"⟩⟩ row) ∧
      (∃ row, y.tree = Repository.withRow before.tree ⟨⟨"notes"⟩, ⟨"y"⟩⟩ row) ∧
      (first r h).run diverged =
        ⟨((r.moveTo "refs/heads/tx/a" ⟨number, 0⟩).extend "refs/heads/tx/a" x).extend RefName.main y, handles,
          SortedMap.insert (SortedMap.insert ∅ "refs/heads/tx/a" { base := ⟨number, 0⟩ }) "refs/heads/tx/a"
            { base := ⟨number, 0⟩, writes := 1 }⟩ := by
  obtain ⟨⟨shown, hshown, -⟩, -, -, hmain, -⟩ := Repository.start_fresh hs
  obtain ⟨before, hbefore, htree⟩ := Repository.start_tip hs
  have hn : RefName.normal? (RefName.ofTransaction "a") = some "refs/heads/tx/a" := by decide
  have hne : RefName.main ≠ "refs/heads/tx/a" := by decide
  have hnone : ∀ key, Repository.rowIn before.tree ⟨⟨"notes"⟩, key⟩ = .ok none := by
    intro key
    rw [htree]
    rfl
  have hbranch := branch_a hs
  obtain ⟨hd, hauthor, hbegun⟩ : ∃ hd : Handle, hd.author = h.author ∧ (first r h).step (.call 0 (.begin "a")) =
      ⟨_, #[hd], SortedMap.insert ∅ "refs/heads/tx/a" { base := ⟨number, 0⟩ }⟩ :=
    step_begin rfl hn hbranch
  rw [← hauthor] at hshown
  have hnamed := Repository.closed_wellNamed.branch (upright_first hs h).orderly.named hbranch
  obtain ⟨x, y, hxtree, hytree, hx, hy⟩ := insert_on_both hnamed hshown hn hne hbefore
    ((SortedMap.get?_insert ..).trans (if_pos rfl)) ((SortedMap.get?_insert ..).trans ((if_neg hne).trans hmain)) "t"
    (some "a") hnone (noted "x") (noted "y")
  refine ⟨before, x, y, #[hd], hbefore, ⟨_, hxtree⟩, ⟨_, hytree⟩, ?_⟩
  generalize r.moveTo "refs/heads/tx/a" ⟨number, 0⟩ = r₁ at hbegun hx hy ⊢
  have hhandle : #[hd][0]? = some hd := rfl
  have hwritten := fun begun => step_commitToTransaction (c := ⟨r₁, #[hd], begun⟩) hhandle hx
  have hmoved := fun begun => step_commitToMain (c := ⟨r₁.extend "refs/heads/tx/a" x, #[hd], begun⟩) hhandle hy
  unfold run diverged
  simp only [List.foldl_cons, List.foldl_nil]
  rw [hbegun, hwritten, count_eq hn ((SortedMap.get?_insert ..).trans (if_pos rfl)), hmoved]

/-- Both sides have moved, and no row stands against joining them. -/
theorem diverged_sides {number : Nat} {r : Repository} {h : Handle}
    (hs : ({ number } : Repository).start h.author = .ok r) :
    let c := (first r h).run diverged
    ∃ head, c.branch? "a" = some head ∧ c.begun? "a" = some { base := ⟨number, 0⟩, writes := 1 } ∧
      ∀ m : Sides c.repository ⟨number, 0⟩ head, m.tip ≠ ⟨number, 0⟩ ∧ ¬ ∃ s, m.Overlap s := by
  obtain ⟨before, x, y, handles, hbefore, ⟨x', hx⟩, ⟨y', hy⟩, hrun⟩ := run_diverged hs
  rw [hrun]
  have hn : RefName.normal? (RefName.ofTransaction "a") = some "refs/heads/tx/a" := by decide
  have hne : "refs/heads/tx/a" ≠ RefName.main := by decide
  generalize hr₁ : r.moveTo "refs/heads/tx/a" ⟨number, 0⟩ = r₁
  have hkept₁ : r₁.kept? ⟨number, 0⟩ = some before := by
    rw [← hr₁]
    exact Repository.kept?_of_commit? hbefore
  generalize hr₂ : r₁.extend "refs/heads/tx/a" x = r₂
  have hgrown₂ : Repository.Grown r₁ r₂ := hr₂ ▸ Repository.grown_extend ..
  have hhead : r₂.leads? "refs/heads/tx/a" = some r₁.next := by
    rw [← hr₂, Repository.leads?_extend, if_pos rfl]
  have hkept₂ : r₂.kept? r₁.next = some x := hr₂ ▸ Repository.kept?_extend ..
  have hgrown₃ := Repository.grown_extend r₂ RefName.main y
  refine ⟨r₁.next, ?_, ?_, fun m => ?_⟩
  · unfold branch?
    rw [hn, Option.bind_some, Repository.leads?_extend, if_neg hne, hhead]
  · unfold begun?
    rw [hn]
    exact (SortedMap.get?_insert ..).trans (if_pos rfl)
  · have htip := m.tip_main
    rw [Repository.leads?_extend, if_pos rfl] at htip
    have hours := m.kept_tip
    rw [← Option.some.inj htip, Repository.kept?_extend] at hours
    have hbase := m.kept_base
    rw [hgrown₃.kept? (hgrown₂.kept? hkept₁)] at hbase
    have htheirs := m.kept_head
    rw [hgrown₃.kept? hkept₂] at htheirs
    constructor
    · intro heq
      rw [heq] at htip
      have hnew := Repository.kept?_next r₂
      rw [Option.some.inj htip, hgrown₂.kept? hkept₁] at hnew
      cases hnew
    · rintro ⟨s, hours', htheirs'⟩
      unfold Sides.oursDiffer at hours'
      unfold Sides.theirsDiffer at htheirs'
      rw [← Option.some.inj hbase, ← Option.some.inj hours, hy] at hours'
      rw [← Option.some.inj hbase, ← Option.some.inj htheirs, hx] at htheirs'
      have hsame := (eq_of_differAt_withRow hours').symm.trans (eq_of_differAt_withRow htheirs')
      exact absurd hsame (by decide)

/-- The two sides are joined, through the handle that all was done through and through any other that can sign. -/
theorem diverged_is_three_way : ∃ h d', Handle.initAt {} "data" .default = (.ok h, d') ∧
    let c := (first (d'.repository h.site) h).run diverged
    ∃ head b, c.branch? "a" = some head ∧ c.begun? "a" = some b ∧ b.writes = 1 ∧
      ∃ m : Sides c.repository b.base head,
        (∃ id r', c.repository.merge h.author "a" b.base = .ok (.merged id, r') ∧ ThreeWay m b.writes (.merged id) r') ∧
        ∀ author : Signature, author.Usable → ∃ id r',
          c.repository.merge author "a" b.base = .ok (.merged id, r') ∧ ThreeWay m b.writes (.merged id) r' := by
  obtain ⟨h, d', hinit⟩ := initAt_data
  obtain ⟨hauthor, number, hs⟩ := initAt_ok rfl hinit
  rw [← hauthor] at hs
  obtain ⟨head, hhead, hbegun, hsides⟩ := diverged_sides hs
  obtain ⟨b, hb, m, -, -, hlegible, hfirst⟩ := merge_is_three_way rfl hinit diverged hhead
  rw [hbegun] at hb
  cases hb
  obtain ⟨hmoved, hapart⟩ := hsides m
  have hmerged : ∀ {outcome r'}, ThreeWay m 1 outcome r' → ∃ id, outcome = .merged id := fun hright =>
    hright.merged.2 ⟨Nat.one_ne_zero, hmoved, hapart⟩
  refine ⟨h, d', hinit, head, _, hhead, hbegun, rfl, m, ?_, fun author husable => ?_⟩
  · obtain ⟨outcome, r', hmerge, hright⟩ := hfirst calls_diverged
    obtain ⟨id, rfl⟩ := hmerged hright
    exact ⟨id, r', hmerge, hright⟩
  · obtain ⟨shown, hshown, -⟩ := husable
    obtain ⟨outcome, r', hmerge, hright⟩ := (hlegible (unbroken_of_calls calls_diverged) author).1
      (Sides.signed_of_stamp hshown)
    obtain ⟨id, rfl⟩ := hmerged hright
    exact ⟨id, r', hmerge, hright⟩

theorem run_opened (c : Chronicle) (events : List Event) (path : String) (site : Path) (author : Signature) :
    c.run (events ++ [.opened path site author]) =
      { c.run events with handles := (c.run events).handles.push { path, site, author } } := by
  unfold run
  rw [List.foldl_append]
  rfl

/-- **A handle under an empty name cannot join them**: the repository is opened once more, and the merge fails. -/
theorem unsigned_merge_fails : ∃ h d', Handle.initAt {} "data" .default = (.ok h, d') ∧
    let c := (first (d'.repository h.site) h).run (diverged ++ [.opened "data" h.site ⟨"", "a@b"⟩])
    ∃ (i : Nat) (hd : Handle) (head : CommitId) (b : Begun), c.handles[i]? = some hd ∧ hd.author = ⟨"", "a@b"⟩ ∧
      c.branch? "a" = some head ∧ c.begun? "a" = some b ∧ b.writes = 1 ∧ ∃ m : Sides c.repository b.base head,
        m.tip ≠ b.base ∧ (¬ ∃ s, m.Overlap s) ∧ c.repository.merge hd.author "a" b.base = .error .git := by
  obtain ⟨h, d', hinit⟩ := initAt_data
  obtain ⟨hauthor, number, hs⟩ := initAt_ok rfl hinit
  rw [← hauthor] at hs
  have hfirst := upright_first hs h
  have hup := (hfirst.run diverged).1
  have hall := (legible_first rfl hinit).run hfirst (unbroken_of_calls calls_diverged)
  obtain ⟨head, hhead, hbegun, hsides⟩ := diverged_sides hs
  refine ⟨h, d', hinit, ?_⟩
  rw [run_opened]
  generalize (first (d'.repository h.site) h).run diverged = c at hup hall hhead hbegun hsides ⊢
  obtain ⟨n, b, hn, hleads, hb, hstands, ⟨m⟩⟩ := hup.sides hhead
  rw [hbegun] at hb
  cases hb
  obtain ⟨hmoved, hapart⟩ := hsides m
  have hfails := (hstands.merge_returns m hup.orderly ⟨"", "a@b"⟩ hn hleads).eq_of_unsigned
    (hall.isReadable m.kept_head) (hall.isReadable m.kept_tip) ⟨Nat.one_ne_zero, hmoved, hapart, by decide⟩
  exact ⟨_, _, head, _, Array.getElem?_push_size, rfl, hhead, hbegun, rfl, m, hmoved, hapart, hfails⟩

end Chronicle

end Demarcate.Git
