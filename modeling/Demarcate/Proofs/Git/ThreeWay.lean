import Demarcate.Proofs.Git.Chronicle
/-!
# ThreeWay — what becomes of a transaction that is merged

A merge looks at three trees: that of the base which the transaction began at, that of `main`, and that of the
transaction's branch.  Since their files are the files of rows (`Laid`), the paths on which both sides differ from the
base are the paths of rows (`mem_overlaps_iff`), no file is ever above another one (`clashes_eq_nil`), and what is
joined has every row from the side that changed it.

`Begun.Stands.merge_returns` says when a merge comes to which of its four outcomes (`ThreeWay`), and when it comes to
none of them, for want of a commit that can be read or of a signature that one can be made under
(`Sides.Returns.outcome_iff`).
-/
namespace Demarcate.Git

namespace Tree

/-! ## Trees of rows -/

theorem isAbove_pathOf (s s' : Slot) : Path.isAbove (pathOf s) (pathOf s') = false := by
  simp [pathOf, Path.isAbove]

theorem clashesFrom_eq_nil (added : Path → Bool) : ∀ {paths : List Path} {previous : Option Path},
    (∀ p ∈ paths, ∃ s, p = pathOf s) → (∀ p, previous = some p → ∃ s, p = pathOf s) →
      clashesFrom added none previous paths = []
  | [], _, _, _ => by
    unfold clashesFrom
    rfl
  | p :: paths, previous, hpaths, hprevious => by
    have hrest : clashesFrom added none (some p) paths = [] := by
      refine clashesFrom_eq_nil added (fun q hq => hpaths q (List.mem_cons_of_mem _ hq)) fun q hq => ?_
      cases hq
      exact hpaths p List.mem_cons_self
    cases previous with
    | none => exact hrest
    | some q =>
      obtain ⟨s, rfl⟩ := hpaths p List.mem_cons_self
      obtain ⟨s', rfl⟩ := hprevious q rfl
      unfold clashesFrom
      rw [isAbove_pathOf, Bool.and_false]
      exact hrest

theorem mem_pathsOf_of_differAt {base theirs : Tree} {s : Slot} (ours : Tree)
    (h : differAt base theirs (pathOf s) = true) : pathOf s ∈ pathsOf [base, ours, theirs] := by
  rw [mem_pathsOf]
  unfold differAt at h
  cases hbase : fileAt? base (pathOf s) with
  | some text => exact ⟨base, by simp, text, mem_files_of_fileAt? hbase⟩
  | none =>
    cases htheirs : fileAt? theirs (pathOf s) with
    | some text => exact ⟨theirs, by simp, text, mem_files_of_fileAt? htheirs⟩
    | none =>
      rw [hbase, htheirs] at h
      cases h

section Laid

variable {base ours theirs : Tree} (hb : Laid base) (ho : Laid ours) (ht : Laid theirs)

include hb ho ht

/-- **No file of a row is above another one.** -/
theorem clashes_eq_nil : clashes base ours theirs = [] := by
  unfold clashes
  rw [clashesFrom_eq_nil]
  · intro p hp
    unfold touched at hp
    rw [List.mem_mergeSort] at hp
    exact slot_of_mem_pathsOf hb ho ht (List.mem_filter.1 hp).1
  · intro p hp
    cases hp

/-- **The paths on which both sides differ from the base are those of rows.** -/
theorem mem_overlaps_iff {p : Path} : p ∈ overlaps base ours theirs ↔
    ∃ s, p = pathOf s ∧ differAt base ours (pathOf s) = true ∧ differAt base theirs (pathOf s) = true := by
  unfold overlaps
  rw [List.mem_filter, Bool.and_eq_true]
  constructor
  · rintro ⟨hp, hours, htheirs⟩
    obtain ⟨s, rfl⟩ := slot_of_mem_pathsOf hb ho ht hp
    exact ⟨s, rfl, hours, htheirs⟩
  · rintro ⟨s, rfl, hours, htheirs⟩
    exact ⟨mem_pathsOf_of_differAt ours htheirs, hours, htheirs⟩

omit hb ho ht in
theorem nodup_overlaps (base ours theirs : Tree) : (overlaps base ours theirs).Nodup :=
  List.Pairwise.filter _ (SortedMap.nodup_keys _)

/-- **Trees of rows are joined where they have no overlaps.** -/
theorem merge_laid (h : overlaps base ours theirs = []) :
    Tree.merge base ours theirs = .ok (joined base ours theirs) := by
  simp only [Tree.merge, h, clashes_eq_nil hb ho ht]

omit hb ho ht in
theorem merge_overlapping {p : Path} {ps : List Path} (h : overlaps base ours theirs = p :: ps) :
    Tree.merge base ours theirs = .error (p :: ps) := by
  simp only [Tree.merge, h]

end Laid

end Tree

open Demarcate.Git.Tree (differAt fileAt? Laid)

/-! ## The sides of a merge -/

/-- The three commits that a merge looks at: the base, the tip of `main` and the head of the transaction's branch. -/
structure Sides (r : Repository) (base head : CommitId) where
  tip : CommitId
  before : Commit
  ours : Commit
  theirs : Commit
  tip_main : r.leads? RefName.main = some tip
  kept_base : r.kept? base = some before
  kept_tip : r.kept? tip = some ours
  kept_head : r.kept? head = some theirs

namespace Sides

variable {r : Repository} {base head : CommitId} (m : Sides r base head)

/-- Whether `main` has changed the row in a slot since the base. -/
def oursDiffer (s : Slot) : Prop := differAt m.before.tree m.ours.tree (pathOf s) = true

/-- Whether the transaction has changed the row in a slot since the base. -/
def theirsDiffer (s : Slot) : Prop := differAt m.before.tree m.theirs.tree (pathOf s) = true

/-- A row that both have changed. -/
def Overlap (s : Slot) : Prop := m.oursDiffer s ∧ m.theirsDiffer s

/-- The branch and `main` have to be joined by a commit, and none can be made under the signature. -/
structure Unsigned (writes : Nat) (author : Signature) : Prop where
  busy : writes ≠ 0
  moved : m.tip ≠ base
  apart : ¬ ∃ s, m.Overlap s
  unsigned : author.stamp? = none

/-- **What a merge asks for**, besides the rows.  The head of the branch has to be a commit that can be read; so has the
tip of `main`, if anything was written on the branch; and a commit that is to join them has to be one that can be made
under the signature. -/
structure Mergeable (writes : Nat) (author : Signature) : Prop where
  head : m.theirs.isReadable = true
  main : writes ≠ 0 → m.ours.isReadable = true
  signed : ¬ m.Unsigned writes author

theorem signed_of_stamp {m : Sides r base head} {writes : Nat} {author shown : Signature}
    (h : author.stamp? = some shown) : ¬ m.Unsigned writes author := fun hun => by
  have hnone := hun.unsigned
  rw [h] at hnone
  cases hnone

end Sides

theorem text_pathOf (s : Slot) : (pathOf s).text = s.path := by
  unfold pathOf Path.text Slot.path
  rw [String.intercalate_cons_cons, String.intercalate_singleton]

theorem mem_map_text_iff {P : Slot → Prop} {paths : List Path} (h : ∀ p, p ∈ paths ↔ ∃ s, p = pathOf s ∧ P s)
    (text : String) : text ∈ paths.map Path.text ↔ ∃ s : Slot, text = s.path ∧ P s := by
  rw [List.mem_map]
  constructor
  · rintro ⟨p, hp, rfl⟩
    obtain ⟨s, rfl, hs⟩ := (h p).1 hp
    exact ⟨s, text_pathOf s, hs⟩
  · rintro ⟨s, rfl, hs⟩
    exact ⟨pathOf s, (h _).2 ⟨s, rfl, hs⟩, text_pathOf s⟩

/-- **The outcomes of a merge**, and what each of them leaves in the repository, which is `r'` then. -/
structure ThreeWay {r : Repository} {base head : CommitId} (m : Sides r base head) (writes : Nat)
    (outcome : MergeOutcome) (r' : Repository) : Prop where
  unchanged : outcome = .unchanged ↔ writes = 0
  fastForward : (∃ id, outcome = .fastForward id) ↔ writes ≠ 0 ∧ m.tip = base
  conflict : (∃ paths, outcome = .conflict paths) ↔ writes ≠ 0 ∧ m.tip ≠ base ∧ ∃ s, m.Overlap s
  merged : (∃ id, outcome = .merged id) ↔ writes ≠ 0 ∧ m.tip ≠ base ∧ ¬ ∃ s, m.Overlap s
  left : outcome = .unchanged → r' = r
  forwarded : ∀ id, outcome = .fastForward id → id = head ∧ r' = r.moveTo RefName.main head
  refused : ∀ paths, outcome = .conflict paths →
    r' = r ∧ paths.Nodup ∧ (∀ p, p ∈ paths ↔ ∃ s, p = pathOf s ∧ m.Overlap s) ∧
      ∀ text, text ∈ paths.map Path.text ↔ ∃ s : Slot, text = s.path ∧ m.Overlap s
  joined : ∀ id, outcome = .merged id → ∃ commit, r' = r.extend RefName.main commit ∧ id = r.next ∧
    commit.parents = [m.tip, head] ∧ ∀ s,
      (m.theirsDiffer s → fileAt? commit.tree (pathOf s) = fileAt? m.theirs.tree (pathOf s)) ∧
      (¬ m.theirsDiffer s → fileAt? commit.tree (pathOf s) = fileAt? m.ours.tree (pathOf s))
  /-- Every branch of a transaction is left in its place. -/
  branches : ∀ n, n ≠ RefName.main → r'.refs.get? n = r.refs.get? n

section Merge

variable {r r' : Repository} {base head : CommitId} (m : Sides r base head)

theorem Sides.laid (horderly : r.Orderly) : Laid m.before.tree ∧ Laid m.ours.tree ∧ Laid m.theirs.tree := by
  have hkept : ∀ {id commit}, r.kept? id = some commit → Laid commit.tree := by
    intro id commit h
    unfold Repository.kept? at h
    split at h
    · exact horderly.laid _ _ h
    · cases h
  exact ⟨hkept m.kept_base, hkept m.kept_tip, hkept m.kept_head⟩

/-- Rows that both have changed are what stands against joining the trees. -/
theorem Sides.mem_overlaps_iff (horderly : r.Orderly) (p : Path) :
    p ∈ Tree.overlaps m.before.tree m.ours.tree m.theirs.tree ↔ ∃ s, p = pathOf s ∧ m.Overlap s := by
  obtain ⟨hbefore, hours, htheirs⟩ := m.laid horderly
  exact Tree.mem_overlaps_iff hbefore hours htheirs

theorem Sides.overlaps_eq_nil_iff (horderly : r.Orderly) :
    Tree.overlaps m.before.tree m.ours.tree m.theirs.tree = [] ↔ ¬ ∃ s, m.Overlap s := by
  rw [List.eq_nil_iff_forall_not_mem]
  constructor
  · rintro h ⟨s, hs⟩
    exact h _ ((m.mem_overlaps_iff horderly _).2 ⟨s, rfl, hs⟩)
  · intro h p hp
    obtain ⟨s, -, hs⟩ := (m.mem_overlaps_iff horderly p).1 hp
    exact h ⟨s, hs⟩

/-- The row that a merged tree has in a slot is that of the side which changed it. -/
theorem Sides.fileAt?_joined (horderly : r.Orderly) (s : Slot) :
    (m.theirsDiffer s → fileAt? (Tree.joined m.before.tree m.ours.tree m.theirs.tree) (pathOf s) =
      fileAt? m.theirs.tree (pathOf s)) ∧
    (¬ m.theirsDiffer s → fileAt? (Tree.joined m.before.tree m.ours.tree m.theirs.tree) (pathOf s) =
      fileAt? m.ours.tree (pathOf s)) := by
  obtain ⟨hbefore, hours, htheirs⟩ := m.laid horderly
  have hjoined := Tree.fileAt?_joined hbefore.shaped hours.shaped htheirs.shaped s.table.text s.key.fileName
  exact ⟨fun h => hjoined.trans (if_pos h), fun h => hjoined.trans (if_neg h)⟩

namespace ThreeWay

variable {m : Sides r base head} {writes : Nat}

theorem of_unchanged (h : writes = 0) : ThreeWay m writes .unchanged r where
  unchanged := iff_of_true rfl h
  fastForward := iff_of_false (fun ⟨_, he⟩ => by cases he) fun hw => hw.1 h
  conflict := iff_of_false (fun ⟨_, he⟩ => by cases he) fun hw => hw.1 h
  merged := iff_of_false (fun ⟨_, he⟩ => by cases he) fun hw => hw.1 h
  left _ := rfl
  forwarded _ he := by cases he
  refused _ he := by cases he
  joined _ he := by cases he
  branches _ _ := rfl

theorem of_forwarded (h : writes ≠ 0) (htip : m.tip = base) :
    ThreeWay m writes (.fastForward head) (r.moveTo RefName.main head) where
  unchanged := iff_of_false (fun he => by cases he) h
  fastForward := iff_of_true ⟨head, rfl⟩ ⟨h, htip⟩
  conflict := iff_of_false (fun ⟨_, he⟩ => by cases he) fun hw => hw.2.1 htip
  merged := iff_of_false (fun ⟨_, he⟩ => by cases he) fun hw => hw.2.1 htip
  left he := by cases he
  forwarded id he := by
    cases he
    exact ⟨rfl, rfl⟩
  refused _ he := by cases he
  joined _ he := by cases he
  branches n hn := (SortedMap.get?_insert ..).trans (if_neg hn)

theorem of_refused {paths : List Path} (h : writes ≠ 0) (htip : m.tip ≠ base) (hne : paths ≠ []) (hnodup : paths.Nodup)
    (hmem : ∀ p, p ∈ paths ↔ ∃ s, p = pathOf s ∧ m.Overlap s) : ThreeWay m writes (.conflict paths) r := by
  have hsome : ∃ s, m.Overlap s := by
    obtain ⟨p, hp⟩ := List.exists_mem_of_ne_nil paths hne
    obtain ⟨s, -, hs⟩ := (hmem p).1 hp
    exact ⟨s, hs⟩
  exact {
    unchanged := iff_of_false (fun he => by cases he) h
    fastForward := iff_of_false (fun ⟨_, he⟩ => by cases he) fun hw => htip hw.2
    conflict := iff_of_true ⟨paths, rfl⟩ ⟨h, htip, hsome⟩
    merged := iff_of_false (fun ⟨_, he⟩ => by cases he) fun hw => hw.2.2 hsome
    left := fun he => by cases he
    forwarded := fun _ he => by cases he
    refused := fun _ he => by
      cases he
      exact ⟨rfl, hnodup, hmem, mem_map_text_iff hmem⟩
    joined := fun _ he => by cases he
    branches := fun _ _ => rfl }

theorem of_joined {commit : Commit} (horderly : r.Orderly) (h : writes ≠ 0) (htip : m.tip ≠ base)
    (hnone : ¬ ∃ s, m.Overlap s) (hparents : commit.parents = [m.tip, head])
    (htree : commit.tree = Tree.joined m.before.tree m.ours.tree m.theirs.tree) :
    ThreeWay m writes (.merged r.next) (r.extend RefName.main commit) where
  unchanged := iff_of_false (fun he => by cases he) h
  fastForward := iff_of_false (fun ⟨_, he⟩ => by cases he) fun hw => htip hw.2
  conflict := iff_of_false (fun ⟨_, he⟩ => by cases he) fun hw => hnone hw.2.2
  merged := iff_of_true ⟨_, rfl⟩ ⟨h, htip, hnone⟩
  left he := by cases he
  forwarded _ he := by cases he
  refused _ he := by cases he
  joined id he := by
    cases he
    refine ⟨commit, rfl, rfl, hparents, ?_⟩
    rw [htree]
    exact m.fileAt?_joined horderly
  branches n hn := (SortedMap.get?_insert ..).trans (if_neg hn)

end ThreeWay

/-- **What a merge returns** of the transaction `tx`: the right outcome where what it asks for is there, and otherwise
an error that says what is missing. -/
inductive Sides.Returns (m : Sides r base head) (writes : Nat) (author : Signature) (tx : String) :
    Except StorageError (MergeOutcome × Repository) → Prop where
  | outcome {outcome : MergeOutcome} {r' : Repository} (asked : m.Mergeable writes author)
      (right : ThreeWay m writes outcome r') : Returns m writes author tx (.ok (outcome, r'))
  | noBranch (unread : m.theirs.isReadable = false) :
      Returns m writes author tx (.error (.refNotFound (RefName.ofTransaction tx)))
  | noMain (busy : writes ≠ 0) (unread : m.ours.isReadable = false) :
      Returns m writes author tx (.error (.refNotFound RefName.main))
  | noAuthor (unsigned : m.Unsigned writes author) : Returns m writes author tx (.error .git)

namespace Sides.Returns

variable {m : Sides r base head} {writes : Nat} {author : Signature} {tx : String}
  {result : Except StorageError (MergeOutcome × Repository)} (h : m.Returns writes author tx result)

include h

/-- **A merge comes to an outcome exactly where what it asks for is there.** -/
theorem outcome_iff :
    (∃ outcome r', result = .ok (outcome, r') ∧ ThreeWay m writes outcome r') ↔ m.Mergeable writes author := by
  cases h with
  | outcome asked right => exact iff_of_true ⟨_, _, rfl, right⟩ asked
  | noBranch unread =>
    refine iff_of_false (fun ⟨_, _, h, _⟩ => by cases h) fun h => ?_
    rw [h.head] at unread
    cases unread
  | noMain busy unread =>
    refine iff_of_false (fun ⟨_, _, h, _⟩ => by cases h) fun h => ?_
    rw [h.main busy] at unread
    cases unread
  | noAuthor unsigned => exact iff_of_false (fun ⟨_, _, h, _⟩ => by cases h) fun h => h.signed unsigned

/-- Where the commits can be read, a signature is all that may be missing. -/
theorem eq_of_unsigned (htheirs : m.theirs.isReadable = true) (hours : m.ours.isReadable = true)
    (hunsigned : m.Unsigned writes author) : result = .error .git := by
  cases h with
  | outcome asked => exact absurd hunsigned asked.signed
  | noBranch unread =>
    rw [htheirs] at unread
    cases unread
  | noMain busy unread =>
    rw [hours] at unread
    cases unread
  | noAuthor => rfl

end Sides.Returns

/-- Where both sides have moved, rows that both have changed stand against the merge, and otherwise the author has to
be one whom a commit can show. -/
theorem Sides.returns_diverged (horderly : r.Orderly) {writes : Nat} (author : Signature) (tx message : String)
    (htheirs : m.theirs.isReadable = true) (hours : m.ours.isReadable = true) (hwrites : writes ≠ 0)
    (htip : m.tip ≠ base) : m.Returns writes author tx
      (match Tree.merge m.before.tree m.ours.tree m.theirs.tree with
        | .error paths => .ok (.conflict paths, r)
        | .ok tree => Repository.stamp author >>= fun shown =>
          pure (.merged r.next, r.extend RefName.main ⟨[m.tip, head], tree, message, shown⟩)) := by
  by_cases hsome : ∃ s, m.Overlap s
  · have hmem := m.mem_overlaps_iff horderly
    have hnodup := Tree.nodup_overlaps m.before.tree m.ours.tree m.theirs.tree
    have hne := mt (m.overlaps_eq_nil_iff horderly).1 fun hnone => hnone hsome
    obtain ⟨p, ps, hoverlaps⟩ := List.exists_cons_of_ne_nil hne
    rw [hoverlaps] at hnodup hmem
    rw [Tree.merge_overlapping hoverlaps]
    exact .outcome ⟨htheirs, fun _ => hours, fun hun => hun.apart hsome⟩
      (.of_refused hwrites htip (List.cons_ne_nil p ps) hnodup hmem)
  · obtain ⟨hlaid, hlaid', hlaid''⟩ := m.laid horderly
    rw [Tree.merge_laid hlaid hlaid' hlaid'' ((m.overlaps_eq_nil_iff horderly).2 hsome)]
    unfold Repository.stamp
    cases hshown : author.stamp? with
    | some shown =>
      exact .outcome ⟨htheirs, fun _ => hours, Sides.signed_of_stamp hshown⟩
        (.of_joined horderly hwrites htip hsome rfl rfl)
    | none => exact .noAuthor ⟨hwrites, htip, hsome, hshown⟩

section Stands

variable {b : Begun} (hstands : b.Stands r head)

include hstands

/-- The branch is at the base as long as nothing was written on it. -/
theorem Begun.Stands.idle_iff : head = b.base ↔ b.writes = 0 := by
  refine ⟨fun heq => ?_, hstands.idle⟩
  cases hw : b.writes with
  | zero => rfl
  | succ k =>
    have hlt := hstands.busy (by omega)
    rw [heq] at hlt
    omega

/-- The base was read when the transaction began. -/
theorem Begun.Stands.treeAt_base (m : Sides r b.base head) : r.treeAt b.base = .ok m.before.tree := by
  obtain ⟨commit, hcommit⟩ := Option.isSome_iff_exists.1 hstands.base
  have hkept := Repository.kept?_of_commit? hcommit
  rw [m.kept_base] at hkept
  cases hkept
  exact Repository.treeAt_eq hcommit

/-- **A merge returns the right outcome, or what it asks for is not there.** -/
theorem Begun.Stands.merge_returns (m : Sides r b.base head) (horderly : r.Orderly) (author : Signature)
    {tx n : String} (hn : RefName.normal? (RefName.ofTransaction tx) = some n) (hleads : r.leads? n = some head) :
    m.Returns b.writes author tx (r.merge author tx b.base) := by
  have hid : r.transactionTip tx = _ := Repository.resolve_of_leads hn hleads m.kept_head
  have htip : r.tip = _ := Repository.resolve_of_leads RefName.normal?_main m.tip_main m.kept_tip
  have hread : ∀ {id commit}, r.kept? id = some commit → commit.isReadable = true → r.treeAt id = .ok commit.tree :=
    fun hkept h => Repository.treeAt_eq (Repository.commit?_eq_some_iff.2 ⟨hkept, h⟩)
  cases htheirs : m.theirs.isReadable with
  | false =>
    rw [htheirs] at hid
    unfold Repository.merge
    rw [hid]
    exact .noBranch htheirs
  | true =>
    rw [htheirs] at hid
    rw [Repository.merge_eq horderly.named hid]
    by_cases hwrites : b.writes = 0
    · rw [if_pos (hstands.idle_iff.2 hwrites)]
      exact .outcome ⟨htheirs, absurd hwrites, fun hun => hun.busy hwrites⟩ (.of_unchanged hwrites)
    rw [if_neg (mt hstands.idle_iff.1 hwrites), htip]
    cases hours : m.ours.isReadable with
    | false => exact .noMain hwrites hours
    | true =>
      rw [if_pos rfl, ok_bind]
      by_cases hbase : m.tip = b.base
      · rw [if_pos hbase]
        exact .outcome ⟨htheirs, fun _ => hours, fun hun => hun.moved hbase⟩ (.of_forwarded hwrites hbase)
      · rw [if_neg hbase, hstands.treeAt_base m, hread m.kept_tip hours, hread m.kept_head htheirs]
        exact m.returns_diverged horderly author tx _ htheirs hours hwrites hbase

end Stands

end Merge

end Demarcate.Git
