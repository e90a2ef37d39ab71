import Demarcate.Proofs.Git.Legibility
/-!
# Shape — what every commit holds, and what one write makes of it

Whatever is written, begun, merged and given up in a repository, with names that tables and rows may have: the tree of
every commit has a folder for each table that has rows, under the table's name, and in it a file for each of them, under
its key's, with a row of that key (`Tree.Proper`).  That the trees are of that form is known (`Orderly`); that the names
are allowed stays so because a write brings in the name of one slot, and a merge none (`Allows`).

A write makes one commit on the tip of its branch, and the two trees differ in the written slot at most (`Written`).
-/
namespace Demarcate

/-- The names are ones that a table and a row may have. -/
structure Slot.Allowed (s : Slot) : Prop where
  table : TableName.parse s.table.text = .ok s.table
  key : RowKey.parse s.key.text = .ok s.key

namespace Git

open RefName (normal?)

namespace Tree

/-- The entries are the folders of tables with rows, and theirs the files of these rows. -/
structure Proper (t : Tree) : Prop where
  sorted : t.Pairwise fun a b => compare a.1 b.1 = .lt
  folders : ∀ e ∈ t, ∃ table entries, e = (TableName.text table, .folder entries) ∧
    TableName.parse table.text = .ok table ∧ entries ≠ [] ∧ (entries.Pairwise fun a b => compare a.1 b.1 = .lt) ∧
    ∀ f ∈ entries, ∃ key row, f = (RowKey.fileName key, .file (Row.encode row)) ∧
      RowKey.parse key.text = .ok key ∧ row.key = key

theorem Laid.fileAt?_of_mem {t : Tree} (h : Laid t) {table : TableName} {entries : Tree}
    (he : (table.text, .folder entries) ∈ t) {key : RowKey} {text : String}
    (hf : (key.fileName, .file text) ∈ entries) : fileAt? t (pathOf ⟨table, key⟩) = some text := by
  have hfolder : Tree.folder? t table.text = some entries := by
    unfold Tree.folder?
    rw [(find?_eq_some_iff h.sorted).2 he]
  have hfile := h.fileAt?_eq hfolder key
  rw [(find?_eq_some_iff (h.folder? hfolder).2.sorted).2 hf] at hfile
  cases htext : fileAt? t (pathOf ⟨table, key⟩) with
  | none =>
    rw [htext] at hfile
    cases hfile
  | some text' =>
    rw [htext] at hfile
    cases hfile
    rfl

theorem Laid.proper {t : Tree} (h : Laid t) (hnames : ∀ s text, fileAt? t (pathOf s) = some text → s.Allowed) :
    Proper t := by
  refine ⟨h.sorted, fun e he => ?_⟩
  obtain ⟨table, entries, rfl, hne, hfiled⟩ := h.folders e he
  have hfiles : ∀ f ∈ entries, ∃ key row, f = (RowKey.fileName key, .file (Row.encode row)) ∧
      Slot.Allowed ⟨table, key⟩ ∧ row.key = key := by
    intro f hf
    obtain ⟨key, text, rfl, row, hkey, rfl⟩ := hfiled.files f hf
    exact ⟨key, row, rfl, hnames _ _ (h.fileAt?_of_mem he hf), hkey⟩
  obtain ⟨f, hf⟩ := List.exists_mem_of_ne_nil entries hne
  obtain ⟨key, -, -, ⟨htable, -⟩, -⟩ := hfiles f hf
  refine ⟨table, entries, rfl, htable, hne, hfiled.sorted, fun f hf => ?_⟩
  obtain ⟨key, row, hf, hallowed, hkey⟩ := hfiles f hf
  exact ⟨key, row, hf, hallowed.key, hkey⟩

/-- A table without rows has no folder. -/
theorem Laid.find?_eq_none {t : Tree} (h : Laid t) {table : TableName}
    (hnone : ∀ key, fileAt? t (pathOf ⟨table, key⟩) = none) : Tree.find? t table.text = none := by
  cases hn : Tree.find? t table.text with
  | none => rfl
  | some n =>
    obtain ⟨table', entries, he, hne, hfiled⟩ := h.folders _ (mem_of_find? hn)
    rw [Prod.mk.injEq] at he
    obtain ⟨f, hf⟩ := List.exists_mem_of_ne_nil entries hne
    obtain ⟨key, text, rfl, -⟩ := hfiled.files f hf
    have hmem : (table.text, .folder entries) ∈ t := he.2 ▸ mem_of_find? hn
    have := h.fileAt?_of_mem hmem hf
    rw [hnone] at this
    cases this

theorem find?_withRow (t : Tree) (s : Slot) (row : Option Row) {name : String} (h : name ≠ s.table.text) :
    Tree.find? (Repository.withRow t s row) name = Tree.find? t name := by
  unfold Repository.withRow
  cases row with
  | some row => rw [Tree.find?_insert, if_neg h]
  | none =>
    simp only
    split
    · rw [Tree.find?_erase, if_neg h]
    · rw [Tree.find?_insert, if_neg h]

end Tree

open Demarcate.Git.Tree (fileAt? Proper Laid)

namespace Repository

/-! ## Names -/

/-- Only slots with allowed names have files, in the tree of any commit. -/
def Allows (r : Repository) : Prop :=
  ∀ (i : Nat) (c : Commit), r.commits[i]? = some c → ∀ s text, fileAt? c.tree (pathOf s) = some text → s.Allowed

namespace Allows

variable {r r' : Repository}

theorem of_commits (h : r.Allows) (hcommits : r'.commits = r.commits) : r'.Allows := by
  unfold Allows
  rw [hcommits]
  exact h

theorem push (h : r.Allows) {c : Commit} (hc : ∀ s text, fileAt? c.tree (pathOf s) = some text → s.Allowed)
    (hcommits : r'.commits = r.commits.push c) : r'.Allows := by
  intro i c' hi
  rw [hcommits, Array.getElem?_push] at hi
  split at hi
  · cases hi
    exact hc
  · exact h i c' hi

theorem treeAt (h : r.Allows) {id : CommitId} {t : Tree} (ht : r.treeAt id = .ok t) {s : Slot} {text : String}
    (hs : fileAt? t (pathOf s) = some text) : s.Allowed := by
  obtain ⟨c, hc, rfl⟩ := treeAt_ok ht
  exact h _ c hc s text hs

theorem start (h : r.Allows) {author : Signature} (hs : r.start author = .ok r') : r'.Allows := by
  obtain ⟨shown, -, hs⟩ := bind_ok hs
  obtain ⟨t, -, hs⟩ := bind_ok hs
  obtain ⟨r₂, hset, hs⟩ := bind_ok hs
  obtain ⟨n, -, rfl, -⟩ := setRef_ok hset
  cases hs
  exact h.push (fun s text hs => by cases hs) rfl

/-- A write brings in the name of its slot. -/
theorem write (h : r.Allows) (hr : r.WellNamed) {author : Signature} {now : String} {tx : Option String}
    {table : TableName} {c : Change} {id : CommitId} (hallowed : Slot.Allowed ⟨table, c.key⟩)
    (hw : r.write author now tx table c = .value (id, r')) : r'.Allows := by
  rw [write_eq] at hw
  obtain ⟨n, parent, before, existing, row, shown, -, -, hbefore, -, -, -, -, rfl⟩ := commitTo_made hr hw
  refine h.push (fun s text hs => ?_) rfl
  rw [fileAt?_withRow] at hs
  split at hs
  · rename_i heq
    rw [heq]
    exact hallowed
  · exact h _ before (commit?_eq_some hbefore).2 s text hs

/-- A merge brings in no name. -/
theorem merge (h : r.Allows) (hr : r.LaidOut) {author : Signature} {tx : String} {base : CommitId}
    {outcome : MergeOutcome} (hm : r.merge author tx base = .ok (outcome, r')) : r'.Allows := by
  obtain ⟨theirs, -, hcases⟩ := merge_ok hm
  rcases hcases with ⟨paths, -, rfl⟩ | ⟨-, rfl⟩ | ⟨-, rfl⟩ |
      ⟨ours, tb, tours, tt, commit, -, htb, hours, htt, hjoin, rfl⟩
  · exact h
  · exact h
  · exact h.of_commits rfl
  · refine h.push (fun s text hs => ?_) rfl
    rw [merge_eq_joined hjoin] at hs
    have hjoined := Tree.fileAt?_joined (hr.treeAt htb).shaped (hr.treeAt hours).shaped (hr.treeAt htt).shaped
      s.table.text s.key.fileName
    unfold pathOf at hs
    rw [hjoined] at hs
    unfold Tree.mergedAt? at hs
    split at hs
    · exact h.treeAt htt hs
    · exact h.treeAt hours hs

end Allows

/-! ## What is done to a repository -/

/-- `Reached r₀ r`: from `r₀`, by what is done in any order through any handles.  A call that fails leaves the
repository as it was. -/
inductive Reached (r₀ : Repository) : Repository → Prop where
  | first : Reached r₀ r₀
  | write {r r' : Repository} (h : Reached r₀ r) {author : Signature} {now : String} {tx : Option String}
    {table : TableName} {c : Change} {id : CommitId} (hallowed : Slot.Allowed ⟨table, c.key⟩)
    (hw : r.write author now tx table c = .value (id, r')) : Reached r₀ r'
  | begin {r r' : Repository} (h : Reached r₀ r) {tx : String} {base : CommitId}
    (hb : r.branch tx = .ok (base, r')) : Reached r₀ r'
  | merge {r r' : Repository} (h : Reached r₀ r) {author : Signature} {tx : String} {base : CommitId}
    {outcome : MergeOutcome} (hm : r.merge author tx base = .ok (outcome, r')) : Reached r₀ r'
  | abandon {r r' : Repository} (h : Reached r₀ r) {tx : String}
    (hd : r.deleteRef (RefName.ofTransaction tx) = .ok r') : Reached r₀ r'

theorem Reached.keeps {r₀ r : Repository} (h : Reached r₀ r) (h₀ : r₀.Orderly ∧ r₀.Allows) : r.Orderly ∧ r.Allows := by
  induction h with
  | first => exact h₀
  | write h hallowed hw ih =>
    refine ⟨closed_orderly.commitTo ih.1 ((write_eq ..).symm.trans hw), ih.2.write ih.1.named hallowed hw⟩
  | begin h hb ih =>
    obtain ⟨n, -, -, -, rfl⟩ := branch_ok hb
    exact ⟨closed_orderly.branch ih.1 hb, ih.2.of_commits rfl⟩
  | merge h hm ih => exact ⟨closed_orderly.merge ih.1 hm, ih.2.merge ih.1.laid hm⟩
  | abandon h hd ih =>
    obtain ⟨n, -, rfl⟩ := deleteRef_ok hd
    exact ⟨closed_orderly.deleteRef ih.1 hd, ih.2.of_commits rfl⟩

/-! ## One write -/

/-- A write on a branch, from the commit `before` that was its tip to the commit `made`: the row `existing` of its slot
has become `row`. -/
structure Written (r r' : Repository) (tx : Option String) (s : Slot) (parent id : CommitId) (before made : Commit)
    (existing row : Option Row) : Prop where
  tip : r.resolve (branchName tx) = .ok parent
  readable : r.commit? parent = some before
  commits : r'.commits = r.commits.push made
  kept : r'.kept? id = some made
  fresh : r.kept? id = none
  parents : made.parents = [parent]
  /-- The branch is at the new commit, and no other reference has moved. -/
  refs : ∃ n, normal? (branchName tx) = some n ∧ r'.refs.get? n = some (.commit id) ∧
    ∀ m, m ≠ n → r'.refs.get? m = r.refs.get? m
  existing : r.readRow s parent = .ok existing
  slot : fileAt? made.tree (pathOf s) = row.map Row.encode
  others : ∀ s', s' ≠ s → fileAt? made.tree (pathOf s') = fileAt? before.tree (pathOf s')
  tables : ∀ name, name ≠ s.table.text → Tree.find? made.tree name = Tree.find? before.tree name
  /-- A table goes with its last row. -/
  emptied : row = none → (∀ key, key ≠ s.key → fileAt? before.tree (pathOf ⟨s.table, key⟩) = none) →
    Tree.find? made.tree s.table.text = none

theorem Orderly.write {r r' : Repository} (h : r.Orderly) {author : Signature} {now : String} {tx : Option String}
    {table : TableName} {c : Change} {id : CommitId} (hw : r.write author now tx table c = .value (id, r')) :
    ∃ parent before made existing row, c.resolve now table existing = .value row ∧
      Written r r' tx ⟨table, c.key⟩ parent id before made existing row := by
  rw [write_eq] at hw
  have h' := closed_orderly.commitTo h hw
  obtain ⟨n, parent, before, existing, row, shown, hn, href, hbefore, hexisting, hrow, -, rfl, rfl⟩ :=
    commitTo_made h.named hw
  generalize hmade : Commit.mk [parent] _ _ _ = made at h' ⊢
  have htree : made.tree = withRow before.tree ⟨table, c.key⟩ row := by rw [← hmade]
  have hlaid : Laid made.tree := h'.laid r.commits.size made (by simp [extend])
  refine ⟨parent, before, made, existing, row, hrow, ?_⟩
  refine ⟨resolve_of_ref hn href hbefore, hbefore, rfl, kept?_extend .., ?_, by rw [← hmade],
    ⟨n, hn, (SortedMap.get?_insert ..).trans (if_pos rfl), fun m hm => (SortedMap.get?_insert ..).trans (if_neg hm)⟩,
    ?_, ?_, fun s' hs' => ?_, fun name hname => ?_, fun hnone halone => hlaid.find?_eq_none fun key => ?_⟩
  · simp [kept?, next]
  · unfold readRow
    rw [treeAt_eq hbefore]
    exact hexisting
  · rw [htree, fileAt?_withRow, if_pos rfl]
  · rw [htree, fileAt?_withRow, if_neg hs']
  · rw [htree]
    exact Tree.find?_withRow _ _ _ hname
  · rw [htree, fileAt?_withRow]
    split
    · rw [hnone]
      rfl
    · rename_i hkey
      exact halone key fun hk => hkey (by rw [hk])

end Repository

namespace Chronicle

open Repository (Reached Written)

section Init

variable {d d' : Disk} {path : String} {author : Signature} {h : Handle}
  (hnew : d.repositories.get? (Disk.outOfDotGit (siteOf path)) = none)
  (hinit : Handle.initAt d path author = (.ok h, d'))

include hnew hinit

/-- **Every commit holds tables of rows, and a write touches one row.** -/
theorem commits_hold_tables {r : Repository} (hr : Reached (d'.repository h.site) r) :
    (∀ id commit, r.kept? id = some commit → Tree.Proper commit.tree) ∧
      ∀ author now tx table c id r', r.write author now tx table c = .value (id, r') →
        ∃ parent before made existing row, c.resolve now table existing = .value row ∧
          Written r r' tx ⟨table, c.key⟩ parent id before made existing row := by
  obtain ⟨-, number, hs⟩ := initAt_ok hnew hinit
  have hempty : Repository.Allows { number } := fun i c hc => by cases hc
  have horderly : Repository.Orderly { number } := Repository.closed_orderly.fresh number
  obtain ⟨hr, hallows⟩ := hr.keeps ⟨Repository.closed_orderly.start horderly hs, hempty.start hs⟩
  refine ⟨fun id commit hcommit => ?_, fun author now tx table c id r' hw => hr.write hw⟩
  unfold Repository.kept? at hcommit
  split at hcommit
  · exact (hr.laid _ _ hcommit).proper (hallows _ _ hcommit)
  · cases hcommit

end Init

/-- A row is written in a new repository and taken out again, and its table goes with it. -/
theorem deleted_hold_tables : ∃ h d', Handle.initAt {} "data" .default = (.ok h, d') ∧ ∃ id r id' r',
    Slot.Allowed ⟨⟨"users"⟩, ⟨"k"⟩⟩ ∧
    (d'.repository h.site).write h.author "t" none ⟨"users"⟩ (.insert (Row.single "n" .null)) = .value (id, r) ∧
    r.write h.author "t" none ⟨"users"⟩ (.delete ⟨"k"⟩) = .value (id', r') ∧
    (∃ commit, r.kept? id = some commit ∧ Tree.Proper commit.tree) ∧
    ∃ before made existing row, Change.resolve "t" ⟨"users"⟩ (.delete ⟨"k"⟩) existing = .value row ∧
      Written r r' none ⟨⟨"users"⟩, ⟨"k"⟩⟩ id id' before made existing row := by
  obtain ⟨h, d', hinit⟩ := initAt_data
  obtain ⟨hnamed, husable, _, id, r, -, -, hmade⟩ := first_takes rfl hinit "t" ⟨"users"⟩ (Row.single "n" .null)
  have hallowed : Slot.Allowed ⟨⟨"users"⟩, ⟨"k"⟩⟩ := ⟨by decide, by decide⟩
  have hreached : Reached (d'.repository h.site) r := .write .first hallowed hmade
  -- the row is read back, so it can be deleted
  have hplain : (Row.single "n" .null).Plain := ⟨by decide, trivial, trivial⟩
  have hreadable : (Row.single "n" .null).Readable := fun e he => by
    obtain rfl := List.mem_singleton.1 he
    exact ⟨by decide, by decide⟩
  have hr : r.WellNamed := Repository.closed_wellNamed.commitTo hnamed hmade
  obtain ⟨hid, _, _, _, -, -, -, hfile, hserved, -⟩ :=
    Repository.write_served_or_spoiled hnamed hr (.refl r) husable rfl (by decide) hplain hmade
  obtain ⟨shown, hshown, -⟩ := husable
  obtain ⟨⟨id', r'⟩, hdeleted⟩ := (hserved hreadable).1.delete h.author shown "t" none id
    (Repository.stamp_eq_ok_iff.2 hshown) hid hfile
  obtain ⟨hproper, hwritten⟩ := commits_hold_tables rfl hinit hreached
  obtain ⟨parent, before, made, existing, row, hrow, hdone⟩ := hwritten _ _ _ _ _ _ _ hdeleted
  have hparent : parent = id := by
    have := hdone.tip.symm.trans hid
    cases this
    rfl
  subst hparent
  have hcommit : r.kept? parent = some before := Repository.kept?_of_commit? hdone.readable
  exact ⟨h, d', hinit, parent, r, id', r', hallowed, hmade, hdeleted, ⟨before, hcommit, hproper _ _ hcommit⟩,
    before, made, existing, row, hrow, hdone⟩

end Chronicle
end Git
end Demarcate
