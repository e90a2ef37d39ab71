import Demarcate.Proofs.Git.Effects
/-!
# Layout — the trees that hold rows

The tree of a commit has a folder for every table that has rows, and in the folder a file for each of them, under names
in order (`Laid`).  A change keeps that, and so does a merge (`closed_orderly`).  So a file of a tree is a row's, at the
path of its slot (`Laid.slot_of_mem_files`), and the tree is known by its files (`Laid.eq_of_files`).
-/
namespace Demarcate.Git

theorem resolve_key {c : Change} {now : String} {t : TableName} {existing : Option Row} {row : Row}
    (h : c.resolve now t existing = .value (some row)) : row.key = c.key := by
  have hsucceed : ∀ {previous next : Row}, (Row.succeed now previous next).bind (fun r => .value (some r)) =
      (.value (some row) : Outcome StorageError (Option Row)) → row.key = next.key := by
    intro previous next h
    unfold Row.succeed at h
    split at h
    · cases h
      rfl
    · cases h
  cases c with
  | insert row' =>
    cases existing with
    | none =>
      cases h
      rfl
    | some previous => cases h
  | update row' =>
    cases existing with
    | none => cases h
    | some previous => exact hsucceed h
  | upsert row' =>
    cases existing with
    | none =>
      cases h
      rfl
    | some previous => exact hsucceed h
  | delete key => cases existing <;> cases h

namespace Tree

/-- The text is that of a row that belongs in the slot. -/
def Holds (s : Slot) (text : String) : Prop := ∃ row : Row, row.key = s.key ∧ text = row.encode

/-- The entries are the files of a table's rows. -/
structure Filed (table : TableName) (entries : Tree) : Prop where
  sorted : entries.Pairwise fun a b => compare a.1 b.1 = .lt
  files : ∀ e ∈ entries, ∃ key text, e = (RowKey.fileName key, .file text) ∧ Holds ⟨table, key⟩ text

/-- The entries are the folders of tables with rows. -/
structure Laid (t : Tree) : Prop where
  sorted : t.Pairwise fun a b => compare a.1 b.1 = .lt
  folders : ∀ e ∈ t, ∃ table entries, e = (TableName.text table, .folder entries) ∧ entries ≠ [] ∧ Filed table entries

theorem find?_eq_some_iff {t : Tree} (h : t.Pairwise fun a b => compare a.1 b.1 = .lt) {name : String} {n : Node} :
    find? t name = some n ↔ (name, n) ∈ t :=
  SortedMap.findEntry_eq_some_iff h

namespace Filed

variable {table : TableName} {entries : Tree}

theorem nil (table : TableName) : Filed table [] := ⟨.nil, fun e he => by cases he⟩

theorem insert (h : Filed table entries) {key : RowKey} {text : String} (ht : Holds ⟨table, key⟩ text) :
    Filed table (Tree.insert entries key.fileName (.file text)) := by
  refine ⟨SortedMap.pairwise_insertEntry _ _ h.sorted, fun e he => ?_⟩
  rcases SortedMap.mem_insertEntry he with rfl | he
  · exact ⟨key, text, rfl, ht⟩
  · exact h.files e he

theorem erase (h : Filed table entries) (name : String) : Filed table (Tree.erase entries name) :=
  ⟨h.sorted.filter _, fun e he => h.files e (List.mem_filter.1 he).1⟩

end Filed

theorem insert_ne_nil (t : Tree) (name : String) (n : Node) : Tree.insert t name n ≠ [] := by
  intro h
  have hfind := find?_insert t name name n
  rw [h, if_pos rfl] at hfind
  cases hfind

namespace Laid

variable {t : Tree}

theorem nil : Laid [] := ⟨.nil, fun e he => by cases he⟩

theorem shaped (h : Laid t) : Shaped t := by
  intro e he
  obtain ⟨table, entries, rfl, -, hfiled⟩ := h.folders e he
  refine ⟨entries, rfl, fun f hf => ?_⟩
  obtain ⟨key, text, rfl, -⟩ := hfiled.files f hf
  exact ⟨text, rfl⟩

theorem folder? (h : Laid t) {table : TableName} {entries : Tree} (hf : Tree.folder? t table.text = some entries) :
    entries ≠ [] ∧ Filed table entries := by
  obtain ⟨table', entries', he, hne, hfiled⟩ := h.folders _ (mem_of_folder? hf)
  rw [Prod.mk.injEq] at he
  obtain ⟨htable, hentries⟩ := he
  cases TableName.text_inj htable
  cases hentries
  exact ⟨hne, hfiled⟩

theorem folder?_getD (h : Laid t) (table : TableName) : Filed table ((Tree.folder? t table.text).getD []) := by
  cases hf : Tree.folder? t table.text with
  | none => exact .nil table
  | some entries => exact (h.folder? hf).2

theorem insert (h : Laid t) {table : TableName} {entries : Tree} (hne : entries ≠ []) (hfiled : Filed table entries) :
    Laid (Tree.insert t table.text (.folder entries)) := by
  refine ⟨SortedMap.pairwise_insertEntry _ _ h.sorted, fun e he => ?_⟩
  rcases SortedMap.mem_insertEntry he with rfl | he
  · exact ⟨table, entries, rfl, hne, hfiled⟩
  · exact h.folders e he

theorem erase (h : Laid t) (name : String) : Laid (Tree.erase t name) :=
  ⟨h.sorted.filter _, fun e he => h.folders e (List.mem_filter.1 he).1⟩

theorem withRow (h : Laid t) {s : Slot} {row : Option Row} (hrow : ∀ r, row = some r → r.key = s.key) :
    Laid (Repository.withRow t s row) := by
  unfold Repository.withRow
  cases row with
  | some r => exact h.insert (insert_ne_nil _ _ _) ((h.folder?_getD s.table).insert ⟨r, hrow r rfl, rfl⟩)
  | none =>
    have herased := (h.folder?_getD s.table).erase s.key.fileName
    simp only
    split
    · exact h.erase _
    · rename_i rest hrest
      exact h.insert hrest herased

theorem putAt (h : Laid t) {s : Slot} {text : String} (ht : Holds s text) : Laid (Tree.putAt text t (pathOf s)) :=
  h.insert (insert_ne_nil _ _ _) ((h.folder?_getD s.table).insert ht)

/-- **A file of a tree is a row's.** -/
theorem slot_of_mem_files (h : Laid t) {f : Path × String} (hf : f ∈ Tree.files t) :
    ∃ s, f.1 = pathOf s ∧ Holds s f.2 := by
  obtain ⟨e, he, hf⟩ := mem_of_mem_files hf
  obtain ⟨table, entries, rfl, -, hfiled⟩ := h.folders e he
  unfold filesBelow at hf
  obtain ⟨f', hf', rfl⟩ := List.mem_map.1 hf
  obtain ⟨e', he', hf'⟩ := mem_of_mem_files hf'
  obtain ⟨key, text, rfl, hholds⟩ := hfiled.files e' he'
  unfold filesBelow at hf'
  rw [List.mem_singleton] at hf'
  exact ⟨⟨table, key⟩, by rw [hf']; rfl, by rw [hf']; exact hholds⟩

theorem holds_of_fileAt? (h : Laid t) {s : Slot} {text : String} (hs : fileAt? t (pathOf s) = some text) :
    Holds s text := by
  obtain ⟨s', hpath, hholds⟩ := h.slot_of_mem_files (mem_files_of_fileAt? hs)
  obtain rfl : s = s' := pathOf_inj hpath
  exact hholds

end Laid

/-! ## Trees with the same files -/

/-- Where a folder of rows has something, it has a row's file. -/
theorem Filed.find? {table : TableName} {entries : Tree} (h : Filed table entries) {name : String} {n : Node}
    (hn : Tree.find? entries name = some n) : ∃ key : RowKey, name = key.fileName ∧ ∃ text, n = .file text := by
  obtain ⟨key, text, he, -⟩ := h.files _ (mem_of_find? hn)
  rw [Prod.mk.injEq] at he
  exact ⟨key, he.1, text, he.2⟩

theorem Filed.eq_of_find? {table : TableName} {a b : Tree} (ha : Filed table a) (hb : Filed table b)
    (h : ∀ key : RowKey, Tree.find? a key.fileName = Tree.find? b key.fileName) : a = b := by
  refine SortedMap.eq_of_findEntry ha.sorted hb.sorted fun name => Option.ext fun n => ⟨fun hn => ?_, fun hn => ?_⟩
  · obtain ⟨key, rfl, -⟩ := ha.find? hn
    exact (h key).symm.trans hn
  · obtain ⟨key, rfl, -⟩ := hb.find? hn
    exact (h key).trans hn

namespace Laid

variable {t t' : Tree}

theorem fileAt?_eq (h : Laid t) {table : TableName} {entries : Tree} (hf : Tree.folder? t table.text = some entries)
    (key : RowKey) : Tree.find? entries key.fileName = (fileAt? t (pathOf ⟨table, key⟩)).map Node.file := by
  unfold pathOf
  rw [fileAt?_pair, hf, Option.bind_some]
  cases hn : Tree.find? entries key.fileName with
  | none => rfl
  | some n =>
    obtain ⟨-, -, text, rfl⟩ := (h.folder? hf).2.find? hn
    rfl

/-- What a tree of rows has in the place of a row's file is a file. -/
theorem entryAt?_eq (h : Laid t) (s : Slot) : Repository.entryAt? t s = (fileAt? t (pathOf s)).map Node.file := by
  unfold Repository.entryAt?
  cases hf : Tree.folder? t s.table.text with
  | none =>
    unfold pathOf
    rw [fileAt?_pair, hf]
    rfl
  | some entries => exact h.fileAt?_eq hf s.key

theorem rowIn_congr (h : Laid t) (h' : Laid t') {s : Slot} (hfile : fileAt? t (pathOf s) = fileAt? t' (pathOf s)) :
    Repository.rowIn t s = Repository.rowIn t' s := by
  unfold Repository.rowIn
  rw [h.entryAt?_eq, h'.entryAt?_eq, hfile]

/-- Where a tree of rows has something, it has a table's folder. -/
theorem find? (h : Laid t) (name : String) : Tree.find? t name = (Tree.folder? t name).map Node.folder := by
  unfold Tree.folder?
  cases hn : Tree.find? t name with
  | none => rfl
  | some n =>
    obtain ⟨table, entries, he, -⟩ := h.folders _ (mem_of_find? hn)
    rw [Prod.mk.injEq] at he
    rw [he.2]
    rfl

theorem folder?_of_files (h : Laid t) (h' : Laid t')
    (hfiles : ∀ s, fileAt? t (pathOf s) = fileAt? t' (pathOf s)) {table : TableName} {entries : Tree}
    (hf : Tree.folder? t table.text = some entries) : Tree.folder? t' table.text = some entries := by
  obtain ⟨hne, hfiled⟩ := h.folder? hf
  cases hf' : Tree.folder? t' table.text with
  | none =>
    -- the folder has a file, which the other tree has, too
    obtain ⟨e, he⟩ := List.exists_mem_of_ne_nil entries hne
    obtain ⟨key, text, rfl, -⟩ := hfiled.files e he
    have hfind := h.fileAt?_eq hf key
    rw [(find?_eq_some_iff hfiled.sorted).2 he, hfiles] at hfind
    unfold pathOf at hfind
    rw [fileAt?_pair, hf'] at hfind
    cases hfind
  | some entries' =>
    rw [hfiled.eq_of_find? (h'.folder? hf').2 fun key => ?_]
    rw [h.fileAt?_eq hf, h'.fileAt?_eq hf', hfiles]

/-- **Trees of rows with the same files are equal.** -/
theorem eq_of_files (h : Laid t) (h' : Laid t') (hfiles : ∀ s, fileAt? t (pathOf s) = fileAt? t' (pathOf s)) :
    t = t' := by
  have hsub : ∀ {a b : Tree}, Laid a → Laid b → (∀ s, fileAt? a (pathOf s) = fileAt? b (pathOf s)) → ∀ {name n},
      Tree.find? a name = some n → Tree.find? b name = some n := by
    intro a b ha hb hab name n hn
    obtain ⟨table, entries, he, -⟩ := ha.folders _ (mem_of_find? hn)
    rw [Prod.mk.injEq] at he
    obtain ⟨rfl, rfl⟩ := he
    rw [ha.find?, Option.map_eq_some_iff] at hn
    obtain ⟨entries', hf, heq⟩ := hn
    rw [hb.find?, ha.folder?_of_files hb hab hf, ← heq]
    rfl
  exact SortedMap.eq_of_findEntry h.sorted h'.sorted fun name =>
    Option.ext fun n => ⟨hsub h h' hfiles, hsub h' h fun s => (hfiles s).symm⟩

end Laid

/-! ## Merged trees -/

theorem laid_foldl_settle {value : Path → Option String} : ∀ (ps : List Path) (t : Tree),
    (∀ p ∈ ps, ∃ s, p = pathOf s ∧ ∀ text, value p = some text → Holds s text) → Laid t →
      Laid (ps.foldl (settle value) t)
  | [], _, _, ht => ht
  | p :: ps, t, hps, ht => by
    rw [List.foldl_cons]
    refine laid_foldl_settle ps _ (fun q hq => hps q (List.mem_cons_of_mem _ hq)) ?_
    obtain ⟨s, rfl, hvalue⟩ := hps p List.mem_cons_self
    unfold settle
    cases hv : value (pathOf s) with
    | none => exact ht
    | some text => exact ht.putAt (hvalue text hv)

section Joined

variable {base ours theirs : Tree} (hb : Laid base) (ho : Laid ours) (ht : Laid theirs)

include hb ho ht

theorem slot_of_mem_pathsOf {p : Path} (hp : p ∈ pathsOf [base, ours, theirs]) : ∃ s, p = pathOf s := by
  obtain ⟨t, hmem, text, hf⟩ := mem_pathsOf.1 hp
  simp only [List.mem_cons, List.not_mem_nil, or_false] at hmem
  have hslot : ∀ {t : Tree}, Laid t → (p, text) ∈ files t → ∃ s, p = pathOf s := by
    intro t h hf
    obtain ⟨s, hs, -⟩ := h.slot_of_mem_files hf
    exact ⟨s, hs⟩
  rcases hmem with rfl | rfl | rfl
  · exact hslot hb hf
  · exact hslot ho hf
  · exact hslot ht hf

theorem laid_joined : Laid (joined base ours theirs) := by
  refine laid_foldl_settle _ _ (fun p hp => ?_) .nil
  obtain ⟨s, rfl⟩ := slot_of_mem_pathsOf hb ho ht hp
  refine ⟨s, rfl, fun text htext => ?_⟩
  unfold mergedAt? at htext
  split at htext
  · exact ht.holds_of_fileAt? htext
  · exact ho.holds_of_fileAt? htext

end Joined

end Tree

/-! ## Repositories -/

namespace Repository

open Demarcate.Git.Tree (Laid)

/-- Every commit has a tree that holds rows. -/
def LaidOut (r : Repository) : Prop := ∀ (i : Nat) (c : Commit), r.commits[i]? = some c → Laid c.tree

namespace LaidOut

variable {r r₁ : Repository}

theorem of_commits (h : r.LaidOut) (hcommits : r₁.commits = r.commits) : r₁.LaidOut := by
  unfold LaidOut
  rw [hcommits]
  exact h

theorem push (h : r.LaidOut) {c : Commit} (hc : Laid c.tree) (hcommits : r₁.commits = r.commits.push c) :
    r₁.LaidOut := by
  intro i c' hi
  rw [hcommits, Array.getElem?_push] at hi
  split at hi
  · cases hi
    exact hc
  · exact h i c' hi

theorem treeAt (h : r.LaidOut) {id : CommitId} {t : Tree} (ht : r.treeAt id = .ok t) : Laid t := by
  obtain ⟨c, hc, rfl⟩ := treeAt_ok ht
  exact h _ c hc

end LaidOut

/-- A repository whose references have their names, and whose commits have trees that hold rows. -/
structure Orderly (r : Repository) : Prop where
  named : WellNamed r
  laid : LaidOut r

theorem Orderly.commit? {r : Repository} (h : r.Orderly) {id : CommitId} {c : Commit} (hc : r.commit? id = some c) :
    Laid c.tree :=
  h.laid _ _ (commit?_eq_some hc).2

/-- **Every repository is orderly** that its functions have made. -/
theorem closed_orderly : Closed Orderly where
  fresh number := ⟨closed_wellNamed.fresh number, fun i c h => by cases h⟩
  start h hs := by
    refine ⟨closed_wellNamed.start h.named hs, ?_⟩
    obtain ⟨author, -, hs⟩ := bind_ok hs
    obtain ⟨t, -, hs⟩ := bind_ok hs
    obtain ⟨r₂, hset, hs⟩ := bind_ok hs
    obtain ⟨n, -, rfl, -⟩ := setRef_ok hset
    cases hs
    exact h.laid.push .nil rfl
  commitTo h hc := by
    refine ⟨closed_wellNamed.commitTo h.named hc, ?_⟩
    obtain ⟨n, parent, before, existing, row, shown, -, -, hbefore, -, hrow, -, -, rfl⟩ := commitTo_made h.named hc
    refine h.laid.push (Laid.withRow ?_ fun r hr => ?_) rfl
    · exact h.laid _ _ (commit?_eq_some hbefore).2
    · rw [hr] at hrow
      exact resolve_key hrow
  branch h hb := by
    refine ⟨closed_wellNamed.branch h.named hb, ?_⟩
    obtain ⟨n, -, -, -, rfl⟩ := branch_ok hb
    exact h.laid.of_commits rfl
  merge h hm := by
    refine ⟨closed_wellNamed.merge h.named hm, ?_⟩
    obtain ⟨theirs, -, hcases⟩ := merge_ok hm
    rcases hcases with ⟨paths, -, rfl⟩ | ⟨-, rfl⟩ | ⟨htip, rfl⟩ |
        ⟨ours, tb, tours, tt, commit, -, htb, hours, htt, hjoin, rfl⟩
    · exact h.laid
    · exact h.laid
    · exact h.laid.of_commits rfl
    · refine h.laid.push ?_ rfl
      rw [merge_eq_joined hjoin]
      exact Tree.laid_joined (h.laid.treeAt htb) (h.laid.treeAt hours) (h.laid.treeAt htt)
  deleteRef h hd := by
    refine ⟨closed_wellNamed.deleteRef h.named hd, ?_⟩
    obtain ⟨n, -, rfl⟩ := deleteRef_ok hd
    exact h.laid.of_commits rfl

end Repository
end Demarcate.Git
