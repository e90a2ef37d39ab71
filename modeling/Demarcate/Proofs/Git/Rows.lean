import Demarcate.Git.Repository
/-!
# Rows — the files that trees of rows are made of

A tree that changes of rows have made has folders, and in them files (`Shaped`).  A path of two names leads to a row's
file, and what stands there is looked at by path (`fileAt?`): `fileAt?_withRow` is what one change does to it, and
`fileAt?_joined` what a merge does, which takes every path from the side that changed it.
-/
namespace Demarcate.Git

namespace Tree

/-- The tree has nothing but folders, and they have nothing but files. -/
def Shaped (t : Tree) : Prop :=
  ∀ e ∈ t, ∃ entries, e.2 = .folder entries ∧ ∀ f ∈ entries, ∃ text, f.2 = .file text

theorem mem_of_find? {name : String} {n : Node} : ∀ {t : Tree}, find? t name = some n → (name, n) ∈ t
  | [], h => by cases h
  | e :: t, h => by
    unfold find? SortedMap.findEntry at h
    split at h
    · rename_i hc
      rw [Std.LawfulEqOrd.eq_of_compare hc]
      cases h
      exact List.mem_cons_self
    · exact List.mem_cons_of_mem _ (mem_of_find? h)

theorem mem_of_folder? {t entries : Tree} {name : String} (h : folder? t name = some entries) :
    (name, .folder entries) ∈ t := by
  unfold folder? at h
  split at h
  · rename_i hf
    cases h
    exact mem_of_find? hf
  · cases h

theorem Shaped.folder? {t entries : Tree} {name : String} (h : Shaped t) (hf : Tree.folder? t name = some entries) :
    ∀ f ∈ entries, ∃ text, f.2 = .file text := by
  obtain ⟨entries', he, hfiles⟩ := h _ (mem_of_folder? hf)
  cases he
  exact hfiles

theorem Shaped.folder?_getD {t : Tree} (h : Shaped t) (name : String) :
    ∀ f ∈ (Tree.folder? t name).getD [], ∃ text, f.2 = .file text := by
  cases hf : Tree.folder? t name with
  | none => exact fun f hf => by cases hf
  | some entries => exact h.folder? hf

theorem Shaped.insert {t entries : Tree} (h : Shaped t) (name : String)
    (he : ∀ f ∈ entries, ∃ text, f.2 = .file text) : Shaped (Tree.insert t name (.folder entries)) := by
  intro e hmem
  rcases SortedMap.mem_insertEntry hmem with rfl | hmem
  · exact ⟨entries, rfl, he⟩
  · exact h e hmem

theorem Shaped.erase {t : Tree} (h : Shaped t) (name : String) : Shaped (Tree.erase t name) :=
  fun e he => h e (List.mem_filter.1 he).1

theorem files_insert {entries : Tree} (he : ∀ f ∈ entries, ∃ text, f.2 = .file text) (name text : String) :
    ∀ f ∈ Tree.insert entries name (.file text), ∃ text, f.2 = .file text := by
  intro f hmem
  rcases SortedMap.mem_insertEntry hmem with rfl | hmem
  · exact ⟨text, rfl⟩
  · exact he f hmem

/-! ## Paths of two names -/

theorem fileAt?_pair (t : Tree) (a b : String) : fileAt? t [a, b] =
    (folder? t a).bind fun rows =>
      match find? rows b with
      | some (.file text) => some text
      | _ => none := by
  unfold fileAt?
  simp only [nodeAt?]
  cases folder? t a <;> rfl

theorem fileAt?_putAt (text : String) (t : Tree) (a b a' b' : String) :
    fileAt? (putAt text t [a, b]) [a', b'] = if a' = a ∧ b' = b then some text else fileAt? t [a', b'] := by
  simp only [putAt, fileAt?_pair, folder?_insert_folder]
  by_cases ha : a' = a
  · subst ha
    rw [if_pos rfl]
    simp only [Option.bind_some, find?_insert]
    by_cases hb : b' = b
    · simp [hb]
    · rw [if_neg hb, if_neg fun h => hb h.2]
      cases folder? t a' with
      | none => rfl
      | some rows => rfl
  · rw [if_neg ha, if_neg fun h => ha h.1]

theorem Shaped.putAt {t : Tree} (h : Shaped t) (text a b : String) : Shaped (Tree.putAt text t [a, b]) :=
  h.insert a (files_insert (h.folder?_getD a) b text)

theorem mem_files_of_mem {name : String} {n : Node} {f : Path × String} : ∀ {t : Tree},
    (name, n) ∈ t → f ∈ filesBelow name n → f ∈ files t
  | e :: t, h, hf => by
    unfold files
    rw [List.mem_append]
    rcases List.mem_cons.1 h with rfl | h
    · exact .inl hf
    · exact .inr (mem_files_of_mem h hf)

theorem mem_of_mem_files {f : Path × String} : ∀ {t : Tree}, f ∈ files t → ∃ e ∈ t, f ∈ filesBelow e.1 e.2
  | [], h => by
    unfold files at h
    cases h
  | (name, n) :: t, h => by
    unfold files at h
    rcases List.mem_append.1 h with h | h
    · exact ⟨(name, n), List.mem_cons_self, h⟩
    · obtain ⟨e, he, hf⟩ := mem_of_mem_files h
      exact ⟨e, List.mem_cons_of_mem _ he, hf⟩

theorem mem_files_of_fileAt? {t : Tree} {a b text : String} (h : fileAt? t [a, b] = some text) :
    ([a, b], text) ∈ files t := by
  rw [fileAt?_pair] at h
  cases hf : folder? t a with
  | none => rw [hf] at h; cases h
  | some rows =>
    rw [hf, Option.bind_some] at h
    split at h
    · rename_i hb
      cases h
      refine mem_files_of_mem (mem_of_folder? hf) ?_
      unfold filesBelow
      refine List.mem_map.2 ⟨([b], _), mem_files_of_mem (mem_of_find? hb) ?_, rfl⟩
      unfold filesBelow
      exact List.mem_singleton.2 rfl
    · cases h

/-- The files of a shaped tree have paths of two names. -/
theorem Shaped.pair_of_mem_files {t : Tree} (h : Shaped t) {f : Path × String} (hf : f ∈ files t) :
    ∃ a b, f.1 = [a, b] := by
  obtain ⟨e, he, hf⟩ := mem_of_mem_files hf
  obtain ⟨entries, hfolder, hentries⟩ := h e he
  rw [hfolder] at hf
  unfold filesBelow at hf
  obtain ⟨f', hf', rfl⟩ := List.mem_map.1 hf
  obtain ⟨e', he', hf'⟩ := mem_of_mem_files hf'
  obtain ⟨text, hfile⟩ := hentries e' he'
  rw [hfile] at hf'
  unfold filesBelow at hf'
  rw [List.mem_singleton] at hf'
  exact ⟨e.1, e'.1, by rw [hf']⟩

/-! ## Merging -/

theorem isSome_get?_foldl_insert (p : Path) : ∀ (l : List (Path × Unit)) (m : SortedMap Path Unit),
    ((l.foldl (fun m e => m.insert e.1 e.2) m).get? p).isSome = true ↔
      (m.get? p).isSome = true ∨ p ∈ l.map (·.1)
  | [], m => by simp
  | e :: l, m => by
    rw [List.foldl_cons, isSome_get?_foldl_insert p l, SortedMap.get?_insert, List.map_cons, List.mem_cons]
    by_cases h : p = e.1 <;> simp [h]

theorem mem_pathsOf {ts : List Tree} {p : Path} : p ∈ pathsOf ts ↔ ∃ t ∈ ts, ∃ text, (p, text) ∈ files t := by
  unfold pathsOf SortedMap.keys SortedMap.ofList
  have hkeys : ∀ m : SortedMap Path Unit, p ∈ m.entries.map (·.1) ↔ (m.get? p).isSome = true := by
    intro m
    rw [Option.isSome_iff_exists, List.mem_map]
    constructor
    · rintro ⟨⟨p', u⟩, hm, rfl⟩
      exact ⟨u, SortedMap.get?_eq_some_iff.2 hm⟩
    · rintro ⟨u, hu⟩
      exact ⟨(p, u), SortedMap.get?_eq_some_iff.1 hu, rfl⟩
  rw [hkeys, isSome_get?_foldl_insert]
  simp only [SortedMap.get?_empty, Option.isSome_none, Bool.false_eq_true, false_or, List.mem_map, List.mem_flatMap]
  constructor
  · rintro ⟨e, ⟨t, ht, f, hf, rfl⟩, rfl⟩
    exact ⟨t, ht, f.2, hf⟩
  · rintro ⟨t, ht, text, hf⟩
    exact ⟨(p, ()), ⟨t, ht, (p, text), hf, rfl⟩, rfl⟩

/-- Puts a file where there is to be one. -/
def settle (value : Path → Option String) (t : Tree) (p : Path) : Tree :=
  match value p with
  | some text => putAt text t p
  | none => t

theorem joined_eq (base ours theirs : Tree) : joined base ours theirs =
    (pathsOf [base, ours, theirs]).foldl (settle (mergedAt? base ours theirs)) [] := rfl

theorem fileAt?_foldl_settle (value : Path → Option String) (a b : String) : ∀ (ps : List Path) (t : Tree),
    (∀ p ∈ ps, ∃ a b, p = [a, b]) →
    fileAt? (ps.foldl (settle value) t) [a, b] =
      if [a, b] ∈ ps ∧ (value [a, b]).isSome then value [a, b] else fileAt? t [a, b]
  | [], t, _ => by simp
  | p :: ps, t, hps => by
    obtain ⟨a', b', rfl⟩ := hps p List.mem_cons_self
    rw [List.foldl_cons, fileAt?_foldl_settle value a b ps _ fun p hp => hps p (List.mem_cons_of_mem _ hp), settle]
    cases hv : value [a', b'] with
    | none =>
      by_cases h : [a, b] = [a', b']
      · rw [h, hv]
        simp
      · simp only [List.mem_cons, h, false_or]
    | some text =>
      simp only
      rw [fileAt?_putAt]
      by_cases h : [a, b] = [a', b']
      · simp only [List.cons.injEq, and_true] at h
        obtain ⟨rfl, rfl⟩ := h
        simp [hv]
      · have h' : ¬ (a = a' ∧ b = b') := by
          intro h'
          exact h (by rw [h'.1, h'.2])
        simp only [List.mem_cons, h, false_or, if_neg h']

theorem shaped_foldl_settle (value : Path → Option String) : ∀ (ps : List Path) (t : Tree),
    (∀ p ∈ ps, ∃ a b, p = [a, b]) → Shaped t → Shaped (ps.foldl (settle value) t)
  | [], _, _, ht => ht
  | p :: ps, t, hps, ht => by
    obtain ⟨a, b, rfl⟩ := hps p List.mem_cons_self
    rw [List.foldl_cons]
    refine shaped_foldl_settle value ps _ (fun p hp => hps p (List.mem_cons_of_mem _ hp)) ?_
    unfold settle
    cases value [a, b] with
    | none => exact ht
    | some text => exact ht.putAt text a b

section Joined

variable {base ours theirs : Tree} (hb : Shaped base) (ho : Shaped ours) (ht : Shaped theirs)

include hb ho ht

theorem pair_of_mem_pathsOf : ∀ p ∈ pathsOf [base, ours, theirs], ∃ a b, p = [a, b] := by
  intro p hp
  obtain ⟨t, hmem, text, hf⟩ := mem_pathsOf.1 hp
  simp only [List.mem_cons, List.not_mem_nil, or_false] at hmem
  rcases hmem with rfl | rfl | rfl
  · exact hb.pair_of_mem_files hf
  · exact ho.pair_of_mem_files hf
  · exact ht.pair_of_mem_files hf

/-- **A merged tree has at every path what the side has that changed it.** -/
theorem fileAt?_joined (a b : String) :
    fileAt? (joined base ours theirs) [a, b] = mergedAt? base ours theirs [a, b] := by
  rw [joined_eq, fileAt?_foldl_settle _ a b _ _ (pair_of_mem_pathsOf hb ho ht)]
  split
  · rfl
  · rename_i hnot
    have hempty : fileAt? [] [a, b] = none := by
      rw [fileAt?_pair]
      rfl
    rw [hempty]
    cases hm : mergedAt? base ours theirs [a, b] with
    | none => rfl
    | some text =>
      -- what is merged to a path was found on one of the sides
      refine absurd ⟨mem_pathsOf.2 ?_, by rw [hm]; rfl⟩ hnot
      unfold mergedAt? at hm
      split at hm
      · exact ⟨theirs, by simp, text, mem_files_of_fileAt? hm⟩
      · exact ⟨ours, by simp, text, mem_files_of_fileAt? hm⟩

theorem shaped_joined : Shaped (joined base ours theirs) :=
  shaped_foldl_settle _ _ _ (pair_of_mem_pathsOf hb ho ht) fun e he => by cases he

end Joined

end Tree

/-! ## Rows -/

/-- Where a row's file is. -/
def pathOf (s : Slot) : Path := [s.table.text, s.key.fileName]

theorem pathOf_inj {s s' : Slot} (h : pathOf s = pathOf s') : s = s' := by
  obtain ⟨htable, hfile⟩ := List.cons.inj h
  have hkey := RowKey.fileName_inj (List.cons.inj hfile).1
  cases s
  cases s'
  rw [Slot.mk.injEq]
  exact ⟨TableName.text_inj htable, hkey⟩

open Demarcate.Git.Tree (Shaped fileAt?)

theorem fileAt?_pathOf (t : Tree) (s : Slot) : fileAt? t (pathOf s) =
    match Repository.entryAt? t s with
    | some (.file text) => some text
    | _ => none := by
  unfold pathOf Repository.entryAt?
  rw [Tree.fileAt?_pair]
  cases t.folder? s.table.text <;> rfl

theorem fileAt?_withRow (t : Tree) (s s' : Slot) (row : Option Row) :
    fileAt? (Repository.withRow t s row) (pathOf s') =
      if s' = s then row.map Row.encode else fileAt? t (pathOf s') := by
  rw [fileAt?_pathOf, fileAt?_pathOf, Repository.entryAt?_withRow]
  by_cases hs : s' = s
  · rw [if_pos hs, if_pos hs]
    cases row <;> rfl
  · rw [if_neg hs, if_neg hs]

/-- Only the slot of the row is changed. -/
theorem eq_of_differAt_withRow {t : Tree} {s s' : Slot} {row : Option Row}
    (h : Tree.differAt t (Repository.withRow t s row) (pathOf s') = true) : s' = s := by
  unfold Tree.differAt at h
  rw [fileAt?_withRow, bne_iff_ne] at h
  exact Classical.byContradiction fun hne => h (if_neg hne).symm

theorem shaped_withRow {t : Tree} (h : Shaped t) (s : Slot) (row : Option Row) :
    Shaped (Repository.withRow t s row) := by
  unfold Repository.withRow
  cases row with
  | some row => exact h.insert _ (Tree.files_insert (h.folder?_getD _) _ _)
  | none =>
    simp only
    split
    · exact h.erase _
    · rename_i rest hrest
      refine h.insert _ fun f hf => h.folder?_getD s.table.text f ?_
      have : f ∈ Tree.erase ((t.folder? s.table.text).getD []) s.key.fileName := hf
      exact (List.mem_filter.1 this).1

end Demarcate.Git
