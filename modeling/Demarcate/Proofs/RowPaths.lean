import Demarcate.Git.Edit
import Demarcate.Proofs.Conflicts
import Demarcate.Proofs.Git.Reading
import Demarcate.Proofs.Git.Shape
import Demarcate.Proofs.Git.ThreeWay
import Demarcate.Proofs.Grammar
import Demarcate.Proofs.Reachable
import Mathlib.Data.Set.List
/-!
# RowPaths — paths that lead to one row each

Neither the name of a table nor a key has a slash or a dot in it, so a row's path has two components, of which none is
hidden, and it is the path of no other row (`Slot.Allowed.path_inj`): not even of one whose names could not be a table's
and a key's.  Every tree takes such names (`Slot.Allowed.nameOk`).  A commit that is refused lists the paths of the rows
that stand against it (`Session.Against`), whichever backend refuses it, and so the rows can be told from the list.
-/
namespace Demarcate

open NameGrammar (tables keys)

/-! ## The characters of a path -/

theorem IsPlain.ne {c d : Char} (h : IsPlain c) (hd : NameRule.allowed d = false) : c ≠ d := by
  rintro rfl
  rw [(NameRule.allowed_iff c).2 h] at hd
  cases hd

theorem IsPlain.ne_dot {c : Char} (h : IsPlain c) : c ≠ '.' := h.ne (by decide)

/-- A character of one case only is the lower case of no other. -/
theorem eq_of_toLower {c d : Char} (hlower : d.toLower = d) (hupper : d.toUpper = d) (h : c.toLower = d) : c = d := by
  have hcases := (NameRule.toLower_eq_iff hlower c).1 h
  rwa [hupper, or_self] at hcases

/-- A name begins with one of its characters. -/
theorem NameGrammar.Accepts.cons {g : NameGrammar} {text : String} (h : g.Accepts text) :
    ∃ c rest, text.toList = c :: rest ∧ IsPlain c := by
  cases hlist : text.toList with
  | nil =>
    have hempty : text = "" := String.toList_inj.1 hlist
    have := h.sized.1
    rw [hempty] at this
    exact absurd this (by decide)
  | cons c rest => exact ⟨c, rest, rfl, h.plain c (by rw [hlist]; exact List.mem_cons_self)⟩

namespace Git.Path

/-- The component can be seen: it is not empty and does not start with a dot. -/
def IsShown (part : String) : Prop := ∃ c rest, part.toList = c :: rest ∧ c ≠ '.'

end Git.Path

namespace Git.Repository

/-- Nothing leads into the folder of the repository without a dot in front or a tilde. -/
theorem leadsInside_eq_false {name : List Char} (hdot : name.head? ≠ some '.') (htilde : '~' ∉ name) :
    leadsInside name = false := by
  refine List.any_eq_false.2 fun own hown => ?_
  have hleads : own.isPrefixOf name = false := by
    rw [← Bool.not_eq_true, List.isPrefixOf_iff_prefix]
    intro hlead
    simp only [ownNames, List.map_cons, List.map_nil, List.mem_cons, List.not_mem_nil, or_false] at hown
    rcases hown with rfl | rfl
    · obtain ⟨rest, rfl⟩ := hlead
      exact hdot rfl
    · exact htilde (hlead.subset (by decide))
  simp only [hleads, Bool.false_and, Bool.false_eq_true, not_false_iff]

theorem nameOk_of_shown {name : String} (hshown : Path.IsShown name) (hzero : '\x00' ∉ name.toList)
    (htilde : '~' ∉ name.toList) : nameOk name = true := by
  obtain ⟨c, rest, hlist, hc⟩ := hshown
  have hinside : leadsInside (name.toList.map Char.toLower) = false := by
    refine leadsInside_eq_false ?_ fun hmem => ?_
    · rw [hlist, List.map_cons, List.head?_cons]
      exact fun h => hc (eq_of_toLower (by decide) (by decide) (Option.some.inj h))
    · obtain ⟨d, hd, hlower⟩ := List.mem_map.1 hmem
      exact htilde (eq_of_toLower (by decide) (by decide) hlower ▸ hd)
  have hne : ∀ other : String, other.toList.head? ≠ some c → (name != other) = true := fun other hother =>
    bne_iff_ne.2 fun heq => hother (by rw [← heq, hlist]; rfl)
  unfold nameOk
  rw [hne "" (by simp), hne "." (by simpa using hc.symm), hne ".." (by simpa using hc.symm), hinside,
    String.contains_char_eq]
  simpa using hzero

end Git.Repository

/-! ## The path of a row -/

theorem Slot.toList_path (s : Slot) : s.path.toList = s.table.text.toList ++ '/' :: s.key.fileName.toList := by
  have hslash : "/".toList = ['/'] := rfl
  rw [path, String.toList_append, String.toList_append, hslash, List.append_assoc, List.singleton_append]

theorem Slot.ofText_path_of_noSlash {s : Slot} (htable : '/' ∉ s.table.text.toList)
    (hfile : '/' ∉ s.key.fileName.toList) : Git.Path.ofText s.path = [s.table.text, s.key.fileName] := by
  unfold Git.Path.ofText
  rw [s.toList_path, Git.RefName.components_append_slash htable, Git.RefName.components_of_noSlash hfile]
  simp only [List.map_cons, List.map_nil, String.ofList_toList]

/-- The path of a row tells which row it is. -/
structure Slot.Charted (s : Slot) : Prop where
  components : Git.Path.ofText s.path = [s.table.text, s.key.fileName]
  shown : ∀ part ∈ Git.Path.ofText s.path, Git.Path.IsShown part
  unique : ∀ s' : Slot, s'.path = s.path → s' = s
  /-- The key is what the file name is without its suffix. -/
  key : (RowKey.stem? s.key.fileName).map RowKey.parse = some (.ok s.key)

namespace Slot.Allowed

variable {s : Slot} (h : s.Allowed)

include h

theorem table_accepted : tables.Accepts s.table.text := (TableName.parse_ok_iff.1 h.table).2

theorem key_accepted : keys.Accepts s.key.text := (RowKey.parse_ok_iff.1 h.key).2

theorem not_mem_table {c : Char} (hc : NameRule.allowed c = false) : c ∉ s.table.text.toList := fun hmem =>
  (h.table_accepted.plain c hmem).ne hc rfl

theorem noSlash_table : '/' ∉ s.table.text.toList := h.not_mem_table (by decide)

theorem not_mem_fileName {c : Char} (hc : NameRule.allowed c = false) (hsuffix : c ∉ RowKey.fileSuffix.toList) :
    c ∉ s.key.fileName.toList := by
  intro hmem
  rw [RowKey.fileName, String.toList_append, List.mem_append] at hmem
  obtain hkey | hmem := hmem
  · exact (h.key_accepted.plain c hkey).ne hc rfl
  · exact hsuffix hmem

theorem noSlash_fileName : '/' ∉ s.key.fileName.toList := h.not_mem_fileName (by decide) (by decide)

/-- A table's name and a key's file name are all that a path has. -/
theorem ofText_path : Git.Path.ofText s.path = [s.table.text, s.key.fileName] :=
  ofText_path_of_noSlash h.noSlash_table h.noSlash_fileName

theorem isShown {part : String} (hpart : part ∈ Git.Path.ofText s.path) : Git.Path.IsShown part := by
  rw [h.ofText_path, List.mem_cons, List.mem_singleton] at hpart
  rcases hpart with rfl | rfl
  · obtain ⟨c, rest, hlist, hc⟩ := h.table_accepted.cons
    exact ⟨c, rest, hlist, hc.ne_dot⟩
  · obtain ⟨c, rest, hlist, hc⟩ := h.key_accepted.cons
    refine ⟨c, rest ++ RowKey.fileSuffix.toList, ?_, hc.ne_dot⟩
    rw [RowKey.fileName, String.toList_append, hlist, List.cons_append]

/-- **A tree takes the names of every row.** -/
theorem nameOk : Git.Repository.nameOk s.table.text = true ∧ Git.Repository.nameOk s.key.fileName = true := by
  have hshown : ∀ part ∈ [s.table.text, s.key.fileName], Git.Path.IsShown part := fun part hpart =>
    h.isShown (h.ofText_path.symm ▸ hpart)
  constructor
  · exact Git.Repository.nameOk_of_shown (hshown _ List.mem_cons_self) (h.not_mem_table (by decide))
      (h.not_mem_table (by decide))
  · exact Git.Repository.nameOk_of_shown (hshown _ (List.mem_cons_of_mem _ List.mem_cons_self))
      (h.not_mem_fileName (by decide) (by decide)) (h.not_mem_fileName (by decide) (by decide))

/-- The path has one slash, so any other row with that path has it in the same place. -/
theorem path_inj {s' : Slot} (hpath : s'.path = s.path) : s' = s := by
  have hcount : s'.path.toList.count '/' = 1 := by
    rw [hpath, s.toList_path, List.count_append, List.count_cons_self, List.count_eq_zero.2 h.noSlash_table,
      List.count_eq_zero.2 h.noSlash_fileName]
  rw [s'.toList_path, List.count_append, List.count_cons_self] at hcount
  have htable : '/' ∉ s'.table.text.toList := List.count_eq_zero.1 (by omega)
  have hfile : '/' ∉ s'.key.fileName.toList := List.count_eq_zero.1 (by omega)
  have hparts := congrArg Git.Path.ofText hpath
  rw [ofText_path_of_noSlash htable hfile, h.ofText_path] at hparts
  exact Git.pathOf_inj hparts

theorem parse_stem : (RowKey.stem? s.key.fileName).map RowKey.parse = some (.ok s.key) := by
  rw [RowKey.stem?_fileName, Option.map_some, h.key]

theorem charted : s.Charted := ⟨h.ofText_path, fun _ => h.isShown, fun _ => h.path_inj, h.parse_stem⟩

end Slot.Allowed

/-! ## The rows of a refused commit -/

/-- The row in the slot stands against a commit of the session: in memory, another row is committed there than the one
that was when the transaction first wrote the slot; in a repository, both its branch and `main` have changed the file
since the base. -/
def Session.Against (st : Stores) : Session → Slot → Prop
  | .memory _ store (some u), slot => ∃ row, (st.memory store).recorded? u slot = some row ∧
      Memory.sameRow ((st.memory store).tables.row? slot) row = false
  | .git _ handle (some tx), slot => ∃ tip head base ours theirs, (st.repository handle).tip = .ok tip ∧
      (st.repository handle).transactionTip tx.id.lowerText = .ok head ∧
      (st.repository handle).treeAt tx.base = .ok base ∧ (st.repository handle).treeAt tip = .ok ours ∧
      (st.repository handle).treeAt head = .ok theirs ∧
      Git.Tree.differAt base ours (Git.pathOf slot) = true ∧ Git.Tree.differAt base theirs (Git.pathOf slot) = true
  | _, _ => False

namespace Session

variable {st : Stores} {sid : Ulid} {i : Nat} {id : String} {paths : List String}

/-- What a session's refused commit lists. -/
def Lists (st : Stores) (s : Session) (paths : List String) : Prop :=
  ∃ slots : List Slot, slots.Nodup ∧ paths = slots.map Slot.path ∧ ∀ slot, slot ∈ slots ↔ s.Against st slot

theorem lists_memory {u : Ulid} (h : ((memory sid i (some u)).commit st).1 = .error (.conflict id paths)) :
    (memory sid i (some u)).Lists st paths := by
  rw [commit_memory] at h
  obtain ⟨-, hok⟩ | ⟨-, hrefused⟩ := Memory.Store.commit_eq (st.memory i) u
  · rw [hok] at h
    cases h
  · rw [hrefused] at h
    obtain ⟨-, rfl⟩ := ResourceError.conflict.inj (Except.error.inj h)
    refine ⟨_, SortedMap.nodup_of_sorted (Memory.Store.stale_sorted _ _), rfl, fun slot => ?_⟩
    rw [Memory.Store.mem_stale]
    unfold Against Memory.Store.recorded?
    simp only [Option.map_eq_some_iff]
    exact ⟨fun ⟨p, hp, hrow⟩ => ⟨_, ⟨p, hp, rfl⟩, hrow⟩, fun ⟨_, ⟨p, hp, rfl⟩, hrow⟩ => ⟨p, hp, hrow⟩⟩

theorem commit_git_conflict {tx : Git.Transaction}
    (h : ((git sid i (some tx)).commit st).1 = .error (.conflict id paths)) :
    ∃ ps r, (st.repository i).merge (st.handle i).author tx.id.lowerText tx.base = .ok (.conflict ps, r) ∧
      paths = ps.map Git.Path.text := by
  unfold commit Stores.mergeBranch at h
  cases hm : (st.repository i).merge (st.handle i).author tx.id.lowerText tx.base with
  | error e =>
    simp only [hm, Except.error.injEq, reduceCtorEq] at h
  | ok merged =>
    obtain ⟨outcome, r⟩ := merged
    cases outcome with
    | conflict ps =>
      simp only [hm, Except.error.injEq, ResourceError.conflict.injEq] at h
      exact ⟨ps, r, rfl, h.2.symm⟩
    | unchanged => simp only [hm, reduceCtorEq] at h
    | fastForward c => simp only [hm, reduceCtorEq] at h
    | merged c => simp only [hm, reduceCtorEq] at h

theorem lists_git (hst : st.Reachable) {tx : Git.Transaction}
    (h : ((git sid i (some tx)).commit st).1 = .error (.conflict id paths)) :
    (git sid i (some tx)).Lists st paths := by
  obtain ⟨ps, r, hm, rfl⟩ := commit_git_conflict h
  obtain ⟨-, tip, head, base, ours, theirs, htip, hhead, hbase, hours, htheirs, hrefused⟩ :=
    Git.Repository.merge_refused hm
  have hlaid := (hst.orderly i).laid
  have hmem : ∀ p, p ∈ Git.Tree.overlaps base ours theirs ↔ _ :=
    fun p => Git.Tree.mem_overlaps_iff (hlaid.treeAt hbase) (hlaid.treeAt hours) (hlaid.treeAt htheirs)
  obtain rfl : Git.Tree.overlaps base ours theirs = ps := by
    cases hoverlaps : Git.Tree.overlaps base ours theirs with
    | cons p ps' =>
      rw [Git.Tree.merge_overlapping hoverlaps] at hrefused
      exact Except.error.inj hrefused
    | nil =>
      rw [Git.Tree.merge_laid (hlaid.treeAt hbase) (hlaid.treeAt hours) (hlaid.treeAt htheirs) hoverlaps] at hrefused
      cases hrefused
  have hrange : Git.Tree.overlaps base ours theirs ∈ Set.range (List.map Git.pathOf) := by
    rw [Set.range_list_map]
    exact fun p hp => let ⟨s, hs, _⟩ := (hmem p).1 hp; ⟨s, hs.symm⟩
  obtain ⟨slots, hslots⟩ := hrange
  have hnodup := Git.Tree.nodup_overlaps base ours theirs
  rw [← hslots] at hnodup
  refine ⟨slots, List.Pairwise.of_map Git.pathOf (fun _ _ hne heq => hne (congrArg _ heq)) hnodup, ?_, fun slot => ?_⟩
  · rw [← hslots, List.map_map]
    exact List.map_congr_left fun s _ => Git.text_pathOf s
  · have hslot : slot ∈ slots ↔ Git.pathOf slot ∈ Git.Tree.overlaps base ours theirs := by
      rw [← hslots]
      exact ⟨List.mem_map_of_mem, fun h => let ⟨_, hs, heq⟩ := List.mem_map.1 h; Git.pathOf_inj heq ▸ hs⟩
    rw [hslot, hmem]
    constructor
    · rintro ⟨s, heq, hdiffer⟩
      obtain rfl := Git.pathOf_inj heq
      exact ⟨tip, head, base, ours, theirs, htip, hhead, hbase, hours, htheirs, hdiffer⟩
    · rintro ⟨tip', head', base', ours', theirs', htip', hhead', hbase', hours', htheirs', hdiffer⟩
      cases htip.symm.trans htip'
      cases hhead.symm.trans hhead'
      cases hbase.symm.trans hbase'
      cases hours.symm.trans hours'
      cases htheirs.symm.trans htheirs'
      exact ⟨slot, rfl, hdiffer⟩

/-- A refused commit lists the rows that stand against it, each of them once. -/
theorem lists_of_conflict (hst : st.Reachable) (s : Session)
    (h : (s.commit st).1 = .error (.conflict id paths)) : s.Lists st paths := by
  cases s with
  | memory sid i tx =>
    cases tx with
    | none => cases h
    | some u => exact lists_memory h
  | git sid i tx =>
    cases tx with
    | none => cases h
    | some tx => exact lists_git hst h

/-- The row of a path is against the commit, where the path is listed. -/
theorem Lists.mem_iff {s : Session} (h : s.Lists st paths) {slot : Slot} (hallowed : slot.Allowed) :
    slot.path ∈ paths ↔ s.Against st slot := by
  obtain ⟨slots, -, rfl, hagainst⟩ := h
  rw [← hagainst, List.mem_map]
  exact ⟨fun ⟨_, hmem, hpath⟩ => hallowed.path_inj hpath ▸ hmem, fun hmem => ⟨slot, hmem, rfl⟩⟩

end Session

/-- **Names follow their grammar, and paths tell rows apart.**  A text is a table's name or a key where the grammar has
it, and otherwise the first rule that it breaks is reported.  Every path of a row leads to that row alone, and a
commit that either backend refuses lists exactly the rows that stand against it. -/
theorem names_and_paths :
    (∀ text t, TableName.parse text = .ok t ↔ t = ⟨text⟩ ∧ tables.Accepts text) ∧
    (∀ text e, TableName.parse text = .error e ↔ tables.Rejects text e) ∧
    (∀ text k, RowKey.parse text = .ok k ↔ k = ⟨text⟩ ∧ keys.Accepts text) ∧
    (∀ text e, RowKey.parse text = .error e ↔ keys.Rejects text e) ∧
    (∀ s : Slot, s.Allowed → s.Charted) ∧
    ∀ st : Stores, st.Reachable → ∀ (s : Session) (id : String) (paths : List String),
      (s.commit st).1 = .error (.conflict id paths) →
        s.Lists st paths ∧ ∀ slot : Slot, slot.Allowed → (slot.path ∈ paths ↔ s.Against st slot) := by
  refine ⟨fun _ _ => TableName.parse_ok_iff, fun _ _ => TableName.parse_error_iff, fun _ _ => RowKey.parse_ok_iff,
    fun _ _ => RowKey.parse_error_iff, fun _ hs => hs.charted, fun st hst s id paths h => ?_⟩
  have hlists := s.lists_of_conflict hst h
  exact ⟨hlists, fun slot => hlists.mem_iff⟩

/-- Where two sessions insert one row, the path of the row is all that the second commit is refused for. -/
theorem inserted_twice_is_listed :
    let row : Row := ⟨⟨"x"⟩, 1, "t", "t", ∅⟩
    let outside : Session := .memory ⟨0⟩ 0 none
    let begun := (outside.begin (Stores.addMemory {}).2).2
    let inside : Session := .memory ⟨0⟩ 0 (some (Ulid.issued 0))
    let written := (inside.apply begun ⟨"notes"⟩ (.insert row)).2
    let last := (outside.apply written ⟨"notes"⟩ (.insert row)).2
    Slot.Charted ⟨⟨"notes"⟩, ⟨"x"⟩⟩ ∧ last.Reachable ∧
      (inside.commit last).1 = .error (.conflict (Ulid.issued 0).text ["notes/x.json"]) ∧
      inside.Against last ⟨⟨"notes"⟩, ⟨"x"⟩⟩ := by
  intro row outside begun inside written last
  have hallowed : Slot.Allowed ⟨⟨"notes"⟩, ⟨"x"⟩⟩ := ⟨by decide, by decide⟩
  have hlast : last.Reachable := .apply (.apply (.begin (.addMemory (.new 0 0)) _) _ _ _) _ _ _
  have hrefused : (inside.commit last).1 = .error (.conflict (Ulid.issued 0).text ["notes/x.json"]) := by
    have hstale : Memory.Store.stale (last.memory 0).tables ((last.memory 0).writeSet (Ulid.issued 0)) =
        [⟨⟨"notes"⟩, ⟨"x"⟩⟩] := by decide +kernel
    obtain ⟨hnil, -⟩ | ⟨-, hcommit⟩ := (last.memory 0).commit_eq (Ulid.issued 0)
    · rw [hstale] at hnil
      cases hnil
    · rw [Session.commit_memory, hcommit, hstale]
      rfl
  exact ⟨names_and_paths.2.2.2.2.1 _ hallowed, hlast, hrefused,
    ((names_and_paths.2.2.2.2.2 _ hlast inside _ _ hrefused).2 _ hallowed).1 (by decide)⟩

end Demarcate
