import Demarcate.Proofs.Git.Layout
import Demarcate.Proofs.Grammar
import Demarcate.Proofs.Json.Records
import Demarcate.Proofs.Memory.Tables
/-!
# Reading — trees whose rows can all be read

A tree reads as tables (`Reads`) if every row of theirs is read from its file and nothing else is.  Then a table is read
whole, in order of key (`Reads.tableIn`).  A change keeps that, where it puts a row that is read back from its text
(`Reads.withRow`).
-/
namespace Demarcate

theorem RowKey.stem?_fileName (k : RowKey) : RowKey.stem? k.fileName = some k.text := by
  have hlist : k.fileName.toList = k.text.toList ++ fileSuffix.toList := by
    unfold fileName
    rw [String.toList_append]
  have hlength : fileSuffix.length = fileSuffix.toList.length := by decide
  unfold stem?
  simp only
  rw [hlist, hlength, List.length_append, Nat.add_sub_cancel, List.drop_left, List.take_left, if_pos]
  · rw [String.ofList_toList]
  · simp

theorem RowKey.parse_ok {text : String} {k : RowKey} (h : RowKey.parse text = .ok k) : k.text = text := by
  obtain ⟨rfl, -⟩ := parse_ok_iff.1 h
  rfl

/-- A key whose text can be a key's is read back from it. -/
theorem RowKey.eq_of_parse {k key : RowKey} (h : RowKey.parse k.text = .ok key) : key = k := by
  have htext := parse_ok h
  cases k
  cases key
  exact congrArg RowKey.mk htext

theorem Row.decodeRecord_key {source : Json.Source} {d : Json.Document} {key : String} {made : RowKey → Row}
    (h : Row.decodeRecord source d = .ok (key, made)) (k : RowKey) : (made k).key = k := by
  unfold decodeRecord at h
  split at h
  · obtain ⟨inside, -, h⟩ := bind_ok h
    obtain ⟨p, -, h⟩ := bind_ok h
    obtain ⟨_, -, h⟩ := bind_ok h
    obtain ⟨key, -, h⟩ := bind_ok h
    obtain ⟨version, -, h⟩ := bind_ok h
    obtain ⟨createdAt, -, h⟩ := bind_ok h
    obtain ⟨updatedAt, -, h⟩ := bind_ok h
    cases h
    rfl
  · cases h

/-- A row that is read has the key that its file is named for. -/
theorem Row.decode_key {text : String} {k : RowKey} {row : Row} (h : Row.decode text k = .ok row) : row.key = k := by
  unfold decode at h
  split at h
  · cases h
  · rename_i key made hd
    split at h
    · cases h
      exact decodeRecord_key (Json.decodeText_ok hd) k
    · cases h

/-- The row is read back from its text, and its file has a name that rows can have. -/
structure Row.Legible (row : Row) : Prop where
  key : RowKey.parse row.key.text = .ok row.key
  text : Row.decode row.encode row.key = .ok row

namespace Memory.Tables

theorem row?_eq (tables : Tables) (s : Slot) : tables.row? s = (tables.rowsOf s.table).get? s.key := by
  unfold row? rowsOf
  cases tables.get? s.table <;> rfl

end Memory.Tables

namespace Git

open Memory (Tables)
open Repository (rowIn tableIn entryAt? entryRow withRow)
open Demarcate.Git.Tree (Laid Filed)

/-! ## Rows of a table's folder -/

theorem rowsOf_ok {entries : Tree} {rows : List Row} (h : Repository.rowsOf entries = .ok rows) :
    ∀ e ∈ entries, ∃ row?, entryRow e.1 e.2 = .ok row? := by
  induction entries generalizing rows with
  | nil => exact fun e he => by cases he
  | cons e entries ih =>
    obtain ⟨row?, hrow, h⟩ := bind_ok h
    obtain ⟨rest, hrest, -⟩ := bind_ok h
    intro e' he'
    rcases List.mem_cons.1 he' with rfl | he'
    · exact ⟨row?, hrow⟩
    · exact ih hrest e' he'

/-- **The file of a key is read as a row**, if it can be read at all. -/
theorem entryRow_ok {k : RowKey} {text : String} {row? : Option Row}
    (h : entryRow k.fileName (.file text) = .ok row?) :
    RowKey.parse k.text = .ok k ∧ ∃ row, row? = some row ∧ Row.decode text k = .ok row := by
  unfold entryRow at h
  rw [RowKey.stem?_fileName] at h
  dsimp only at h
  cases hparse : RowKey.parse k.text with
  | error e =>
    rw [hparse] at h
    cases h
  | ok key =>
    rw [hparse, RowKey.eq_of_parse hparse] at h
    cases hd : Row.decode text k with
    | error e =>
      dsimp only at h
      rw [hd] at h
      cases h
    | ok row =>
      dsimp only at h
      rw [hd] at h
      cases h
      exact ⟨congrArg Except.ok (RowKey.eq_of_parse hparse), row, rfl, rfl⟩

/-- Entries that are rows' files are read one by one. -/
theorem rowsOf_eq {value : RowKey → Option Row} : ∀ {entries : Tree},
    (∀ e ∈ entries, ∃ k row, e.1 = k.fileName ∧ entryRow e.1 e.2 = .ok (some row) ∧ value k = some row ∧ row.key = k) →
    ∃ rows, Repository.rowsOf entries = .ok rows ∧ (∀ row ∈ rows, value row.key = some row) ∧
      ∀ k row n, (RowKey.fileName k, n) ∈ entries → value k = some row → row ∈ rows
  | [], _ => ⟨[], rfl, (fun row h => by cases h), fun k row n h => by cases h⟩
  | (name, n) :: entries, h => by
    obtain ⟨k, row, hname, hrow, hvalue, hkey⟩ := h _ List.mem_cons_self
    obtain ⟨rows, hrows, hsub, hall⟩ := rowsOf_eq fun e he => h e (List.mem_cons_of_mem _ he)
    refine ⟨row :: rows, ?_, fun row' hr => ?_, fun k' row' n' hmem hv => ?_⟩
    · unfold Repository.rowsOf
      rw [hrow, hrows]
      rfl
    · rcases List.mem_cons.1 hr with rfl | hr
      · rw [hkey]
        exact hvalue
      · exact hsub row' hr
    · rcases List.mem_cons.1 hmem with heq | hmem
      · rw [Prod.mk.injEq] at heq
        have hk : k' = k := RowKey.fileName_inj (heq.1.trans hname)
        rw [hk, hvalue, Option.some.injEq] at hv
        rw [hv]
        exact List.mem_cons_self
      · exact List.mem_cons_of_mem _ (hall k' row' n' hmem hv)

/-! ## Tables -/

/-- Every row of the tables is read from the tree, under a name that rows can have, and nothing else is. -/
structure Reads (t : Tree) (tables : Tables) : Prop where
  laid : Laid t
  row : ∀ s, rowIn t s = .ok (tables.row? s)
  key : ∀ s row, tables.row? s = some row → RowKey.parse s.key.text = .ok s.key

theorem Reads.nil : Reads [] ∅ :=
  ⟨⟨.nil, fun e he => by cases he⟩, fun s => rfl, fun s row hs => by cases hs⟩

theorem entryAt?_of_rowIn {t : Tree} {s : Slot} {row : Row} (h : rowIn t s = .ok (some row)) :
    ∃ text, entryAt? t s = some (.file text) ∧ Row.decode text s.key = .ok row := by
  unfold rowIn at h
  split at h
  · cases h
  · rename_i text he
    cases hd : Row.decode text s.key with
    | error e =>
      rw [hd] at h
      cases h
    | ok row' =>
      rw [hd] at h
      cases h
      exact ⟨text, he, hd⟩
  · cases h

namespace Reads

variable {t : Tree} {tables : Tables}

/-- What has been read of every slot and every table is how a tree reads. -/
theorem of_read (hlaid : Laid t) (hrow : ∀ s, rowIn t s = .ok (tables.row? s))
    (htable : ∀ table, ∃ rows, tableIn t table = .ok rows) : Reads t tables := by
  refine ⟨hlaid, hrow, fun s row hs => ?_⟩
  have hread := hrow s
  rw [hs] at hread
  obtain ⟨text, he, -⟩ := entryAt?_of_rowIn hread
  obtain ⟨entries, hfolder, hfind⟩ := Option.bind_eq_some_iff.1 he
  obtain ⟨rows, hrows⟩ := htable s.table
  unfold tableIn at hrows
  rw [hfolder] at hrows
  obtain ⟨rows', hrows, -⟩ := bind_ok hrows
  have hmem : (s.key.fileName, Node.file text) ∈ Tree.inOrder entries := by
    unfold Tree.inOrder
    rw [List.mem_mergeSort]
    exact Tree.mem_of_find? hfind
  obtain ⟨row?, hentry⟩ := rowsOf_ok hrows _ hmem
  exact (entryRow_ok hentry).1

section

variable (h : Reads t tables)

include h

/-- Every file in a table's folder is a row of the table. -/
theorem entry {table : TableName} {entries : Tree} (hf : t.folder? table.text = some entries) {e : String × Node}
    (he : e ∈ entries) : ∃ k row, e.1 = RowKey.fileName k ∧ entryRow e.1 e.2 = .ok (some row) ∧
      (tables.rowsOf table).get? k = some row ∧ row.key = k := by
  obtain ⟨-, hfiled⟩ := h.laid.folder? hf
  obtain ⟨k, text, rfl, -⟩ := hfiled.files e he
  have hat : entryAt? t ⟨table, k⟩ = some (.file text) := by
    unfold entryAt?
    rw [hf, Option.bind_some]
    exact (Tree.find?_eq_some_iff hfiled.sorted).2 he
  have hread := h.row ⟨table, k⟩
  unfold rowIn at hread
  rw [hat, Tables.row?_eq] at hread
  simp only at hread
  cases hd : Row.decode text k with
  | error err =>
    rw [hd] at hread
    cases hread
  | ok row =>
    rw [hd] at hread
    have hrow : (tables.rowsOf table).get? k = some row := (Except.ok.inj hread).symm
    have hparse := h.key ⟨table, k⟩ row ((Tables.row?_eq ..).trans hrow)
    refine ⟨k, row, rfl, ?_, hrow, Row.decode_key hd⟩
    unfold entryRow
    rw [RowKey.stem?_fileName]
    simp only at hparse ⊢
    rw [hparse]
    simp only
    rw [hd]
    rfl

/-- **A table is read whole**, in order of key. -/
theorem tableIn (table : TableName) : tableIn t table = .ok (tables.rowsOf table).values := by
  have hread : ∀ k, rowIn t ⟨table, k⟩ = .ok ((tables.rowsOf table).get? k) := fun k => by
    rw [h.row, Tables.row?_eq]
  unfold Repository.tableIn
  cases hf : t.folder? table.text with
  | none =>
    have hnone : tables.rowsOf table = ∅ := SortedMap.ext_get? fun k => by
      have hk := hread k
      unfold rowIn entryAt? at hk
      simp only [hf, Option.bind_none] at hk
      exact (Except.ok.inj hk).symm
    rw [hnone]
    rfl
  | some entries =>
    have hentries : ∀ e ∈ Tree.inOrder entries, ∃ k row, e.1 = RowKey.fileName k ∧
        entryRow e.1 e.2 = .ok (some row) ∧ (tables.rowsOf table).get? k = some row ∧ row.key = k := fun e he =>
      h.entry hf (List.mem_mergeSort.1 he)
    obtain ⟨rows, hrows, hsub, hall⟩ := rowsOf_eq hentries
    simp only
    rw [hrows]
    have hlist : SortedMap.ofList (rows.map fun row => (row.key, row)) = tables.rowsOf table := by
      refine SortedMap.ofList_eq (fun e he => ?_) fun k row hk => ?_
      · obtain ⟨row, hrow, rfl⟩ := List.mem_map.1 he
        exact hsub row hrow
      · have hrowIn := hread k
        rw [hk] at hrowIn
        obtain ⟨text, he, hd⟩ := entryAt?_of_rowIn hrowIn
        refine List.mem_map.2 ⟨row, hall k row (.file text) ?_ hk, ?_⟩
        · unfold entryAt? at he
          rw [hf, Option.bind_some] at he
          exact List.mem_mergeSort.2 (Tree.mem_of_find? he)
        · rw [Row.decode_key hd]
    rw [← hlist]
    rfl

/-- **A change is read where it was made**, if its row can be read, and everything else as before. -/
theorem withRow {s : Slot} {row : Option Row} (hrow : ∀ r, row = some r → r.key = s.key ∧ r.Legible) :
    Reads (withRow t s row) (tables.put s row) := by
  refine ⟨h.laid.withRow fun r hr => (hrow r hr).1, fun s' => ?_, fun s' r hr => ?_⟩
  · have hbefore := h.row s'
    unfold rowIn at hbefore ⊢
    rw [Tables.row?_put, Repository.entryAt?_withRow]
    by_cases heq : s' = s
    · rw [if_pos heq, if_pos heq, heq]
      cases row with
      | none => rfl
      | some r =>
        obtain ⟨hkey, hlegible⟩ := hrow r rfl
        have hd := hlegible.text
        rw [hkey] at hd
        simp only [Option.map_some]
        rw [hd]
        rfl
    · rw [if_neg heq, if_neg heq]
      exact hbefore
  · rw [Tables.row?_put] at hr
    split at hr
    · rename_i heq
      obtain ⟨hkey, hlegible⟩ := hrow r hr
      rw [heq, ← hkey]
      exact hlegible.key
    · exact h.key s' r hr

end

end Reads

end Git
end Demarcate
