import Demarcate.Proofs.Memory.Keeping
import Demarcate.Proofs.Git.Reading
/-!
# Scanning — a table read whole and row by row

Where a table can be scanned, one map of rows stands behind both ways of reading (`Session.Tabulates`): the scan is the
map's values and a look-up is the map's.  In memory the map is a table of the tables that the session sees.  In a
repository it is made from the folder's files; they are listed by file name, which is not the order of the keys, and a
folder lists no two files of one name.
-/
namespace Demarcate

namespace Git.Repository

open Demarcate.Git.Tree (Laid)

/-- What a look-up gives; nothing where it fails. -/
def found? (t : Tree) (s : Slot) : Option Row := (rowIn t s).toOption.join

theorem found?_of_ok {t : Tree} {s : Slot} {row? : Option Row} (h : rowIn t s = .ok row?) : found? t s = row? := by
  unfold found?
  rw [h]
  rfl

theorem rowIn_of_found? {t : Tree} {s : Slot} {row : Row} (h : found? t s = some row) : rowIn t s = .ok (some row) := by
  unfold found? at h
  cases hrow : rowIn t s with
  | error e =>
    rw [hrow] at h
    cases h
  | ok row? =>
    rw [hrow] at h
    exact congrArg Except.ok h

theorem key_of_found? {t : Tree} {s : Slot} {row : Row} (h : found? t s = some row) : row.key = s.key := by
  obtain ⟨text, -, hd⟩ := entryAt?_of_rowIn (rowIn_of_found? h)
  exact Row.decode_key hd

/-- A folder that can be read whole has rows in all of its files. -/
theorem entry_of_rowsOf {t : Tree} {table : TableName} {entries : Tree} {rows : List Row} (ht : Laid t)
    (hf : t.folder? table.text = some entries) (h : rowsOf (Tree.inOrder entries) = .ok rows) {e : String × Node}
    (he : e ∈ entries) : ∃ k row, e.1 = RowKey.fileName k ∧ entryRow e.1 e.2 = .ok (some row) ∧
      found? t ⟨table, k⟩ = some row ∧ row.key = k := by
  obtain ⟨-, hfiled⟩ := ht.folder? hf
  obtain ⟨k, text, rfl, -⟩ := hfiled.files e he
  obtain ⟨row?, hrow⟩ := rowsOf_ok h _ (List.mem_mergeSort.2 he)
  obtain ⟨-, row, rfl, hd⟩ := entryRow_ok hrow
  refine ⟨k, row, rfl, hrow, found?_of_ok ?_, Row.decode_key hd⟩
  unfold rowIn entryAt?
  rw [hf, Option.bind_some, (Tree.find?_eq_some_iff hfiled.sorted).2 he]
  dsimp only
  rw [hd]
  rfl

/-- **A table that can be read whole can be read row by row**, with the same rows. -/
theorem tableIn_ok {t : Tree} (ht : Laid t) {table : TableName} {rows : List Row} (h : tableIn t table = .ok rows) :
    ∃ m : SortedMap RowKey Row, rows = m.values ∧ (∀ k row, m.get? k = some row → row.key = k) ∧
      ∀ k, rowIn t ⟨table, k⟩ = .ok (m.get? k) := by
  unfold tableIn at h
  cases hf : t.folder? table.text with
  | none =>
    rw [hf] at h
    cases h
    refine ⟨∅, rfl, nofun, fun k => ?_⟩
    unfold rowIn entryAt?
    rw [hf]
    rfl
  | some entries =>
    rw [hf] at h
    obtain ⟨rows, hrows, h⟩ := bind_ok h
    cases h
    have hentries := fun e he => entry_of_rowsOf ht hf hrows (List.mem_mergeSort.1 (he : e ∈ Tree.inOrder entries))
    obtain ⟨rows', hrows', hsub, hall⟩ := rowsOf_eq hentries
    obtain rfl : rows' = rows := Except.ok.inj (hrows'.symm.trans hrows)
    have hget : ∀ k, (SortedMap.ofList (rows'.map fun row => (row.key, row))).get? k =
        if k ∈ rows'.map Row.key then found? t ⟨table, k⟩ else none := fun k => by
      have hagree : ∀ e ∈ rows'.map fun row => (row.key, row), found? t ⟨table, e.1⟩ = some e.2 := fun e he => by
        obtain ⟨row, hrow, rfl⟩ := List.mem_map.1 he
        exact hsub row hrow
      have hmade := SortedMap.get?_ofList (fun k => found? t ⟨table, k⟩) hagree k
      rw [List.map_map] at hmade
      exact hmade
    refine ⟨_, rfl, fun k row hk => ?_, fun k => ?_⟩
    · rw [hget] at hk
      split at hk
      · exact key_of_found? hk
      · cases hk
    · have hat : entryAt? t ⟨table, k⟩ = Tree.find? entries k.fileName := by
        unfold entryAt?
        rw [hf, Option.bind_some]
      cases hn : Tree.find? entries k.fileName with
      | none =>
        have hrow : rowIn t ⟨table, k⟩ = .ok none := by
          unfold rowIn
          rw [hat, hn]
        rw [hget, hrow, found?_of_ok hrow, ite_self]
      | some n =>
        have hmem := Tree.mem_of_find? hn
        obtain ⟨k', row, hname, -, hfound, hkey⟩ := hentries _ (List.mem_mergeSort.2 hmem)
        obtain rfl := RowKey.fileName_inj hname
        have hlisted : k ∈ rows'.map Row.key :=
          List.mem_map.2 ⟨row, hall k row n (List.mem_mergeSort.2 hmem) hfound, hkey⟩
        rw [hget, if_pos hlisted, hfound, rowIn_of_found? hfound]

end Git.Repository

/-! ## Sessions -/

namespace Session

/-- The rows are what the session finds in the table, key by key and all together. -/
structure Tabulates (st : Stores) (s : Session) (t : TableName) (rows : SortedMap RowKey Row) : Prop where
  get : ∀ key, s.get st ⟨t, key⟩ = .ok (rows.get? key)
  scan : s.scan st t = .ok rows.values
  keyed : ∀ key row, rows.get? key = some row → row.key = key

/-- Every table in memory can be scanned. -/
theorem tabulates_memory {st : Stores} (h : st.Reachable) (id : Ulid) (i : Nat) (tx : Option Ulid) (t : TableName) :
    (memory id i tx).Tabulates st t (((st.memory i).seen tx).rowsOf t) where
  get key := by
    show Except.ok ((st.memory i).get tx ⟨t, key⟩) = _
    rw [Memory.Store.get_seen, Memory.Tables.row?_eq]
  scan := congrArg Except.ok (Memory.Store.scan_seen ..)
  keyed key row hrow := by
    have hkeyed := (h.every_memory Memory.closed_keyed i).seen tx ⟨t, key⟩
    rw [Memory.Tables.row?_eq] at hkeyed
    exact hkeyed row hrow

theorem tabulates_git {st : Stores} (h : st.Reachable) {id : Ulid} {i : Nat} {tx : Option Git.Transaction}
    {t : TableName} {rows : List Row} (hscan : (git id i tx).scan st t = .ok rows) :
    ∃ m, rows = m.values ∧ (git id i tx).Tabulates st t m := by
  obtain ⟨commit, hcommit, hrows⟩ := bind_ok hscan
  obtain ⟨tree, htree, hrows⟩ := bind_ok hrows
  have hlaid := (h.orderly i).laid.treeAt htree
  obtain ⟨m, rfl, hkeyed, hget⟩ := Git.Repository.tableIn_ok hlaid hrows
  refine ⟨m, rfl, fun key => ?_, hscan, hkeyed⟩
  unfold get
  dsimp only
  rw [hcommit]
  show ((st.repository i).treeAt commit >>= fun tree => Git.Repository.rowIn tree ⟨t, key⟩) = _
  rw [htree]
  exact hget key

/-- **A scan and the look-ups agree**, for every session.  A table that can be scanned is in order of key, has for
every key the very row that is looked up under it and nothing where there is none, and is counted by its length. -/
theorem scan_agrees_with_get {st : Stores} (h : st.Reachable) (s : Session) (t : TableName) {rows : List Row}
    (hscan : s.scan st t = .ok rows) :
    rows.Pairwise (fun a b => a.key.text < b.key.text) ∧
      (∀ key row, s.get st ⟨t, key⟩ = .ok (some row) ↔ row ∈ rows ∧ row.key = key) ∧
      (∀ key, s.get st ⟨t, key⟩ = .ok none ↔ ∀ row ∈ rows, row.key ≠ key) ∧
      (s.perform st (.count t)).1 = .count (.ok rows.length) := by
  obtain ⟨m, rfl, htable⟩ : ∃ m, rows = m.values ∧ s.Tabulates st t m := by
    cases s with
    | memory id i tx =>
      have htable := tabulates_memory h id i tx t
      exact ⟨_, Except.ok.inj (hscan.symm.trans htable.scan), htable⟩
    | git id i tx => exact tabulates_git h hscan
  have hmem : ∀ key row, m.get? key = some row ↔ row ∈ m.values ∧ row.key = key := by
    intro key row
    constructor
    · exact fun hrow => ⟨SortedMap.mem_values_iff.2 ⟨key, hrow⟩, htable.keyed key row hrow⟩
    · rintro ⟨hrow, rfl⟩
      obtain ⟨key, hkey⟩ := SortedMap.mem_values_iff.1 hrow
      rw [htable.keyed key row hkey]
      exact hkey
  refine ⟨?_, fun key row => ?_, fun key => ?_, ?_⟩
  · refine List.pairwise_map.2 (m.sorted.imp_of_mem fun {a b} ha hb hab => ?_)
    have hkey : ∀ e ∈ m.entries, e.2.key = e.1 := fun e he => htable.keyed _ _ (SortedMap.get?_eq_some_iff.2 he)
    rw [hkey a ha, hkey b hb]
    exact compareOfLessAndEq_eq_lt.1 hab
  · rw [htable.get, Except.ok.injEq, hmem]
  · rw [htable.get, Except.ok.injEq, Option.eq_none_iff_forall_ne_some]
    constructor
    · exact fun hnone row hrow hkey => hnone row ((hmem key row).2 ⟨hrow, hkey⟩)
    · exact fun hnone row hkey => hnone row ((hmem key row).1 hkey).1 ((hmem key row).1 hkey).2
  · show Traffic.Answer.count ((s.scan st t).map List.length) = _
    rw [hscan]
    rfl

/-- In a transaction a stored row was deleted, another one deleted and stored again, and a third one stored. -/
theorem overlaid_scan_agrees :
    let s : Session := .memory ⟨0⟩ 0 none
    let tx : Session := .memory ⟨0⟩ 0 (some (Ulid.issued 0))
    let t : TableName := ⟨"notes"⟩
    let row : String → Row := fun key => ⟨⟨key⟩, 1, "t", "t", ∅⟩
    let change : Session → Change → Stores → Stores := fun s c st => (s.apply st t c).2
    let st := (s.begin (change s (.insert (row "b")) (change s (.insert (row "a")) (Stores.addMemory {}).2))).2
    let st := change tx (.insert (row "a-b")) (change tx (.insert (row "b"))
      (change tx (.delete ⟨"b"⟩) (change tx (.delete ⟨"a"⟩) st)))
    let rows := (st.memory 0).scan (some (Ulid.issued 0)) t
    st.Reachable ∧ tx.scan st t = .ok rows ∧ rows.map (·.key.text) = ["a-b", "b"] ∧
      tx.get st ⟨t, ⟨"a"⟩⟩ = .ok none := by
  intro s tx t row change st st' rows
  have hreachable : st'.Reachable :=
    ((((((((Stores.Reachable.new 0 0).addMemory).apply s t _).apply s t _).begin s).apply tx t _).apply tx t _).apply
      tx t _).apply tx t _
  have habsent : ∀ row ∈ rows, row.key ≠ ⟨"a"⟩ := by decide +kernel
  exact ⟨hreachable, rfl, by decide +kernel, ((scan_agrees_with_get hreachable tx t rfl).2.2.1 ⟨"a"⟩).2 habsent⟩

end Session
end Demarcate
