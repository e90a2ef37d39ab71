import Demarcate.Row.Codec
import Demarcate.Proofs.Json.Values
/-!
# Codec — which rows are read back from their text

A row's text is one object, its own four fields before the columns.  It is read back exactly if no column has the name
of one of the four and no column is too deep for a reader that counts the row's own bracket (`Readable`); every other
row is refused by the decoder, whatever key it is read under (`decode_encode_iff`).  The text always tells the rows
apart, also where it cannot be read.
-/
namespace Demarcate
namespace Row

/-- The names of the fields before the columns. -/
def headerNames : List String := ["_pk", "_version", "_created_at", "_updated_at"]

/-- How deep a column may be. -/
def columnDepth : Nat := 126

/-- A row whose version fits 64 bits, and so do the numbers in its columns, all of them integers. -/
structure Plain (r : Row) : Prop where
  version : r.version ≤ greatestVersion
  columns : Json.PlainFields r.columns.entries

/-- No column has the name of a field before the columns, and none is too deep. -/
def Readable (r : Row) : Prop := ∀ e ∈ r.columns.entries, e.1 ∉ headerNames ∧ e.2.depth ≤ columnDepth

/-! ## The text -/

theorem plainFields_append {as bs : List (String × Json)} (has : Json.PlainFields as) (hbs : Json.PlainFields bs) :
    Json.PlainFields (as ++ bs) := by
  induction as with
  | nil => exact hbs
  | cons a as ih => exact ⟨has.1, ih has.2⟩

theorem Plain.fields {r : Row} (h : r.Plain) : Json.PlainFields (r.header ++ r.columns.entries) := by
  have hversion : Json.InRange r.version := ⟨by omega, Int.ofNat_le.2 h.version⟩
  exact plainFields_append ⟨trivial, hversion, trivial, trivial, trivial⟩ h.columns

/-- **Rows with one text are one row.** -/
theorem encode_inj {r s : Row} (hr : r.Plain) (hs : s.Plain) (h : r.encode = s.encode) : r = s := by
  have hfields := Json.toPrettyText_inj hr.fields hs.fields h
  simp only [header, List.cons_append, List.nil_append, List.cons.injEq, Prod.mk.injEq, Json.string.injEq, Json.ofInt,
    Json.number.injEq, Json.Number.int.injEq, Int.ofNat_inj, true_and] at hfields
  obtain ⟨hkey, hversion, hcreated, hupdated, hcolumns⟩ := hfields
  cases r with
  | mk key version createdAt updatedAt columns =>
    cases s with
    | mk key' version' createdAt' updatedAt' columns' =>
      cases key; cases key'; cases columns; cases columns'
      simp_all only

/-! ## Reading the fields -/

/-- The fields before the columns have been read, and then these columns. -/
def parts (r : Row) (columns : List (String × Json)) : Parts :=
  ⟨some r.key.text, some r.version, some r.createdAt, some r.updatedAt, columns⟩

/-- A column with a name of its own is read as far as it is not too deep. -/
theorem readMember_column (r : Row) (columns : List (String × Json)) {name : String} (hname : name ∉ headerNames)
    {j : Json} (hj : j.Plain) (limit : Nat) :
    readMember (.text limit) name (Json.Document.ofJson j) (r.parts columns) =
      (do let j ← Json.within limit j.depth j; return r.parts ((name, j) :: columns)) := by
  simp only [headerNames, List.mem_cons, List.not_mem_nil, or_false, not_or] at hname
  obtain ⟨hkey, hversion, hcreated, hupdated⟩ := hname
  unfold readMember
  rw [if_neg hkey, if_neg hversion, if_neg hcreated, if_neg hupdated, Json.toJson_ofJson hj]
  rfl

/-- A column with the name of a field that was read is that field again. -/
theorem readMember_duplicate (r : Row) (columns : List (String × Json)) {name : String} (hname : name ∈ headerNames)
    (inside : Json.Source) (d : Json.Document) :
    readMember inside name d (r.parts columns) = .error (.data s!"duplicate field `{name}`") := by
  simp only [headerNames, List.mem_cons, List.not_mem_nil, or_false] at hname
  rcases hname with rfl | rfl | rfl | rfl <;> rfl

theorem readMembers_readable (r : Row) (limit : Nat) : ∀ {fields : List (String × Json)}, Json.PlainFields fields →
    (∀ e ∈ fields, e.1 ∉ headerNames ∧ e.2.depth ≤ limit) → ∀ columns,
      readMembers (.text limit) (Json.Document.ofFields fields) (r.parts columns) =
        .ok (r.parts (fields.reverse ++ columns))
  | [], _, _, _ => rfl
  | (name, j) :: fields, hplain, h, columns => by
    obtain ⟨hname, hdepth⟩ := h _ List.mem_cons_self
    have hhead := readMember_column r columns hname hplain.1 limit
    rw [Json.within, if_pos hdepth] at hhead
    show (do
      let p ← readMember (.text limit) name (Json.Document.ofJson j) (r.parts columns)
      readMembers (.text limit) (Json.Document.ofFields fields) p) = _
    rw [hhead]
    show readMembers (.text limit) (Json.Document.ofFields fields) (r.parts ((name, j) :: columns)) = _
    rw [readMembers_readable r limit hplain.2 (fun e he => h e (List.mem_cons_of_mem _ he)), List.reverse_cons,
      List.append_assoc]
    rfl

theorem readMembers_unreadable (r : Row) (limit : Nat) : ∀ {fields : List (String × Json)}, Json.PlainFields fields →
    (¬ ∀ e ∈ fields, e.1 ∉ headerNames ∧ e.2.depth ≤ limit) → ∀ columns,
      ∃ e, readMembers (.text limit) (Json.Document.ofFields fields) (r.parts columns) = .error e
  | [], _, h, _ => absurd (fun _ he => by cases he) h
  | (name, j) :: fields, hplain, h, columns => by
    show ∃ e, (do
      let p ← readMember (.text limit) name (Json.Document.ofJson j) (r.parts columns)
      readMembers (.text limit) (Json.Document.ofFields fields) p) = .error e
    by_cases hname : name ∈ headerNames
    · rw [readMember_duplicate r columns hname]
      exact ⟨_, rfl⟩
    · rw [readMember_column r columns hname hplain.1 limit]
      by_cases hdepth : j.depth ≤ limit
      · rw [Json.within, if_pos hdepth]
        exact readMembers_unreadable r limit hplain.2 (fun hall => h (List.forall_mem_cons.2 ⟨⟨hname, hdepth⟩, hall⟩)) _
      · rw [Json.within, if_neg hdepth]
        exact ⟨_, rfl⟩

/-! ## Reading the row -/

theorem decodeRecord_eq (r : Row) :
    decodeRecord (.text Json.depthLimit) (Json.Document.ofJson (.object (r.header ++ r.columns.entries))) = (do
      let p ← readMembers (.text columnDepth) (Json.Document.ofFields r.columns.entries) (r.parts [])
      let key ← wanted "_pk" p.key
      let version ← wanted "_version" p.version
      let createdAt ← wanted "_created_at" p.createdAt
      let updatedAt ← wanted "_updated_at" p.updatedAt
      return (key, fun k => ⟨k, version, createdAt, updatedAt, SortedMap.ofList p.columns.reverse⟩)) := rfl

theorem decodeText_readable {r : Row} (hplain : r.Plain) (h : r.Readable) :
    Json.decodeText decodeRecord r.encode = .ok (r.key.text, fun k => { r with key := k }) := by
  unfold encode
  rw [Json.decodeText_pretty _ hplain.fields, decodeRecord_eq, readMembers_readable r columnDepth hplain.columns h,
    List.append_nil]
  show Except.ok (r.key.text, fun k => (⟨k, r.version, r.createdAt, r.updatedAt,
    SortedMap.ofList r.columns.entries.reverse.reverse⟩ : Row)) = _
  rw [List.reverse_reverse, SortedMap.ofList_entries]

theorem decodeText_unreadable {r : Row} (hplain : r.Plain) (h : ¬ r.Readable) :
    ∃ e, Json.decodeText decodeRecord r.encode = .error e := by
  obtain ⟨e, he⟩ := readMembers_unreadable r columnDepth hplain.columns h []
  refine ⟨e, ?_⟩
  unfold encode
  rw [Json.decodeText_pretty _ hplain.fields, decodeRecord_eq, he]
  rfl

/-- A row that can be read is read under its own key, and under no other. -/
theorem decode_readable {r : Row} (hplain : r.Plain) (h : r.Readable) :
    decode r.encode r.key = .ok r ∧ ∀ k, k ≠ r.key → decode r.encode k = .error (.corruptedData k.fileName
      s!"primary key mismatch: file name suggests '{k.text}' but content has '{r.key.text}'") := by
  unfold decode
  rw [decodeText_readable hplain h]
  refine ⟨if_pos rfl, fun k hk => if_neg fun heq => hk ?_⟩
  cases k
  exact congrArg RowKey.mk heq.symm

/-- A row that cannot be read is refused by the decoder under every key. -/
theorem decode_unreadable {r : Row} (hplain : r.Plain) (h : ¬ r.Readable) :
    ∃ e, ∀ k, decode r.encode k = .error (.serialization e) := by
  obtain ⟨e, he⟩ := decodeText_unreadable hplain h
  refine ⟨e, fun k => ?_⟩
  unfold decode
  rw [he]

/-- **Which rows are read back, and what becomes of the others.**  A row is read from its text exactly if it is
`Readable`, and then under its own key only; any other row is refused by the decoder, under every key.  Rows with one
text are one row, whether it can be read or not. -/
theorem decode_encode_iff {r : Row} (hr : r.Plain) :
    (decode r.encode r.key = .ok r ↔ r.Readable) ∧
      (¬ r.Readable → ∃ e, ∀ k, decode r.encode k = .error (.serialization e)) ∧
      (r.Readable → ∀ k, k ≠ r.key → decode r.encode k = .error (.corruptedData k.fileName
        s!"primary key mismatch: file name suggests '{k.text}' but content has '{r.key.text}'")) ∧
      ∀ s : Row, s.Plain → (r.encode = s.encode ↔ r = s) := by
  refine ⟨⟨fun hdecode => ?_, fun h => (decode_readable hr h).1⟩, fun h => decode_unreadable hr h,
    fun h => (decode_readable hr h).2, fun s hs => ⟨encode_inj hr hs, congrArg encode⟩⟩
  by_contra h
  obtain ⟨e, he⟩ := decode_unreadable hr h
  rw [he r.key] at hdecode
  cases hdecode

/-- A row of one column. -/
def single (column : String) (value : Json) : Row :=
  ⟨⟨"k"⟩, 1, "t", "t", ⟨[(column, value)], List.pairwise_singleton _ _⟩⟩

/-- A list of one number in the column `n` is read back; a row with a column `_version` never is. -/
theorem decode_encode_single :
    decode (single "n" (.array [Json.ofInt (-3)])).encode ⟨"k"⟩ = .ok (single "n" (.array [Json.ofInt (-3)])) ∧
      ∃ e, decode (single "_version" (Json.ofInt 7)).encode ⟨"k"⟩ = .error (.serialization e) := by
  have hlist : (single "n" (.array [Json.ofInt (-3)])).Plain :=
    ⟨by decide, ⟨show Json.InRange (-3) by decide, trivial⟩, trivial⟩
  have hreserved : (single "_version" (Json.ofInt 7)).Plain := ⟨by decide, show Json.InRange 7 by decide, trivial⟩
  refine ⟨(decode_encode_iff hlist).1.2 fun e he => ?_, ?_⟩
  · obtain rfl := List.mem_singleton.1 he
    exact ⟨by decide, by decide⟩
  · obtain ⟨e, he⟩ := (decode_encode_iff hreserved).2.1 fun h => (h _ (List.mem_singleton.2 rfl)).1 (by decide)
    exact ⟨e, he ⟨"k"⟩⟩

end Row
end Demarcate
