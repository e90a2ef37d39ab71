import Demarcate.Proofs.Codec
import Demarcate.Proofs.Git.Reading
import Demarcate.Proofs.Git.ThreeWay
/-!
# Legibility — what becomes of a row that a branch takes

A change is written without being read back: a branch takes every row that the change may put in its place.  So it also
takes rows that their own text is not read as (`Row.Readable`).  A readable row is served from then on, and whatever
could be read before can be read after it (`Serves`).  Any other row spoils its table: it cannot be read, the table
cannot be scanned, and the row cannot even be deleted (`Spoils`).  `accepted_row_is_served` says that there is nothing
in between.
-/
namespace Demarcate

/-- The row that a change puts in its place, but for its version and its times. -/
def Change.row? : Change → Option Row
  | .insert row | .update row | .upsert row => some row
  | .delete _ => none

theorem Change.key_of_row? {c : Change} {row : Row} (h : c.row? = some row) : c.key = row.key := by
  cases c <;> cases h <;> rfl

theorem Row.succeed_value {now : String} {previous next row : Row} (h : succeed now previous next = .value row) :
    row.columns = next.columns ∧ row.version ≤ greatestVersion := by
  unfold succeed at h
  split at h
  · cases h
    exact ⟨rfl, by assumption⟩
  · cases h

/-- A change puts a row with the columns that it was given. -/
theorem Change.resolve_row {c : Change} {now : String} {table : TableName} {existing row? : Option Row} {written : Row}
    (hc : c.row? = some written) (h : c.resolve now table existing = .value row?) :
    ∃ row, row? = some row ∧ row.columns = written.columns ∧
      (written.version ≤ Row.greatestVersion → row.version ≤ Row.greatestVersion) := by
  have hsucceed : ∀ {previous : Row}, (Row.succeed now previous written).bind (fun r => .value (some r)) =
      (.value row? : Outcome StorageError (Option Row)) → ∃ row, row? = some row ∧ row.columns = written.columns ∧
        (written.version ≤ Row.greatestVersion → row.version ≤ Row.greatestVersion) := by
    intro previous h
    obtain ⟨row, hrow, h⟩ := bind_value h
    cases h
    obtain ⟨hcolumns, hversion⟩ := Row.succeed_value hrow
    exact ⟨row, rfl, hcolumns, fun _ => hversion⟩
  cases c with
  | delete key => cases hc
  | insert row =>
    cases hc
    cases existing with
    | some previous => cases h
    | none =>
      cases h
      exact ⟨written, rfl, rfl, id⟩
  | update row =>
    cases hc
    cases existing with
    | some previous => exact hsucceed h
    | none => cases h
  | upsert row =>
    cases hc
    cases existing with
    | some previous => exact hsucceed h
    | none =>
      cases h
      exact ⟨written, rfl, rfl, id⟩

namespace Git

open Repository (rowIn tableIn entryRow withRow stamp)
open Demarcate.Git.Tree (fileAt?)

/-! ## Reading a tree -/

theorem rowIn_of_fileAt? {t : Tree} {s : Slot} {text : String} (h : fileAt? t (pathOf s) = some text) :
    rowIn t s = (Row.decode text s.key).map some := by
  rw [fileAt?_pathOf] at h
  unfold rowIn
  split at h
  · rename_i he
    cases h
    rw [he]
  · cases h

/-- Entries are read if each of them is. -/
theorem rowsOf_ok_iff {entries : Tree} : (∃ rows, Repository.rowsOf entries = .ok rows) ↔
    ∀ e ∈ entries, ∃ row?, entryRow e.1 e.2 = .ok row? := by
  refine ⟨fun ⟨rows, h⟩ => rowsOf_ok h, fun h => ?_⟩
  induction entries with
  | nil => exact ⟨[], rfl⟩
  | cons e entries ih =>
    obtain ⟨row?, hrow⟩ := h e List.mem_cons_self
    obtain ⟨rows, hrows⟩ := ih fun e' he' => h e' (List.mem_cons_of_mem _ he')
    refine ⟨row?.toList ++ rows, ?_⟩
    unfold Repository.rowsOf
    rw [hrow, hrows]
    rfl

/-- A table is read if every entry of its folder is. -/
theorem tableIn_ok_iff {t : Tree} {table : TableName} : (∃ rows, tableIn t table = .ok rows) ↔
    ∀ entries, t.folder? table.text = some entries → ∀ e ∈ entries, ∃ row?, entryRow e.1 e.2 = .ok row? := by
  unfold tableIn
  cases hf : t.folder? table.text with
  | none => exact ⟨fun _ _ h => (by cases h), fun _ => ⟨[], rfl⟩⟩
  | some entries =>
    have hsorted : (∀ e ∈ Tree.inOrder entries, ∃ row?, entryRow e.1 e.2 = .ok row?) ↔
        ∀ e ∈ entries, ∃ row?, entryRow e.1 e.2 = .ok row? := by
      unfold Tree.inOrder
      simp only [List.mem_mergeSort]
    simp only [Option.some.injEq, forall_eq']
    rw [← hsorted, ← rowsOf_ok_iff]
    constructor
    · rintro ⟨rows, h⟩
      obtain ⟨rows', hrows, -⟩ := bind_ok h
      exact ⟨rows', hrows⟩
    · rintro ⟨rows, h⟩
      rw [h]
      exact ⟨_, rfl⟩

theorem entryRow_fileName {key : RowKey} (hkey : RowKey.parse key.text = .ok key) (text : String) :
    entryRow key.fileName (.file text) = (Row.decode text key).map some := by
  unfold entryRow
  rw [RowKey.stem?_fileName]
  simp only
  rw [hkey]

/-- A row that is read back leaves every table as readable as it was. -/
theorem tableIn_withRow {t : Tree} {s : Slot} {row : Row} (hkey : RowKey.parse s.key.text = .ok s.key)
    (hrow : Row.decode row.encode s.key = .ok row) {table : TableName} (h : ∃ rows, tableIn t table = .ok rows) :
    ∃ rows, tableIn (withRow t s (some row)) table = .ok rows := by
  rw [tableIn_ok_iff] at h ⊢
  intro entries hf e he
  unfold withRow at hf
  simp only at hf
  rw [Tree.folder?_insert_folder] at hf
  split at hf
  · rename_i htable
    cases hf
    rcases SortedMap.mem_insertEntry he with rfl | he
    · exact ⟨some row, (entryRow_fileName hkey _).trans (by rw [hrow]; rfl)⟩
    · cases hold : t.folder? s.table.text with
      | none =>
        rw [hold] at he
        cases he
      | some old =>
        rw [hold] at he
        exact h old (htable ▸ hold) e he
  · exact h entries hf e he

/-- A row that is not read back leaves its table unreadable. -/
theorem tableIn_withRow_error {t : Tree} {s : Slot} {row : Row} (hkey : RowKey.parse s.key.text = .ok s.key)
    {e : StorageError} (hrow : Row.decode row.encode s.key = .error e) (rows : List Row) :
    tableIn (withRow t s (some row)) s.table ≠ .ok rows := by
  intro h
  have hfile : (s.key.fileName, Node.file row.encode) ∈
      Tree.insert ((t.folder? s.table.text).getD []) s.key.fileName (.file row.encode) := by
    refine Tree.mem_of_find? ?_
    rw [Tree.find?_insert, if_pos rfl]
  have hfolder : Tree.folder? (withRow t s (some row)) s.table.text =
      some (Tree.insert ((t.folder? s.table.text).getD []) s.key.fileName (.file row.encode)) := by
    unfold withRow
    simp only
    rw [Tree.folder?_insert_folder, if_pos rfl]
  obtain ⟨row?, hentry⟩ := tableIn_ok_iff.1 ⟨rows, h⟩ _ hfolder _ hfile
  rw [entryRow_fileName hkey, hrow] at hentry
  cases hentry

/-- The row that a change makes of one that it puts is read back if and only if the one that it puts is. -/
theorem resolve_written {now : String} {table : TableName} {c : Change} {existing : Option Row} {written row : Row}
    (hc : c.row? = some written) (hplain : written.Plain)
    (hresolve : c.resolve now table existing = .value (some row)) :
    row.key = written.key ∧ row.Plain ∧ (row.Readable ↔ written.Readable) := by
  obtain ⟨_, heq, hcolumns, hversion⟩ := Change.resolve_row hc hresolve
  cases heq
  have hkey : row.key = written.key := (resolve_key hresolve).trans (Change.key_of_row? hc)
  refine ⟨hkey, ⟨hversion hplain.version, hcolumns ▸ hplain.columns⟩, ?_⟩
  unfold Row.Readable
  rw [hcolumns]

/-! ## Branches -/

/-- The branch of a transaction, or `main`. -/
def branchName : Option String → String
  | none => RefName.main
  | some tx => RefName.ofTransaction tx

namespace Repository

/-- A change on the branch of a transaction, or on `main`. -/
def write (r : Repository) (author : Signature) (now : String) (tx : Option String) (table : TableName) (c : Change) :
    Outcome StorageError (CommitId × Repository) :=
  match tx with
  | none => r.commitToMain author now table c
  | some tx => r.commitToTransaction author now tx table c

theorem write_eq (r : Repository) (author : Signature) (now : String) (tx : Option String) (table : TableName)
    (c : Change) : r.write author now tx table c = r.commitTo author now (branchName tx) table c tx := by
  cases tx <;> rfl

/-- The commit has the text for the row. -/
def HasFile (r : Repository) (s : Slot) (text : String) (id : CommitId) : Prop :=
  ∃ t, r.treeAt id = .ok t ∧ fileAt? t (pathOf s) = some text

/-- The row is read at the commit, and it can be deleted on every branch whose head has its file. -/
structure Serves (r : Repository) (s : Slot) (row : Row) (id : CommitId) : Prop where
  read : r.readRow s id = .ok (some row)
  delete : ∀ author shown now tx head, stamp author = .ok shown → r.resolve (branchName tx) = .ok head →
    r.HasFile s row.encode head → ∃ made, r.write author now tx s.table (.delete s.key) = .value made

/-- The row cannot be read at the commit, nor its table, and it cannot be deleted on a branch whose head has its
file. -/
structure Spoils (r : Repository) (s : Slot) (row : Row) (id : CommitId) (e : Json.DecodeError) : Prop where
  read : r.readRow s id = .error (.serialization e)
  scan : ∀ rows, r.scanTable s.table id ≠ .ok rows
  delete : ∀ author now tx head, r.resolve (branchName tx) = .ok head → r.HasFile s row.encode head →
    r.write author now tx s.table (.delete s.key) = .failed (.serialization e)

section

variable {r : Repository} {s : Slot} {row : Row} {id : CommitId}

theorem readRow_of_hasFile {text : String} (h : r.HasFile s text id) :
    r.readRow s id = (Row.decode text s.key).map some := by
  obtain ⟨t, ht, hfile⟩ := h
  unfold readRow
  rw [ht, ok_bind]
  exact rowIn_of_fileAt? hfile

/-- A deletion begins with reading the row. -/
theorem write_delete_eq (h : r.WellNamed) (author : Signature) (now : String) {text : String} {tx : Option String}
    {head : CommitId} (hhead : r.resolve (branchName tx) = .ok head) (hfile : r.HasFile s text head) :
    ∃ made : Option Row → Signature → CommitId × Repository, r.write author now tx s.table (.delete s.key) = (do
      let existing ← Outcome.ofExcept ((Row.decode text s.key).map some)
      let row ← Change.resolve now s.table (.delete s.key) existing
      let shown ← Outcome.ofExcept (stamp author)
      return made row shown) := by
  obtain ⟨t, ht, hat⟩ := hfile
  obtain ⟨n, hn, -, hsome⟩ := resolve_eq_ok_iff.1 hhead
  obtain ⟨before, hbefore⟩ := Option.isSome_iff_exists.1 hsome
  rw [treeAt_eq hbefore] at ht
  cases ht
  rw [write_eq, commitTo_eq h hhead hn hbefore]
  simp only [Change.key]
  rw [rowIn_of_fileAt? hat]
  exact ⟨fun row shown => (r.next, r.extend n ⟨[head], withRow before.tree s row,
    changeMessage s (Change.delete s.key).verb tx, shown⟩), rfl⟩

variable (h : r.WellNamed) (hid : r.HasFile s row.encode id)

include h hid

theorem serves_of_decode (hrow : Row.decode row.encode s.key = .ok row) : r.Serves s row id := by
  refine ⟨?_, fun author shown now tx head hstamp hhead hfile => ?_⟩
  · rw [readRow_of_hasFile hid, hrow]
    rfl
  · obtain ⟨made, hmade⟩ := write_delete_eq h author now hhead hfile
    rw [hmade, hrow, hstamp]
    exact ⟨_, rfl⟩

theorem spoils_of_decode {e : Json.DecodeError} (hrow : Row.decode row.encode s.key = .error (.serialization e))
    (hscan : ∀ rows, r.scanTable s.table id ≠ .ok rows) : r.Spoils s row id e := by
  refine ⟨?_, hscan, fun author now tx head hhead hfile => ?_⟩
  · rw [readRow_of_hasFile hid, hrow]
    rfl
  · obtain ⟨made, hmade⟩ := write_delete_eq h author now hhead hfile
    rw [hmade, hrow]
    rfl

end

theorem Grown.treeAt {r r' : Repository} (h : Grown r r') {id : CommitId} {t : Tree} (ht : r.treeAt id = .ok t) :
    r'.treeAt id = .ok t := by
  unfold Repository.treeAt at ht
  split at ht
  · rename_i commit hcommit
    cases ht
    exact treeAt_eq (h.commit? hcommit)
  · cases ht

/-- **What a change has made that a branch took**: the row is in its slot, at the new head of the branch. -/
theorem write_made {r r' : Repository} (h : r.WellNamed) {author : Signature} (hauthor : author.Usable) {now : String}
    {tx : Option String} {table : TableName} {c : Change} {written : Row} (hc : c.row? = some written) {id : CommitId}
    (hmade : r.write author now tx table c = .value (id, r')) :
    ∃ parent t existing row, r.resolve (branchName tx) = .ok parent ∧ r.treeAt parent = .ok t ∧
      rowIn t ⟨table, written.key⟩ = .ok existing ∧ c.resolve now table existing = .value (some row) ∧
      r'.resolve (branchName tx) = .ok id ∧ r'.treeAt id = .ok (withRow t ⟨table, written.key⟩ (some row)) := by
  rw [write_eq] at hmade
  obtain ⟨n, parent, before, existing, row?, shown, hn, href, hbefore, hexisting, hrow, hshown, rfl, rfl⟩ :=
    commitTo_made h hmade
  rw [Change.key_of_row? hc] at hexisting ⊢
  obtain ⟨row, rfl, -⟩ := Change.resolve_row hc hrow
  have hparent : r.resolve (branchName tx) = .ok parent := resolve_of_ref hn href hbefore
  have hcommit := commit?_extend r n (Repository.readable_of_stamp hauthor.unbroken hshown [parent]
    (withRow before.tree ⟨table, written.key⟩ (some row)) (changeMessage ⟨table, written.key⟩ c.verb tx))
  refine ⟨parent, before.tree, existing, row, hparent, treeAt_eq hbefore, hexisting, hrow, ?_, treeAt_eq hcommit⟩
  exact resolve_of_ref hn ((SortedMap.get?_insert ..).trans (if_pos rfl)) hcommit

/-- **A row that a branch took is served or spoils its table**, in every repository that has grown from there. -/
theorem write_served_or_spoiled {r r' after : Repository} (h : r.WellNamed) (hafter : after.WellNamed)
    (hgrown : Grown r' after) {author : Signature} (hauthor : author.Usable) {now : String} {tx : Option String}
    {table : TableName} {c : Change} {written : Row} (hc : c.row? = some written)
    (hkey : RowKey.parse written.key.text = .ok written.key) (hplain : written.Plain) {id : CommitId}
    (hmade : r.write author now tx table c = .value (id, r')) :
    r'.resolve (branchName tx) = .ok id ∧ ∃ parent existing row, r.resolve (branchName tx) = .ok parent ∧
      r.readRow ⟨table, written.key⟩ parent = .ok existing ∧ c.resolve now table existing = .value (some row) ∧
      after.HasFile ⟨table, written.key⟩ row.encode id ∧
      (written.Readable → after.Serves ⟨table, written.key⟩ row id ∧
        ∀ other, (∃ rows, r.scanTable other parent = .ok rows) → ∃ rows, after.scanTable other id = .ok rows) ∧
      (¬ written.Readable → ∃ e, after.Spoils ⟨table, written.key⟩ row id e) := by
  obtain ⟨parent, t, existing, row, hparent, ht, hexisting, hresolve, hid, htree⟩ := write_made h hauthor hc hmade
  have htree := hgrown.treeAt htree
  obtain ⟨hrowKey, hrowPlain, hreadable⟩ := resolve_written hc hplain hresolve
  have hfile : after.HasFile ⟨table, written.key⟩ row.encode id := by
    refine ⟨_, htree, ?_⟩
    rw [fileAt?_withRow, if_pos rfl]
    rfl
  have hread : r.readRow ⟨table, written.key⟩ parent = .ok existing := by
    unfold readRow
    rw [ht, ok_bind]
    exact hexisting
  refine ⟨hid, parent, existing, row, hparent, hread, hresolve, hfile, fun hr => ?_, fun hr => ?_⟩
  · have hdecode := (Row.decode_readable hrowPlain (hreadable.2 hr)).1
    rw [hrowKey] at hdecode
    refine ⟨serves_of_decode hafter hfile hdecode, fun other hother => ?_⟩
    unfold scanTable at hother ⊢
    rw [ht, ok_bind] at hother
    rw [htree, ok_bind]
    exact tableIn_withRow (s := ⟨table, written.key⟩) hkey hdecode hother
  · obtain ⟨e, he⟩ := Row.decode_unreadable hrowPlain (mt hreadable.1 hr)
    refine ⟨e, spoils_of_decode hafter hfile (he written.key) fun rows hrows => ?_⟩
    unfold scanTable at hrows
    rw [htree, ok_bind] at hrows
    exact tableIn_withRow_error (s := ⟨table, written.key⟩) hkey (he written.key) rows hrows

end Repository

/-! ## What is done later -/

namespace Chronicle

/-- A change on the branch of a transaction, or on `main`. -/
def Call.write (now : String) (tx : Option String) (table : TableName) (c : Change) : Call :=
  match tx with
  | none => .commitToMain now table c
  | some tx => .commitToTransaction now tx table c

theorem step_write {c : Chronicle} {i : Nat} {hd : Handle} (hhandle : c.handles[i]? = some hd) {now : String}
    {tx : Option String} {table : TableName} {change : Change} {id : CommitId} {r : Repository}
    (h : c.repository.write hd.author now tx table change = .value (id, r)) :
    (c.step (.call i (.write now tx table change))).repository = r := by
  unfold step
  simp only
  rw [hhandle]
  cases tx with
  | none =>
    show (c.changed _ (c.repository.commitToMain hd.author now table change)).repository = r
    rw [show c.repository.commitToMain hd.author now table change = .value (id, r) from h]
    rfl
  | some tx =>
    show (c.changed _ (c.repository.commitToTransaction hd.author now tx table change)).repository = r
    rw [show c.repository.commitToTransaction hd.author now tx table change = .value (id, r) from h]
    rfl

section Accepted

variable {d d' : Disk} {path : String} {author : Signature} {h : Handle}
  (hnew : d.repositories.get? (Disk.outOfDotGit (siteOf path)) = none)
  (hinit : Handle.initAt d path author = (.ok h, d'))

include hnew hinit

/-- **What becomes of a row that a branch takes**, whatever is done later: if the row is one that its text is read as,
then it is served from then on, and every table that could be scanned still can be; if it is not, then it spoils its
table. -/
theorem accepted_row_is_served (before later : List Event) {i : Nat} {hd : Handle}
    (hhandle : ((first (d'.repository h.site) h).run before).handles[i]? = some hd) (hauthor : hd.author.Usable)
    {now : String} {tx : Option String} {table : TableName} {c : Change} {written : Row} (hc : c.row? = some written)
    (hkey : RowKey.parse written.key.text = .ok written.key) (hplain : written.Plain) {id : CommitId} {r : Repository}
    (hmade : ((first (d'.repository h.site) h).run before).repository.write hd.author now tx table c = .value (id, r)) :
    let was := (first (d'.repository h.site) h).run before
    let after := ((was.step (.call i (.write now tx table c))).run later).repository
    r.resolve (branchName tx) = .ok id ∧
      ∃ parent existing row, was.repository.resolve (branchName tx) = .ok parent ∧
        was.repository.readRow ⟨table, written.key⟩ parent = .ok existing ∧
        c.resolve now table existing = .value (some row) ∧ after.HasFile ⟨table, written.key⟩ row.encode id ∧
        (written.Readable → after.Serves ⟨table, written.key⟩ row id ∧
          ∀ other, (∃ rows, was.repository.scanTable other parent = .ok rows) →
            ∃ rows, after.scanTable other id = .ok rows) ∧
        (¬ written.Readable → ∃ e, after.Spoils ⟨table, written.key⟩ row id e) := by
  intro was after
  obtain ⟨-, number, hs⟩ := initAt_ok hnew hinit
  obtain ⟨hwas, -⟩ := (upright_first hs h).run before
  obtain ⟨hstep, -⟩ := hwas.step (.call i (.write now tx table c))
  obtain ⟨hafter, honward⟩ := hstep.run later
  rw [step_write hhandle hmade] at honward
  have hnamed := hafter.orderly.named
  exact Repository.write_served_or_spoiled hwas.orderly.named hafter.orderly.named honward.grown hauthor hc hkey hplain
    hmade

/-- The first commit takes every row. -/
theorem first_takes (now : String) (table : TableName) (row : Row) :
    (d'.repository h.site).WellNamed ∧ h.author.Usable ∧
      ∃ parent id r, (d'.repository h.site).resolve RefName.main = .ok parent ∧
        (d'.repository h.site).scanTable table parent = .ok [] ∧
        (d'.repository h.site).write h.author now none table (.insert row) = .value (id, r) := by
  obtain ⟨hauthor, number, hs⟩ := initAt_ok hnew hinit
  have hnamed := (upright_first hs h).orderly.named
  obtain ⟨husable, -, -, hmain, -⟩ := Repository.start_fresh hs
  obtain ⟨c, hc, htree⟩ := Repository.start_tip hs
  have hparent : (d'.repository h.site).resolve RefName.main = .ok ⟨number, 0⟩ :=
    Repository.resolve_of_ref RefName.normal?_main hmain hc
  rw [← hauthor] at husable
  have ⟨shown, hshown, _⟩ := husable
  have hstamp : stamp h.author = .ok shown := Repository.stamp_eq_ok_iff.2 hshown
  have hmade : (d'.repository h.site).commitTo h.author now RefName.main table (.insert row) none = _ :=
    Repository.commitTo_eq hnamed hparent RefName.normal?_main hc
  rw [htree, hstamp] at hmade
  refine ⟨hnamed, husable, _, _, _, hparent, ?_, hmade⟩
  unfold Repository.scanTable
  rw [Repository.treeAt_eq hc, htree]
  rfl

end Accepted

/-- A list of numbers is served in a new repository. -/
theorem numbers_are_served : ∃ h d', Handle.initAt {} "data" .default = (.ok h, d') ∧ ∃ id r row,
    (d'.repository h.site).commitToMain h.author "t" ⟨"users"⟩
      (.insert (Row.single "n" (.array [Json.ofInt (-3)]))) = .value (id, r) ∧
    Repository.Serves r ⟨⟨"users"⟩, ⟨"k"⟩⟩ row id := by
  obtain ⟨h, d', hinit⟩ := initAt_data
  obtain ⟨-, husable, parent, id, r, -, -, hmade⟩ :=
    first_takes rfl hinit "t" ⟨"users"⟩ (Row.single "n" (.array [Json.ofInt (-3)]))
  have hplain : (Row.single "n" (.array [Json.ofInt (-3)])).Plain :=
    ⟨by decide, ⟨show Json.InRange (-3) by decide, trivial⟩, trivial⟩
  have hreadable : (Row.single "n" (.array [Json.ofInt (-3)])).Readable := fun e he => by
    obtain rfl := List.mem_singleton.1 he
    exact ⟨by decide, by decide⟩
  obtain ⟨-, _, _, row, -, -, -, -, hserved, -⟩ :=
    accepted_row_is_served rfl hinit [] [] (i := 0) rfl husable rfl (by decide) hplain hmade
  have hafter : ((first (d'.repository h.site) h).step (.call 0 (.write "t" none ⟨"users"⟩
      (.insert (Row.single "n" (.array [Json.ofInt (-3)])))))).repository = r := step_write rfl hmade
  have hserves := (hserved hreadable).1
  exact ⟨h, d', hinit, id, r, row, hmade, hafter ▸ hserves⟩

/-- A row with a column `_pk` is taken, although its table could be scanned before: then the row cannot be read, the
table cannot be scanned, and the row cannot be deleted. -/
theorem reserved_column_is_taken : ∃ h d', Handle.initAt {} "data" .default = (.ok h, d') ∧ ∃ parent id r,
    (d'.repository h.site).resolve RefName.main = .ok parent ∧
    (d'.repository h.site).scanTable ⟨"users"⟩ parent = .ok [] ∧
    (d'.repository h.site).commitToMain h.author "t" ⟨"users"⟩ (.insert (Row.single "_pk" (.string "y"))) =
      .value (id, r) ∧
    (∀ row?, r.readRow ⟨⟨"users"⟩, ⟨"k"⟩⟩ id ≠ .ok row?) ∧ (∀ rows, r.scanTable ⟨"users"⟩ id ≠ .ok rows) ∧
    ∀ made, r.commitToMain h.author "t" ⟨"users"⟩ (.delete ⟨"k"⟩) ≠ .value made := by
  obtain ⟨h, d', hinit⟩ := initAt_data
  obtain ⟨hnamed, husable, parent, id, r, hparent, hscan, hmade⟩ :=
    first_takes rfl hinit "t" ⟨"users"⟩ (Row.single "_pk" (.string "y"))
  have hplain : (Row.single "_pk" (.string "y")).Plain := ⟨by decide, trivial, trivial⟩
  have hreserved : ¬ (Row.single "_pk" (.string "y")).Readable := fun hr =>
    (hr _ (List.mem_singleton.2 rfl)).1 (by decide)
  have hr : r.WellNamed := Repository.closed_wellNamed.commitTo hnamed hmade
  obtain ⟨hid, _, _, row, -, -, -, hfile, -, hspoils⟩ :=
    Repository.write_served_or_spoiled hnamed hr (.refl r) husable rfl (by decide) hplain hmade
  obtain ⟨e, hread, hscan', hdelete⟩ := hspoils hreserved
  refine ⟨h, d', hinit, parent, id, r, hparent, hscan, hmade, fun row? heq => ?_, hscan', fun made heq => ?_⟩
  · have := hread.symm.trans heq
    cases this
  · have := (hdelete h.author "t" none id hid hfile).symm.trans heq
    cases this

end Chronicle

end Git
end Demarcate
