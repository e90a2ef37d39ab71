import Demarcate.Proofs.Git.Lineages
import Demarcate.Proofs.Memory.Lineages
import Demarcate.Proofs.Refusals
import Demarcate.Proofs.Snapshot
/-!
# Descent — where a committed row comes from

On either backend, and however sessions and transactions come one between the other, a committed row has come about
from the change that stored it where there was none, through the updates and upserts that were committed since: each
counts once, also several of one transaction, and none that was not committed does (`rows_follow_lineages`).  So the row
has the version that it was created with and one more for each of them, the time that it was created at, the time of the
last of them and the columns of that one alone.  In memory it is that row; in a repository it is what the text of that
row is read as.  The text of a double may be read as the double beside it, and then the columns that are served are not
the ones that were given (`double_is_not_served_as_given`).
-/
namespace Demarcate

open Lineage (Bounded)

namespace Source

/-- What is read of a committed row that has come about so, or of its absence. -/
def served (key : RowKey) (l? : Option Lineage) : Source → Except StorageError (Option Row)
  | .memory _ => .ok (l?.map Lineage.row)
  | .git _ => Lineage.reread key l?

/-- The rows that are committed are those of the lineages. -/
def Accounts (st : Stores) (lineages : Slot → Option Lineage) : Source → Prop
  | .memory i => (st.memory i).tables.Tell lineages
  | .git i => (st.view i).Tells Git.RefName.main lineages

variable {source : Source} {key : RowKey} {l? : Option Lineage}

theorem served_heading {row? : Option Row} (hbounded : Bounded l?) (h : source.served key l? = .ok row?) :
    row?.map Row.heading = l?.map fun l => l.row.heading := by
  cases source with
  | memory i =>
    cases h
    exact Option.map_map ..
  | git i => exact Lineage.reread_heading hbounded h

/-- **What a row is read as that has come about**: its version, its times and its columns. -/
theorem served_row {row : Row} (hbounded : Bounded l?) (h : source.served key l? = .ok (some row)) :
    ∃ l, l? = some l ∧ row.version = l.creation.version + l.later.length ∧ row.version ≤ Row.greatestVersion ∧
      row.createdAt = l.creation.createdAt ∧ row.updatedAt = l.changedAt ∧
      ((∃ i, source = .memory i) ∨ Json.PlainFields l.last.columns.entries → row.columns = l.last.columns) := by
  obtain ⟨l, rfl, hheading⟩ := Option.map_eq_some_iff.1 (served_heading hbounded h).symm
  obtain ⟨hversion, hcreated, hupdated⟩ := Row.heading_eq_iff.1 hheading
  have hle : l.row.version ≤ Row.greatestVersion := hbounded l rfl
  refine ⟨l, rfl, hversion.symm, hversion ▸ hle, hcreated.symm, hupdated.symm, fun hcolumns => ?_⟩
  rw [← l.row_columns] at hcolumns ⊢
  suffices hrow : row = l.row from congrArg Row.columns hrow
  cases source with
  | memory i =>
    cases h
    rfl
  | git i =>
    obtain ⟨_, hmemory⟩ | hplain := hcolumns
    · cases hmemory
    · have h : Lineage.reread key (some l) = .ok (some row) := h
      exact Lineage.reread_plain ⟨hle, hplain⟩ h

theorem served_none (hbounded : Bounded l?) (h : source.served key l? = .ok none) : l? = none :=
  Option.map_eq_none_iff.1 (served_heading hbounded h).symm

variable {st : Stores} {lineages : Slot → Option Lineage}

/-- **What is read outside of transactions**: every committed row, unless `main` cannot be read at all. -/
theorem Accounts.read (h : source.Accounts st lineages)
    (horderly : ∀ i, source = .git i → (st.view i).repository.Orderly) (id : Ulid) :
    (∃ i e, source = .git i ∧ ∀ s, (source.session id).get st s = .error e) ∨
      ∀ s, Bounded (lineages s) ∧ (source.session id).get st s = source.served s.key (lineages s) := by
  cases source with
  | memory i => exact .inr fun s => ⟨(h s).2, congrArg Except.ok (h s).1⟩
  | git i =>
    obtain ⟨e, he⟩ | hread := Git.View.Tells.read none h (horderly i rfl)
    · exact .inl ⟨i, e, rfl, he⟩
    · exact .inr hread

/-- Where no row is committed, none has come about. -/
theorem accounts_nothing (hst : st.Reachable) (id : Ulid) (h : ∀ s, (source.session id).get st s = .ok none) :
    source.Accounts st fun _ => none := by
  cases source with
  | memory i => exact fun s => ⟨Except.ok.inj (h s), Lineage.bounded_none⟩
  | git i =>
    intro head c hat s
    have hat : (st.view i).At (Git.branchAt none) head c := hat
    refine ⟨?_, Lineage.bounded_none⟩
    show Git.Tree.fileAt? c.tree (Git.pathOf s) = none
    have hrow : Git.Repository.rowIn c.tree s = .ok none := (hat.read (hst.orderly i).named s).symm.trans (h s)
    by_contra hfile
    obtain ⟨text, htext⟩ := Option.ne_none_iff_exists'.1 hfile
    rw [Git.rowIn_of_fileAt? htext] at hrow
    obtain ⟨row, -, hnone⟩ := map_ok hrow
    cases hnone

end Source

namespace Traffic

variable {source : Source} {st : Stores}

/-- **The ledger of a run has the rows that are committed in the end.** -/
theorem accounts_run (hst : st.Reachable) (hin : source.IsIn st) {start : Slot → Option Lineage}
    (hstart : source.Accounts st start) {events : List Event} (hevents : ∀ e ∈ events, e.Versioned)
    (hn : ∀ i, source = .git i → ((on source st).run events).Numbered) :
    let last := (on source st).run events
    source.Accounts last.stores (((on source st).trace events).foldl (Ledger.enter source) { main := start }).main ∧
      ∀ i, source = .git i → (last.stores.view i).repository.Orderly := by
  intro last
  cases source with
  | memory i =>
    have hon : Ledger.OfTables i { main := start } (on (.memory i) st) :=
      ⟨regular_on hin, rfl, hstart, fun n tx hs => by cases hs⟩
    exact ⟨(Ledger.OfTables.run events hon hevents).main, nofun⟩
  | git i =>
    have hon : Ledger.OfBranches i { main := start } (on (.git i) st) :=
      ⟨tended_on hst hin, hstart, fun n id base hs => (by cases hs), fun n tx hs => by cases hs⟩
    have hlast := Ledger.OfBranches.run events hon hevents (hn i rfl)
    refine ⟨hlast.main, fun j hj => ?_⟩
    cases hj
    exact hlast.tended.orderly

/-- **When a change unwinds in a run**, and that it leaves everything as it was but for the clock. -/
theorem unwinds_iff {k : Traffic} {through : Through} {s : Session} (hs : k.session? through = some s)
    (reading : Nat) (t : TableName) (c : Change) (text : String) :
    ((k.react (.operate through (.change reading t c))).1 = .changed (.unwound text) ↔
      text = Row.overflowText ∧ ∃ existing, s.get k.stores ⟨t, c.key⟩ = .ok existing ∧ c.Overflows existing) ∧
    ((k.react (.operate through (.change reading t c))).1 = .changed (.unwound text) →
      (k.step (.operate through (.change reading t c))).stores = { k.stores with readings := reading + 1 }) := by
  have hget : s.get { k.stores with readings := reading } ⟨t, c.key⟩ = s.get k.stores ⟨t, c.key⟩ := by
    cases s <;> rfl
  have hanswer : (k.react (.operate through (.change reading t c))).1 =
      .changed (s.apply { k.stores with readings := reading } t c).1 := congrArg Prod.fst (react_operate hs _)
  have hstores : (k.step (.operate through (.change reading t c))).stores =
      (s.apply { k.stores with readings := reading } t c).2 :=
    congrArg (fun r => r.2.stores) (react_operate hs _)
  rw [hanswer, hstores, Answer.changed.injEq, ← hget]
  refine ⟨Session.unwound_iff, fun hunwound => Session.refused_apply fun hvalue => ?_⟩
  rw [hvalue] at hunwound
  cases hunwound

/-- **Where every committed row comes from.**  Whatever is done on a store, a row that is read outside of transactions
in the end has the lineage that the ledger of the answers has in its slot.  Its version is the one that it was created
with and one more for each later change; the time of its creation is the first change's, and all else the last one's.
A change unwinds exactly where it would count the row that its session sees beyond the greatest version, and then
everything is left as it was. -/
theorem rows_follow_lineages (hst : st.Reachable) (hin : source.IsIn st) {start : Slot → Option Lineage}
    (hstart : source.Accounts st start) (events : List Event) (hevents : ∀ e ∈ events, e.Versioned)
    (hn : ∀ i, source = .git i → ((on source st).run events).Numbered) :
    let last := (on source st).run events
    let main := (((on source st).trace events).foldl (Ledger.enter source) { main := start }).main
    (∀ id,
      ((∃ i e, source = .git i ∧ ∀ s, (source.session id).get last.stores s = .error e) ∨
        ∀ s, (source.session id).get last.stores s = source.served s.key (main s)) ∧
      (∀ s, (source.session id).get last.stores s = .ok none → main s = none) ∧
      ∀ s row, (source.session id).get last.stores s = .ok (some row) → ∃ l, main s = some l ∧
        row.version = l.creation.version + l.later.length ∧ row.version ≤ Row.greatestVersion ∧
        row.createdAt = l.creation.createdAt ∧ row.updatedAt = l.changedAt ∧
        ((∃ i, source = .memory i) ∨ Json.PlainFields l.last.columns.entries → row.columns = l.last.columns)) ∧
    ∀ through s, last.session? through = some s → ∀ reading t c text,
      let answered := last.react (.operate through (.change reading t c))
      (answered.1 = .changed (.unwound text) ↔ text = Row.overflowText ∧
        ∃ existing, s.get last.stores ⟨t, c.key⟩ = .ok existing ∧ c.Overflows existing) ∧
      (answered.1 = .changed (.unwound text) →
        answered.2.stores = { last.stores with readings := reading + 1 }) := by
  intro last main
  obtain ⟨haccounts, horderly⟩ := accounts_run hst hin hstart hevents hn
  refine ⟨fun id => ?_, fun through s hs reading t c text => unwinds_iff hs reading t c text⟩
  obtain ⟨i, e, hgit, herror⟩ | hread := haccounts.read horderly id
  · refine ⟨.inl ⟨i, e, hgit, herror⟩, fun s hnone => ?_, fun s row hrow => ?_⟩
    · cases (herror s).symm.trans hnone
    · cases (herror s).symm.trans hrow
  · exact ⟨.inr fun s => (hread s).2, fun s hnone => Source.served_none (hread s).1 ((hread s).2.symm.trans hnone),
      fun s row hrow => Source.served_row (hread s).1 ((hread s).2.symm.trans hrow)⟩

/-- A row of version 7 is stored; it is updated twice in a transaction that is committed, and once in one that is rolled
back; and then it is upserted. -/
def fourChanges : List Event :=
  let row : Row := { Row.single "n" .null with version := 7 }
  let change (reading : Nat) (c : Change) : Operation := .change reading ⟨"notes"⟩ c
  [.operate (.session ⟨0⟩) (change 0 (.insert row)), .begin (.session ⟨0⟩), .begin (.session ⟨1⟩),
    .operate (.handle 0) (change 1 (.update { row with version := 1, createdAt := "c" })),
    .operate (.handle 1) (change 2 (.update row)), .operate (.handle 0) (change 3 (.update row)),
    .finish 1 .rollback, .finish 0 .commit,
    .operate (.session ⟨0⟩) (change 4 (.upsert { Row.single "m" .null with createdAt := "d" }))]

/-- The three that were committed have made version 10 of it, and only the last of them is left of its columns. -/
theorem committed_changes_count :
    (Session.memory ⟨2⟩ 0 none).get ((on (.memory 0) (Stores.addMemory {}).2).run fourChanges).stores
      ⟨⟨"notes"⟩, ⟨"k"⟩⟩ = .ok (some { Row.single "m" .null with version := 10, updatedAt := Clock.stamp 4 }) := by
  have hst : (Stores.addMemory {}).2.Reachable := .addMemory (.new 0 0)
  have hin : (Source.memory 0).IsIn (Stores.addMemory {}).2 := Nat.zero_lt_one
  have hstart : Source.Accounts (Stores.addMemory {}).2 (fun _ => none) (.memory 0) :=
    Source.accounts_nothing hst ⟨0⟩ fun s => rfl
  have hevents : ∀ e ∈ fourChanges, e.Versioned := by decide +kernel
  obtain ⟨hrows, -⟩ := rows_follow_lineages hst hin hstart fourChanges hevents nofun
  obtain ⟨⟨i, e, hgit, -⟩ | hread, -⟩ := hrows ⟨2⟩
  · cases hgit
  · exact hread ⟨⟨"notes"⟩, ⟨"k"⟩⟩

/-- The first row that is committed is read from its text. -/
theorem first_insert {v : Git.View} {tip : Git.CommitId} {c : Git.Commit} (hat : v.At Git.RefName.main tip c)
    (htree : c.tree = []) (hnamed : v.repository.WellNamed) (hauthor : v.handle.author.Usable) (reading : Nat)
    (t : TableName) (row : Row) : ∃ v', v.perform none (.change reading t (.insert row)) = (.changed (.value ()), v') ∧
      v'.read none ⟨t, row.key⟩ = (Row.decode row.encode row.key).map some := by
  have ⟨shown, hshown, _⟩ := hauthor
  have hstamp : Git.Repository.stamp v.handle.author = .ok shown := Git.Repository.stamp_eq_ok_iff.2 hshown
  let commit : Git.Commit := ⟨[tip], Git.Repository.withRow [] ⟨t, row.key⟩ (some row),
    Git.Repository.changeMessage ⟨t, row.key⟩ (Change.insert row).verb none, shown⟩
  have hmade : v.commitOn (Clock.stamp reading) none t (.insert row) =
      .value (v.repository.next, v.repository.extend Git.RefName.main commit) := by
    rw [Git.View.commitOn_eq]
    refine (Git.Repository.commitTo_eq hnamed (hat.resolve hnamed) Git.RefName.normal?_main hat.commit).trans ?_
    rw [htree, hstamp]
    rfl
  let v' : Git.View := ⟨v.repository.extend Git.RefName.main commit, v.handle⟩
  have hat' : v'.At (Git.branchAt none) v.repository.next commit :=
    ⟨(SortedMap.get?_insert ..).trans (if_pos rfl), Git.Repository.commit?_extend _ _
      (Git.Repository.readable_of_stamp hauthor.unbroken hstamp commit.parents commit.tree commit.message)⟩
  refine ⟨v', ?_, ?_⟩
  · unfold Git.View.perform Git.View.apply
    simp only
    rw [hmade]
    rfl
  · have hfile : Git.Tree.fileAt? commit.tree (Git.pathOf ⟨t, row.key⟩) = some row.encode := by
      rw [Git.fileAt?_withRow]
      exact if_pos rfl
    have hnamed' : v'.repository.WellNamed :=
      Git.Repository.closed_wellNamed.commitTo hnamed ((Git.View.commitOn_eq ..).symm.trans hmade)
    rw [hat'.read hnamed', Git.rowIn_of_fileAt? hfile]

/-- A repository takes a row with the double 0.9011211014781721 in it, and serves the double before it. -/
theorem double_is_not_served_as_given :
    let row : Row := Row.single "x" (.number (.float ⟨false, 8116577313665574, -53⟩))
    let insertion : Event := .operate (.session ⟨0⟩) (.change 0 ⟨"notes"⟩ (.insert row))
    let k := on (.git 1) (Stores.openedTwice .default)
    k.stores.Reachable ∧ k.source.IsIn k.stores ∧ insertion.Versioned ∧
      (∀ s, (Session.git ⟨0⟩ 1 none).get k.stores s = .ok none) ∧ (k.react insertion).1 = .changed (.value ()) ∧
      ∃ served, (Session.git ⟨0⟩ 1 none).get (k.step insertion).stores ⟨⟨"notes"⟩, ⟨"k"⟩⟩ = .ok (some served) ∧
        served.columns ≠ row.columns := by
  intro row insertion k
  have hi : 1 < (Stores.openedTwice .default).handles.size := (begins_openedTwice .default ⟨0⟩).1
  have h : k.Tended 1 := tended_on (Stores.reachable_openedTwice .default) hi
  obtain ⟨r, hview, -, tip, c, -, hmain, hc, htree⟩ := Stores.view_openedTwice .default
  have hview : k.stores.view 1 = ⟨r, ⟨"data", ["data"], .default, ∅⟩⟩ := hview
  have hat : (k.stores.view 1).At Git.RefName.main tip c := hview ▸ ⟨hmain, hc⟩
  have hauthor : (k.stores.view 1).handle.author.Usable := hview ▸ Git.Signature.usable_default
  obtain ⟨v, hperform, hread⟩ := first_insert hat htree h.orderly.named hauthor 0 ⟨"notes"⟩ row
  have hsession : k.session? (.session ⟨0⟩) = some (.git ⟨0⟩ 1 none) := rfl
  obtain ⟨_, rfl, hanswer, hstep⟩ := h.operate hsession (.change 0 ⟨"notes"⟩ (.insert row))
  rw [hperform] at hanswer hstep
  -- the digits of the double are worth the one before it
  have hprint : (⟨false, 8116577313665574, -53⟩ : Binary64).render = '0' :: '.' :: "9011211014781721".toList := by
    decide +kernel
  have hvalue : Json.Numeral.value? ⟨false, ['0'], some "9011211014781721".toList, none⟩ =
      some (.float ⟨false, 8116577313665573, -53⟩) := by decide +kernel
  have hdigits : ∀ c ∈ "9011211014781721".toList, c.isDigit = true := List.all_eq_true.1 (by decide)
  have hdecode := Row.decode_fraction hprint (by decide) hdigits hvalue
  have hversioned : insertion.Versioned := by decide +kernel
  refine ⟨Stores.reachable_openedTwice .default, hi, hversioned, (Stores.shows_openedTwice .default ⟨0⟩).get, hanswer,
    Row.single "x" (.number (.float ⟨false, 8116577313665573, -53⟩)), ?_, fun hcolumns => ?_⟩
  · rw [Session.get_view, hstep]
    exact hread.trans (congrArg (Except.map some) hdecode)
  · cases congrArg SortedMap.entries hcolumns

end Traffic
end Demarcate
