import Demarcate.Proofs.Conflicts
import Demarcate.Proofs.Git.Legibility
import Demarcate.Proofs.Heading
import Mathlib.Logic.Function.Basic
/-!
# Lineage — how rows have come about

A row was stored where there was none, and then updated or upserted any number of times: that is its `Lineage`.  The row
can be told from it (`Lineage.row`).  A change is resolved against the version and the time of creation that the row has
by then, and makes the row of the lineage that it continues (`Lineage.resolve_extend`).

Which lineages there are is told from what sessions were answered, without a look into the store (`Ledger.enter`).  A
change outside of transactions continues the lineage that is committed in its slot; one in a transaction continues what
the transaction sees there, and waits with it; and what waits goes in with the commit.
-/
namespace Demarcate

/-- The row that was stored where there was none, and the readings and rows of the updates and upserts that its value
has been through since, the last first. -/
structure Lineage where
  creation : Row
  later : List (Nat × Row) := []

namespace Lineage

/-- The row that the last change was given. -/
def last (l : Lineage) : Row :=
  match l.later with
  | [] => l.creation
  | (_, row) :: _ => row

/-- The time of the last change, or the one that the row was created with. -/
def changedAt (l : Lineage) : String :=
  match l.later with
  | [] => l.creation.updatedAt
  | (reading, _) :: _ => Clock.stamp reading

/-- The row that has come about. -/
def row (l : Lineage) : Row :=
  { l.last with
    version := l.creation.version + l.later.length
    createdAt := l.creation.createdAt
    updatedAt := l.changedAt }

@[simp]
theorem row_columns (l : Lineage) : l.row.columns = l.last.columns := rfl

/-- The lineage of the row that a change makes at a reading of the clock. -/
def extend (reading : Nat) : Change → Option Lineage → Option Lineage
  | .insert row, _ => some { creation := row }
  | .update row, l? => l?.map fun l => { l with later := (reading, row) :: l.later }
  | .upsert row, none => some { creation := row }
  | .upsert row, some l => some { l with later := (reading, row) :: l.later }
  | .delete _, _ => none

/-- No version is greater than a row can have. -/
def Bounded (l? : Option Lineage) : Prop := ∀ l, l? = some l → l.row.version ≤ Row.greatestVersion

theorem bounded_none : Bounded none := nofun

variable {reading : Nat} {t : TableName} {c : Change} {existing row? : Option Row} {l? : Option Lineage}

theorem succeed_row {previous next made : Row} {l : Lineage} (hheading : previous.heading = l.row.heading)
    (h : Row.succeed (Clock.stamp reading) previous next = .value made) :
    made = row { l with later := (reading, next) :: l.later } := by
  obtain ⟨hversion, hcreated, -⟩ := Row.heading_eq_iff.1 hheading
  unfold Row.succeed at h
  split at h
  · cases h
    rw [hversion, hcreated]
    rfl
  · cases h

/-- **A change makes the row of the lineage that it continues**, if the row that it replaces has that lineage's version
and times. -/
theorem resolve_extend (hheading : existing.map Row.heading = l?.map fun l => l.row.heading)
    (h : c.resolve (Clock.stamp reading) t existing = .value row?) : row? = (extend reading c l?).map row := by
  cases existing with
  | none =>
    obtain rfl : l? = none := Option.map_eq_none_iff.1 hheading.symm
    cases c <;> cases h <;> rfl
  | some previous =>
    obtain ⟨l, rfl, hl⟩ := Option.map_eq_some_iff.1 hheading.symm
    cases c with
    | insert next => cases h
    | delete key =>
      cases h
      rfl
    | update next =>
      obtain ⟨row, hrow, h⟩ := bind_value h
      cases h
      exact congrArg some (succeed_row hl.symm hrow)
    | upsert next =>
      obtain ⟨row, hrow, h⟩ := bind_value h
      cases h
      exact congrArg some (succeed_row hl.symm hrow)

end Lineage

/-- The row that is put, if any, has a version that a row can have. -/
def Change.Versioned (c : Change) : Prop := ∀ row ∈ c.row?, row.version ≤ Row.greatestVersion

instance (c : Change) : Decidable c.Versioned := inferInstanceAs (Decidable (∀ row ∈ c.row?, _))

namespace Lineage

variable {reading : Nat} {t : TableName} {c : Change} {existing row? : Option Row} {l? : Option Lineage}

/-- The versions of a lineage stay those that a row can have. -/
theorem bounded_extend (hheading : existing.map Row.heading = l?.map fun l => l.row.heading) (hgiven : c.Versioned)
    (h : c.resolve (Clock.stamp reading) t existing = .value row?) : Bounded (extend reading c l?) := by
  intro l hl
  have hrow := resolve_extend hheading h
  rw [hl] at hrow
  cases hc : c.row? with
  | none =>
    cases c with
    | delete key => cases hl
    | _ => cases hc
  | some written =>
    obtain ⟨row, hsome, -, hversion⟩ := Change.resolve_row hc h
    rw [hsome, Option.map_some, Option.some.injEq] at hrow
    exact hrow ▸ hversion (hgiven written hc)

end Lineage

/-! ## What is told from the answers -/

/-- The text of the row that has come about. -/
def Lineage.text? (l? : Option Lineage) : Option String := l?.map fun l => l.row.encode

namespace Traffic

/-- The lineages of the rows that are committed, those of the rows that were committed when a transaction began, and
those that it has made in the slots that it has changed. -/
structure Ledger where
  main : Slot → Option Lineage
  base : Nat → Slot → Option Lineage := fun _ _ => none
  own : Nat → Slot → Option (Option Lineage) := fun _ _ => none

namespace Ledger

/-- What a transaction sees where it has changed nothing: in memory what is committed by now, in a repository what was
committed when it began. -/
def under (source : Source) (L : Ledger) (n : Nat) : Slot → Option Lineage :=
  match source with
  | .memory _ => L.main
  | .git _ => L.base n

/-- What a transaction sees. -/
def seen (source : Source) (L : Ledger) (n : Nat) (s : Slot) : Option Lineage :=
  (L.own n s).getD (L.under source n s)

/-- A change has succeeded. -/
def change (source : Source) (L : Ledger) (reading : Nat) (s : Slot) (c : Change) : Through → Ledger
  | .session _ => { L with main := Function.update L.main s (Lineage.extend reading c (L.main s)) }
  | .handle n =>
    let made := Lineage.extend reading c (L.seen source n s)
    { L with own := Function.update L.own n (Function.update (L.own n) s (some made)) }

/-- A transaction has begun. -/
def begin (L : Ledger) (n : Nat) : Ledger :=
  { L with
    base := Function.update L.base n L.main
    own := Function.update L.own n fun _ => none }

/-- What is committed when a transaction has been: what it has made, except that a repository does not tell a row that a
transaction has left with the text of its base from one that it has not changed. -/
def landed (source : Source) (L : Ledger) (n : Nat) (s : Slot) : Option Lineage :=
  match L.own n s, source with
  | none, _ => L.main s
  | some l?, .memory _ => l?
  | some l?, .git _ => if Lineage.text? l? = Lineage.text? (L.base n s) then L.main s else l?

/-- What an entry of a trace adds. -/
def enter (source : Source) (L : Ledger) (entry : Entry) : Ledger :=
  match entry.event, entry.answer with
  | .operate through (.change reading t c), .changed (.value ()) => L.change source reading ⟨t, c.key⟩ c through
  | .begin _, .begun (.ok n) => L.begin n
  | .finish n .commit, .ended (.value ()) => { L with main := L.landed source n }
  | _, _ => L

variable {source : Source} {L : Ledger}

/-- What a transaction changes, it sees from then on, and nobody else does. -/
theorem seen_change (reading : Nat) (s : Slot) (c : Change) (n n' : Nat) :
    (L.change source reading s c (.handle n)).seen source n' =
      if n' = n then Function.update (L.seen source n) s (Lineage.extend reading c (L.seen source n s))
      else L.seen source n' := by
  funext s'
  have hunder : (L.change source reading s c (.handle n)).under source n' = L.under source n' := by
    cases source <;> rfl
  unfold seen
  rw [hunder]
  unfold change
  simp only [Function.update_apply]
  by_cases hn : n' = n
  · subst hn
    rw [if_pos rfl, if_pos rfl, Function.update_apply, Function.update_apply]
    split <;> rfl
  · rw [if_neg hn, if_neg hn]

theorem enter_operate {through : Through} {op : Operation} {a : Answer} (h : a.isDone = false) (late : Bool) :
    L.enter source ⟨.operate through op, a, late⟩ = L := by
  unfold enter
  split
  · rename_i ha
    have hdone : a = .changed (.value ()) := ha
    rw [hdone] at h
    cases h
  · rename_i heq _
    cases heq
  · rename_i heq _
    cases heq
  · rfl

theorem enter_begin {through : Through} {a : Answer} (h : ∀ n, a ≠ .begun (.ok n)) (late : Bool) :
    L.enter source ⟨.begin through, a, late⟩ = L := by
  unfold enter
  split
  · rename_i heq _
    cases heq
  · rename_i n _ ha
    exact absurd ha (h n)
  · rename_i heq _
    cases heq
  · rfl

theorem enter_finish {n : Nat} {v : Engine.Verdict} {outcome : Outcome ResourceError Unit} (late : Bool) :
    L.enter source ⟨.finish n v, .ended outcome, late⟩ =
      if isCommitted v outcome then { L with main := L.landed source n } else L := by
  cases v with
  | commit => cases outcome <;> rfl
  | rollback => rfl
  | unwind text => rfl

theorem enter_nothing (e : Event) (late : Bool) : L.enter source ⟨e, .nothing, late⟩ = L := by
  unfold enter
  split
  · rename_i heq
    cases heq
  · rename_i heq
    cases heq
  · rename_i heq
    cases heq
  · rfl

end Ledger

/-- What is done puts rows with versions that a row can have. -/
def Event.Versioned : Event → Prop
  | .operate _ (.change _ _ c) => c.Versioned
  | _ => True

instance : DecidablePred Event.Versioned
  | .operate _ (.change _ _ c) => inferInstanceAs (Decidable c.Versioned)
  | .operate _ (.get _) | .operate _ (.scan _) | .operate _ (.count _) | .begin _ | .finish _ _ | .sweep =>
    inferInstanceAs (Decidable True)

end Traffic
end Demarcate
