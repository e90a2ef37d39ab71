import Demarcate.Proofs.Memory.Overlay
/-!
# Keeping — what every store in memory keeps

A store in memory changes in two places, by a change that takes effect at once and by a commit that lays a write set
over the tables.  What both keep (`Store.Closed`), every store in memory has that can be come upon
(`Stores.Reachable.every_memory`).  So every row, committed or buffered, is under its own key (`closed_keyed`).

A session sees its store as tables, the committed ones or those with its transaction's writes laid over them
(`Store.seen`): a row is looked up in them and a table is scanned in them.
-/
namespace Demarcate
namespace Memory

/-! ## What a session sees -/

/-- The tables that a session sees. -/
def Store.seen (m : Store) : (tx : Option Ulid) → Tables
  | none => m.tables
  | some u => (m.writeSet u).laidOver m.tables

theorem Store.get_seen (m : Store) (tx : Option Ulid) (s : Slot) : m.get tx s = (m.seen tx).row? s := by
  cases tx with
  | none => rfl
  | some u =>
    exact (WriteSet.row?_laidOver (m.writeSet u) m.tables s).symm

theorem Store.scan_seen (m : Store) (tx : Option Ulid) (t : TableName) :
    m.scan tx t = ((m.seen tx).rowsOf t).values := by
  cases tx with
  | none => rfl
  | some u => exact congrArg SortedMap.values (overlay_eq t (m.writeSet u).entries m.tables)

/-! ## Stores -/

/-- What is done to a store in memory keeps `Q`. -/
structure Store.Closed (Q : Store → Prop) : Prop where
  fresh : Q {}
  /-- To begin a transaction, and to discard it. -/
  emptied : ∀ {m : Store}, Q m → ∀ u, Q (m.setWriteSet u ∅)
  apply : ∀ {m m' : Store} {now : String} {tx : Option Ulid} {t : TableName} {c : Change}, Q m →
    m.apply now tx t c = .value m' → Q m'
  commit : ∀ {m : Store}, Q m → ∀ u, Q (m.commit u).2

end Memory

namespace Stores

/-- Every store in memory has `Q`. -/
def EveryMemory (Q : Memory.Store → Prop) (st : Stores) : Prop := ∀ i, Q (st.memory i)

namespace EveryMemory

variable {Q : Memory.Store → Prop} {st : Stores}

theorem setMemory (h : st.EveryMemory Q) {i : Nat} {m : Memory.Store} (hm : Q m) : (st.setMemory i m).EveryMemory Q := by
  intro j
  rw [memory_setMemory]
  split
  · exact hm
  · exact h j

theorem congr (h : st.EveryMemory Q) {st' : Stores} (heq : st'.memories = st.memories) : st'.EveryMemory Q := by
  intro i
  unfold memory
  rw [heq]
  exact h i

end EveryMemory

/-! ## What leaves the stores in memory alone -/

theorem memories_beginBranch (st : Stores) (i : Nat) (id : String) : (st.beginBranch i id).2.memories = st.memories := by
  unfold beginBranch
  cases (st.handle i).begin (st.repository i) id <;> rfl

theorem memories_abandonBranch (st : Stores) (i : Nat) (id : String) :
    (st.abandonBranch i id).2.memories = st.memories := by
  unfold abandonBranch
  generalize (st.handle i).abandon (st.repository i) id = given
  obtain ⟨_ | _, h⟩ := given <;> rfl

theorem memories_mergeBranch (st : Stores) (i : Nat) (id : String) (base : Git.CommitId) :
    (st.mergeBranch i id base).2.memories = st.memories := by
  unfold mergeBranch
  cases (st.repository i).merge (st.handle i).author id base <;> rfl

theorem memories_openRepository (st : Stores) (g : GitConfig) : (st.openRepository g).2.memories = st.memories := by
  unfold openRepository
  simp only
  split <;> rfl

end Stores

namespace Session

open Memory.Store (Closed)
open Stores (EveryMemory)

variable {Q : Memory.Store → Prop} (hQ : Closed Q) {st : Stores}

include hQ

theorem everyMemory_apply (h : st.EveryMemory Q) (s : Session) (t : TableName) (c : Change) :
    (s.apply st t c).2.EveryMemory Q := by
  have hread : st.readClock.2.EveryMemory Q := h
  obtain ⟨id, i, tx, m, -, hm, heq⟩ | ⟨id, i, tx, commit, r, -, -, heq⟩ | ⟨-, heq⟩ := apply_cases st s t c
  · rw [heq]
    exact hread.setMemory (hQ.apply (h i) hm)
  · rw [heq]
    exact hread.congr rfl
  · rw [heq]
    exact hread

theorem everyMemory_begin (h : st.EveryMemory Q) (s : Session) : (s.begin st).2.EveryMemory Q := by
  have hissue : st.issue.2.EveryMemory Q := h
  cases s with
  | memory id i tx =>
    cases tx with
    | some tx => exact h
    | none => exact hissue.setMemory (hQ.emptied (h i) _)
  | git id i tx =>
    cases tx with
    | some tx => exact h
    | none =>
      have hbranch := Stores.memories_beginBranch st.issue.2 i st.issue.1.lowerText
      simp only [begin]
      generalize st.issue.2.beginBranch i st.issue.1.lowerText = begun at hbranch ⊢
      obtain ⟨base, st'⟩ := begun
      cases base <;> exact hissue.congr hbranch

omit hQ in
theorem everyMemory_dropBranch (h : st.EveryMemory Q) (i : Nat) (tx : Git.Transaction) :
    (dropBranch st i tx).EveryMemory Q := by
  unfold dropBranch
  exact h.congr (Stores.memories_abandonBranch st i tx.id.lowerText)

theorem everyMemory_commit (h : st.EveryMemory Q) (s : Session) : (s.commit st).2.EveryMemory Q := by
  unfold commit
  split
  · rename_i i tx
    have hm := hQ.commit (h i) tx
    split
    all_goals
      rename_i heq
      rw [heq] at hm
      exact h.setMemory hm
  · rename_i i tx
    have hm := Stores.memories_mergeBranch st i tx.id.lowerText tx.base
    split
    all_goals
      rename_i heq
      rw [heq] at hm
      simp only
      exact everyMemory_dropBranch (h.congr hm) i tx
  · exact h

theorem everyMemory_rollback (h : st.EveryMemory Q) (s : Session) : (s.rollback st).EveryMemory Q := by
  unfold rollback
  split
  · exact h.setMemory (hQ.emptied (h _) _)
  · exact everyMemory_dropBranch h _ _
  · exact h

omit hQ in
theorem everyMemory_abort (h : st.EveryMemory Q) (s : Session) : (s.abort st).EveryMemory Q := by
  unfold abort
  split
  · exact everyMemory_dropBranch h _ _
  · exact h

end Session

/-- **What everything done to a store in memory keeps, each store in memory has** that can be come upon. -/
theorem Stores.Reachable.every_memory {Q : Memory.Store → Prop} (hQ : Memory.Store.Closed Q) {st : Stores}
    (h : st.Reachable) : st.EveryMemory Q := by
  induction h with
  | new issued readings => exact fun i => hQ.fresh
  | @addMemory st h ih =>
    intro i
    show Q ((st.memories.push {}).getD i {})
    rw [Array.getD_eq_getD_getElem?, Array.getElem?_push]
    split
    · exact hQ.fresh
    · rw [← Array.getD_eq_getD_getElem?]
      exact ih i
  | @openRepository st h g ih => exact ih.congr (memories_openRepository st g)
  | cleanup h i ih => exact ih.congr rfl
  | issue h ih => exact ih
  | readClock h ih => exact ih
  | apply h s t c ih => exact Session.everyMemory_apply hQ ih s t c
  | begin h s ih => exact Session.everyMemory_begin hQ ih s
  | commit h s ih => exact Session.everyMemory_commit hQ ih s
  | rollback h s ih => exact Session.everyMemory_rollback hQ ih s
  | abort h s ih => exact Session.everyMemory_abort ih s
  | @beginBranch st h i id ih => exact ih.congr (memories_beginBranch st i id)
  | @abandonBranch st h i id ih => exact ih.congr (memories_abandonBranch st i id)

/-! ## Rows under their own keys -/

namespace Memory

/-- The row, if there is one, has the slot's key. -/
def FitsSlot (s : Slot) (row? : Option Row) : Prop := ∀ row, row? = some row → row.key = s.key

/-- Every row is under its own key. -/
def Tables.Keyed (tables : Tables) : Prop := ∀ s, FitsSlot s (tables.row? s)

/-- Every row is under its own key, of those that a write set has read or writes, too. -/
structure Store.Keyed (m : Store) : Prop where
  tables : m.tables.Keyed
  pending : ∀ u s p, (m.writeSet u).get? s = some p → FitsSlot s p.read ∧ FitsSlot s p.write

theorem Tables.Keyed.put {tables : Tables} (h : tables.Keyed) {s : Slot} {row? : Option Row} (hrow : FitsSlot s row?) :
    (tables.put s row?).Keyed := by
  intro s'
  rw [row?_put]
  split
  · rename_i hs
    exact hs ▸ hrow
  · exact h s'

theorem fitsSlot_resolve {c : Change} {now : String} {t : TableName} {existing row? : Option Row}
    (h : c.resolve now t existing = .value row?) : FitsSlot ⟨t, c.key⟩ row? := by
  rintro row rfl
  exact Git.resolve_key h

namespace Store.Keyed

variable {m : Store} (h : m.Keyed)

include h

/-- What a transaction sees is under its own key as well. -/
theorem seen (tx : Option Ulid) : (m.seen tx).Keyed := by
  intro s
  rw [← get_seen]
  cases tx with
  | none => exact h.tables s
  | some u =>
    unfold get
    rw [Option.bind_some]
    split
    · rename_i p hp
      exact (h.pending u s p hp).2
    · exact h.tables s

theorem emptied (u : Ulid) : (m.setWriteSet u ∅).Keyed := by
  refine ⟨h.tables, fun u' s p hp => ?_⟩
  rw [writeSet_setWriteSet] at hp
  split at hp
  · cases hp
  · exact h.pending u' s p hp

theorem written {u : Ulid} {s : Slot} {p : PendingWrite} (hread : FitsSlot s p.read) (hwrite : FitsSlot s p.write) :
    (m.setWriteSet u ((m.writeSet u).insert s p)).Keyed := by
  refine ⟨h.tables, fun u' s' p' hp => ?_⟩
  rw [writeSet_setWriteSet] at hp
  split at hp
  · rw [SortedMap.get?_insert] at hp
    split at hp
    · rename_i hs
      cases hp
      exact hs ▸ ⟨hread, hwrite⟩
    · exact h.pending u s' p' hp
  · exact h.pending u' s' p' hp

end Store.Keyed

/-- **Every row in a store in memory is under its own key**, and so is every row of a write set. -/
theorem closed_keyed : Store.Closed Store.Keyed where
  fresh := ⟨nofun, nofun⟩
  emptied h u := h.emptied u
  apply {m m' now tx t c} h ha := by
    cases tx with
    | none =>
      obtain ⟨row, hrow, rfl⟩ := apply_none_value ha
      exact ⟨h.tables.put (fitsSlot_resolve hrow), h.pending⟩
    | some u =>
      obtain ⟨p, rfl, hwrite, hread⟩ := applyBuffered_value ha
      refine h.written ?_ (fitsSlot_resolve hwrite)
      rw [hread]
      split
      · rename_i q hq
        exact (h.pending u _ q hq).1
      · exact h.tables _
  commit {m} h u := by
    obtain ⟨-, hcommit⟩ | ⟨slot, slots, hcommit⟩ := commit_cases m u
    · rw [hcommit]
      exact ⟨h.seen (some u), (h.emptied u).pending⟩
    · rw [hcommit]
      exact h.emptied u

end Memory
end Demarcate
