import Demarcate.Proofs.Memory.History
import Demarcate.Proofs.Reachable
import Demarcate.Proofs.Work
/-!
# Contents — what a store has in a slot, and which of a transaction's writes are there

A session reads from a store's committed rows, or in a transaction from the rows as the transaction has them
(`content`), and two that have the same in a slot read the same there (`get_unique`).  The writes of a transaction come
to one change for every slot, from the content before the first of them to the content after the last (`bounds`).
`Landed` says that all of these changes are among the committed contents.
-/
namespace Demarcate

/-- What is in a slot: a row, in memory, or the text of a file, under version control. -/
inductive Content where
  | row (r : Option Row)
  | file (text : Option String)

namespace Git

/-- The text of a row's file, as a reference leads to it. -/
def Repository.text? (r : Repository) (name : String) (s : Slot) : Option String :=
  (r.contents? name).bind fun t => Tree.fileAt? t (pathOf s)

theorem Repository.text?_of_ref {r : Repository} {name : String} {id : CommitId} {c : Commit}
    (href : r.refs.get? name = some (.commit id)) (hc : r.commits[id.index]? = some c) (s : Slot) :
    r.text? name s = Tree.fileAt? c.tree (pathOf s) := by
  unfold text? contents?
  rw [href]
  simp only [hc]
  rfl

/-- The branch that a session works on. -/
def branchAt : Option Transaction → String
  | some tx => branchOf tx.id
  | none => RefName.main

end Git

namespace Session

def content (st : Stores) : Session → Slot → Content
  | .memory _ i tx, s => .row ((st.memory i).get tx s)
  | .git _ i tx, s => .file ((st.repository i).text? (Git.branchAt tx) s)

def outside : Session → Session
  | .memory id i _ => .memory id i none
  | .git id i _ => .git id i none

/-- What is committed in the store that a session is on. -/
def committed (st : Stores) (s : Session) : Slot → Content := s.outside.content st

/-- A row that is read is what is in its slot. -/
theorem content_of_get {st : Stores} {s : Session} {slot : Slot} {found : Option Row} (h : s.get st slot = .ok found) :
    match s.content st slot with
    | .row r => found = r
    | .file none => found = none
    | .file (some text) => ∃ r, Row.decode text slot.key = .ok r ∧ found = some r := by
  cases s with
  | memory id i tx =>
    cases h
    rfl
  | git id i tx =>
    obtain ⟨commit, hsnapshot, h⟩ := bind_ok h
    obtain ⟨t, ht, h⟩ := bind_ok h
    have hresolve : (st.repository i).resolve (Git.branchAt tx) = .ok commit := by
      cases tx with
      | none =>
        simp only [snapshot, Git.Repository.tip] at hsnapshot
        exact hsnapshot
      | some tx =>
        simp only [snapshot, Git.Repository.transactionTip] at hsnapshot
        exact hsnapshot
    obtain ⟨n, c, hn, href, -, hc⟩ := Git.Repository.resolve_ok hresolve
    obtain ⟨c', hc', rfl⟩ := Git.Repository.treeAt_ok ht
    rw [hc] at hc'
    cases hc'
    have hname : n = Git.branchAt tx := by
      cases tx with
      | some tx => exact Git.normal?_branchOf hn
      | none =>
        unfold Git.branchAt at hn
        rw [Git.RefName.normal?_main] at hn
        exact (Option.some.inj hn).symm
    have htext := Git.Repository.text?_of_ref (hname ▸ href) hc slot
    simp only [content, htext, Git.fileAt?_pathOf]
    unfold Git.Repository.rowIn at h
    cases he : Git.Repository.entryAt? c.tree slot with
    | none =>
      rw [he] at h
      cases h
      rfl
    | some node =>
      rw [he] at h
      cases node with
      | folder entries => cases h
      | file text =>
        simp only at h ⊢
        cases hd : Row.decode text slot.key with
        | error err => rw [hd] at h; cases h
        | ok r =>
          rw [hd] at h
          cases h
          exact ⟨r, rfl, rfl⟩

/-- Where two sessions have the same in a slot, they do not read different rows there. -/
theorem get_unique {st st' : Stores} {s s' : Session} {slot : Slot} {found found' : Option Row}
    (hsame : s.content st slot = s'.content st' slot) (h : s.get st slot = .ok found)
    (h' : s'.get st' slot = .ok found') : found = found' := by
  have hfound := content_of_get h
  have hfound' := content_of_get h'
  rw [hsame] at hfound
  generalize s'.content st' slot = content at hfound hfound'
  cases content with
  | row r => exact hfound.trans hfound'.symm
  | file text =>
    cases text with
    | none => exact hfound.trans hfound'.symm
    | some text =>
      obtain ⟨r, hr, rfl⟩ := hfound
      obtain ⟨r', hr', rfl⟩ := hfound'
      rw [hr] at hr'
      cases hr'
      rfl

end Session

/-! ## The writes of a transaction -/

/-- A write that succeeded, with what its transaction saw in the slot before and after it. -/
structure Written where
  slot : Slot
  before : Content
  after : Content

/-- What a slot had before the first of some writes to it, and has after the last. -/
def bounds (log : List Written) (s : Slot) : Option (Content × Content) :=
  log.foldl (fun found w => if w.slot = s then some ((found.map (·.1)).getD w.before, w.after) else found) none

theorem bounds_concat (log : List Written) (w : Written) (s : Slot) : bounds (log ++ [w]) s =
    if w.slot = s then some (((bounds log s).map (·.1)).getD w.before, w.after) else bounds log s := by
  unfold bounds
  rw [List.foldl_append, List.foldl_cons, List.foldl_nil]

/-- `Landed log was now`: with the writes of `log` committed, the contents are `now` that were `was`.  A slot that the
writes have left as they found it may still be as it was. -/
def Landed (log : List Written) (was now : Slot → Content) : Prop :=
  ∀ s, match bounds log s with
    | none => now s = was s
    | some (first, last) => now s = last ∨ (first = last ∧ now s = was s)

end Demarcate
