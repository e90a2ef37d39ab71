import Demarcate.Proofs.Git.Layout
/-!
# Ancestry — what lies before a commit

A commit's ancestors are the commits from which parents lead to it, itself among them (`Ancestor`).  Commits are only
added, so what lies before a commit stays (`Grown.ancestor`); and the parents of a commit that is made are commits that
are there.
-/
namespace Demarcate.Git.Repository

/-- The commit of an identifier, one that can be read or one that cannot. -/
def kept? (r : Repository) (id : CommitId) : Option Commit :=
  if id.store = r.number then r.commits[id.index]? else none

/-- The commit that a reference leads to. -/
def leads? (r : Repository) (name : String) : Option CommitId :=
  match r.refs.get? name with
  | some (.commit id) => some id
  | _ => none

/-- `r.Ancestor a b`: parent by parent, `b` leads back to `a`. -/
inductive Ancestor (r : Repository) (a : CommitId) : CommitId → Prop where
  | refl : Ancestor r a a
  | step {b c : CommitId} {commit : Commit} (hc : r.kept? c = some commit) (hb : b ∈ commit.parents)
      (h : Ancestor r a b) : Ancestor r a c

/-- The commits of `r` are commits of `r'`. -/
structure Grown (r r' : Repository) : Prop where
  number : r'.number = r.number
  commits : ∀ (i : Nat) (c : Commit), r.commits[i]? = some c → r'.commits[i]? = some c

variable {r r' r'' : Repository} {a b c : CommitId}

/-- What can be read is kept. -/
theorem commit?_eq_filter (r : Repository) (id : CommitId) : r.commit? id = (r.kept? id).filter Commit.isReadable := by
  unfold commit? kept?
  split
  · rfl
  · rfl

theorem commit?_eq_some_iff {id : CommitId} {commit : Commit} :
    r.commit? id = some commit ↔ r.kept? id = some commit ∧ commit.isReadable = true := by
  rw [commit?_eq_filter, Option.filter_eq_some_iff]

theorem kept?_of_commit? {id : CommitId} {commit : Commit} (h : r.commit? id = some commit) :
    r.kept? id = some commit := (commit?_eq_some_iff.1 h).1

theorem leads?_eq_some_iff {name : String} {id : CommitId} :
    r.leads? name = some id ↔ r.refs.get? name = some (.commit id) := by
  unfold leads?
  split
  · rename_i id' h
    rw [h]
    simp
  · rename_i h
    constructor
    · intro hid
      cases hid
    · intro hid
      exact absurd hid (h id)

/-- **A name is resolved if the commit that it leads to can be read.** -/
theorem resolve_of_leads {name n : String} {id : CommitId} {commit : Commit} (hn : RefName.normal? name = some n)
    (hleads : r.leads? n = some id) (hkept : r.kept? id = some commit) :
    r.resolve name = if commit.isReadable then .ok id else .error (.refNotFound name) := by
  have htarget : r.target? name = some (.commit id) := by
    unfold target?
    rw [hn]
    exact leads?_eq_some_iff.1 hleads
  unfold resolve
  rw [htarget]
  simp only
  rw [commit?_eq_filter, hkept, Option.filter_some]
  cases commit.isReadable with
  | true => rfl
  | false => rfl

theorem Ancestor.trans (h₁ : r.Ancestor a b) (h₂ : r.Ancestor b c) : r.Ancestor a c := by
  induction h₂ with
  | refl => exact h₁
  | step hc hb _ ih => exact .step hc hb ih

namespace Grown

theorem refl (r : Repository) : Grown r r := ⟨rfl, fun _ _ h => h⟩

theorem trans (h₁ : Grown r r') (h₂ : Grown r' r'') : Grown r r'' :=
  ⟨h₂.number.trans h₁.number, fun i c h => h₂.commits i c (h₁.commits i c h)⟩

theorem of_moves {name : String} (h : Moves name r r') : Grown r r' := ⟨h.number, h.commits⟩

theorem kept? (h : Grown r r') {id : CommitId} {commit : Commit} (hid : r.kept? id = some commit) :
    r'.kept? id = some commit := by
  unfold Repository.kept? at hid ⊢
  rw [h.number]
  split at hid
  · rename_i hstore
    rw [if_pos hstore]
    exact h.commits _ _ hid
  · cases hid

theorem commit? (h : Grown r r') {id : CommitId} {commit : Commit} (hid : r.commit? id = some commit) :
    r'.commit? id = some commit := by
  obtain ⟨hkept, hread⟩ := commit?_eq_some_iff.1 hid
  exact commit?_eq_some_iff.2 ⟨h.kept? hkept, hread⟩

/-- **What lies before a commit stays.** -/
theorem ancestor (h : Grown r r') (hab : r.Ancestor a b) : r'.Ancestor a b := by
  induction hab with
  | refl => exact .refl
  | step hc hb _ ih => exact .step (h.kept? hc) hb ih

end Grown

theorem kept?_next (r : Repository) : r.kept? r.next = none := by
  have hstore : r.next.store = r.number := rfl
  have hindex : r.next.index = r.commits.size := rfl
  unfold kept?
  rw [if_pos hstore, hindex, Array.getElem?_eq_none (Nat.le_refl _)]

theorem grown_extend (r : Repository) (name : String) (commit : Commit) : Grown r (r.extend name commit) :=
  ⟨rfl, fun _ _ h => getElem?_push_of_some commit h⟩

theorem kept?_extend (r : Repository) (name : String) (commit : Commit) :
    (r.extend name commit).kept? r.next = some commit := by
  have hstore : r.next.store = (r.extend name commit).number := rfl
  unfold kept?
  rw [if_pos hstore]
  show (r.commits.push commit)[r.commits.size]? = some commit
  rw [Array.getElem?_push, if_pos rfl]

theorem commit?_extend (r : Repository) (name : String) {commit : Commit} (hread : commit.isReadable = true) :
    (r.extend name commit).commit? r.next = some commit := by
  exact commit?_eq_some_iff.2 ⟨kept?_extend r name commit, hread⟩

theorem commit?_extend_unreadable (r : Repository) (name : String) {commit : Commit}
    (hread : commit.isReadable = false) : (r.extend name commit).commit? r.next = none := by
  rw [commit?_eq_filter, kept?_extend, Option.filter_some, hread]
  rfl

/-- A commit that is made has its parents before it. -/
theorem ancestor_extend {name : String} {commit : Commit} (ha : a ∈ commit.parents) :
    (r.extend name commit).Ancestor a r.next :=
  .step (kept?_extend r name commit) ha .refl

theorem leads?_extend (r : Repository) (name other : String) (commit : Commit) :
    (r.extend name commit).leads? other = if other = name then some r.next else r.leads? other := by
  unfold leads? extend
  simp only
  rw [SortedMap.get?_insert]
  by_cases h : other = name
  · rw [if_pos h, if_pos h]
    rfl
  · rw [if_neg h, if_neg h]

theorem leads?_moveTo (r : Repository) (name other : String) (id : CommitId) :
    (r.moveTo name id).leads? other = if other = name then some id else r.leads? other := by
  unfold leads? moveTo
  simp only
  rw [SortedMap.get?_insert]
  by_cases h : other = name
  · rw [if_pos h, if_pos h]
  · rw [if_neg h, if_neg h]

end Demarcate.Git.Repository
