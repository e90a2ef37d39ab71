import Demarcate.Git.Disk
import Demarcate.Proofs.Git.Rows
import Demarcate.Proofs.Results
/-!
# Branches — what moves in a repository, and what stays

Commits are only added, and a function on a repository moves one branch (`Moves`).  So what another branch leads to
stays what it was.  In a repository whose references lead to its own commits, and whose commits hold trees of rows
(`Sound`), each change is one file more, or less, on one branch (`commitTo_value`), and `merge_ok` says what `main` has
after a merge.
-/
namespace Demarcate.Git

/-! ## Names -/

namespace RefName

theorem components_of_noSlash : ∀ {cs : List Char}, '/' ∉ cs → Path.components cs = (cs, [])
  | [], _ => rfl
  | c :: cs, h => by
    have hc : c ≠ '/' := fun hc => h (hc ▸ List.mem_cons_self)
    unfold Path.components
    rw [components_of_noSlash fun h' => h (List.mem_cons_of_mem _ h')]
    simp only [if_neg hc]

theorem components_ofTransaction {id : String} (h : '/' ∉ id.toList) : Path.components (ofTransaction id).toList =
    ("refs".toList, ["heads".toList, "tx".toList, id.toList]) := by
  have hlead : transactions.toList = ['r', 'e', 'f', 's', '/', 'h', 'e', 'a', 'd', 's', '/', 't', 'x', '/'] := by decide
  unfold ofTransaction
  rw [String.toList_append, hlead]
  simp [Path.components, components_of_noSlash h]

/-- **A transaction's branch has one name**, the one that it is made of. -/
theorem normal?_ofTransaction {id n : String} (h : '/' ∉ id.toList) (hn : normal? (ofTransaction id) = some n) :
    n = ofTransaction id := by
  have hkept : ∀ kept, components? (ofTransaction id) = some kept →
      kept = ["refs".toList, "heads".toList, "tx".toList, id.toList] := by
    intro kept hk
    unfold components? at hk
    rw [components_ofTransaction h] at hk
    simp only at hk
    split at hk
    · cases hk
    rename_i hlast
    split at hk
    · cases hk
    split at hk
    · cases hk
    split at hk
    · cases hk
    split at hk
    · cases hk
      have hid : id.toList.isEmpty = false := by
        cases hempty : id.toList with
        | nil => simp [hempty] at hlast
        | cons c cs => rfl
      rw [List.filter_cons, List.filter_cons, List.filter_cons, List.filter_cons, hid]
      rfl
    · cases hk
  unfold normal? at hn
  rw [if_neg (by
    intro heq
    have := congrArg String.toList heq
    unfold ofTransaction at this
    rw [String.toList_append] at this
    cases this)] at hn
  cases hc : components? (ofTransaction id) with
  | none => rw [hc] at hn; cases hn
  | some kept =>
    rw [hc, hkept kept hc] at hn
    simp only [Option.bind_eq_bind, Option.bind_some] at hn
    split at hn
    · cases hn
      have hlead : "refs" ++ "/" ++ "heads" ++ "/" ++ "tx" ++ "/" = transactions := by decide
      simp only [List.map_cons, List.map_nil, String.ofList_toList]
      rw [String.intercalate_cons_cons, String.intercalate_cons_cons, String.intercalate_cons_cons,
        String.intercalate_singleton, ofTransaction, ← hlead]
      simp only [String.append_assoc]
    · cases hn

theorem normal?_main : normal? main = some main := by decide

theorem ofTransaction_ne_main (id : String) : ofTransaction id ≠ main := by
  intro h
  have := congrArg String.toList h
  unfold ofTransaction at this
  rw [String.toList_append] at this
  cases this

theorem ofTransaction_inj {id id' : String} (h : ofTransaction id = ofTransaction id') : id = id' := by
  have := congrArg String.toList h
  unfold ofTransaction at this
  rw [String.toList_append, String.toList_append] at this
  exact String.toList_inj.1 (List.append_cancel_left this)

end RefName

theorem mem_digits {c : Char} : ∀ {width n : Nat}, c ∈ Ulid.digits width n → c ∈ Ulid.alphabet
  | width + 1, n, h => by
    unfold Ulid.digits at h
    rcases List.mem_append.1 h with h | h
    · exact mem_digits h
    · rw [List.mem_singleton] at h
      have hlt : n % 32 < Ulid.alphabet.length := by
        have : Ulid.alphabet.length = 32 := by decide
        omega
      rw [h, List.getD_eq_getElem?_getD, List.getElem?_eq_getElem hlt, Option.getD_some]
      exact List.getElem_mem hlt

theorem noSlash_lowerText (u : Ulid) : '/' ∉ u.lowerText.toList := by
  have hall : Ulid.alphabet.all (fun c => c.toLower != '/') = true := by decide
  unfold Ulid.lowerText
  rw [String.toList_ofList, List.mem_map]
  rintro ⟨c, hc, hslash⟩
  have hne := List.all_eq_true.1 hall c (mem_digits hc)
  rw [hslash] at hne
  cases hne

/-- The branch of a transaction, under the name that it has. -/
def branchOf (u : Ulid) : String := RefName.ofTransaction u.lowerText

theorem normal?_branchOf {u : Ulid} {n : String} (h : RefName.normal? (branchOf u) = some n) : n = branchOf u :=
  RefName.normal?_ofTransaction (noSlash_lowerText u) h

/-! ## What a repository's functions do -/

namespace Repository

open Demarcate.Git.Tree (Shaped fileAt?)

/-- The tree that a reference leads to, of a commit that can be read or one that cannot. -/
def contents? (r : Repository) (name : String) : Option Tree :=
  match r.refs.get? name with
  | some (.commit id) => (r.commits[id.index]?).map (·.tree)
  | _ => none

/-- The commits are kept, and so are the references but one. -/
structure Moves (name : String) (r r' : Repository) : Prop where
  number : r'.number = r.number
  commits : ∀ (i : Nat) (c : Commit), r.commits[i]? = some c → r'.commits[i]? = some c
  refs : ∀ n, n ≠ name → r'.refs.get? n = r.refs.get? n

/-- The references lead to commits of the repository, and the commits have trees of rows. -/
structure Sound (r : Repository) : Prop where
  refs : ∀ n id, r.refs.get? n = some (.commit id) → id.store = r.number ∧ id.index < r.commits.size
  shaped : ∀ (i : Nat) (c : Commit), r.commits[i]? = some c → Shaped c.tree

theorem commit?_eq_some {r : Repository} {id : CommitId} {c : Commit} (h : r.commit? id = some c) :
    id.store = r.number ∧ r.commits[id.index]? = some c := by
  unfold commit? at h
  split at h
  · rename_i hs
    exact ⟨hs, (Option.filter_eq_some_iff.1 h).1⟩
  · cases h

theorem treeAt_ok {r : Repository} {id : CommitId} {t : Tree} (h : r.treeAt id = .ok t) :
    ∃ c, r.commits[id.index]? = some c ∧ c.tree = t := by
  unfold treeAt at h
  split at h
  · rename_i c hc
    cases h
    exact ⟨c, (commit?_eq_some hc).2, rfl⟩
  · cases h

theorem resolve_ok {r : Repository} {name : String} {id : CommitId} (h : r.resolve name = .ok id) :
    ∃ n c, RefName.normal? name = some n ∧ r.refs.get? n = some (.commit id) ∧ id.store = r.number ∧
      r.commits[id.index]? = some c := by
  unfold resolve target? at h
  split at h
  · rename_i id' hid
    split at h
    · rename_i hc
      cases h
      obtain ⟨c, hc⟩ := Option.isSome_iff_exists.1 hc
      cases hn : RefName.normal? name with
      | none => rw [hn] at hid; cases hid
      | some n =>
        rw [hn] at hid
        obtain ⟨hstore, hcommit⟩ := commit?_eq_some hc
        exact ⟨n, c, rfl, hid, hstore, hcommit⟩
    · cases h
  · cases h

theorem tip_ok {r : Repository} {tip : CommitId} (h : r.tip = .ok tip) :
    r.refs.get? RefName.main = some (.commit tip) ∧ ∃ c, r.commits[tip.index]? = some c := by
  obtain ⟨n, c, hn, href, -, hc⟩ := resolve_ok h
  rw [RefName.normal?_main] at hn
  cases hn
  exact ⟨href, c, hc⟩

theorem transactionTip_ok {r : Repository} {u : Ulid} {tip : CommitId} (h : r.transactionTip u.lowerText = .ok tip) :
    r.refs.get? (branchOf u) = some (.commit tip) := by
  obtain ⟨n, c, hn, href, -, -⟩ := resolve_ok h
  obtain rfl := normal?_branchOf hn
  exact href

theorem setRef_ok {r r' : Repository} {name : String} {t : Target} {replace : Bool}
    (h : r.setRef name t replace = .ok r') :
    ∃ n, RefName.normal? name = some n ∧ r' = { r with refs := r.refs.insert n t } ∧
      (replace = false → r.refs.get? n = none) := by
  unfold setRef at h
  split at h
  · cases h
  · rename_i n hn
    split at h
    · cases h
    · rename_i hclash
      cases h
      refine ⟨n, hn, rfl, fun hrep => ?_⟩
      rw [hrep] at hclash
      simp only [Bool.or_eq_true, not_or, Bool.not_false, Bool.and_true, SortedMap.contains,
        Option.not_isSome_iff_eq_none] at hclash
      exact hclash.2

theorem advance_ok {r r' : Repository} {name : String} {expected next : CommitId}
    (h : r.advance name expected next = .ok r') :
    ∃ n, RefName.normal? name = some n ∧ r' = { r with refs := r.refs.insert n (.commit next) } := by
  obtain ⟨id, hid, h⟩ := bind_ok h
  split at h
  · obtain ⟨n, hn, hr', -⟩ := setRef_ok h
    exact ⟨n, hn, hr'⟩
  · cases h

theorem deleteRef_ok {r r' : Repository} {name : String} (h : r.deleteRef name = .ok r') :
    ∃ n, RefName.normal? name = some n ∧ r' = { r with refs := r.refs.erase n } := by
  unfold deleteRef at h
  split at h
  · rename_i n hn
    split at h
    · cases h
    · split at h
      · cases h
        exact ⟨n, hn, rfl⟩
      · cases h
  · cases h

theorem writeChange_value {r r' : Repository} {author : Signature} {now : String} {parent id : CommitId}
    {table : TableName} {c : Change} {tx : Option String}
    (h : r.writeChange author now parent table c tx = .value (id, r')) :
    ∃ t next commit, r.treeAt parent = .ok t ∧ commit.tree = withRow t ⟨table, c.key⟩ next ∧
      id = ⟨r.number, r.commits.size⟩ ∧ r' = { r with commits := r.commits.push commit } := by
  obtain ⟨t, ht, h⟩ := bind_value h
  obtain ⟨existing, -, h⟩ := bind_value h
  obtain ⟨next, -, h⟩ := bind_value h
  obtain ⟨author', -, h⟩ := bind_value h
  cases h
  exact ⟨t, next, _, ofExcept_value ht, rfl, rfl, rfl⟩

/-- **What a change on a branch does**: one commit more, to which the branch moves, and in its tree one file more or
less. -/
theorem commitTo_value {r r' : Repository} {author : Signature} {now branch : String} {table : TableName} {c : Change}
    {tx : Option String} {id : CommitId} (h : r.commitTo author now branch table c tx = .value (id, r')) :
    ∃ n parent before next commit, RefName.normal? branch = some n ∧ r.refs.get? n = some (.commit parent) ∧
      r.commits[parent.index]? = some before ∧ commit.tree = withRow before.tree ⟨table, c.key⟩ next ∧
      r' = { r with
        commits := r.commits.push commit
        refs := r.refs.insert n (.commit ⟨r.number, r.commits.size⟩) } := by
  obtain ⟨parent, hparent, h⟩ := bind_value h
  obtain ⟨n, before, hn, href, -, hbefore⟩ := resolve_ok (ofExcept_value hparent)
  obtain ⟨⟨id', r₁⟩, hwrite, h⟩ := bind_value h
  obtain ⟨t, next, commit, ht, htree, rfl, rfl⟩ := writeChange_value hwrite
  obtain ⟨c', hc', rfl⟩ := treeAt_ok ht
  rw [hbefore] at hc'
  cases hc'
  obtain ⟨r₂, hadvance, h⟩ := bind_value h
  obtain ⟨m, hm, rfl⟩ := advance_ok (ofExcept_value hadvance)
  rw [hn] at hm
  cases hm
  cases h
  exact ⟨n, parent, before, next, commit, hn, href, hbefore, htree, rfl⟩

theorem branch_ok {r r' : Repository} {id : String} {base : CommitId} (h : r.branch id = .ok (base, r')) :
    ∃ n, RefName.normal? (RefName.ofTransaction id) = some n ∧ r.refs.get? n = none ∧ r.tip = .ok base ∧
      r' = { r with refs := r.refs.insert n (.commit base) } := by
  obtain ⟨tip, htip, h⟩ := bind_ok h
  obtain ⟨r₁, hset, h⟩ := bind_ok h
  obtain ⟨n, hn, rfl, hnone⟩ := setRef_ok hset
  cases h
  exact ⟨n, hn, hnone rfl, htip, rfl⟩

/-- **What a merge does**: nothing, where the transaction's branch stands at its base; `main` moves to the branch, where
it stands at the base itself; else the two are joined, or nothing is done. -/
theorem merge_ok {r r' : Repository} {author : Signature} {id : String} {base : CommitId} {outcome : MergeOutcome}
    (h : r.merge author id base = .ok (outcome, r')) :
    ∃ theirs, r.transactionTip id = .ok theirs ∧
      ((∃ paths, outcome = .conflict paths ∧ r' = r) ∨
        (theirs = base ∧ r' = r) ∨
        (r.tip = .ok base ∧ r' = { r with refs := r.refs.insert RefName.main (.commit theirs) }) ∨
        ∃ ours tb tours tt commit, r.tip = .ok ours ∧ r.treeAt base = .ok tb ∧ r.treeAt ours = .ok tours ∧
          r.treeAt theirs = .ok tt ∧ Tree.merge tb tours tt = .ok commit.tree ∧
          r' = { r with
            commits := r.commits.push commit
            refs := r.refs.insert RefName.main (.commit ⟨r.number, r.commits.size⟩) }) := by
  obtain ⟨theirs, htheirs, h⟩ := bind_ok h
  refine ⟨theirs, htheirs, ?_⟩
  split at h
  · rename_i heq
    cases h
    exact .inr (.inl ⟨heq, rfl⟩)
  obtain ⟨ours, hours, h⟩ := bind_ok h
  split at h
  · rename_i heq
    obtain ⟨r₁, hadvance, h⟩ := bind_ok h
    obtain ⟨n, hn, rfl⟩ := advance_ok hadvance
    rw [RefName.normal?_main] at hn
    cases hn
    cases h
    exact .inr (.inr (.inl ⟨heq ▸ hours, rfl⟩))
  obtain ⟨tb, htb, h⟩ := bind_ok h
  obtain ⟨tours, hours', h⟩ := bind_ok h
  obtain ⟨tt, htt, h⟩ := bind_ok h
  split at h
  · rename_i paths hm
    cases h
    exact .inl ⟨paths, rfl, rfl⟩
  · rename_i tree hm
    obtain ⟨author', -, h⟩ := bind_ok h
    obtain ⟨r₁, hadvance, h⟩ := bind_ok h
    obtain ⟨n, hn, rfl⟩ := advance_ok hadvance
    rw [RefName.normal?_main] at hn
    cases hn
    cases h
    exact .inr (.inr (.inr ⟨ours, tb, tours, tt, _, hours, htb, hours', htt, hm, rfl⟩))

/-- A merge is refused by the trees of its three sides, and leaves everything. -/
theorem merge_refused {r r' : Repository} {author : Signature} {id : String} {base : CommitId} {paths : List Path}
    (h : r.merge author id base = .ok (.conflict paths, r')) :
    r' = r ∧ ∃ tip head tb tours tt, r.tip = .ok tip ∧ r.transactionTip id = .ok head ∧ r.treeAt base = .ok tb ∧
      r.treeAt tip = .ok tours ∧ r.treeAt head = .ok tt ∧ Tree.merge tb tours tt = .error paths := by
  obtain ⟨head, hhead, h⟩ := bind_ok h
  split at h
  · cases h
  obtain ⟨tip, htip, h⟩ := bind_ok h
  split at h
  · obtain ⟨r₁, -, h⟩ := bind_ok h
    cases h
  obtain ⟨tb, htb, h⟩ := bind_ok h
  obtain ⟨tours, hours, h⟩ := bind_ok h
  obtain ⟨tt, htt, h⟩ := bind_ok h
  split at h
  · rename_i paths' hm
    cases h
    exact ⟨rfl, tip, head, tb, tours, tt, htip, hhead, htb, hours, htt, hm⟩
  · obtain ⟨author', -, h⟩ := bind_ok h
    obtain ⟨r₁, -, h⟩ := bind_ok h
    cases h

theorem merge_conflict {r r' : Repository} {author : Signature} {id : String} {base : CommitId} {paths : List Path}
    (h : r.merge author id base = .ok (.conflict paths, r')) : r' = r := (merge_refused h).1

theorem merge_eq_joined {base ours theirs tree : Tree} (h : Tree.merge base ours theirs = .ok tree) :
    tree = Tree.joined base ours theirs := by
  unfold Tree.merge at h
  split at h
  · split at h
    · cases h
      rfl
    · cases h
  · cases h

/-! ## What moves -/

theorem getElem?_push_of_some {r : Repository} {i : Nat} {c : Commit} (commit : Commit) (h : r.commits[i]? = some c) :
    (r.commits.push commit)[i]? = some c := by
  obtain ⟨hi, -⟩ := Array.getElem?_eq_some_iff.1 h
  rw [Array.getElem?_push, if_neg (by omega)]
  exact h

namespace Moves

variable {name : String} {r r₁ : Repository}

theorem refl (name : String) (r : Repository) : Moves name r r := ⟨rfl, fun _ _ h => h, fun _ _ => rfl⟩

theorem insert (r : Repository) (name : String) (t : Target) :
    Moves name r { r with refs := r.refs.insert name t } := by
  refine ⟨rfl, fun _ _ h => h, fun n hn => ?_⟩
  rw [SortedMap.get?_insert, if_neg hn]

theorem push (r : Repository) (name : String) (commit : Commit) (t : Target) :
    Moves name r { r with commits := r.commits.push commit, refs := r.refs.insert name t } := by
  refine ⟨rfl, fun _ _ h => getElem?_push_of_some commit h, fun n hn => ?_⟩
  rw [SortedMap.get?_insert, if_neg hn]

theorem erase (r : Repository) (name : String) : Moves name r { r with refs := r.refs.erase name } := by
  refine ⟨rfl, fun _ _ h => h, fun n hn => ?_⟩
  rw [SortedMap.get?_erase, if_neg hn]

end Moves

theorem moves_commitTo {r r' : Repository} {author : Signature} {now branch : String} {table : TableName} {c : Change}
    {tx : Option String} {id : CommitId} (h : r.commitTo author now branch table c tx = .value (id, r')) :
    ∃ n, RefName.normal? branch = some n ∧ Moves n r r' := by
  obtain ⟨n, parent, before, next, commit, hn, -, -, -, rfl⟩ := commitTo_value h
  exact ⟨n, hn, .push ..⟩

theorem moves_merge {r r' : Repository} {author : Signature} {id : String} {base : CommitId} {outcome : MergeOutcome}
    (h : r.merge author id base = .ok (outcome, r')) : Moves RefName.main r r' := by
  obtain ⟨theirs, -, hcases⟩ := merge_ok h
  rcases hcases with ⟨paths, -, rfl⟩ | ⟨-, rfl⟩ | ⟨-, rfl⟩ | ⟨ours, tb, tours, tt, commit, -, -, -, -, -, rfl⟩
  · exact .refl ..
  · exact .refl ..
  · exact .insert ..
  · exact .push ..

/-! ## Soundness -/

namespace Sound

variable {r r₁ : Repository} {n : String}

theorem empty (number : Nat) : Sound { number } := by
  refine ⟨fun n id h => ?_, fun i c h => ?_⟩
  · cases h
  · cases h

theorem insert (h : Sound r) {id : CommitId} (hstore : id.store = r.number) (hid : id.index < r.commits.size) :
    Sound { r with refs := r.refs.insert n (.commit id) } := by
  refine ⟨fun m id' hm => ?_, h.shaped⟩
  rw [SortedMap.get?_insert] at hm
  split at hm
  · cases hm
    exact ⟨hstore, hid⟩
  · exact h.refs m id' hm

theorem push (h : Sound r) {commit : Commit} (hc : Shaped commit.tree) :
    Sound { r with
      commits := r.commits.push commit
      refs := r.refs.insert n (.commit ⟨r.number, r.commits.size⟩) } := by
  refine ⟨fun m id hm => ?_, fun i c hi => ?_⟩
  · rw [SortedMap.get?_insert] at hm
    simp only [Array.size_push]
    split at hm
    · cases hm
      exact ⟨rfl, by simp⟩
    · obtain ⟨hs, hlt⟩ := h.refs m id hm
      exact ⟨hs, by omega⟩
  · simp only [Array.getElem?_push] at hi
    split at hi
    · cases hi
      exact hc
    · exact h.shaped i c hi

theorem erase (h : Sound r) (n : String) : Sound { r with refs := r.refs.erase n } := by
  refine ⟨fun m id hm => ?_, h.shaped⟩
  rw [SortedMap.get?_erase] at hm
  split at hm
  · cases hm
  · exact h.refs m id hm

/-- **What a branch leads to stays**, where it stays and the commits are kept. -/
theorem contents?_congr (h : Sound r)
    (hcommits : ∀ (i : Nat) (c : Commit), r.commits[i]? = some c → r₁.commits[i]? = some c)
    (href : r₁.refs.get? n = r.refs.get? n) : r₁.contents? n = r.contents? n := by
  unfold Repository.contents?
  rw [href]
  cases hn : r.refs.get? n with
  | none => rfl
  | some t =>
    cases t with
    | blob => rfl
    | commit id =>
      obtain ⟨-, hlt⟩ := h.refs n id hn
      simp only
      rw [Array.getElem?_eq_getElem hlt, hcommits _ _ (Array.getElem?_eq_getElem hlt)]

theorem resolve (h : Sound r) {name : String} {id : CommitId} (hid : r.resolve name = .ok id) :
    id.store = r.number ∧ id.index < r.commits.size := by
  obtain ⟨n, c, -, href, -⟩ := resolve_ok hid
  exact h.refs n id href

theorem treeAt (h : Sound r) {id : CommitId} {t : Tree} (ht : r.treeAt id = .ok t) : Shaped t := by
  obtain ⟨c, hc, rfl⟩ := treeAt_ok ht
  exact h.shaped _ c hc

theorem commitTo (h : Sound r) {author : Signature} {now branch : String} {table : TableName} {c : Change}
    {tx : Option String} {id : CommitId} (hc : r.commitTo author now branch table c tx = .value (id, r₁)) :
    Sound r₁ := by
  obtain ⟨n, parent, before, next, commit, -, -, hbefore, htree, rfl⟩ := commitTo_value hc
  refine h.push ?_
  rw [htree]
  exact shaped_withRow (h.shaped _ _ hbefore) _ _

theorem branch (h : Sound r) {id : String} {base : CommitId} (hb : r.branch id = .ok (base, r₁)) : Sound r₁ := by
  obtain ⟨n, -, -, htip, rfl⟩ := branch_ok hb
  obtain ⟨hs, hlt⟩ := h.resolve htip
  exact h.insert hs hlt

theorem merge (h : Sound r) {author : Signature} {id : String} {base : CommitId} {outcome : MergeOutcome}
    (hm : r.merge author id base = .ok (outcome, r₁)) : Sound r₁ := by
  obtain ⟨theirs, htheirs, hcases⟩ := merge_ok hm
  rcases hcases with ⟨paths, -, rfl⟩ | ⟨-, rfl⟩ | ⟨-, rfl⟩ |
      ⟨ours, tb, tours, tt, commit, -, htb, hours', htt, hjoin, rfl⟩
  · exact h
  · exact h
  · obtain ⟨hs, hlt⟩ := h.resolve htheirs
    exact h.insert hs hlt
  · refine h.push ?_
    rw [merge_eq_joined hjoin]
    exact Tree.shaped_joined (h.treeAt htb) (h.treeAt hours') (h.treeAt htt)

theorem deleteRef (h : Sound r) {name : String} (hd : r.deleteRef name = .ok r₁) : Sound r₁ := by
  obtain ⟨n, -, rfl⟩ := deleteRef_ok hd
  exact h.erase n

theorem start (h : Sound r) {s : Signature} (hs : r.start s = .ok r₁) : Sound r₁ := by
  obtain ⟨author, -, hs⟩ := bind_ok hs
  obtain ⟨t, -, hs⟩ := bind_ok hs
  obtain ⟨r₂, hset, hs⟩ := bind_ok hs
  obtain ⟨n, -, rfl, -⟩ := setRef_ok hset
  cases hs
  generalize hc : Commit.mk [] [] "initialize document store" author = commit
  have hempty : Shaped commit.tree := by
    rw [← hc]
    exact fun e he => by cases he
  have herase := (h.push (n := n) hempty).erase RefName.head
  exact ⟨herase.refs, herase.shaped⟩

end Sound

/-- A new repository has `Q`, and every function on a repository keeps it. -/
structure Closed (Q : Repository → Prop) : Prop where
  fresh : ∀ number, Q { number }
  start : ∀ {r r₁ : Repository} {s : Signature}, Q r → r.start s = .ok r₁ → Q r₁
  commitTo : ∀ {r r₁ : Repository} {author : Signature} {now branch : String} {table : TableName} {c : Change}
    {tx : Option String} {id : CommitId}, Q r → r.commitTo author now branch table c tx = .value (id, r₁) → Q r₁
  branch : ∀ {r r₁ : Repository} {id : String} {base : CommitId}, Q r → r.branch id = .ok (base, r₁) → Q r₁
  merge : ∀ {r r₁ : Repository} {author : Signature} {id : String} {base : CommitId} {outcome : MergeOutcome},
    Q r → r.merge author id base = .ok (outcome, r₁) → Q r₁
  deleteRef : ∀ {r r₁ : Repository} {name : String}, Q r → r.deleteRef name = .ok r₁ → Q r₁

theorem closed_sound : Closed Sound where
  fresh := .empty
  start h hs := h.start hs
  commitTo h hc := h.commitTo hc
  branch h hb := h.branch hb
  merge h hm := h.merge hm
  deleteRef h hd := h.deleteRef hd

end Repository

theorem Repository.Closed.deleteBranches {Q : Repository → Prop} (hQ : Repository.Closed Q) :
    ∀ (ids : List String) {r : Repository}, Q r → Q (Handle.deleteBranches ids r).2
  | [], _, h => h
  | id :: ids, r, h => by
    unfold Handle.deleteBranches
    cases hd : r.deleteRef (RefName.ofTransaction id) with
    | ok r₁ => exact hQ.deleteBranches ids (hQ.deleteRef h hd)
    | error e => exact hQ.deleteBranches ids h

end Demarcate.Git
