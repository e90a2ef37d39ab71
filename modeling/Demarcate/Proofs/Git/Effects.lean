import Demarcate.Proofs.Git.Names
/-!
# Effects — what the functions on a repository come to

In a repository whose references have their names (`WellNamed`), a branch that leads to a commit can be worked on, and
what is left of a function there are the checks that it is about: a change needs the row in its slot, and an author who
can be shown (`commitTo_eq`); a merge needs the trees that it joins (`merge_eq`).  A branch that does not lead to a
commit that can be read fails every function in the same way.
-/
namespace Demarcate.Git

theorem Commit.isReadable_iff {c : Commit} :
    c.isReadable = true ↔ '\n' ∉ c.author.name.toList ∧ '\n' ∉ c.author.email.toList := by
  unfold Commit.isReadable
  rw [Bool.not_eq_true', Bool.or_eq_false_iff, String.contains_char_eq, String.contains_char_eq]
  simp

/-- A commit can be made under the signature, and can be read then. -/
def Signature.Usable (s : Signature) : Prop :=
  ∃ shown, s.stamp? = some shown ∧ '\n' ∉ shown.name.toList ∧ '\n' ∉ shown.email.toList

theorem Signature.usable_default : Signature.default.Usable := ⟨⟨"txscope", "txscope@localhost"⟩, by decide⟩

/-- Every commit that is made under the signature can be read. -/
def Signature.Unbroken (s : Signature) : Prop :=
  ∀ shown, s.stamp? = some shown → '\n' ∉ shown.name.toList ∧ '\n' ∉ shown.email.toList

theorem Signature.Usable.unbroken {s : Signature} (h : s.Usable) : s.Unbroken := by
  obtain ⟨shown, hshown, hread⟩ := h
  intro shown' hshown'
  rw [hshown] at hshown'
  cases hshown'
  exact hread

theorem Signature.unbroken_default : Signature.default.Unbroken := Signature.usable_default.unbroken

namespace Repository

open RefName (normal?)

/-- The repository with one commit more, which a branch has moved to. -/
def extend (r : Repository) (name : String) (c : Commit) : Repository :=
  { r with commits := r.commits.push c, refs := r.refs.insert name (.commit ⟨r.number, r.commits.size⟩) }

/-- The repository with a branch moved. -/
def moveTo (r : Repository) (name : String) (id : CommitId) : Repository :=
  { r with refs := r.refs.insert name (.commit id) }

/-- The identifier of the commit that is made next. -/
def next (r : Repository) : CommitId := ⟨r.number, r.commits.size⟩

variable {r r' : Repository} {n name : String} {id : CommitId}

/-! ## Resolving -/

theorem resolve_eq_ok_iff : r.resolve name = .ok id ↔
    ∃ n, normal? name = some n ∧ r.refs.get? n = some (.commit id) ∧ (r.commit? id).isSome = true := by
  unfold resolve target?
  cases hn : normal? name with
  | none => simp
  | some n =>
    simp only [Option.bind_eq_bind, Option.bind_some, Option.some.injEq, exists_eq_left']
    cases href : r.refs.get? n with
    | none => simp
    | some t =>
      cases t with
      | blob => simp
      | commit id' =>
        simp only [Option.some.injEq, Target.commit.injEq]
        split
        · rename_i hc
          constructor
          · intro h
            cases h
            exact ⟨rfl, hc⟩
          · rintro ⟨rfl, -⟩
            rfl
        · rename_i hc
          constructor
          · intro h
            cases h
          · rintro ⟨rfl, h⟩
            exact absurd h hc

theorem resolve_of_ref {c : Commit} (hn : normal? name = some n) (href : r.refs.get? n = some (.commit id))
    (hc : r.commit? id = some c) : r.resolve name = .ok id :=
  resolve_eq_ok_iff.2 ⟨n, hn, href, Option.isSome_iff_exists.2 ⟨c, hc⟩⟩

theorem resolve_cases (r : Repository) (name : String) :
    (∃ id, r.resolve name = .ok id) ∨ r.resolve name = .error (.refNotFound name) := by
  unfold resolve
  split
  · split
    · exact .inl ⟨_, rfl⟩
    · exact .inr rfl
  · exact .inr rfl

theorem treeAt_eq {c : Commit} (h : r.commit? id = some c) : r.treeAt id = .ok c.tree := by
  unfold treeAt
  rw [h]

/-! ## Changes -/

section WellNamed

variable (h : r.WellNamed)

include h

theorem advance_moveTo {expected : CommitId} (hname : r.resolve name = .ok expected) (hn : normal? name = some n)
    (id : CommitId) : r.advance name expected id = .ok (r.moveTo n id) := by
  obtain ⟨m, hm, href, -⟩ := resolve_eq_ok_iff.1 hname
  rw [hn] at hm
  cases hm
  rw [advance_eq id hname]
  exact h.setRef hn href _

/-- A commit is kept, and the branch that was where it started from moves to it. -/
theorem advance_extend {expected : CommitId} (hname : r.resolve name = .ok expected) (hn : normal? name = some n)
    (c : Commit) : (r.add c).2.advance name expected (r.add c).1 = .ok (r.extend n c) := by
  have hadd : (r.add c).2.WellNamed := h.of_refs fun m t hm => ⟨t, hm⟩
  obtain ⟨m, hm, href, hsome⟩ := resolve_eq_ok_iff.1 hname
  have hresolve : (r.add c).2.resolve name = .ok expected := by
    refine resolve_eq_ok_iff.2 ⟨m, hm, href, ?_⟩
    obtain ⟨c', hc'⟩ := Option.isSome_iff_exists.1 hsome
    unfold commit? at hc' ⊢
    split at hc'
    · rename_i hstore
      obtain ⟨hat, hread⟩ := Option.filter_eq_some_iff.1 hc'
      rw [Option.isSome_iff_exists]
      refine ⟨c', ?_⟩
      rw [if_pos (show expected.store = (r.add c).2.number from hstore)]
      exact Option.filter_eq_some_iff.2 ⟨getElem?_push_of_some c hat, hread⟩
    · cases hc'
  exact advance_moveTo hadd hresolve hn _

/-- **What a change on a branch comes to**: a row, in the place of the one that the branch has, under an author. -/
theorem commitTo_eq {author : Signature} {now : String} {table : TableName} {c : Change} {tx : Option String}
    {parent : CommitId} {before : Commit} (hname : r.resolve name = .ok parent) (hn : normal? name = some n)
    (hbefore : r.commit? parent = some before) :
    r.commitTo author now name table c tx = (do
      let existing ← Outcome.ofExcept (rowIn before.tree ⟨table, c.key⟩)
      let row ← c.resolve now table existing
      let shown ← Outcome.ofExcept (stamp author)
      return (r.next, r.extend n ⟨[parent], withRow before.tree ⟨table, c.key⟩ row,
        changeMessage ⟨table, c.key⟩ c.verb tx, shown⟩)) := by
  unfold commitTo
  rw [hname]
  show (r.writeChange author now parent table c tx >>= fun made =>
    Outcome.ofExcept (made.2.advance name parent made.1) >>= fun r => pure (made.1, r)) = _
  unfold writeChange
  simp only
  rw [treeAt_eq hbefore]
  show ((Outcome.ofExcept (rowIn before.tree ⟨table, c.key⟩) >>= fun existing => _) >>= _) = _
  cases rowIn before.tree ⟨table, c.key⟩ with
  | error e => rfl
  | ok existing =>
    show ((c.resolve now table existing >>= fun row => _) >>= _) = (c.resolve now table existing >>= _)
    cases c.resolve now table existing with
    | failed e => rfl
    | unwound text => rfl
    | value row =>
      show ((Outcome.ofExcept (stamp author) >>= fun row => _) >>= _) = (Outcome.ofExcept (stamp author) >>= _)
      cases stamp author with
      | error e => rfl
      | ok shown =>
        show (Outcome.ofExcept ((r.add _).2.advance name parent (r.add _).1) >>= _) = _
        rw [advance_extend h hname hn]
        rfl

/-- A branch that has nothing in a row's slot takes the row. -/
theorem commitTo_insert {author shown : Signature} (now : String) {table : TableName} (row : Row) (tx : Option String)
    {parent : CommitId} {before : Commit} (hname : r.resolve name = .ok parent) (hn : normal? name = some n)
    (hbefore : r.commit? parent = some before) (hnone : rowIn before.tree ⟨table, row.key⟩ = .ok none)
    (hshown : author.stamp? = some shown) :
    ∃ commit : Commit, commit.tree = withRow before.tree ⟨table, row.key⟩ (some row) ∧ commit.author = shown ∧
      r.commitTo author now name table (.insert row) tx = .value (r.next, r.extend n commit) := by
  refine ⟨⟨[parent], withRow before.tree ⟨table, row.key⟩ (some row),
    changeMessage ⟨table, row.key⟩ (Change.insert row).verb tx, shown⟩, rfl, rfl, ?_⟩
  rw [commitTo_eq h hname hn hbefore]
  simp only [Change.key]
  unfold stamp
  rw [hnone, hshown]
  rfl

/-- **What a change that succeeds has found and made.** -/
theorem commitTo_made {author : Signature} {now : String} {table : TableName} {c : Change} {tx : Option String}
    (hc : r.commitTo author now name table c tx = .value (id, r')) :
    ∃ n parent before existing row shown, normal? name = some n ∧ r.refs.get? n = some (.commit parent) ∧
      r.commit? parent = some before ∧ rowIn before.tree ⟨table, c.key⟩ = .ok existing ∧
      c.resolve now table existing = .value row ∧ stamp author = .ok shown ∧ id = r.next ∧
      r' = r.extend n ⟨[parent], withRow before.tree ⟨table, c.key⟩ row, changeMessage ⟨table, c.key⟩ c.verb tx,
        shown⟩ := by
  obtain ⟨parent, hparent, -⟩ := bind_value hc
  have hname := ofExcept_value hparent
  obtain ⟨n, hn, href, hsome⟩ := resolve_eq_ok_iff.1 hname
  obtain ⟨before, hbefore⟩ := Option.isSome_iff_exists.1 hsome
  rw [commitTo_eq h hname hn hbefore] at hc
  obtain ⟨existing, hexisting, hc⟩ := bind_value hc
  obtain ⟨row, hrow, hc⟩ := bind_value hc
  obtain ⟨shown, hshown, hc⟩ := bind_value hc
  cases hc
  exact ⟨n, parent, before, existing, row, shown, hn, href, hbefore, ofExcept_value hexisting, hrow,
    ofExcept_value hshown, rfl, rfl⟩

end WellNamed

/-- A branch is begun where no name stands against its own. -/
theorem branch_eq {tx : String} (hn : normal? (RefName.ofTransaction tx) = some n) (htip : r.tip = .ok id)
    (hclash : ∀ o ∈ RefName.occupied ++ r.refs.keys, RefName.clash n o = false) (hnone : r.refs.get? n = none) :
    r.branch tx = .ok (id, r.moveTo n id) := by
  have hset : r.setRef (RefName.ofTransaction tx) (.commit id) false = .ok (r.moveTo n id) :=
    setRef_eq_ok_iff.2 ⟨n, hn, hclash, fun _ => hnone, rfl⟩
  unfold branch
  rw [htip, ok_bind, hset]
  rfl

/-- Where there is no branch but `main`, every name is free that does not stand against it. -/
theorem branch_free {tx : String} (hn : normal? (RefName.ofTransaction tx) = some n) (htip : r.tip = .ok id)
    (hclash : ∀ o ∈ RefName.occupied ++ [RefName.main], RefName.clash n o = false)
    (honly : ∀ o t, r.refs.get? o = some t → o = RefName.main) : r.branch tx = .ok (id, r.moveTo n id) := by
  refine branch_eq hn htip (fun o ho => hclash o ?_) ?_
  · refine List.mem_append.2 ((List.mem_append.1 ho).imp_right fun hkey => ?_)
    obtain ⟨t, ht⟩ := SortedMap.mem_keys_iff.1 hkey
    exact List.mem_singleton.2 (honly o t ht)
  · cases hget : r.refs.get? n with
    | none => rfl
    | some t => exact absurd (honly n t hget) (RefName.normal?_ofTransaction_ne_main hn)

/-! ## Merges -/

section WellNamed

variable (h : r.WellNamed)

include h

/-- **What a merge comes to**, where the transaction has a branch. -/
theorem merge_eq {author : Signature} {tx : String} {base theirs : CommitId} (hid : r.transactionTip tx = .ok theirs) :
    r.merge author tx base =
      if theirs = base then .ok (.unchanged, r) else r.tip >>= fun ours =>
        if ours = base then .ok (.fastForward theirs, r.moveTo RefName.main theirs) else do
          let before ← r.treeAt base
          let here ← r.treeAt ours
          let there ← r.treeAt theirs
          match Tree.merge before here there with
          | .error paths => .ok (.conflict paths, r)
          | .ok tree => do
            let shown ← stamp author
            return (.merged r.next, r.extend RefName.main ⟨[ours, theirs], tree, "merge transaction " ++ tx, shown⟩) := by
  unfold merge
  rw [hid]
  show (if theirs = base then _ else _) = _
  split
  · rfl
  cases htip : r.tip with
  | error e => rfl
  | ok ours =>
    have hmain : r.resolve RefName.main = .ok ours := htip
    show (if ours = base then _ else _) = if ours = base then _ else _
    split
    · show (r.advance RefName.main ours theirs >>= _) = _
      rw [advance_moveTo h hmain RefName.normal?_main]
      rfl
    · cases r.treeAt base with
      | error e => rfl
      | ok before =>
        cases r.treeAt ours with
        | error e => rfl
        | ok here =>
          cases r.treeAt theirs with
          | error e => rfl
          | ok there =>
            show (match Tree.merge before here there with | .error paths => _ | .ok tree => _) =
              (match Tree.merge before here there with | .error paths => _ | .ok tree => _)
            cases Tree.merge before here there with
            | error paths => rfl
            | ok tree =>
              cases stamp author with
              | error e => rfl
              | ok shown =>
                have hadvance := advance_extend h hmain RefName.normal?_main
                  ⟨[ours, theirs], tree, "merge transaction " ++ tx, shown⟩
                exact congrArg (· >>= fun r' => pure (MergeOutcome.merged r.next, r')) hadvance

end WellNamed

/-! ## Deletions -/

theorem ofTransaction_ne_head {tx : String} (hn : normal? (RefName.ofTransaction tx) = some n) :
    n ≠ RefName.head := by
  obtain ⟨rest, rfl⟩ := RefName.normal?_ofTransaction_below hn
  intro h
  have := congrArg String.toList h
  unfold RefName.ofTransaction at this
  rw [String.toList_append] at this
  cases this

/-- **What giving up a transaction's branch comes to**, whether or not there is one. -/
theorem deleteRef_eq {tx : String} (hn : normal? (RefName.ofTransaction tx) = some n) :
    r.deleteRef (RefName.ofTransaction tx) =
      if r.refs.contains n then .ok { r with refs := r.refs.erase n }
      else .error (.refNotFound (RefName.ofTransaction tx)) := by
  unfold deleteRef
  rw [hn]
  exact if_neg (ofTransaction_ne_head hn)

theorem deleteBranches_eq : ∀ (txs : List String) (r : Repository), ∃ refs,
    (Handle.deleteBranches txs r).2 = { r with refs } ∧
      (∀ tx ∈ txs, ∀ n, normal? (RefName.ofTransaction tx) = some n → refs.get? n = none) ∧
      ∀ n, (∀ tx ∈ txs, normal? (RefName.ofTransaction tx) ≠ some n) → refs.get? n = r.refs.get? n
  | [], r => ⟨r.refs, rfl, (fun tx htx => by cases htx), fun _ _ => rfl⟩
  | tx :: txs, r => by
    unfold Handle.deleteBranches
    cases hd : r.deleteRef (RefName.ofTransaction tx) with
    | ok r₁ =>
      obtain ⟨m, hm, rfl⟩ := deleteRef_ok hd
      obtain ⟨refs, hrefs, hgone, hkept⟩ := deleteBranches_eq txs { r with refs := r.refs.erase m }
      have herased : ∀ n, (∀ tx ∈ txs, normal? (RefName.ofTransaction tx) ≠ some n) →
          refs.get? n = if n = m then none else r.refs.get? n := fun n hn => by
        rw [hkept n hn, SortedMap.get?_erase]
      refine ⟨refs, hrefs, fun tx' htx n hn => ?_, fun n hn => ?_⟩
      · by_cases hlater : ∃ tx ∈ txs, normal? (RefName.ofTransaction tx) = some n
        · obtain ⟨tx'', htx'', hn''⟩ := hlater
          exact hgone tx'' htx'' n hn''
        · rw [herased n fun tx htx hn => hlater ⟨tx, htx, hn⟩]
          rcases List.mem_cons.1 htx with rfl | htx
          · rw [hm] at hn
            cases hn
            exact if_pos rfl
          · exact absurd ⟨tx', htx, hn⟩ hlater
      · rw [herased n fun tx htx => hn tx (List.mem_cons_of_mem _ htx), if_neg]
        rintro rfl
        exact hn tx List.mem_cons_self hm
    | error e =>
      obtain ⟨refs, hrefs, hgone, hkept⟩ := deleteBranches_eq txs r
      refine ⟨refs, hrefs, fun tx' htx n hn => ?_, fun n hn => ?_⟩
      · rcases List.mem_cons.1 htx with rfl | htx
        · by_cases hlater : ∃ tx ∈ txs, normal? (RefName.ofTransaction tx) = some n
          · obtain ⟨tx'', htx'', hn''⟩ := hlater
            exact hgone tx'' htx'' n hn''
          · -- the branch that could not be deleted was not there
            rw [hkept n fun tx htx hn => hlater ⟨tx, htx, hn⟩]
            rw [deleteRef_eq hn] at hd
            split at hd
            · cases hd
            · rename_i hnone
              rwa [SortedMap.contains, Option.not_isSome_iff_eq_none] at hnone
        · exact hgone tx' htx n hn
      · exact hkept n fun tx htx => hn tx (List.mem_cons_of_mem _ htx)

/-! ## A new repository -/

theorem stamp_eq_ok_iff {author shown : Signature} : stamp author = .ok shown ↔ author.stamp? = some shown := by
  unfold stamp
  cases author.stamp? with
  | none => simp
  | some s => simp

theorem readable_of_stamp {author shown : Signature} (h : author.Unbroken) (hs : stamp author = .ok shown)
    (parents : List CommitId) (tree : Tree) (message : String) :
    (Commit.mk parents tree message shown).isReadable = true :=
  Commit.isReadable_iff.2 (h shown (stamp_eq_ok_iff.1 hs))

theorem usable_of_stamp {author shown : Signature} (h : author.Unbroken) (hs : stamp author = .ok shown) :
    author.Usable :=
  have hstamp := stamp_eq_ok_iff.1 hs
  ⟨shown, hstamp, h shown hstamp⟩

/-- **What making a repository comes to**: one commit, which can be read and which `main` is at. -/
theorem start_fresh {number : Nat} {author : Signature} (h : ({ number } : Repository).start author = .ok r) :
    author.Usable ∧ r.number = number ∧ (∀ c ∈ r.commits, c.isReadable = true) ∧
      r.refs.get? RefName.main = some (.commit ⟨number, 0⟩) ∧ ∀ n t, r.refs.get? n = some t → n = RefName.main := by
  obtain ⟨shown, hshown, h⟩ := bind_ok h
  obtain ⟨t, ht, h⟩ := bind_ok h
  obtain ⟨r₂, hset, h⟩ := bind_ok h
  obtain ⟨n, hn, rfl, -⟩ := setRef_ok hset
  rw [RefName.normal?_main] at hn
  cases hn
  cases h
  have hread : Commit.isReadable ⟨[], [], "initialize document store", shown⟩ = true := by
    unfold treeAt at ht
    split at ht
    · rename_i c hc
      unfold commit? at hc
      rw [if_pos rfl] at hc
      obtain ⟨hat, hread⟩ := Option.filter_eq_some_iff.1 hc
      cases hat
      exact hread
    · cases ht
  have hrefs : ∀ n, ((((∅ : SortedMap String Target).insert RefName.main (.commit ⟨number, 0⟩))).erase
      RefName.head).get? n = if n = RefName.main then some (.commit ⟨number, 0⟩) else none := by
    intro n
    rw [SortedMap.get?_erase, SortedMap.get?_insert]
    have hne : RefName.head ≠ RefName.main := by decide
    by_cases hhead : n = RefName.head
    · rw [if_pos hhead, if_neg fun h => hne (hhead.symm.trans h)]
    · rw [if_neg hhead]
      rfl
  refine ⟨⟨shown, stamp_eq_ok_iff.1 hshown, Commit.isReadable_iff.1 hread⟩, rfl, fun c hc => ?_, ?_, fun n t hn => ?_⟩
  · have hc' : c ∈ #[(⟨[], [], "initialize document store", shown⟩ : Commit)] := hc
    rw [List.mem_toArray, List.mem_singleton] at hc'
    rw [hc']
    exact hread
  · exact (hrefs _).trans (if_pos rfl)
  · have hn' := (hrefs n).symm.trans hn
    split at hn'
    · assumption
    · cases hn'

/-- The first commit has no rows. -/
theorem start_tip {number : Nat} {author : Signature} (h : ({ number } : Repository).start author = .ok r) :
    ∃ c, r.commit? ⟨number, 0⟩ = some c ∧ c.tree = [] := by
  obtain ⟨-, hnumber, hread, -⟩ := start_fresh h
  obtain ⟨shown, -, h⟩ := bind_ok h
  obtain ⟨t, -, h⟩ := bind_ok h
  obtain ⟨r₂, hset, h⟩ := bind_ok h
  obtain ⟨n, -, rfl, -⟩ := setRef_ok hset
  cases h
  refine ⟨⟨[], [], "initialize document store", shown⟩, ?_, rfl⟩
  unfold commit?
  rw [if_pos hnumber.symm]
  exact Option.filter_eq_some_iff.2 ⟨rfl, hread _ (Array.mem_push_self ..)⟩

/-- A repository can be made under every usable signature. -/
theorem start_usable {author : Signature} (number : Nat) (h : author.Usable) :
    ∃ r, ({ number } : Repository).start author = .ok r := by
  obtain ⟨shown, hshown, hread⟩ := h
  have hclash : ∀ o ∈ RefName.occupied ++ (∅ : SortedMap String Target).keys, RefName.clash RefName.main o = false := by
    decide
  generalize hadd : ({ number } : Repository).add ⟨[], [], "initialize document store", shown⟩ = made
  have hcommit : made.2.commit? made.1 = some ⟨[], [], "initialize document store", shown⟩ := by
    rw [← hadd]
    unfold commit? add
    rw [if_pos rfl]
    exact Option.filter_eq_some_iff.2 ⟨rfl, Commit.isReadable_iff.2 hread⟩
  have hset : made.2.setRef RefName.main (.commit made.1) false =
      .ok { made.2 with refs := made.2.refs.insert RefName.main (.commit made.1) } := by
    rw [← hadd]
    exact setRef_eq_ok_iff.2 ⟨_, RefName.normal?_main, hclash, fun _ => rfl, rfl⟩
  have hstart : ({ number } : Repository).start author = (made.2.treeAt made.1 >>= fun _ =>
      made.2.setRef RefName.main (.commit made.1) false >>= fun r =>
        pure { r with head := RefName.main, refs := r.refs.erase RefName.head }) := by
    unfold start
    rw [stamp_eq_ok_iff.2 hshown, ← hadd]
    rfl
  rw [hstart, treeAt_eq hcommit, hset]
  exact ⟨_, rfl⟩

end Repository
end Demarcate.Git
