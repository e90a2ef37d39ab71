import Demarcate.Proofs.Git.Effects
/-!
# BranchNames — the names that transactions' branches have

The digits of an identifier are letters and figures, so its branch has a well-formed name whatever the identifier is
(`normal?_branch`), and stands neither above nor below `main`, a file among the references (`clash_branch`) or the
branch of another one (`clash_branches`).  So beside `main` and other transactions' branches every branch can begin
that is not there yet (`branch_beside`).
-/
namespace Demarcate.Git

namespace RefName

theorem utf8ByteSize_ofList_le : ∀ cs : List Char, (String.ofList cs).utf8ByteSize ≤ 4 * cs.length
  | [] => Nat.le_refl _
  | c :: cs => by
    have hsplit : String.ofList (c :: cs) = String.singleton c ++ String.ofList cs := by
      rw [← String.toList_inj, String.toList_append, String.toList_ofList, String.toList_ofList]
      simp
    have hrest := utf8ByteSize_ofList_le cs
    have hhead := c.utf8Size_le_four
    rw [hsplit, String.utf8ByteSize_append, String.utf8ByteSize_singleton, List.length_cons]
    omega

theorem hasPair_eq_false {a b : Char} : ∀ {cs : List Char}, a ∉ cs → hasPair a b cs = false
  | [], _ => rfl
  | [_], _ => rfl
  | c :: d :: rest, h => by
    have hc : (c == a) = false := beq_eq_false_iff_ne.2 fun hc => h (hc ▸ List.mem_cons_self)
    unfold hasPair
    rw [hc, Bool.false_and, Bool.false_or]
    exact hasPair_eq_false fun hr => h (List.mem_cons_of_mem _ hr)

/-- What the digits of an identifier's name are. -/
theorem lowerText_digits (u : Ulid) : ∀ c ∈ u.lowerText.toList, charOk c = true ∧ c ≠ '.' ∧ c ≠ '@' := by
  have hall : Ulid.alphabet.all (fun c => charOk c.toLower && c.toLower != '.' && c.toLower != '@') = true := by decide
  intro c hc
  unfold Ulid.lowerText at hc
  rw [String.toList_ofList] at hc
  obtain ⟨d, hd, rfl⟩ := List.mem_map.1 hc
  simpa [and_assoc] using List.all_eq_true.1 hall d (mem_digits hd)

theorem length_lowerText (u : Ulid) : u.lowerText.toList.length = Ulid.width := by
  unfold Ulid.lowerText
  rw [String.toList_ofList, List.length_map, Ulid.length_digits]

theorem spelled_branch (u : Ulid) : Spelled "refs".toList ["heads".toList, "tx".toList, u.lowerText.toList] := by
  have hdigits := lowerText_digits u
  have hlength := length_lowerText u
  generalize u.lowerText.toList = cs at hdigits hlength
  have hdot : '.' ∉ cs := fun h => (hdigits _ h).2.1 rfl
  have hne : cs ≠ [] := by
    rintro rfl
    cases hlength
  refine ⟨by decide, hne, fun h => ?_, fun ds hds => ?_, fun ds hds => ?_, rfl⟩
  · exact hdot (List.mem_of_getLast? h)
  · simp only [List.mem_cons, List.not_mem_nil, or_false] at hds
    rcases hds with rfl | rfl | rfl | rfl
    · decide
    · decide
    · decide
    · exact fun h => hdot (List.mem_of_head? h)
  · simp only [List.mem_cons, List.not_mem_nil, or_false] at hds
    rcases hds with rfl | rfl | rfl | rfl
    · decide
    · decide
    · decide
    · have hlock : (".lock".toList.isSuffixOf ds) = false := by
        rw [← Bool.not_eq_true, List.isSuffixOf_iff_suffix]
        exact fun h => hdot (h.subset (by decide))
      unfold componentOk
      rw [hasPair_eq_false hdot, hasPair_eq_false fun h => (hdigits _ h).2.2 rfl, hlock,
        List.all_eq_true.2 fun c hc => (hdigits c hc).1]
      rfl

/-- **Every identifier has a branch's name.** -/
theorem normal?_branch (u : Ulid) : normal? (branchOf u) = some (branchOf u) := by
  have hne : branchOf u ≠ headSign := by
    intro h
    have := congrArg String.toList h
    unfold branchOf ofTransaction at this
    rw [String.toList_append] at this
    cases this
  have hlength := length_lowerText u
  have hcomponents := components_ofTransaction (noSlash_lowerText u)
  have hsize : u.lowerText.utf8ByteSize ≤ 104 := by
    have := utf8ByteSize_ofList_le u.lowerText.toList
    rw [String.ofList_toList, hlength] at this
    exact this
  have hkept : kept ("refs".toList :: ["heads".toList, "tx".toList, u.lowerText.toList]) =
      ["refs".toList, "heads".toList, "tx".toList, u.lowerText.toList] := by
    have hid : u.lowerText.toList.isEmpty = false := by
      cases hcs : u.lowerText.toList with
      | nil => rw [hcs] at hlength; cases hlength
      | cons c cs => rfl
    unfold kept
    rw [List.filter_cons, List.filter_cons, List.filter_cons, List.filter_cons, hid]
    rfl
  have hlengths : lengthsOk ["refs".toList, "heads".toList, "tx".toList, u.lowerText.toList] = true := by
    have hlast : lengthOk true u.lowerText.toList = true := by
      unfold lengthOk
      rw [String.ofList_toList]
      simp only [if_true, decide_eq_true_eq]
      omega
    show (lengthOk false "refs".toList && (lengthOk false "heads".toList && (lengthOk false "tx".toList &&
      lengthOk true u.lowerText.toList))) = true
    rw [hlast]
    decide
  refine (normal?_eq_some_iff hne).2 ⟨["refs".toList, "heads".toList, "tx".toList, u.lowerText.toList], ?_, ?_, ?_⟩
  · refine components?_eq_some_iff.2 ?_
    unfold branchOf
    rw [hcomponents]
    exact ⟨spelled_branch u, hkept.symm, hlengths⟩
  · have hlead : "refs" ++ "/" ++ "heads" ++ "/" ++ "tx" ++ "/" = transactions := by decide
    unfold branchOf textOf
    simp only [List.map_cons, List.map_nil, String.ofList_toList]
    rw [String.intercalate_cons_cons, String.intercalate_cons_cons, String.intercalate_cons_cons,
      String.intercalate_singleton, ofTransaction, ← hlead]
    simp only [String.append_assoc]
  · have hlead : transactions.utf8ByteSize = 14 := by decide
    unfold branchOf ofTransaction greatestLength
    rw [String.utf8ByteSize_append, hlead]
    omega

theorem ofText_branch (u : Ulid) : Path.ofText (branchOf u) = ["refs", "heads", "tx", u.lowerText] := by
  unfold Path.ofText branchOf
  rw [components_ofTransaction (noSlash_lowerText u)]
  simp [String.ofList_toList]

/-- No branch stands in the way of another one. -/
theorem clash_branches (u v : Ulid) : clash (branchOf u) (branchOf v) = false := by
  unfold clash
  simp [ofText_branch, Path.isAbove]

/-- No branch stands in the way of `main` or of the files among the references. -/
theorem clash_branch (u : Ulid) : ∀ o ∈ occupied ++ [main], clash (branchOf u) o = false := by
  have hothers : ∀ o ∈ occupied ++ [main], Path.ofText o ∈
      [["config"], ["description"], ["hooks", "README.sample"], ["info", "exclude"], ["refs", "heads", "main"]] := by
    decide
  intro o ho
  have hother := hothers o ho
  unfold clash
  simp only [ofText_branch]
  generalize Path.ofText o = p at hother
  simp only [List.mem_cons, List.not_mem_nil, or_false] at hother
  rcases hother with rfl | rfl | rfl | rfl | rfl <;> simp [Path.isAbove]

end RefName

/-- **Beside `main` and branches of transactions, a transaction's branch can begin** if it is not there yet. -/
theorem Repository.branch_beside {r : Repository} {id : CommitId} (htip : r.tip = .ok id) {u : Ulid}
    (hothers : ∀ n t, r.refs.get? n = some t → n = RefName.main ∨ ∃ v, n = branchOf v)
    (hnew : r.refs.get? (branchOf u) = none) : r.branch u.lowerText = .ok (id, r.moveTo (branchOf u) id) := by
  refine branch_eq (RefName.normal?_branch u) htip (fun o ho => ?_) hnew
  rcases List.mem_append.1 ho with ho | ho
  · exact RefName.clash_branch u o (List.mem_append_left _ ho)
  · obtain ⟨t, ht⟩ := SortedMap.mem_keys_iff.1 ho
    obtain rfl | ⟨v, rfl⟩ := hothers o t ht
    · exact RefName.clash_branch u _ (List.mem_append_right _ (List.mem_singleton_self _))
    · exact RefName.clash_branches u v

/-- Where there is no branch but `main`, a transaction's branch can begin, whatever its identifier. -/
theorem Repository.branch_alone {r : Repository} {id : CommitId} (htip : r.tip = .ok id)
    (honly : ∀ n t, r.refs.get? n = some t → n = RefName.main) (u : Ulid) :
    r.branch u.lowerText = .ok (id, r.moveTo (branchOf u) id) :=
  branch_free (RefName.normal?_branch u) htip (RefName.clash_branch u) honly

/-- There is nothing to sweep there. -/
theorem Handle.cleanup_alone {r : Repository} (honly : ∀ n t, r.refs.get? n = some t → n = RefName.main) (h : Handle) :
    h.cleanup r = (0, r) := by
  have hnone : r.transactionIds = [] := by
    refine List.filterMap_eq_nil_iff.2 fun n hn => ?_
    obtain ⟨t, ht⟩ := SortedMap.mem_keys_iff.1 hn
    rw [honly n t ht]
    decide
  unfold cleanup
  rw [hnone]
  rfl

end Demarcate.Git
