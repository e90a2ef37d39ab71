import Demarcate.Proofs.Git.Branches
/-!
# Names — what the references of a repository are called

Several texts are one name, and `RefName.normal?` picks the text under which the reference is kept; that text is its own
normal name (`normal?_normal`).  The branch of a transaction is named below one folder, whatever the transaction is
called, so it is never `main` (`normal?_ofTransaction_below`).

The references of a repository have normal names none of which is above another one (`WellNamed`), so a branch that is
there can always be moved (`WellNamed.setRef`).
-/
namespace Demarcate

namespace SortedMap

variable {κ α : Type} [Ord κ] [Std.LawfulEqOrd κ]

omit [Std.LawfulEqOrd κ] in
theorem keys_sorted (m : SortedMap κ α) : m.keys.Pairwise fun a b => compare a b = .lt := List.pairwise_map.2 m.sorted

/-- What is in order is there once. -/
theorem nodup_of_sorted {l : List κ} (h : l.Pairwise fun a b => compare a b = .lt) : l.Nodup := by
  refine List.Pairwise.imp (fun {a b} hlt => ?_) h
  rintro rfl
  rw [Std.compare_self] at hlt
  cases hlt

theorem nodup_keys (m : SortedMap κ α) : m.keys.Nodup := nodup_of_sorted m.keys_sorted

theorem mem_keys_iff {m : SortedMap κ α} {k : κ} : k ∈ m.keys ↔ ∃ v, m.get? k = some v := by
  unfold keys
  rw [List.mem_map]
  constructor
  · rintro ⟨⟨k', v⟩, hm, rfl⟩
    exact ⟨v, get?_eq_some_iff.2 hm⟩
  · rintro ⟨v, hv⟩
    exact ⟨(k, v), get?_eq_some_iff.1 hv, rfl⟩

end SortedMap

namespace Git

namespace RefName

/-! ## Components -/

theorem noSlash_components : ∀ cs : List Char,
    '/' ∉ (Path.components cs).1 ∧ ∀ part ∈ (Path.components cs).2, '/' ∉ part
  | [] => ⟨List.not_mem_nil, fun part h => by cases h⟩
  | c :: cs => by
    obtain ⟨hfirst, hothers⟩ := noSlash_components cs
    unfold Path.components
    simp only
    split
    · refine ⟨List.not_mem_nil, fun part hpart => ?_⟩
      rcases List.mem_cons.1 hpart with rfl | hpart
      · exact hfirst
      · exact hothers part hpart
    · rename_i hc
      refine ⟨fun h => ?_, hothers⟩
      rcases List.mem_cons.1 h with h | h
      · exact hc h.symm
      · exact hfirst h

theorem components_append_slash {b : List Char} : ∀ {a : List Char}, '/' ∉ a →
    Path.components (a ++ '/' :: b) = (a, (Path.components b).1 :: (Path.components b).2)
  | [], _ => rfl
  | c :: a, h => by
    have hc : c ≠ '/' := fun hc => h (hc ▸ List.mem_cons_self)
    have hstep : Path.components (c :: (a ++ '/' :: b)) = (c :: (Path.components (a ++ '/' :: b)).1,
        (Path.components (a ++ '/' :: b)).2) := if_neg hc
    rw [List.cons_append, hstep, components_append_slash fun h' => h (List.mem_cons_of_mem _ h')]

/-- Components that are put together come apart again. -/
theorem components_intercalate : ∀ {k : List Char} {ks : List (List Char)}, (∀ cs ∈ k :: ks, '/' ∉ cs) →
    Path.components (List.intercalate ['/'] (k :: ks)) = (k, ks)
  | k, [], h => by
    have hk : List.intercalate ['/'] [k] = k := by simp [List.intercalate]
    rw [hk, components_of_noSlash (h k List.mem_cons_self)]
  | k, k' :: ks, h => by
    have hk : List.intercalate ['/'] (k :: k' :: ks) = k ++ '/' :: List.intercalate ['/'] (k' :: ks) := by
      simp [List.intercalate]
    rw [hk, components_append_slash (h k List.mem_cons_self),
      components_intercalate fun cs hcs => h cs (List.mem_cons_of_mem _ hcs)]

/-- What the components of a well-formed name satisfy, the empty ones among them. -/
structure Spelled (first : List Char) (others : List (List Char)) : Prop where
  first_ne : first ≠ []
  last_ne : others.getLastD first ≠ []
  last_dot : (others.getLastD first).getLast? ≠ some '.'
  head_dot : ∀ cs ∈ first :: others, cs.head? ≠ some '.'
  good : ∀ cs ∈ withoutCaret first :: others, componentOk cs = true
  capitals : isCapitals first = others.isEmpty

/-- The components that count. -/
def kept (parts : List (List Char)) : List (List Char) := parts.filter fun cs => !cs.isEmpty

theorem components?_eq_some_iff {name : String} {ks : List (List Char)} : components? name = some ks ↔
    Spelled (Path.components name.toList).1 (Path.components name.toList).2 ∧
      ks = kept ((Path.components name.toList).1 :: (Path.components name.toList).2) ∧ lengthsOk ks = true := by
  generalize hparts : Path.components name.toList = parts
  obtain ⟨first, others⟩ := parts
  unfold components?
  rw [hparts]
  simp only
  constructor
  · intro h
    split at h
    · cases h
    rename_i hends
    split at h
    · cases h
    rename_i hhead
    split at h
    · cases h
    rename_i hgood
    split at h
    · cases h
    rename_i hcapitals
    split at h
    · rename_i hlengths
      cases h
      simp only [Bool.or_eq_true, not_or, List.isEmpty_iff, beq_iff_eq] at hends
      simp only [List.any_eq_true, beq_iff_eq, not_exists, not_and] at hhead
      simp only [Bool.not_eq_true', Bool.not_eq_false] at hgood
      refine ⟨⟨hends.1.1, hends.1.2, hends.2, hhead, ?_, ?_⟩, rfl, hlengths⟩
      · exact List.all_eq_true.1 hgood
      · simpa using hcapitals
    · cases h
  · rintro ⟨h, rfl, hlengths⟩
    have hends : ¬ (first.isEmpty || (others.getLastD first).isEmpty ||
        (others.getLastD first).getLast? == some '.') = true := by
      simp only [Bool.or_eq_true, not_or, List.isEmpty_iff, beq_iff_eq]
      exact ⟨⟨h.first_ne, h.last_ne⟩, h.last_dot⟩
    have hhead : ¬ ((first :: others).any fun cs => cs.head? == some '.') = true := by
      simp only [List.any_eq_true, beq_iff_eq, not_exists, not_and]
      exact h.head_dot
    have hgood : ¬ (!(withoutCaret first :: others).all componentOk) = true := by
      simp only [Bool.not_eq_true', Bool.not_eq_false]
      exact List.all_eq_true.2 h.good
    have hcapitals : ¬ (isCapitals first != others.isEmpty) = true := by simp [h.capitals]
    rw [if_neg hends, if_neg hhead, if_neg hgood, if_neg hcapitals]
    exact if_pos hlengths

/-! ## Normal names -/

theorem getLastD_kept : ∀ {parts : List (List Char)} {a : List Char}, parts.getLastD a ≠ [] →
    (kept parts).getLastD a = parts.getLastD a ∧ (kept parts).isEmpty = parts.isEmpty
  | [], _, _ => ⟨rfl, rfl⟩
  | b :: parts, a, h => by
    rw [List.getLastD_cons] at h
    obtain ⟨hlast, hempty⟩ := getLastD_kept h
    cases hb : b with
    | cons c cs =>
      subst hb
      have hkept : kept ((c :: cs) :: parts) = (c :: cs) :: kept parts := List.filter_cons_of_pos rfl
      rw [hkept, List.getLastD_cons, List.getLastD_cons]
      exact ⟨hlast, rfl⟩
    | nil =>
      subst hb
      have hkept : kept ([] :: parts) = kept parts := List.filter_cons_of_neg (by simp)
      rw [hkept, List.getLastD_cons]
      -- the last component is not empty, so it is not this one
      cases parts with
      | nil => exact absurd rfl h
      | cons d parts =>
        rw [← hlast, hempty]
        refine ⟨?_, rfl⟩
        cases hk : kept (d :: parts) with
        | nil =>
          rw [hk] at hempty
          cases hempty
        | cons x xs => rw [List.getLastD_cons, List.getLastD_cons]

theorem Spelled.kept {first : List Char} {others : List (List Char)} (h : Spelled first others) :
    Spelled first (kept others) := by
  obtain ⟨hlast, hempty⟩ := getLastD_kept h.last_ne
  have hsub : ∀ cs ∈ RefName.kept others, cs ∈ others := fun cs hcs => (List.mem_filter.1 hcs).1
  refine ⟨h.first_ne, ?_, ?_, fun cs hcs => ?_, fun cs hcs => ?_, ?_⟩
  · rw [hlast]
    exact h.last_ne
  · rw [hlast]
    exact h.last_dot
  · rcases List.mem_cons.1 hcs with rfl | hcs
    · exact h.head_dot _ List.mem_cons_self
    · exact h.head_dot cs (List.mem_cons_of_mem _ (hsub cs hcs))
  · rcases List.mem_cons.1 hcs with rfl | hcs
    · exact h.good _ List.mem_cons_self
    · exact h.good cs (List.mem_cons_of_mem _ (hsub cs hcs))
  · rw [hempty]
    exact h.capitals

theorem kept_kept (parts : List (List Char)) : kept (kept parts) = kept parts := by
  unfold kept
  rw [List.filter_filter]
  simp

/-- The text of a name's components. -/
def textOf (ks : List (List Char)) : String := "/".intercalate (ks.map String.ofList)

theorem toList_textOf (ks : List (List Char)) : (textOf ks).toList = List.intercalate ['/'] ks := by
  unfold textOf
  rw [String.toList_intercalate, List.map_map]
  have : String.toList ∘ String.ofList = id := by
    funext cs
    exact String.toList_ofList
  rw [this, List.map_id]
  rfl

theorem normal?_eq_some_iff {name n : String} (h : name ≠ headSign) : normal? name = some n ↔
    ∃ ks, components? name = some ks ∧ n = textOf ks ∧ n.utf8ByteSize ≤ greatestLength := by
  unfold normal?
  rw [if_neg h]
  cases hc : components? name with
  | none => simp
  | some ks =>
    simp only [Option.bind_eq_bind, Option.bind_some, Option.some.injEq, exists_eq_left']
    split
    · rename_i hlength
      constructor
      · intro hn
        cases hn
        exact ⟨rfl, hlength⟩
      · rintro ⟨rfl, -⟩
        rfl
    · rename_i hlength
      constructor
      · intro hn
        cases hn
      · rintro ⟨rfl, hn⟩
        exact absurd hn hlength

/-- **A normal name is its own normal name.** -/
theorem normal?_normal {name n : String} (h : normal? name = some n) : normal? n = some n := by
  by_cases hsign : name = headSign
  · unfold normal? at h
    rw [if_pos hsign] at h
    cases h
    decide
  · obtain ⟨ks, hks, rfl, hlength⟩ := (normal?_eq_some_iff hsign).1 h
    obtain ⟨hspelled, hkept, hlengths⟩ := components?_eq_some_iff.1 hks
    have hslash := noSlash_components name.toList
    generalize Path.components name.toList = parts at hspelled hkept hslash
    obtain ⟨first, others⟩ := parts
    have hcons : ks = first :: kept others := by
      rw [hkept]
      exact List.filter_cons_of_pos (by simpa using hspelled.first_ne)
    have hparts : Path.components (textOf ks).toList = (first, kept others) := by
      rw [toList_textOf, hcons]
      refine components_intercalate fun cs hcs => ?_
      rcases List.mem_cons.1 hcs with rfl | hcs
      · exact hslash.1
      · exact hslash.2 cs (List.mem_filter.1 hcs).1
    have hagain : components? (textOf ks) = some ks := by
      rw [components?_eq_some_iff, hparts]
      refine ⟨hspelled.kept, ?_, hlengths⟩
      rw [hcons]
      have hfirst : kept (first :: kept others) = first :: kept (kept others) :=
        List.filter_cons_of_pos (by simpa using hspelled.first_ne)
      rw [hfirst, kept_kept]
    refine (normal?_eq_some_iff fun hn => ?_).2 ⟨ks, hagain, rfl, hlength⟩
    -- the sign for `HEAD` is not spelled like a name
    have hone := (components?_eq_some_iff.1 hagain).1.capitals
    rw [hn] at hone
    revert hone
    decide

/-! ## Transaction branches -/

theorem components_below (id : String) : Path.components (ofTransaction id).toList = ("refs".toList,
    "heads".toList :: "tx".toList :: (Path.components id.toList).1 :: (Path.components id.toList).2) := by
  have hlead : transactions.toList = "refs".toList ++ '/' :: ("heads".toList ++ '/' :: ("tx".toList ++ ['/'])) := by
    decide
  unfold ofTransaction
  rw [String.toList_append, hlead, List.append_assoc, List.cons_append, List.append_assoc, List.cons_append,
    List.append_assoc, List.cons_append, List.nil_append, components_append_slash (by decide),
    components_append_slash (by decide), components_append_slash (by decide)]

/-- **A transaction's branch is named below the folder of transactions**, whatever the transaction's name. -/
theorem normal?_ofTransaction_below {id n : String} (h : normal? (ofTransaction id) = some n) :
    ∃ rest, n = ofTransaction rest := by
  have hsign : ofTransaction id ≠ headSign := by
    intro heq
    have := congrArg String.toList heq
    unfold ofTransaction at this
    rw [String.toList_append] at this
    cases this
  obtain ⟨ks, hks, rfl, -⟩ := (normal?_eq_some_iff hsign).1 h
  obtain ⟨hspelled, rfl, -⟩ := components?_eq_some_iff.1 hks
  rw [components_below] at hspelled ⊢
  generalize hrest : (Path.components id.toList).1 :: (Path.components id.toList).2 = parts at hspelled ⊢
  have hkept : kept ("refs".toList :: "heads".toList :: "tx".toList :: parts) =
      "refs".toList :: "heads".toList :: "tx".toList :: kept parts := rfl
  -- the last component counts, so there is one below the folder
  have hne : kept parts ≠ [] := by
    intro hnil
    have hlast := hspelled.last_ne
    rw [List.getLastD_cons, List.getLastD_cons] at hlast
    have hempty := (getLastD_kept hlast).2
    rw [hnil, ← hrest] at hempty
    cases hempty
  refine ⟨textOf (kept parts), ?_⟩
  rw [hkept, ← String.toList_inj]
  unfold ofTransaction
  rw [String.toList_append, toList_textOf, toList_textOf]
  cases hks : kept parts with
  | nil => exact absurd hks hne
  | cons k ks =>
    have hlead : transactions.toList = "refs".toList ++ '/' :: ("heads".toList ++ '/' :: ("tx".toList ++ ['/'])) := by
      decide
    rw [hlead]
    simp [List.intercalate]

theorem normal?_ofTransaction_ne_main {id n : String} (h : normal? (ofTransaction id) = some n) : n ≠ main := by
  obtain ⟨rest, rfl⟩ := normal?_ofTransaction_below h
  exact ofTransaction_ne_main rest

/-! ## Clashes -/

theorem clash_comm (a b : String) : clash a b = clash b a := Bool.or_comm _ _

theorem clash_self (a : String) : clash a a = false := by
  have h : ∀ p : Path, p.isAbove p = false := by
    intro p
    induction p with
    | nil => rfl
    | cons c p ih => simp [Path.isAbove, ih]
  simp [clash, h]

end RefName

/-! ## References -/

namespace Repository

open RefName (normal? clash occupied)

/-- **When a reference can be set**, and what that does. -/
theorem setRef_eq_ok_iff {r r' : Repository} {name : String} {t : Target} {replace : Bool} :
    r.setRef name t replace = .ok r' ↔ ∃ n, normal? name = some n ∧ (∀ o ∈ occupied ++ r.refs.keys, clash n o = false) ∧
      (replace = false → r.refs.get? n = none) ∧ r' = { r with refs := r.refs.insert n t } := by
  unfold setRef
  cases hn : normal? name with
  | none => simp
  | some n =>
    simp only [Option.some.injEq, exists_eq_left']
    split
    · rename_i hbad
      constructor
      · intro h
        cases h
      · rintro ⟨hclash, hrep, -⟩
        rw [Bool.or_eq_true, List.any_eq_true, Bool.and_eq_true] at hbad
        rcases hbad with ⟨o, ho, hc⟩ | ⟨hcontains, hrepl⟩
        · rw [hclash o ho] at hc
          cases hc
        · rw [Bool.not_eq_true'] at hrepl
          rw [SortedMap.contains, hrep hrepl] at hcontains
          cases hcontains
    · rename_i hgood
      rw [Bool.or_eq_true, List.any_eq_true, Bool.and_eq_true, not_or, not_exists] at hgood
      constructor
      · intro h
        cases h
        refine ⟨fun o ho => ?_, fun hrep => ?_, rfl⟩
        · cases hc : clash n o with
          | false => rfl
          | true => exact absurd ⟨ho, hc⟩ (hgood.1 o)
        · cases hget : r.refs.get? n with
          | none => rfl
          | some t' => exact absurd ⟨by rw [SortedMap.contains, hget]; rfl, by rw [hrep]; rfl⟩ hgood.2
      · rintro ⟨-, -, rfl⟩
        rfl

/-- The references have normal names, none of which is above another one or above a file that stands among them. -/
structure WellNamed (r : Repository) : Prop where
  normal : ∀ n t, r.refs.get? n = some t → normal? n = some n
  apart : ∀ m n s t, r.refs.get? m = some s → r.refs.get? n = some t → clash m n = false
  vacant : ∀ n t, r.refs.get? n = some t → ∀ o ∈ occupied, clash n o = false

namespace WellNamed

variable {r r₁ : Repository}

theorem of_refs (h : r.WellNamed) (hrefs : ∀ n t, r₁.refs.get? n = some t → ∃ t', r.refs.get? n = some t') :
    r₁.WellNamed := by
  refine ⟨fun n t hn => ?_, fun m n s t hm hn => ?_, fun n t hn => ?_⟩
  · obtain ⟨t', hn'⟩ := hrefs n t hn
    exact h.normal n t' hn'
  · obtain ⟨s', hm'⟩ := hrefs m s hm
    obtain ⟨t', hn'⟩ := hrefs n t hn
    exact h.apart m n s' t' hm' hn'
  · obtain ⟨t', hn'⟩ := hrefs n t hn
    exact h.vacant n t' hn'

theorem erase (h : r.WellNamed) (n : String) : WellNamed { r with refs := r.refs.erase n } := by
  refine h.of_refs fun m t hm => ⟨t, ?_⟩
  rw [SortedMap.get?_erase] at hm
  split at hm
  · cases hm
  · exact hm

theorem setRef_ok (h : r.WellNamed) {name : String} {t : Target} {replace : Bool}
    (hr : r.setRef name t replace = .ok r₁) : r₁.WellNamed := by
  obtain ⟨n, hn, hclash, -, rfl⟩ := setRef_eq_ok_iff.1 hr
  have hkeys : ∀ m s, r.refs.get? m = some s → clash n m = false := fun m s hm =>
    hclash m (List.mem_append_right _ (SortedMap.mem_keys_iff.2 ⟨s, hm⟩))
  refine ⟨fun m s hm => ?_, fun m m' s s' hm hm' => ?_, fun m s hm o ho => ?_⟩
  · rw [SortedMap.get?_insert] at hm
    split at hm
    · rename_i heq
      rw [heq]
      exact RefName.normal?_normal hn
    · exact h.normal m s hm
  · rw [SortedMap.get?_insert] at hm hm'
    split at hm
    · rename_i heq
      split at hm'
      · rename_i heq'
        rw [heq, heq']
        exact RefName.clash_self n
      · rw [heq]
        exact hkeys m' s' hm'
    · split at hm'
      · rename_i heq'
        rw [heq', RefName.clash_comm]
        exact hkeys m s hm
      · exact h.apart m m' s s' hm hm'
  · rw [SortedMap.get?_insert] at hm
    split at hm
    · rename_i heq
      rw [heq]
      exact hclash o (List.mem_append_left _ ho)
    · exact h.vacant m s hm o ho

/-- **A reference that is there can be moved.** -/
theorem setRef (h : r.WellNamed) {name n : String} {s : Target} (hn : normal? name = some n)
    (hs : r.refs.get? n = some s) (t : Target) :
    r.setRef name t true = .ok { r with refs := r.refs.insert n t } := by
  refine setRef_eq_ok_iff.2 ⟨n, hn, fun o ho => ?_, (fun h => by cases h), rfl⟩
  rcases List.mem_append.1 ho with ho | ho
  · exact h.vacant n s hs o ho
  · obtain ⟨t', ht'⟩ := SortedMap.mem_keys_iff.1 ho
    exact h.apart n o s t' hs ht'

theorem insert (h : r.WellNamed) {n : String} {s : Target} (hs : r.refs.get? n = some s) (t : Target)
    (commits : Array Commit) : WellNamed { r with commits, refs := r.refs.insert n t } := by
  refine h.of_refs fun m t' hm => ?_
  rw [SortedMap.get?_insert] at hm
  split at hm
  · rename_i heq
    exact ⟨s, heq ▸ hs⟩
  · exact ⟨t', hm⟩

end WellNamed

theorem closed_wellNamed : Closed WellNamed where
  fresh number := ⟨(fun n t h => by cases h), (fun m n s t h => by cases h), (fun n t h => by cases h)⟩
  start h hs := by
    obtain ⟨author, -, hs⟩ := bind_ok hs
    obtain ⟨t, -, hs⟩ := bind_ok hs
    obtain ⟨r₂, hset, hs⟩ := bind_ok hs
    cases hs
    have hadd : WellNamed r₂ := by
      refine WellNamed.setRef_ok ?_ hset
      exact h.of_refs fun n t hn => ⟨t, hn⟩
    refine WellNamed.of_refs (hadd.erase RefName.head) fun n t hn => ⟨t, hn⟩
  commitTo h hc := by
    obtain ⟨n, parent, before, next, commit, -, href, -, -, rfl⟩ := commitTo_value hc
    exact h.insert href _ _
  branch h hb := by
    obtain ⟨base, -, hb⟩ := bind_ok hb
    obtain ⟨r₂, hset, hb⟩ := bind_ok hb
    cases hb
    exact h.setRef_ok hset
  merge h hm := by
    obtain ⟨theirs, -, hcases⟩ := merge_ok hm
    rcases hcases with ⟨paths, -, rfl⟩ | ⟨-, rfl⟩ | ⟨htip, rfl⟩ |
        ⟨ours, tb, tours, tt, commit, htip, -, -, -, -, rfl⟩
    · exact h
    · exact h
    · exact h.insert (tip_ok htip).1 _ _
    · exact h.insert (tip_ok htip).1 _ _
  deleteRef h hd := by
    obtain ⟨n, -, rfl⟩ := deleteRef_ok hd
    exact h.erase n

/-- A branch is moved where it stands as expected. -/
theorem advance_eq {r : Repository} {name : String} {expected : CommitId} (next : CommitId)
    (h : r.resolve name = .ok expected) : r.advance name expected next = r.setRef name (.commit next) true := by
  unfold advance
  rw [h]
  exact if_pos rfl

end Repository
end Git
end Demarcate
