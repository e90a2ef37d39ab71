import Demarcate.Proofs.Git.Ancestry
/-!
# Renumbering — repositories that are worked on side by side

Of two repositories one may have commits that the other does not have, on branches that are set aside.  They are alike
(`Like`) if each other reference leads to commits that are paired, which have the same tree though not the same
identifier.  A function that does not work on a branch that is set aside then does the same on both: it succeeds on both
or fails on both with the same error, and leaves them alike, with one pair of commits more if it makes one.  What is
done on a branch that is set aside is not noticed on the others (`Like.left`).
-/
namespace Demarcate

namespace SortedMap

variable {κ α β : Type} [Ord κ] [Std.TransOrd κ] [Std.LawfulEqOrd κ]

/-- Maps that have entries for the same keys have these in the same order. -/
theorem keys_congr {m : SortedMap κ α} {n : SortedMap κ β} (h : ∀ k, m.contains k = n.contains k) :
    m.keys = n.keys := by
  have hunit : m.mapValues (fun _ => ()) = n.mapValues fun _ => () := ext_get? fun k => by
    have hk := h k
    unfold contains at hk
    rw [get?_mapValues, get?_mapValues]
    cases hm : m.get? k <;> cases hn : n.get? k
    all_goals
      rw [hm, hn] at hk
      first | rfl | cases hk
  have hkeys := congrArg (fun u : SortedMap κ Unit => u.keys) hunit
  simpa only [keys, mapValues, List.map_map, Function.comp_def] using hkeys

end SortedMap

namespace Git

/-- Two references lead to a pair of commits, or neither to a commit. -/
inductive Led (ρ : CommitId → CommitId → Prop) : Option Target → Option Target → Prop where
  | nowhere : Led ρ none none
  | blob : Led ρ (some .blob) (some .blob)
  | commit {a b : CommitId} (h : ρ a b) : Led ρ (some (.commit a)) (some (.commit b))

theorem Led.mono {ρ ρ' : CommitId → CommitId → Prop} (hρ : ∀ a b, ρ a b → ρ' a b) {t t' : Option Target}
    (h : Led ρ t t') : Led ρ' t t' := by
  cases h with
  | nowhere => exact .nowhere
  | blob => exact .blob
  | commit hab => exact .commit (hρ _ _ hab)

/-- The files that stand against a merge, if it was refused. -/
def MergeOutcome.against? : MergeOutcome → Option (List Path)
  | .conflict paths => some paths
  | _ => none

namespace Repository

open RefName (normal?)

/-- The references are the same, and those that are not set aside lead to pairs of commits.  No commit is in two
pairs. -/
structure Like (ρ : CommitId → CommitId → Prop) (aside : String → Prop) (r r' : Repository) : Prop where
  same : ∀ {a b}, ρ a b → ∃ c d, r.kept? a = some c ∧ r'.kept? b = some d ∧ c.tree = d.tree ∧
    c.isReadable = d.isReadable
  one : ∀ {a b a' b'}, ρ a b → ρ a' b' → (a = a' ↔ b = b')
  names : ∀ n, r.refs.contains n = r'.refs.contains n
  refs : ∀ n, ¬ aside n → Led ρ (r.refs.get? n) (r'.refs.get? n)

/-- The pairs of `ρ`, and one of the commits that are made next. -/
def Paired (ρ : CommitId → CommitId → Prop) (r r' : Repository) (a b : CommitId) : Prop :=
  ρ a b ∨ a = r.next ∧ b = r'.next

theorem contains_insert {refs : SortedMap String Target} {t : Target} (n m : String) :
    (refs.insert n t).contains m = if m = n then true else refs.contains m := by
  unfold SortedMap.contains
  rw [SortedMap.get?_insert]
  split <;> rfl

/-- A repository is like itself, where its references lead to its commits. -/
theorem Like.refl {r : Repository} (h : r.Sound) (aside : String → Prop) :
    Like (fun a b => a = b ∧ (r.kept? a).isSome = true) aside r r := by
  refine ⟨?_, ?_, fun _ => rfl, fun n _ => ?_⟩
  · rintro a b ⟨rfl, hkept⟩
    obtain ⟨c, hc⟩ := Option.isSome_iff_exists.1 hkept
    exact ⟨c, c, hc, hc, rfl, rfl⟩
  · rintro a b a' b' ⟨rfl, -⟩ ⟨rfl, -⟩
    exact Iff.rfl
  · cases href : r.refs.get? n with
    | none => exact .nowhere
    | some t =>
      cases t with
      | blob => exact .blob
      | commit id =>
        obtain ⟨hstore, hindex⟩ := h.refs n id href
        refine .commit ⟨rfl, ?_⟩
        unfold kept?
        rw [if_pos hstore, Array.getElem?_eq_getElem hindex]
        rfl

namespace Like

variable {ρ : CommitId → CommitId → Prop} {aside : String → Prop} {r r' : Repository} (h : Like ρ aside r r')

include h

/-! ## Reading -/

theorem commit? {a b : CommitId} (hab : ρ a b) :
    (∃ c d, r.commit? a = some c ∧ r'.commit? b = some d ∧ c.tree = d.tree) ∨
      r.commit? a = none ∧ r'.commit? b = none := by
  obtain ⟨c, d, hc, hd, htree, hread⟩ := h.same hab
  rw [commit?_eq_filter, commit?_eq_filter, hc, hd]
  cases hd' : d.isReadable with
  | true =>
    rw [hd'] at hread
    exact .inl ⟨c, d, Option.filter_eq_some_iff.2 ⟨rfl, hread⟩, Option.filter_eq_some_iff.2 ⟨rfl, hd'⟩, htree⟩
  | false =>
    rw [hd'] at hread
    refine .inr ⟨?_, ?_⟩
    · rw [Option.filter_some, hread]
      rfl
    · rw [Option.filter_some, hd']
      rfl

theorem treeAt {a b : CommitId} (hab : ρ a b) : r'.treeAt b = r.treeAt a := by
  unfold Repository.treeAt
  obtain ⟨c, d, hc, hd, htree⟩ | ⟨hc, hd⟩ := h.commit? hab
  · rw [hc, hd]
    exact congrArg _ htree.symm
  · rw [hc, hd]

/-- **A branch resolves on both sides to a pair**, or on neither. -/
theorem resolve {name : String} (hname : ∀ n, normal? name = some n → ¬ aside n) :
    (∃ a b, r.resolve name = .ok a ∧ r'.resolve name = .ok b ∧ ρ a b) ∨
      r.resolve name = .error (.refNotFound name) ∧ r'.resolve name = .error (.refNotFound name) := by
  unfold Repository.resolve target?
  cases hn : normal? name with
  | none => exact .inr ⟨rfl, rfl⟩
  | some n =>
    simp only [Option.bind_eq_bind, Option.bind_some]
    have hled := h.refs n (hname n hn)
    generalize r.refs.get? n = t at hled ⊢
    generalize r'.refs.get? n = t' at hled ⊢
    cases hled with
    | nowhere => exact .inr ⟨rfl, rfl⟩
    | blob => exact .inr ⟨rfl, rfl⟩
    | commit hab =>
      obtain ⟨c, d, hc, hd, -⟩ | ⟨hc, hd⟩ := h.commit? hab
      · refine .inl ⟨_, _, ?_, ?_, hab⟩
        · simp only [hc, Option.isSome_some, if_true]
        · simp only [hd, Option.isSome_some, if_true]
      · refine .inr ⟨?_, ?_⟩
        · simp only [hc, Option.isSome_none, Bool.false_eq_true, if_false]
        · simp only [hd, Option.isSome_none, Bool.false_eq_true, if_false]

/-! ## What is done on both sides -/

theorem moveTo (n : String) {a b : CommitId} (hab : ρ a b) : Like ρ aside (r.moveTo n a) (r'.moveTo n b) := by
  refine ⟨h.same, h.one, fun m => ?_, fun m hm => ?_⟩
  · show (r.refs.insert n _).contains m = (r'.refs.insert n _).contains m
    rw [contains_insert, contains_insert, h.names]
  · show Led ρ ((r.refs.insert n _).get? m) ((r'.refs.insert n _).get? m)
    rw [SortedMap.get?_insert, SortedMap.get?_insert]
    split
    · exact .commit hab
    · exact h.refs m hm

theorem extend (n : String) {c d : Commit} (htree : c.tree = d.tree) (hread : c.isReadable = d.isReadable) :
    Like (Paired ρ r r') aside (r.extend n c) (r'.extend n d) := by
  have hold : ∀ {a b}, ρ a b → a ≠ r.next ∧ b ≠ r'.next := by
    intro a b hab
    obtain ⟨c, d, hc, hd, -⟩ := h.same hab
    constructor
    · rintro rfl
      rw [kept?_next] at hc
      cases hc
    · rintro rfl
      rw [kept?_next] at hd
      cases hd
  refine ⟨?_, ?_, fun m => ?_, fun m hm => ?_⟩
  · rintro a b (hab | ⟨rfl, rfl⟩)
    · obtain ⟨c', d', hc, hd, hsame⟩ := h.same hab
      exact ⟨c', d', (grown_extend r n c).kept? hc, (grown_extend r' n d).kept? hd, hsame⟩
    · exact ⟨c, d, kept?_extend r n c, kept?_extend r' n d, htree, hread⟩
  · rintro a b a' b' (hab | ⟨rfl, rfl⟩) (hab' | ⟨rfl, rfl⟩)
    · exact h.one hab hab'
    · exact ⟨fun heq => absurd heq (hold hab).1, fun heq => absurd heq (hold hab).2⟩
    · exact ⟨fun heq => absurd heq.symm (hold hab').1, fun heq => absurd heq.symm (hold hab').2⟩
    · exact ⟨fun _ => rfl, fun _ => rfl⟩
  · show (r.refs.insert n _).contains m = (r'.refs.insert n _).contains m
    rw [contains_insert, contains_insert, h.names]
  · show Led (Paired ρ r r') ((r.refs.insert n _).get? m) ((r'.refs.insert n _).get? m)
    rw [SortedMap.get?_insert, SortedMap.get?_insert]
    split
    · exact .commit (.inr ⟨rfl, rfl⟩)
    · exact (h.refs m hm).mono fun _ _ hab => .inl hab

theorem erase (n : String) :
    Like ρ aside { r with refs := r.refs.erase n } { r' with refs := r'.refs.erase n } := by
  refine ⟨h.same, h.one, fun m => ?_, fun m hm => ?_⟩
  · have hm := h.names m
    unfold SortedMap.contains at hm ⊢
    simp only [SortedMap.get?_erase]
    split
    · rfl
    · exact hm
  · simp only [SortedMap.get?_erase]
    split
    · exact .nowhere
    · exact h.refs m hm

/-- **A change is made on both sides**, or refused on both. -/
theorem commitTo (hnamed : r.WellNamed) (hnamed' : r'.WellNamed) {name : String}
    (hname : ∀ n, normal? name = some n → ¬ aside n) (author : Signature) (now : String) (t : TableName) (c : Change)
    (tx : Option String) :
    (∃ s s', r.commitTo author now name t c tx = .value (r.next, s) ∧
        r'.commitTo author now name t c tx = .value (r'.next, s') ∧ Like (Paired ρ r r') aside s s') ∨
      (∃ e, r.commitTo author now name t c tx = .failed e ∧ r'.commitTo author now name t c tx = .failed e) ∨
      ∃ text, r.commitTo author now name t c tx = .unwound text ∧
        r'.commitTo author now name t c tx = .unwound text := by
  obtain ⟨a, b, ha, hb, hab⟩ | ⟨ha, hb⟩ := h.resolve hname
  · obtain ⟨n, hn, -, hsome⟩ := resolve_eq_ok_iff.1 ha
    obtain ⟨before, hbefore⟩ := Option.isSome_iff_exists.1 hsome
    obtain ⟨c', d', hc, hd, htree⟩ | ⟨hc, -⟩ := h.commit? hab
    · rw [commitTo_eq hnamed ha hn hc, commitTo_eq hnamed' hb hn hd, htree]
      cases rowIn d'.tree ⟨t, c.key⟩ with
      | error e => exact .inr (.inl ⟨e, rfl, rfl⟩)
      | ok existing =>
        show (∃ s s', (c.resolve now t existing >>= _) = _ ∧ (c.resolve now t existing >>= _) = _ ∧ _) ∨
          (∃ e, (c.resolve now t existing >>= _) = _ ∧ (c.resolve now t existing >>= _) = _) ∨
          ∃ text, (c.resolve now t existing >>= _) = _ ∧ (c.resolve now t existing >>= _) = _
        cases c.resolve now t existing with
        | failed e => exact .inr (.inl ⟨e, rfl, rfl⟩)
        | unwound text => exact .inr (.inr ⟨text, rfl, rfl⟩)
        | value row =>
          cases hs : stamp author with
          | error e => exact .inr (.inl ⟨e, rfl, rfl⟩)
          | ok shown => exact .inl ⟨_, _, rfl, rfl, h.extend n rfl rfl⟩
    · rw [hbefore] at hc
      cases hc
  · refine .inr (.inl ⟨.refNotFound name, ?_, ?_⟩)
    · unfold Repository.commitTo
      rw [ha]
      rfl
    · unfold Repository.commitTo
      rw [hb]
      rfl

theorem setRef (name : String) (a b : CommitId) (replace : Bool) :
    (∃ n, normal? name = some n ∧ r.setRef name (.commit a) replace = .ok (r.moveTo n a) ∧
        r'.setRef name (.commit b) replace = .ok (r'.moveTo n b)) ∨
      r.setRef name (.commit a) replace = .error .git ∧ r'.setRef name (.commit b) replace = .error .git := by
  unfold Repository.setRef
  cases normal? name with
  | none => exact .inr ⟨rfl, rfl⟩
  | some n =>
    simp only
    rw [SortedMap.keys_congr h.names, h.names n]
    split
    · exact .inr ⟨rfl, rfl⟩
    · exact .inl ⟨n, rfl, rfl, rfl⟩

/-- **A branch is begun on both sides**, or refused on both. -/
theorem branch (hmain : ¬ aside RefName.main) (tx : String) :
    (∃ n a b, normal? (RefName.ofTransaction tx) = some n ∧ r.branch tx = .ok (a, r.moveTo n a) ∧
        r'.branch tx = .ok (b, r'.moveTo n b) ∧ ρ a b) ∨
      ∃ e, r.branch tx = .error e ∧ r'.branch tx = .error e := by
  have hname : ∀ n, normal? RefName.main = some n → ¬ aside n := fun n hn => by
    rw [RefName.normal?_main] at hn
    cases hn
    exact hmain
  unfold Repository.branch tip
  obtain ⟨a, b, ha, hb, hab⟩ | ⟨ha, hb⟩ := h.resolve hname
  · rw [ha, hb, ok_bind, ok_bind]
    obtain ⟨n, hn, hs, hs'⟩ | ⟨hs, hs'⟩ := h.setRef (RefName.ofTransaction tx) a b false
    · refine .inl ⟨n, a, b, hn, ?_, ?_, hab⟩
      · rw [hs]
        rfl
      · rw [hs']
        rfl
    · refine .inr ⟨.git, ?_, ?_⟩
      · rw [hs]
        rfl
      · rw [hs']
        rfl
  · rw [ha, hb]
    exact .inr ⟨_, rfl, rfl⟩

/-- **A merge is made on both sides**, refused on both, or stood against by the same files on both. -/
theorem merge (hnamed : r.WellNamed) (hnamed' : r'.WellNamed) {tx : String} (hmain : ¬ aside RefName.main)
    (htx : ∀ n, normal? (RefName.ofTransaction tx) = some n → ¬ aside n) {base base' : CommitId} (hbase : ρ base base')
    (author : Signature) :
    (∃ o o' s s' ρ', r.merge author tx base = .ok (o, s) ∧ r'.merge author tx base' = .ok (o', s') ∧
        o.against? = o'.against? ∧ (∀ a b, ρ a b → ρ' a b) ∧ Like ρ' aside s s') ∨
      ∃ e, r.merge author tx base = .error e ∧ r'.merge author tx base' = .error e := by
  obtain ⟨theirs, theirs', htheirs, htheirs', htip⟩ | ⟨htheirs, htheirs'⟩ := h.resolve htx
  · rw [merge_eq hnamed htheirs, merge_eq hnamed' htheirs']
    by_cases heq : theirs = base
    · rw [if_pos heq, if_pos ((h.one htip hbase).1 heq)]
      exact .inl ⟨_, _, _, _, ρ, rfl, rfl, rfl, fun _ _ hab => hab, h⟩
    rw [if_neg heq, if_neg fun heq' => heq ((h.one htip hbase).2 heq')]
    have hname : ∀ n, normal? RefName.main = some n → ¬ aside n := fun n hn => by
      rw [RefName.normal?_main] at hn
      cases hn
      exact hmain
    unfold tip
    obtain ⟨ours, ours', hours, hours', hmain'⟩ | ⟨hours, hours'⟩ := h.resolve hname
    · rw [hours, hours', ok_bind, ok_bind]
      by_cases heq : ours = base
      · rw [if_pos heq, if_pos ((h.one hmain' hbase).1 heq)]
        exact .inl ⟨_, _, _, _, ρ, rfl, rfl, rfl, fun _ _ hab => hab, h.moveTo _ htip⟩
      rw [if_neg heq, if_neg fun heq' => heq ((h.one hmain' hbase).2 heq'), h.treeAt hbase, h.treeAt hmain',
        h.treeAt htip]
      cases r.treeAt base with
      | error e => exact .inr ⟨e, rfl, rfl⟩
      | ok before =>
        cases r.treeAt ours with
        | error e => exact .inr ⟨e, rfl, rfl⟩
        | ok here =>
          cases r.treeAt theirs with
          | error e => exact .inr ⟨e, rfl, rfl⟩
          | ok there =>
            simp only [ok_bind]
            cases Tree.merge before here there with
            | error paths => exact .inl ⟨_, _, _, _, ρ, rfl, rfl, rfl, fun _ _ hab => hab, h⟩
            | ok tree =>
              cases stamp author with
              | error e => exact .inr ⟨e, rfl, rfl⟩
              | ok shown =>
                exact .inl ⟨_, _, _, _, Paired ρ r r', rfl, rfl, rfl, fun _ _ hab => .inl hab, h.extend _ rfl rfl⟩
    · rw [hours, hours']
      exact .inr ⟨_, rfl, rfl⟩
  · have hmerge : ∀ {q : Repository} {base : CommitId},
        q.resolve (RefName.ofTransaction tx) = .error (.refNotFound (RefName.ofTransaction tx)) →
          q.merge author tx base = .error (.refNotFound (RefName.ofTransaction tx)) := by
      intro q base hq
      unfold Repository.merge transactionTip
      rw [hq]
      rfl
    exact .inr ⟨_, hmerge htheirs, hmerge htheirs'⟩

theorem deleteRef (name : String) :
    (∃ n, r.deleteRef name = .ok { r with refs := r.refs.erase n } ∧
        r'.deleteRef name = .ok { r' with refs := r'.refs.erase n }) ∨
      ∃ e, r.deleteRef name = .error e ∧ r'.deleteRef name = .error e := by
  unfold Repository.deleteRef
  cases normal? name with
  | none => exact .inr ⟨_, rfl, rfl⟩
  | some n =>
    simp only
    rw [h.names n]
    split
    · exact .inr ⟨_, rfl, rfl⟩
    · split
      · exact .inl ⟨n, rfl, rfl⟩
      · exact .inr ⟨_, rfl, rfl⟩

/-! ## What is done on one side -/

/-- **What is done on a branch that is set aside**, and leaves it there, is not noticed. -/
theorem left {s : Repository} {n : String} (hn : aside n) (hmoves : Moves n r s)
    (hcontains : s.refs.contains n = r.refs.contains n) : Like ρ aside s r' := by
  refine ⟨fun hab => ?_, h.one, fun m => ?_, fun m hm => ?_⟩
  · obtain ⟨c, d, hc, hd, hsame⟩ := h.same hab
    exact ⟨c, d, (Grown.of_moves hmoves).kept? hc, hd, hsame⟩
  · by_cases heq : m = n
    · rw [heq, hcontains, h.names]
    · rw [← h.names m]
      unfold SortedMap.contains
      rw [hmoves.refs m heq]
  · have hne : m ≠ n := fun heq => hm (heq ▸ hn)
    rw [hmoves.refs m hne]
    exact h.refs m hm

/-- Other branches are set aside, where those that are no longer are gone. -/
theorem reset {aside' : String → Prop} (hgone : ∀ n, aside n → ¬ aside' n → r.refs.get? n = none) :
    Like ρ aside' r r' := by
  refine ⟨h.same, h.one, h.names, fun n hn => ?_⟩
  by_cases haside : aside n
  · have hnone := hgone n haside hn
    have hnone' : r'.refs.get? n = none := by
      have hnames := h.names n
      unfold SortedMap.contains at hnames
      rw [hnone] at hnames
      exact Option.not_isSome_iff_eq_none.1 (by rw [← hnames]; exact Bool.false_ne_true)
    rw [hnone, hnone']
    exact .nowhere
  · exact h.refs n haside

end Like

theorem Like.deleteBranches {ρ : CommitId → CommitId → Prop} {aside : String → Prop} : ∀ (ids : List String)
    {r r' : Repository}, Like ρ aside r r' → (Handle.deleteBranches ids r).1 = (Handle.deleteBranches ids r').1 ∧
      Like ρ aside (Handle.deleteBranches ids r).2 (Handle.deleteBranches ids r').2
  | [], _, _, h => ⟨rfl, h⟩
  | id :: ids, r, r', h => by
    unfold Handle.deleteBranches
    obtain ⟨n, hr, hr'⟩ | ⟨e, hr, hr'⟩ := h.deleteRef (RefName.ofTransaction id)
    · rw [hr, hr']
      obtain ⟨hcount, hlike⟩ := Like.deleteBranches ids (h.erase n)
      exact ⟨congrArg (· + 1) hcount, hlike⟩
    · rw [hr, hr']
      exact Like.deleteBranches ids h

end Repository
end Git
end Demarcate
