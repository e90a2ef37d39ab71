import Demarcate.ErrorKind
import Mathlib.Order.Defs.Unbundled
import Mathlib.Order.Preorder.Chain
/-!
# Kinds — the order of error kinds

A test from the left and a cut from the right define one relation.  `isWithin` looks whether a kind begins with the
ancestor and a dot; `parent?` cuts at the last dot.  Both are read as one equation of the characters: the longer kind is
the shorter one, a dot and some rest (`isWithin_iff`, `parent?_eq_some`).  Every dot of the longer kind, in whatever
place, is thus one step of `parent?`, and the kinds that enclose a kind are as many as its dots (`isSome_above`).
-/
namespace Demarcate
namespace ErrorKind

/-- The kind that `n` steps of `parent?` reach. -/
def above (k : ErrorKind) : (n : Nat) → Option ErrorKind
  | 0 => some k
  | n + 1 => k.parent?.bind fun p => p.above n

/-- How often a kind can be cut. -/
def dots (k : ErrorKind) : Nat := k.text.toList.count '.'

/-! ## The two functions as equations of the characters -/

theorem text_injective {k k' : ErrorKind} (h : k.text.toList = k'.text.toList) : k = k' := by
  cases k
  cases k'
  exact congrArg mk (String.toList_injective h)

theorem afterLead_eq_some : ∀ (lead cs rest : List Char), afterLead lead cs = some rest ↔ cs = lead ++ rest
  | [], cs, rest => by
    rw [afterLead, Option.some_inj, List.nil_append]
  | l :: ls, [], rest => by
    rw [afterLead, List.cons_append]
    exact ⟨nofun, nofun⟩
  | l :: ls, c :: cs, rest => by
    rw [afterLead, List.cons_append, List.cons.injEq]
    split
    · rename_i hlc
      rw [afterLead_eq_some ls cs rest]
      exact ⟨fun h => ⟨hlc.symm, h⟩, fun h => h.2⟩
    · rename_i hlc
      exact ⟨nofun, fun h => absurd h.1.symm hlc⟩

/-- **A kind is within another when it is that one, or that one followed by a dot and anything.** -/
theorem isWithin_iff (k a : ErrorKind) :
    k.isWithin a = true ↔ a = k ∨ ∃ rest, k.text.toList = a.text.toList ++ '.' :: rest := by
  have hlead := afterLead_eq_some a.text.toList k.text.toList
  unfold isWithin
  cases hafter : afterLead a.text.toList k.text.toList with
  | none =>
    refine ⟨nofun, ?_⟩
    rintro (rfl | ⟨rest, hrest⟩)
    · exact nomatch hafter.symm.trans ((hlead []).2 (List.append_nil _).symm)
    · exact nomatch hafter.symm.trans ((hlead _).2 hrest)
  | some tail =>
    have htail : k.text.toList = a.text.toList ++ tail := (hlead tail).1 hafter
    cases tail with
    | nil => exact ⟨fun _ => .inl (text_injective (htail.trans (List.append_nil _)).symm), fun _ => rfl⟩
    | cons c rest =>
      have hc : (c == '.') = true ↔ c = '.' := beq_iff_eq
      refine hc.trans ⟨fun h => .inr ⟨rest, h ▸ htail⟩, ?_⟩
      rintro (rfl | ⟨rest', hrest⟩)
      · exact nomatch List.append_cancel_left ((List.append_nil _).trans htail)
      · exact (List.cons.inj (List.append_cancel_left (htail.symm.trans hrest))).1

/-- What is cut off at a dot has no dot behind it, or is cut further right. -/
theorem beforeLastDot_append (lead rest : List Char) :
    beforeLastDot (lead ++ '.' :: rest) =
      some (match beforeLastDot rest with
        | some before => lead ++ '.' :: before
        | none => lead) := by
  induction lead with
  | nil =>
    rw [List.nil_append, beforeLastDot]
    cases beforeLastDot rest with
    | some before => rfl
    | none => rfl
  | cons c lead ih =>
    rw [List.cons_append, beforeLastDot, ih]
    cases beforeLastDot rest with
    | some before => rfl
    | none => rfl

theorem beforeLastDot_eq_some {cs before : List Char} :
    beforeLastDot cs = some before → ∃ rest, cs = before ++ '.' :: rest ∧ '.' ∉ rest := by
  induction cs generalizing before with
  | nil => exact nofun
  | cons c cs ih =>
    rw [beforeLastDot]
    cases hcs : beforeLastDot cs with
    | some b =>
      rintro ⟨⟩
      obtain ⟨rest, rfl, hrest⟩ := ih hcs
      exact ⟨rest, rfl, hrest⟩
    | none =>
      dsimp only
      split
      · rename_i hc
        rintro ⟨⟩
        refine ⟨cs, by rw [hc]; rfl, fun hmem => ?_⟩
        obtain ⟨s, t, rfl⟩ := List.append_of_mem hmem
        exact nomatch hcs.symm.trans (beforeLastDot_append s t)
      · exact nofun

/-- **The enclosing kind is what stands before the last dot.** -/
theorem parent?_eq_some {k p : ErrorKind} (h : k.parent? = some p) :
    ∃ rest, k.text.toList = p.text.toList ++ '.' :: rest ∧ '.' ∉ rest := by
  obtain ⟨before, hbefore, rfl⟩ := Option.map_eq_some_iff.1 h
  rw [String.toList_ofList]
  exact beforeLastDot_eq_some hbefore

/-- A kind that goes on after a dot has an enclosing one. -/
theorem parent?_of_dot {k : ErrorKind} {lead rest : List Char} (h : k.text.toList = lead ++ '.' :: rest) :
    ∃ p, k.parent? = some p ∧ (p.text.toList = lead ∨ ∃ rest', p.text.toList = lead ++ '.' :: rest') := by
  unfold parent?
  rw [h, beforeLastDot_append]
  refine ⟨_, rfl, ?_⟩
  rw [String.toList_ofList]
  cases beforeLastDot rest with
  | some before => exact .inr ⟨before, rfl⟩
  | none => exact .inl rfl

/-! ## Step by step -/

/-- **One step**: what a kind is strictly within is what its enclosing kind is within. -/
theorem isWithin_step (k a : ErrorKind) :
    k.isWithin a = true ↔ a = k ∨ ∃ p, k.parent? = some p ∧ p.isWithin a = true := by
  constructor
  · intro h
    rcases (isWithin_iff k a).1 h with rfl | ⟨rest, hrest⟩
    · exact .inl rfl
    · obtain ⟨p, hp, hlead | hlead⟩ := parent?_of_dot hrest
      · exact .inr ⟨p, hp, (isWithin_iff p a).2 (.inl (text_injective hlead.symm))⟩
      · exact .inr ⟨p, hp, (isWithin_iff p a).2 (.inr hlead)⟩
  · rintro (rfl | ⟨p, hp, hpa⟩)
    · exact (isWithin_iff a a).2 (.inl rfl)
    · obtain ⟨rest, hk, -⟩ := parent?_eq_some hp
      rcases (isWithin_iff p a).1 hpa with rfl | ⟨rest', hpa⟩
      · exact (isWithin_iff k a).2 (.inr ⟨rest, hk⟩)
      · refine (isWithin_iff k a).2 (.inr ⟨rest' ++ '.' :: rest, ?_⟩)
        rw [hk, hpa, List.append_assoc, List.cons_append]

/-- Each step takes one dot. -/
theorem dots_parent {k p : ErrorKind} (h : k.parent? = some p) : k.dots = p.dots + 1 := by
  obtain ⟨rest, hk, hrest⟩ := parent?_eq_some h
  unfold dots
  rw [hk, List.count_append, List.count_cons_self, List.count_eq_zero.2 hrest]

theorem dots_eq_zero {k : ErrorKind} (h : k.parent? = none) : k.dots = 0 := by
  refine List.count_eq_zero.2 fun hmem => ?_
  obtain ⟨s, t, hst⟩ := List.append_of_mem hmem
  obtain ⟨p, hp, -⟩ := parent?_of_dot hst
  exact nomatch h.symm.trans hp

/-- **Repeated `parent?` ends**: it can be repeated as often as there are dots. -/
theorem isSome_above (k : ErrorKind) (n : Nat) : (k.above n).isSome = true ↔ n ≤ k.dots := by
  induction n generalizing k with
  | zero => exact ⟨fun _ => Nat.zero_le _, fun _ => rfl⟩
  | succ n ih =>
    rw [above]
    cases hp : k.parent? with
    | none => exact ⟨nofun, fun h => absurd (dots_eq_zero hp ▸ h) (Nat.not_succ_le_zero n)⟩
    | some p =>
      rw [Option.bind_some, ih p, dots_parent hp]
      exact Nat.succ_le_succ_iff.symm

theorem above_add (k : ErrorKind) (m n : Nat) : k.above (m + n) = (k.above m).bind fun p => p.above n := by
  induction m generalizing k with
  | zero => rw [Nat.zero_add]; rfl
  | succ m ih =>
    rw [Nat.succ_add, above, above]
    cases k.parent? with
    | none => rfl
    | some p => exact ih p

/-- **`isWithin` follows `parent?`**, any number of times. -/
theorem isWithin_iff_above (k a : ErrorKind) : k.isWithin a = true ↔ ∃ n, k.above n = some a := by
  constructor
  · -- The induction is on the dots, of which each step takes one.
    induction hd : k.dots generalizing k with
    | zero =>
      intro h
      rcases (isWithin_step k a).1 h with rfl | ⟨p, hp, -⟩
      · exact ⟨0, rfl⟩
      · exact absurd ((dots_parent hp).symm.trans hd) (Nat.succ_ne_zero _)
    | succ d ih =>
      intro h
      rcases (isWithin_step k a).1 h with rfl | ⟨p, hp, hpa⟩
      · exact ⟨0, rfl⟩
      · obtain ⟨n, hn⟩ := ih p (Nat.succ.inj ((dots_parent hp).symm.trans hd)) hpa
        exact ⟨n + 1, by rw [above, hp, Option.bind_some, hn]⟩
  · rintro ⟨n, hn⟩
    induction n generalizing k with
    | zero => exact (isWithin_step k a).2 (.inl (Option.some.inj hn).symm)
    | succ n ih =>
      rw [above] at hn
      obtain ⟨p, hp, hpn⟩ := Option.bind_eq_some_iff.1 hn
      exact (isWithin_step k a).2 (.inr ⟨p, hp, ih p hpn⟩)

/-- The listed kinds are those that `parent?` reaches, each in its place. -/
theorem getElem?_parents (k : ErrorKind) (n : Nat) : k.parents[n]? = k.above (n + 1) := by
  suffices h : ∀ fuel, k.dots ≤ fuel → (parentsWithin fuel k)[n]? = k.above (n + 1) from
    h _ (List.count_le_length.trans_eq k.text.length_toList)
  intro fuel hfuel
  induction fuel generalizing k n with
  | zero =>
    rw [parentsWithin, List.getElem?_nil, above]
    cases hp : k.parent? with
    | none => rfl
    | some p => exact absurd (dots_parent hp ▸ hfuel) (Nat.not_succ_le_zero _)
  | succ fuel ih =>
    rw [parentsWithin, above]
    cases hp : k.parent? with
    | none => rfl
    | some p =>
      cases n with
      | zero => rfl
      | succ n => exact ih p n (Nat.le_of_succ_le_succ ((dots_parent hp).symm.trans_le hfuel))

/-! ## The order -/

theorem isWithin_trans {k a b : ErrorKind} (hka : k.isWithin a = true) (hab : a.isWithin b = true) :
    k.isWithin b = true := by
  obtain ⟨m, hm⟩ := (isWithin_iff_above k a).1 hka
  obtain ⟨n, hn⟩ := (isWithin_iff_above a b).1 hab
  exact (isWithin_iff_above k b).2 ⟨m + n, by rw [above_add, hm, Option.bind_some, hn]⟩

/-- Two kinds that enclose each other have as many characters. -/
theorem isWithin_antisymm {k a : ErrorKind} (hka : k.isWithin a = true) (hak : a.isWithin k = true) : k = a := by
  rcases (isWithin_iff k a).1 hka with rfl | ⟨rest, hk⟩
  · rfl
  · rcases (isWithin_iff a k).1 hak with rfl | ⟨rest', ha⟩
    · rfl
    · have hlong := congrArg List.length hk
      rw [ha, List.length_append, List.length_append, List.length_cons, List.length_cons] at hlong
      omega

/-- Of two kinds that `parent?` reaches, the later one encloses the earlier one. -/
theorem isWithin_of_le {k a b : ErrorKind} {m n : Nat} (hmn : m ≤ n) (ha : k.above m = some a)
    (hb : k.above n = some b) : a.isWithin b = true := by
  obtain ⟨d, rfl⟩ := Nat.exists_eq_add_of_le hmn
  rw [above_add, ha, Option.bind_some] at hb
  exact (isWithin_iff_above a b).2 ⟨d, hb⟩

/-- **A kind is within its enclosing kinds and itself, and nothing else**, whatever dots it has.  `parent?` can be
repeated as often as the kind has dots and no further; the relation is a partial order; and what a kind is within is a
chain. -/
theorem isWithin_is_ancestry :
    (∀ k a : ErrorKind, k.isWithin a = true ↔ a = k ∨ ∃ n, k.above (n + 1) = some a) ∧
      (∀ (k : ErrorKind) (n : Nat), (k.above n).isSome = true ↔ n ≤ k.dots) ∧
      IsPartialOrder ErrorKind (fun k a => k.isWithin a = true) ∧
      ∀ k : ErrorKind, IsChain (fun a b => a.isWithin b = true) {a | k.isWithin a = true} := by
  refine ⟨fun k a => ?_, isSome_above, ?_, fun k a ha b hb _ => ?_⟩
  · rw [isWithin_iff_above]
    constructor
    · rintro ⟨_ | n, hn⟩
      · exact .inl (Option.some.inj hn).symm
      · exact .inr ⟨n, hn⟩
    · rintro (rfl | ⟨n, hn⟩)
      · exact ⟨0, rfl⟩
      · exact ⟨n + 1, hn⟩
  · exact
      { refl := fun k => (isWithin_step k k).2 (.inl rfl)
        trans := fun _ _ _ => isWithin_trans
        antisymm := fun _ _ => isWithin_antisymm }
  · obtain ⟨m, hm⟩ := (isWithin_iff_above k a).1 ha
    obtain ⟨n, hn⟩ := (isWithin_iff_above k b).1 hb
    rcases Nat.le_total m n with hmn | hnm
    · exact .inl (isWithin_of_le hmn hm hn)
    · exact .inr (isWithin_of_le hnm hn hm)

end ErrorKind
end Demarcate
