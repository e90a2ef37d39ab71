import Demarcate.Directive
import Demarcate.Proofs.Kinds
/-!
# Coverage — what the entries of a directive decide

An entry covers its kind and all kinds below it, so a kind is covered by a list just if the list has one of the kinds
that `parent?` leads through (`CoveredBy`).  A kind rolls back if no entry of the second list covers it, and the first
list covers it or is empty (`shouldRollback_iff`).

What one more entry does is one equation for each list (`shouldRollback_addNoRollback`, `shouldRollback_addRollback`),
with a second one for the first list while it is empty (`shouldRollback_addRollback_first`): only there does an entry
decide on kinds that it does not cover.
-/
namespace Demarcate

namespace ErrorKind

/-- One of the kinds is `k` itself or encloses it. -/
def CoveredBy (k : ErrorKind) (kinds : List ErrorKind) : Prop := ∃ n a, k.above n = some a ∧ a ∈ kinds

theorem any_isWithin_iff (k : ErrorKind) (kinds : List ErrorKind) :
    kinds.any k.isWithin = true ↔ k.CoveredBy kinds := by
  rw [List.any_eq_true]
  constructor
  · rintro ⟨a, ha, hk⟩
    obtain ⟨n, hn⟩ := (isWithin_iff_above k a).1 hk
    exact ⟨n, a, hn, ha⟩
  · rintro ⟨n, a, hn, ha⟩
    exact ⟨a, ha, (isWithin_iff_above k a).2 ⟨n, hn⟩⟩

/-- **What covers a kind covers all kinds below it.** -/
theorem CoveredBy.below {k below : ErrorKind} {kinds : List ErrorKind} (h : k.CoveredBy kinds)
    (hbelow : below.isWithin k = true) : below.CoveredBy kinds := by
  obtain ⟨m, hm⟩ := (isWithin_iff_above below k).1 hbelow
  obtain ⟨n, a, hn, ha⟩ := h
  exact ⟨m + n, a, by rw [above_add, hm, Option.bind_some, hn], ha⟩

/-- Only which kinds are listed matters, not in what order or how often. -/
theorem CoveredBy.mono {k : ErrorKind} {kinds more : List ErrorKind} (h : k.CoveredBy kinds)
    (hmore : ∀ a ∈ kinds, a ∈ more) : k.CoveredBy more := by
  obtain ⟨n, a, hn, ha⟩ := h
  exact ⟨n, a, hn, hmore a ha⟩

end ErrorKind

namespace Directive

variable (d : Directive) (a k : ErrorKind)

/-- **When a kind rolls back.** -/
theorem shouldRollback_iff : d.shouldRollback k = true ↔
    ¬ k.CoveredBy d.noRollbackOn ∧ (d.rollbackOn = [] ∨ k.CoveredBy d.rollbackOn) := by
  rw [← ErrorKind.any_isWithin_iff, ← ErrorKind.any_isWithin_iff]
  unfold shouldRollback
  cases d.noRollbackOn.any k.isWithin with
  | true => simp
  | false =>
    cases hlist : d.rollbackOn with
    | nil => simp
    | cons b bs => simp

/-! ## One more entry -/

/-- **An entry against rolling back** takes out what it covers. -/
theorem shouldRollback_addNoRollback :
    (d.addNoRollback a).shouldRollback k = (d.shouldRollback k && !k.isWithin a) := by
  unfold shouldRollback addNoRollback
  simp only [List.any_append, List.any_cons, List.any_nil, Bool.or_false]
  cases d.noRollbackOn.any k.isWithin <;> cases k.isWithin a <;> simp

/-- **An entry for rolling back, of several,** adds what it covers and no entry stands against. -/
theorem shouldRollback_addRollback (h : d.rollbackOn ≠ []) : (d.addRollback a).shouldRollback k =
    (d.shouldRollback k || (k.isWithin a && !d.noRollbackOn.any k.isWithin)) := by
  have hempty : d.rollbackOn.isEmpty = false := List.isEmpty_eq_false_iff.2 h
  have hmore : (d.rollbackOn ++ [a]).isEmpty = false :=
    List.isEmpty_eq_false_iff.2 (List.append_ne_nil_of_right_ne_nil _ (List.cons_ne_nil a []))
  unfold shouldRollback addRollback
  simp only [hempty, hmore, List.any_append, List.any_cons, List.any_nil, Bool.or_false]
  cases d.noRollbackOn.any k.isWithin <;> simp

/-- **The first entry for rolling back** leaves what it covers as it was, and nothing else rolls back any more. -/
theorem shouldRollback_addRollback_first (h : d.rollbackOn = []) :
    (d.addRollback a).shouldRollback k = (d.shouldRollback k && k.isWithin a) := by
  unfold shouldRollback addRollback
  rw [h]
  cases d.noRollbackOn.any k.isWithin <;> simp

/-! ## Building a directive -/

/-- What a directive is built by. -/
inductive Call where
  | rollbackOn (k : ErrorKind)
  | noRollbackOn (k : ErrorKind)
  deriving DecidableEq

def called (d : Directive) : Call → Directive
  | .rollbackOn k => d.addRollback k
  | .noRollbackOn k => d.addNoRollback k

def built (calls : List Call) : Directive := calls.foldl called {}

theorem mem_foldl_called (calls : List Call) : ∀ d : Directive,
    (a ∈ (calls.foldl called d).rollbackOn ↔ a ∈ d.rollbackOn ∨ .rollbackOn a ∈ calls) ∧
      (a ∈ (calls.foldl called d).noRollbackOn ↔ a ∈ d.noRollbackOn ∨ .noRollbackOn a ∈ calls) := by
  induction calls with
  | nil => simp
  | cons c calls ih =>
    intro d
    rw [List.foldl_cons, (ih _).1, (ih _).2]
    cases c with
    | rollbackOn b => simp [called, addRollback, or_assoc]
    | noRollbackOn b => simp [called, addNoRollback, or_assoc]

theorem mem_rollbackOn_built {calls : List Call} : a ∈ (built calls).rollbackOn ↔ .rollbackOn a ∈ calls :=
  (mem_foldl_called a calls {}).1.trans (or_iff_right List.not_mem_nil)

theorem mem_noRollbackOn_built {calls : List Call} : a ∈ (built calls).noRollbackOn ↔ .noRollbackOn a ∈ calls :=
  (mem_foldl_called a calls {}).2.trans (or_iff_right List.not_mem_nil)

/-- What was called for once stays listed. -/
theorem coveredBy_noRollbackOn_append {calls : List Call} {k : ErrorKind}
    (h : k.CoveredBy (built calls).noRollbackOn) (more : List Call) :
    k.CoveredBy (built (calls ++ more)).noRollbackOn :=
  h.mono fun a ha => (mem_noRollbackOn_built a).2 (List.mem_append_left more ((mem_noRollbackOn_built a).1 ha))

/-- What the calls that a directive was built by decide. -/
structure Decided (calls : List Call) (d : Directive) : Prop where
  /-- A kind rolls back if neither it nor a kind above it is listed against that, and one of them is listed for it or
  nothing is. -/
  meaning : ∀ k, d.shouldRollback k = true ↔
    (∀ n a, k.above n = some a → .noRollbackOn a ∉ calls) ∧
      ((∀ a, .rollbackOn a ∉ calls) ∨ ∃ n a, k.above n = some a ∧ .rollbackOn a ∈ calls)
  /-- Neither the order of the calls nor how often each is made matters. -/
  unordered : ∀ others : List Call, (∀ c, c ∈ others ↔ c ∈ calls) →
    ∀ k, (built others).shouldRollback k = d.shouldRollback k
  /-- No kind rolls back for an entry against it. -/
  deny_mono : ∀ a k, d.shouldRollback k = false → (d.addNoRollback a).shouldRollback k = false
  /-- No kind stops rolling back for an entry for it, if there was one before. -/
  allow_mono : d.rollbackOn ≠ [] → ∀ a k, d.shouldRollback k = true → (d.addRollback a).shouldRollback k = true
  /-- What is listed against rolling back covers all below it, whatever is called after it. -/
  authoritative : ∀ k, k.CoveredBy d.noRollbackOn → ∀ below : ErrorKind, below.isWithin k = true →
    below.CoveredBy d.noRollbackOn ∧ ∀ more : List Call, (built (calls ++ more)).shouldRollback below = false
  /-- An entry changes what is decided of kinds that it covers, and of no others. -/
  deny_local : ∀ a k, (d.addNoRollback a).shouldRollback k ≠ d.shouldRollback k → k.isWithin a = true
  allow_local : d.rollbackOn ≠ [] → ∀ a k, (d.addRollback a).shouldRollback k ≠ d.shouldRollback k →
    k.isWithin a = true
  /-- But for the first entry for rolling back: no other kind rolls back then, and what it covers stays decided. -/
  allow_first : d.rollbackOn = [] → ∀ a k,
    (k.isWithin a = false → (d.addRollback a).shouldRollback k = false) ∧
      (k.isWithin a = true → (d.addRollback a).shouldRollback k = d.shouldRollback k)

theorem shouldRollback_built (calls : List Call) (k : ErrorKind) : (built calls).shouldRollback k = true ↔
    (∀ n a, k.above n = some a → .noRollbackOn a ∉ calls) ∧
      ((∀ a, .rollbackOn a ∉ calls) ∨ ∃ n a, k.above n = some a ∧ .rollbackOn a ∈ calls) := by
  have hempty : (built calls).rollbackOn = [] ↔ ∀ a, .rollbackOn a ∉ calls := by
    rw [List.eq_nil_iff_forall_not_mem]
    exact forall_congr' fun a => not_congr (mem_rollbackOn_built a)
  rw [shouldRollback_iff, hempty]
  unfold ErrorKind.CoveredBy
  simp only [mem_rollbackOn_built, mem_noRollbackOn_built, not_exists, not_and]

/-- **What a directive decides**, by whatever calls it was built. -/
theorem built_decided (calls : List Call) : (built calls).Decided calls where
  meaning := shouldRollback_built calls
  unordered others hothers k := by
    rw [Bool.eq_iff_iff, shouldRollback_built, shouldRollback_built]
    simp only [hothers]
  deny_mono a k hk := by
    rw [shouldRollback_addNoRollback, hk, Bool.false_and]
  allow_mono hlist a k hk := by
    rw [shouldRollback_addRollback _ a k hlist, hk, Bool.true_or]
  authoritative k hk below hbelow := by
    refine ⟨hk.below hbelow, fun more => ?_⟩
    rw [← Bool.not_eq_true, shouldRollback_iff]
    exact fun h => h.1 (coveredBy_noRollbackOn_append (hk.below hbelow) more)
  deny_local a k hne := by
    rw [shouldRollback_addNoRollback] at hne
    by_contra hk
    rw [Bool.not_eq_true] at hk
    rw [hk, Bool.not_false, Bool.and_true] at hne
    exact hne rfl
  allow_local hlist a k hne := by
    rw [shouldRollback_addRollback _ a k hlist] at hne
    by_contra hk
    rw [Bool.not_eq_true] at hk
    rw [hk, Bool.false_and, Bool.or_false] at hne
    exact hne rfl
  allow_first hlist a k := by
    rw [shouldRollback_addRollback_first _ a k hlist]
    exact ⟨fun hk => by rw [hk, Bool.and_false], fun hk => by rw [hk, Bool.and_true]⟩

/-- Orders roll back and audits do not, not even one that is listed for rolling back afterwards. -/
theorem audit_stays_committed :
    let calls : List Call := [.rollbackOn ⟨"app"⟩, .noRollbackOn ⟨"app.audit"⟩]
    let audit : ErrorKind := ⟨"app.audit.write"⟩
    audit.CoveredBy (built calls).noRollbackOn ∧ (built calls).shouldRollback ⟨"app.order"⟩ = true ∧
      (built (calls ++ [.rollbackOn audit])).shouldRollback audit = false := by
  intro calls audit
  have hcovered : audit.CoveredBy (built calls).noRollbackOn := ⟨1, ⟨"app.audit"⟩, by decide, by decide⟩
  have horder : (built (calls.reverse ++ calls)).shouldRollback ⟨"app.order"⟩ = true := by decide
  have hdecided := built_decided calls
  refine ⟨hcovered, ?_, (hdecided.authoritative audit hcovered audit (by decide)).2 [.rollbackOn audit]⟩
  rw [← hdecided.unordered (calls.reverse ++ calls) (by simp), horder]

end Directive
end Demarcate
