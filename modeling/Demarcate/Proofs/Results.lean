import Demarcate.Outcome
/-!
# Results — computations that fail or unwind

What a chain of computations comes to is known from its parts: one that succeeds has succeeded in each of them
(`bind_ok`, `bind_value`), and one that unwinds has done so in one of them (`Outcome.bind_unwound_iff`).
-/
namespace Demarcate

theorem bind_ok {ε α β : Type} {x : Except ε α} {f : α → Except ε β} {b : β} (h : (x >>= f) = .ok b) :
    ∃ a, x = .ok a ∧ f a = .ok b := by
  cases x with
  | error e => cases h
  | ok a => exact ⟨a, rfl, h⟩

theorem ok_bind {ε α β : Type} (a : α) (f : α → Except ε β) : ((Except.ok a : Except ε α) >>= f) = f a := rfl

/-- A part that succeeds is followed by the rest. -/
theorem bind_of_ok {ε α β : Type} {x : Except ε α} {a : α} (h : x = .ok a) (f : α → Except ε β) :
    (x >>= f) = f a := by
  rw [h, ok_bind]

theorem map_ok {ε α β : Type} {x : Except ε α} {f : α → β} {b : β} (h : x.map f = .ok b) :
    ∃ a, x = .ok a ∧ f a = b := by
  cases x with
  | error e => cases h
  | ok a => exact ⟨a, rfl, Except.ok.inj h⟩

theorem bind_value {ε α β : Type} {x : Outcome ε α} {f : α → Outcome ε β} {b : β} (h : (x >>= f) = .value b) :
    ∃ a, x = .value a ∧ f a = .value b := by
  cases x with
  | value a => exact ⟨a, rfl, h⟩
  | failed e => cases h
  | unwound text => cases h

theorem ofExcept_value {ε α : Type} {x : Except ε α} {a : α} (h : Outcome.ofExcept x = .value a) : x = .ok a := by
  cases x with
  | error e => cases h
  | ok a' =>
    cases h
    rfl

namespace Outcome

variable {ε α β : Type} {text : String}

/-- Where what follows does not unwind, the first part does. -/
theorem bind_unwound_iff {x : Outcome ε α} {f : α → Outcome ε β} (hf : ∀ a, f a ≠ .unwound text) :
    x.bind f = .unwound text ↔ x = .unwound text := by
  cases x with
  | value a =>
    simp only [reduceCtorEq, iff_false]
    exact hf a
  | failed e => simp only [Outcome.bind, reduceCtorEq]
  | unwound text' => simp only [Outcome.bind, unwound.injEq]

theorem ofExcept_bind_unwound {x : Except ε α} {f : α → Outcome ε β} :
    (ofExcept x).bind f = .unwound text ↔ ∃ a, x = .ok a ∧ f a = .unwound text := by
  cases x with
  | error e => simp only [ofExcept, Outcome.bind, reduceCtorEq, false_and, exists_false]
  | ok a =>
    refine ⟨fun h => ⟨a, rfl, h⟩, ?_⟩
    rintro ⟨_, hok, h⟩
    cases hok
    exact h

theorem value_ne_unwound (a : α) : (value a : Outcome ε α) ≠ .unwound text := fun h => by cases h

theorem ofExcept_bind_value_ne_unwound (x : Except ε α) (f : α → β) :
    ((ofExcept x).bind fun a => .value (f a)) ≠ .unwound text := fun h => by
  obtain ⟨a, -, ha⟩ := ofExcept_bind_unwound.1 h
  cases ha

end Outcome

end Demarcate
