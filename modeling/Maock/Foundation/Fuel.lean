import Mathlib.Tactic.Common

/-!
# Computations with fuel

A loop of the source that need not end is a function of a number of turns that fails with a
designated error when the turns run out. Such a computation `Settles` on a result when it gives that
result for every number of turns from some number on, and only runs out below; it `NeverEnds` when
it runs out for every number of turns. The lemmas follow the loop: one turn, then the rest.
-/

set_option autoImplicit false
set_option relaxedAutoImplicit false

namespace Maock.Foundation.Fuel

variable {ε α : Type*} {exhausted : ε} {f g : ℕ → Except ε α} {result : Except ε α}

/-- From some number of turns on the computation gives the result; below it runs out. -/
def Settles (exhausted : ε) (f : ℕ → Except ε α) (result : Except ε α) : Prop :=
  ∃ enough, ∀ fuel, f fuel = if fuel < enough then .error exhausted else result

/-- The computation runs out of any number of turns. -/
def NeverEnds (exhausted : ε) (f : ℕ → Except ε α) : Prop :=
  ∀ fuel, f fuel = .error exhausted

theorem Settles.of_forall (h : ∀ fuel, f fuel = result) : Settles exhausted f result :=
  ⟨0, fun fuel ↦ by rw [h fuel, if_neg (Nat.not_lt_zero fuel)]⟩

/-- A turn in front of a computation that settles. -/
theorem Settles.succ (hzero : f 0 = .error exhausted) (hsucc : ∀ fuel, f (fuel + 1) = g fuel)
    (hg : Settles exhausted g result) : Settles exhausted f result := by
  obtain ⟨enough, henough⟩ := hg
  refine ⟨enough + 1, fun fuel ↦ ?_⟩
  induction fuel with
  | zero => rw [hzero, if_pos (Nat.succ_pos enough)]
  | succ fuel _ => simp only [hsucc, henough, Nat.add_lt_add_iff_right]

/-- A computation that one turn brings to its result. -/
theorem Settles.of_turn (hzero : f 0 = .error exhausted) (hsucc : ∀ fuel, f (fuel + 1) = result) :
    Settles exhausted f result :=
  Settles.succ (g := fun _ ↦ result) hzero hsucc (Settles.of_forall fun _ ↦ rfl)

theorem Settles.eventually (h : Settles exhausted f result) :
    ∃ enough, ∀ fuel, enough ≤ fuel → f fuel = result := by
  obtain ⟨enough, henough⟩ := h
  exact ⟨enough, fun fuel hfuel ↦ by rw [henough, if_neg (Nat.not_lt.mpr hfuel)]⟩

theorem Settles.eq_or_eq (h : Settles exhausted f result) (fuel : ℕ) :
    f fuel = .error exhausted ∨ f fuel = result := by
  obtain ⟨enough, henough⟩ := h
  rw [henough]
  split_ifs
  · exact Or.inl rfl
  · exact Or.inr rfl

/-- A turn in front of a computation that never ends. -/
theorem NeverEnds.succ (hzero : f 0 = .error exhausted) (hsucc : ∀ fuel, f (fuel + 1) = g fuel)
    (hg : NeverEnds exhausted g) : NeverEnds exhausted f := by
  intro fuel
  induction fuel with
  | zero => exact hzero
  | succ fuel _ => rw [hsucc, hg]

/-- A loop whose turn leads back to itself never ends. -/
theorem NeverEnds.of_loop (hzero : f 0 = .error exhausted)
    (hsucc : ∀ fuel, f (fuel + 1) = f fuel) : NeverEnds exhausted f := by
  intro fuel
  induction fuel with
  | zero => exact hzero
  | succ fuel ih => rw [hsucc, ih]

end Maock.Foundation.Fuel
