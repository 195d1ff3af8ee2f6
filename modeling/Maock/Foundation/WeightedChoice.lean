import Mathlib.Algebra.Order.Ring.Nat
import Mathlib.Data.Nat.Count
import Mathlib.Tactic.Common

/-!
# Choices by weight

Weights laid out one behind the other cut the numbers below their sum into intervals, and a number
chooses the weight into whose interval it falls (`choose`). `count_choose` says that each weight is
chosen by as many numbers as it is large. `upperEnds` lists the ends of the intervals that are not
empty, and `find?_upperEnds` finds the choice by the first end above the number.
-/

set_option autoImplicit false
set_option relaxedAutoImplicit false

namespace Maock.Foundation.WeightedChoice

/-- The position of the weight into whose interval a number falls. -/
def choose : List ℕ → ℕ → Option ℕ
  | [], _ => none
  | weight :: rest, n => if n < weight then some 0 else (choose rest (n - weight)).map (· + 1)

/-- The ends of the intervals that are not empty with the positions of their weights, counted from
a start and a first position on. -/
def upperEnds (start first : ℕ) : List ℕ → List (ℕ × ℕ)
  | [] => []
  | weight :: rest =>
    if weight = 0 then upperEnds start (first + 1) rest
    else (start + weight, first) :: upperEnds (start + weight) (first + 1) rest

/-! ### Choices -/

/-- A number below the sum chooses a positive weight. -/
theorem exists_choose_eq_some {weights : List ℕ} {n : ℕ} (hn : n < weights.sum) :
    ∃ position weight, choose weights n = some position ∧ weights[position]? = some weight ∧
      0 < weight := by
  induction weights generalizing n with
  | nil => exact absurd hn (Nat.not_lt_zero n)
  | cons weight rest ih =>
    rw [List.sum_cons] at hn
    by_cases hfirst : n < weight
    · exact ⟨0, weight, if_pos hfirst, rfl, by omega⟩
    · obtain ⟨position, chosen, hchoose, hchosen, hpos⟩ := @ih (n - weight) (by omega)
      refine ⟨position + 1, chosen, ?_, hchosen, hpos⟩
      rw [choose, if_neg hfirst, hchoose]
      rfl

/-- **Each weight is chosen by as many numbers as it is large.** -/
theorem count_choose (weights : List ℕ) (position : ℕ) :
    Nat.count (fun n ↦ choose weights n = some position) weights.sum =
      weights.getD position 0 := by
  induction weights generalizing position with
  | nil => rfl
  | cons weight rest ih =>
    rw [List.sum_cons, Nat.count_add]
    have hbehind : ∀ n, choose (weight :: rest) (weight + n) = (choose rest n).map (· + 1) := by
      intro n
      rw [choose, if_neg (by omega), Nat.add_sub_cancel_left]
    simp only [hbehind]
    cases position with
    | zero =>
      have hall : Nat.count (fun n ↦ choose (weight :: rest) n = some 0) weight = weight :=
        Nat.count_iff_forall.mpr fun n hn ↦ if_pos hn
      have hnone : Nat.count (fun n ↦ (choose rest n).map (· + 1) = some 0) rest.sum = 0 :=
        Nat.count_iff_forall_not.mpr fun n _ ↦ by simp
      rw [hall, hnone]
      rfl
    | succ position =>
      have hnone : Nat.count (fun n ↦ choose (weight :: rest) n = some (position + 1)) weight = 0 :=
        Nat.count_iff_forall_not.mpr fun n hn ↦ by simp [choose, hn]
      have hshift : ∀ n, (choose rest n).map (· + 1) = some (position + 1) ↔
          choose rest n = some position := fun n ↦ by simp
      simp only [hshift]
      rw [hnone, Nat.zero_add, ih]
      rfl

/-! ### Ends of intervals -/

/-- There are as many ends as positive weights. -/
theorem length_upperEnds (start first : ℕ) (weights : List ℕ) :
    (upperEnds start first weights).length = weights.countP (0 < ·) := by
  induction weights generalizing start first with
  | nil => rfl
  | cons weight rest ih =>
    by_cases hzero : weight = 0
    · simp [upperEnds, hzero, ih]
    · rw [upperEnds, if_neg hzero, List.length_cons, ih, List.countP_cons_of_pos]
      simpa using Nat.pos_of_ne_zero hzero

/-- The ends lie behind the start and not behind the sum. -/
theorem mem_upperEnds_bounds {start first : ℕ} {weights : List ℕ} {entry : ℕ × ℕ}
    (hentry : entry ∈ upperEnds start first weights) :
    start < entry.1 ∧ entry.1 ≤ start + weights.sum := by
  induction weights generalizing start first with
  | nil => exact absurd hentry List.not_mem_nil
  | cons weight rest ih =>
    rw [upperEnds] at hentry
    rw [List.sum_cons]
    split_ifs at hentry with hzero
    · have hrest := ih hentry
      omega
    · rcases List.mem_cons.mp hentry with rfl | hmem
      · dsimp only
        omega
      · have hrest := ih hmem
        omega

/-- Every end belongs to a positive weight. -/
theorem exists_weight_of_mem_upperEnds {start first : ℕ} {weights : List ℕ} {entry : ℕ × ℕ}
    (hentry : entry ∈ upperEnds start first weights) :
    ∃ position weight, entry.2 = first + position ∧ weights[position]? = some weight ∧
      0 < weight := by
  induction weights generalizing start first with
  | nil => exact absurd hentry List.not_mem_nil
  | cons weight rest ih =>
    rw [upperEnds] at hentry
    split_ifs at hentry with hzero
    · obtain ⟨position, chosen, heq, hchosen, hpos⟩ := ih hentry
      exact ⟨position + 1, chosen, by omega, hchosen, hpos⟩
    · rcases List.mem_cons.mp hentry with rfl | hmem
      · exact ⟨0, weight, rfl, rfl, Nat.pos_of_ne_zero hzero⟩
      · obtain ⟨position, chosen, heq, hchosen, hpos⟩ := ih hmem
        exact ⟨position + 1, chosen, by omega, hchosen, hpos⟩

/-- The first end above a number belongs to the weight that the number chooses. -/
theorem find?_upperEnds (start first n : ℕ) (weights : List ℕ) :
    ((upperEnds start first weights).find? fun entry ↦ decide (start + n < entry.1)).map Prod.snd =
      (choose weights n).map (first + ·) := by
  induction weights generalizing start first n with
  | nil => rfl
  | cons weight rest ih =>
    by_cases hfirst : n < weight
    · rw [upperEnds, if_neg (by omega), List.find?_cons_of_pos (by simpa using hfirst), choose,
        if_pos hfirst]
      rfl
    · have hrest := ih (start + weight) (first + 1) (n - weight)
      rw [show start + weight + (n - weight) = start + n by omega] at hrest
      have hshift : (choose rest (n - weight)).map (first + 1 + ·) =
          ((choose rest (n - weight)).map (· + 1)).map (first + ·) := by
        rw [Option.map_map]
        congr 1
        funext position
        show first + 1 + position = first + (position + 1)
        omega
      rw [choose, if_neg hfirst, ← hshift, ← hrest, upperEnds]
      split_ifs with hzero
      · rw [hzero]
        rfl
      · rw [List.find?_cons_of_neg (by simpa using hfirst)]

/-- The last end is that of all weights together. -/
theorem getLast?_upperEnds {start first : ℕ} {weights : List ℕ} (hpos : 0 < weights.sum) :
    ((upperEnds start first weights).getLast?).map Prod.fst = some (start + weights.sum) := by
  induction weights generalizing start first with
  | nil => exact absurd hpos (Nat.lt_irrefl 0)
  | cons weight rest ih =>
    rw [List.sum_cons] at hpos ⊢
    rw [upperEnds]
    split_ifs with hzero
    · rw [ih (by omega), hzero, Nat.zero_add]
    · rw [List.getLast?_cons]
      by_cases hrest : 0 < rest.sum
      · have hlast := @ih (start + weight) (first + 1) hrest
        obtain ⟨entry, hentry, hend⟩ := Option.map_eq_some_iff.mp hlast
        rw [hentry, Option.map_some, Option.getD_some, hend, Nat.add_assoc]
      · have hempty : upperEnds (start + weight) (first + 1) rest = [] := by
          rw [List.eq_nil_iff_forall_not_mem]
          intro entry hentry
          have hbounds := mem_upperEnds_bounds hentry
          omega
        rw [hempty, show rest.sum = 0 by omega]
        rfl

end Maock.Foundation.WeightedChoice
