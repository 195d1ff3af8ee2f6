import Mathlib.Data.List.Infix
import Mathlib.Tactic.Common

/-!
# Replacing occurrences of a pattern

A text is read from left to right. Where the pattern stands, it is replaced by the next of a list of
values, and reading goes on behind it; any other element is copied (`Replaced`). The values are used
up, each once, and what they contain is not read again. `interleave` puts pieces of a text and
values together in turn, which is the same when the pieces are cut at the pattern.
-/

set_option autoImplicit false
set_option relaxedAutoImplicit false

namespace Maock.Foundation.Replacement

variable {α : Type*} {pattern : List α}

/-- A text and what it becomes when the leftmost occurrences of a pattern that do not overlap are
replaced by values, in order, each used once. -/
inductive Replaced (pattern : List α) : List (List α) → List α → List α → Prop where
  | nil : Replaced pattern [] [] []
  | copy {values : List (List α)} {c : α} {text result : List α} :
      ¬ pattern <+: c :: text → Replaced pattern values text result →
        Replaced pattern values (c :: text) (c :: result)
  | occurrence {value : List α} {values : List (List α)} {text result : List α} :
      Replaced pattern values text result →
        Replaced pattern (value :: values) (pattern ++ text) (value ++ result)

/-- Pieces with values between them; pieces beyond the values follow each other. -/
def interleave : List (List α) → List (List α) → List α
  | [], _ => []
  | piece :: pieces, [] => piece ++ interleave pieces []
  | piece :: pieces, value :: values => piece ++ value ++ interleave pieces values

/-- What stands in front of every occurrence is copied. -/
theorem Replaced.copy_append {front text result : List α} {values : List (List α)}
    (hfree : ∀ position < front.length, ¬ pattern <+: (front ++ text).drop position)
    (h : Replaced pattern values text result) :
    Replaced pattern values (front ++ text) (front ++ result) := by
  induction front with
  | nil => exact h
  | cons c front ih =>
    refine Replaced.copy (hfree 0 (Nat.succ_pos _)) (ih fun position hposition ↦ ?_)
    exact hfree (position + 1) (Nat.succ_lt_succ hposition)

/-- What stands in front of every occurrence is found in front of the result. -/
theorem Replaced.exists_of_append {front text out : List α} {values : List (List α)}
    (hfree : ∀ position < front.length, ¬ pattern <+: (front ++ text).drop position)
    (h : Replaced pattern values (front ++ text) out) :
    ∃ result, out = front ++ result ∧ Replaced pattern values text result := by
  induction front generalizing out with
  | nil => exact ⟨out, rfl, h⟩
  | cons c front ih =>
    have hhead := hfree 0 (Nat.succ_pos _)
    rw [List.drop_zero, List.cons_append] at hhead
    generalize hwhole : c :: front ++ text = whole at h
    rw [List.cons_append] at hwhole
    cases h with
    | nil => exact absurd hwhole (List.cons_ne_nil _ _)
    | copy hcopy hrest =>
      obtain ⟨rfl, rfl⟩ := List.cons.inj hwhole
      obtain ⟨result, rfl, hresult⟩ := ih (fun position hposition ↦
        hfree (position + 1) (Nat.succ_lt_succ hposition)) hrest
      exact ⟨result, rfl, hresult⟩
    | occurrence hrest => exact absurd (hwhole ▸ List.prefix_append pattern _) hhead

/-- A text in which the pattern does not occur stays as it is. -/
theorem Replaced.refl_of_forall {text : List α}
    (hfree : ∀ position < text.length, ¬ pattern <+: text.drop position) :
    Replaced pattern [] text text := by
  have hcopy := @Replaced.copy_append α pattern text [] [] [] (by simpa using hfree) Replaced.nil
  rwa [List.append_nil] at hcopy

/-- A part of a text begins with the pattern only where the text does. -/
theorem not_infix_take {text : List α} {count : ℕ} (hpattern : pattern ≠ [])
    (hfree : ∀ position < count, ¬ pattern <+: text.drop position) :
    ¬ pattern <:+: text.take count := by
  rintro ⟨before, after, hsplit⟩
  have hlength := congrArg List.length hsplit
  have hpos := List.length_pos_iff.mpr hpattern
  simp only [List.length_append, List.length_take] at hlength
  refine hfree before.length (by omega) ⟨after ++ text.drop count, ?_⟩
  calc pattern ++ (after ++ text.drop count)
      = (before ++ (pattern ++ (after ++ text.drop count))).drop before.length :=
        List.drop_left.symm
    _ = (text.take count ++ text.drop count).drop before.length := by
        rw [← hsplit]
        simp only [List.append_assoc]
    _ = text.drop before.length := by rw [List.take_append_drop]

end Maock.Foundation.Replacement
