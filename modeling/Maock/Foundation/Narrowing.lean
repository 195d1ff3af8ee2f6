import Mathlib.Algebra.BigOperators.Group.List.Basic
import Mathlib.Algebra.Order.Ring.Nat
import Mathlib.Data.Int.ModEq
import Mathlib.Tactic.Common

/-!
# Sums carried in a narrower signed type

`std::accumulate` carries the running sum in the type of its initial value. With elements of a wider
unsigned type every addition is done in the wide type and its result goes back into the narrow one.
`accumulate_eq` says that the intermediate conversions do not matter: the result is the sum
converted once. `sumModulo_narrowed_iff` says what the narrow values are still good for: added up
in the wide type, they give the sum of the exact values when what they have lost is a multiple of
its range.
-/

set_option autoImplicit false
set_option relaxedAutoImplicit false

namespace Maock.Foundation.Narrowing

/-- The running sum of `std::accumulate` in a signed type with `narrow` values, over elements of an
unsigned type with `wide` values. -/
def accumulate (wide narrow : ℕ) (xs : List ℕ) : ℤ :=
  xs.foldl (fun (sum : ℤ) (x : ℕ) ↦ ((sum + x) % wide).bmod narrow) 0

/-- The conversion to an unsigned type with `wide` values. -/
def toUnsigned (wide : ℕ) (n : ℤ) : ℕ :=
  (n % wide).toNat

/-- The sum in an unsigned type. -/
def sumModulo (wide : ℕ) (xs : List ℕ) : ℕ :=
  xs.foldl (fun total x ↦ (total + x) % wide) 0

section Lemmas

variable {wide narrow : ℕ}

theorem emod_bmod_of_dvd (hdvd : narrow ∣ wide) (n : ℤ) :
    (n % wide).bmod narrow = n.bmod narrow := by
  rw [← Int.emod_bmod (n % wide), Int.emod_emod_of_dvd n (Int.natCast_dvd_natCast.mpr hdvd),
    Int.emod_bmod]

/-- The running sum is the sum, converted once. -/
theorem accumulate_eq (hdvd : narrow ∣ wide) (xs : List ℕ) :
    accumulate wide narrow xs = (xs.sum : ℤ).bmod narrow := by
  have hfold (start : ℤ) :
      xs.foldl (fun (sum : ℤ) (x : ℕ) ↦ ((sum + x) % wide).bmod narrow) (start.bmod narrow) =
        (start + xs.sum).bmod narrow := by
    induction xs generalizing start with
    | nil => rw [List.foldl_nil, List.sum_nil, Int.natCast_zero, Int.add_zero]
    | cons x xs ih =>
      rw [List.foldl_cons, emod_bmod_of_dvd hdvd, Int.bmod_add_bmod, ih, List.sum_cons,
        Int.natCast_add, Int.add_assoc]
  have hzero := hfold 0
  rw [Int.zero_bmod, Int.zero_add] at hzero
  exact hzero

theorem sumModulo_eq (xs : List ℕ) : sumModulo wide xs = xs.sum % wide := by
  have hfold (start : ℕ) : xs.foldl (fun total x ↦ (total + x) % wide) (start % wide) =
      (start + xs.sum) % wide := by
    induction xs generalizing start with
    | nil => rfl
    | cons x xs ih => rw [List.foldl_cons, Nat.mod_add_mod, ih, List.sum_cons, Nat.add_assoc]
  exact (hfold 0).trans (by rw [Nat.zero_add])

theorem toUnsigned_cast (hwide : 0 < wide) (n : ℤ) : (toUnsigned wide n : ℤ) = n % wide :=
  Int.toNat_of_nonneg (Int.emod_nonneg _ (by omega))

/-- A number that went through the narrow type, back in the wide one. -/
def narrowed (wide narrow x : ℕ) : ℕ :=
  toUnsigned wide ((x : ℤ).bmod narrow)

/-- What the narrow values of some numbers have lost, in ranges of the narrow type. -/
def lost (narrow : ℕ) (xs : List ℕ) : ℤ :=
  (xs.map fun x ↦ (x : ℤ).bdiv narrow).sum

/-- The narrow values, back in the wide type, add up to the sum up to what they have lost. -/
theorem sum_narrowed_modEq (hwide : 0 < wide) (xs : List ℕ) :
    ((xs.map (narrowed wide narrow)).sum : ℤ) ≡ xs.sum - narrow * lost narrow xs [ZMOD wide] := by
  induction xs with
  | nil => rfl
  | cons x xs ih =>
    have hvalue : (narrowed wide narrow x : ℤ) ≡ x - narrow * (x : ℤ).bdiv narrow
        [ZMOD wide] := by
      rw [narrowed, toUnsigned_cast hwide, ← Int.bmod_eq_self_sub_mul_bdiv]
      exact Int.mod_modEq _ _
    have hlost : lost narrow (x :: xs) = (x : ℤ).bdiv narrow + lost narrow xs := List.sum_cons
    have hsplit : ((x :: xs).sum : ℤ) - narrow * lost narrow (x :: xs) =
        (x - narrow * (x : ℤ).bdiv narrow) + (xs.sum - narrow * lost narrow xs) := by
      rw [hlost, List.sum_cons, Int.natCast_add, Int.mul_add]
      omega
    rw [hsplit, List.map_cons, List.sum_cons, Int.natCast_add]
    exact hvalue.add ih

/-- They give the sum in the wide type exactly when what they have lost is a multiple of its
range. -/
theorem sumModulo_narrowed_iff (hwide : 0 < wide) (xs : List ℕ) :
    sumModulo wide (xs.map (narrowed wide narrow)) = xs.sum % wide ↔
      (wide : ℤ) ∣ narrow * lost narrow xs := by
  have hsum := @sum_narrowed_modEq _ narrow hwide xs
  rw [sumModulo_eq]
  calc (xs.map (narrowed wide narrow)).sum % wide = xs.sum % wide
      ↔ ((xs.map (narrowed wide narrow)).sum : ℤ) ≡ xs.sum [ZMOD wide] :=
        Int.natCast_modEq_iff.symm
    _ ↔ xs.sum - narrow * lost narrow xs ≡ xs.sum [ZMOD wide] :=
        ⟨hsum.symm.trans, hsum.trans⟩
    _ ↔ (wide : ℤ) ∣ narrow * lost narrow xs := by
        rw [Int.modEq_iff_dvd, Int.sub_sub_self]

end Lemmas

end Maock.Foundation.Narrowing
