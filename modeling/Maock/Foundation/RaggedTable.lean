import Mathlib.Algebra.BigOperators.Group.List.Basic
import Mathlib.Algebra.Order.Ring.Nat
import Mathlib.Tactic.Common

/-!
# Tables with rows of different lengths

A table is a list of rows, read and changed at a row number and a column number. `cell?_modifyCell`
says what a change leaves at every place, and `total_modifyCell` how it changes the sum over all
cells.
-/

set_option autoImplicit false
set_option relaxedAutoImplicit false

namespace Maock.Foundation.RaggedTable

variable {α : Type*}

/-- The cell at a row and a column, if there is one. -/
def cell? (table : List (List α)) (row column : ℕ) : Option α :=
  table[row]?.bind fun cells ↦ cells[column]?

/-- The cell at a row and a column changed in place. -/
def modifyCell (row column : ℕ) (f : α → α) (table : List (List α)) : List (List α) :=
  table.modify row fun cells ↦ cells.modify column f

/-- A table with given row lengths that has the same value everywhere. -/
def constant (a : α) (lengths : List ℕ) : List (List α) :=
  lengths.map fun length ↦ List.replicate length a

/-- The sum of what a function makes of the cells. -/
def total (g : α → ℕ) (table : List (List α)) : ℕ :=
  (table.map fun cells ↦ (cells.map g).sum).sum

/-! ### Reading -/

theorem cell?_modifyCell_self (row column : ℕ) (f : α → α) (table : List (List α)) :
    cell? (modifyCell row column f table) row column = (cell? table row column).map f := by
  rw [cell?, modifyCell, List.getElem?_modify_eq, cell?]
  cases table[row]? with
  | none => rfl
  | some cells => exact List.getElem?_modify_eq f column cells

theorem cell?_modifyCell_of_ne {row column row' column' : ℕ}
    (hne : (row, column) ≠ (row', column')) (f : α → α) (table : List (List α)) :
    cell? (modifyCell row column f table) row' column' = cell? table row' column' := by
  rw [cell?, modifyCell, cell?]
  by_cases hrow : row = row'
  · subst hrow
    have hcolumn : column ≠ column' := fun heq ↦ hne (by rw [heq])
    rw [List.getElem?_modify_eq]
    cases table[row]? with
    | none => rfl
    | some cells => exact List.getElem?_modify_ne f cells hcolumn
  · rw [List.getElem?_modify_ne _ _ hrow]

/-- A change leaves the lengths of the rows as they are. -/
theorem lengths_modifyCell (row column : ℕ) (f : α → α) (table : List (List α)) :
    (modifyCell row column f table).map List.length = table.map List.length := by
  refine List.ext_getElem? fun n ↦ ?_
  rw [List.getElem?_map, List.getElem?_map, modifyCell, List.getElem?_modify]
  cases table[n]? with
  | none => rfl
  | some cells =>
    by_cases hrow : row = n
    · simp [hrow]
    · simp [hrow]

theorem lengths_constant (a : α) (lengths : List ℕ) :
    (constant a lengths).map List.length = lengths := by
  simp [constant, Function.comp_def]

/-- There is a cell exactly at the places within the rows. -/
theorem isSome_cell?_iff {table : List (List α)} {row column : ℕ} :
    (cell? table row column).isSome ↔
      ∃ length, (table.map List.length)[row]? = some length ∧ column < length := by
  rw [cell?, List.getElem?_map]
  cases table[row]? with
  | none => simp
  | some cells => simp

theorem cell?_constant {a b : α} {lengths : List ℕ} {row column : ℕ}
    (hcell : cell? (constant a lengths) row column = some b) : b = a := by
  obtain ⟨cells, hcells, hcolumn⟩ := Option.bind_eq_some_iff.mp hcell
  obtain ⟨length, -, rfl⟩ := List.mem_map.mp (List.mem_of_getElem? hcells)
  exact List.eq_of_mem_replicate (List.mem_of_getElem? hcolumn)

/-! ### Sums -/

/-- A change of one element changes the sum by the difference of the two values. -/
theorem sum_map_modify {g : α → ℕ} {f : α → α} {l : List α} {n : ℕ} {a : α}
    (hget : l[n]? = some a) :
    ((l.modify n f).map g).sum + g a = (l.map g).sum + g (f a) := by
  induction l generalizing n with
  | nil => exact absurd hget (by simp)
  | cons b rest ih =>
    cases n with
    | zero =>
      obtain rfl : b = a := by simpa using hget
      rw [List.modify_zero_cons, List.map_cons, List.sum_cons, List.map_cons, List.sum_cons]
      omega
    | succ n =>
      have hrest := ih (n := n) (by simpa using hget)
      rw [List.modify_succ_cons, List.map_cons, List.sum_cons, List.map_cons, List.sum_cons]
      omega

/-- A change of one cell changes the sum by the difference of the two values. -/
theorem total_modifyCell {g : α → ℕ} {f : α → α} {table : List (List α)} {row column : ℕ} {a : α}
    (hcell : cell? table row column = some a) :
    total g (modifyCell row column f table) + g a = total g table + g (f a) := by
  obtain ⟨cells, hcells, hcolumn⟩ := Option.bind_eq_some_iff.mp hcell
  have hcells' := @sum_map_modify _ (fun cells : List α ↦ (cells.map g).sum)
    (fun cells ↦ cells.modify column f) _ _ _ hcells
  have hcolumn' := @sum_map_modify _ g f _ _ _ hcolumn
  unfold total modifyCell
  omega

/-- A table of one value, which a function takes to 0, has the sum 0. -/
theorem total_constant {g : α → ℕ} {a : α} (ha : g a = 0) (lengths : List ℕ) :
    total g (constant a lengths) = 0 := by
  simp [total, constant, ha, Function.comp_def]

end Maock.Foundation.RaggedTable
