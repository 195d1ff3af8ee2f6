import Maock.Foundation.Bytes

/-!
# Positions in strings

`std::string` with positions of type `size_t`: `find` from a position on, which gives `npos` when
nothing is found, and `substr`, which throws behind the end and takes what there is when it is asked
for more. The difference of two positions goes around at zero.

A `StdString` carries the proof that its length is below `npos`. So a count of `npos` less any
position takes everything up to the end (`substr_to_npos`).
-/

set_option autoImplicit false
set_option relaxedAutoImplicit false

namespace Maock.Foundation.StringPositions

open Bytes

/-- `std::string::npos`, the greatest `size_t`. -/
def npos : ℕ := 2 ^ 64 - 1

/-- A string, which is shorter than `npos`. -/
structure StdString where
  bytes : Bytes
  short : bytes.length < npos

/-- `a - b` of two `size_t`. -/
def sizeSub (a b : ℕ) : ℕ :=
  (a + 2 ^ 64 - b) % 2 ^ 64

/-- `s.find(pattern, start)`. -/
def findFrom (pattern s : Bytes) (start : ℕ) : ℕ :=
  if s.length < start then npos
  else
    match find? pattern (s.drop start) with
    | none => npos
    | some position => start + position

/-- `s.substr(start, count)`, or `none` where it throws. -/
def substr (s : Bytes) (start count : ℕ) : Option Bytes :=
  if s.length < start then none else some ((s.drop start).take count)

theorem sizeSub_of_le {a b : ℕ} (hle : b ≤ a) (ha : a ≤ npos) : sizeSub a b = a - b := by
  unfold npos at ha
  unfold sizeSub
  omega

/-- What is found ends inside of the string. -/
theorem add_length_le_of_find? {pattern s : Bytes} {position : ℕ} (hne : pattern ≠ [])
    (h : find? pattern s = some position) : position + pattern.length ≤ s.length := by
  have hlength := congrArg List.length (take_append_of_find? h)
  rw [List.length_append, List.length_append, List.length_take, List.length_drop] at hlength
  have hpos := List.length_pos_iff.mpr hne
  omega

section Find

variable {pattern s : Bytes} {start : ℕ}

theorem findFrom_of_some (hstart : start ≤ s.length) {position : ℕ}
    (h : find? pattern (s.drop start) = some position) :
    findFrom pattern s start = start + position := by
  rw [findFrom, if_neg (Nat.not_lt.mpr hstart), h]

theorem findFrom_of_none (hstart : start ≤ s.length) (h : find? pattern (s.drop start) = none) :
    findFrom pattern s start = npos := by
  rw [findFrom, if_neg (Nat.not_lt.mpr hstart), h]

theorem substr_of_le (hstart : start ≤ s.length) (count : ℕ) :
    substr s start count = some ((s.drop start).take count) :=
  if_neg (Nat.not_lt.mpr hstart)

/-- A substring up to `npos` is what stands from its start on. -/
theorem substr_to_npos (hstart : start ≤ s.length) (hshort : s.length < npos) :
    substr s start (sizeSub npos start) = some (s.drop start) := by
  rw [sizeSub_of_le (Nat.le_of_lt (Nat.lt_of_le_of_lt hstart hshort)) (Nat.le_refl _),
    substr_of_le hstart, List.take_of_length_le]
  rw [List.length_drop]
  omega

end Find

/-! ### Searches for one byte -/

/-- In front of where a byte is found it does not stand. -/
theorem notMem_take_of_find? {c : UInt8} {s : Bytes} {position : ℕ}
    (h : find? [c] s = some position) : c ∉ s.take position := by
  intro hmem
  obtain ⟨n, hn, hget⟩ := List.getElem_of_mem hmem
  rw [List.length_take] at hn
  refine not_isPrefix_drop_of_find? h (show n < position by omega) ?_
  rw [List.getElem_take] at hget
  rw [List.drop_eq_getElem_cons (by omega), hget]
  exact ⟨_, rfl⟩

theorem notMem_of_find?_eq_none {c : UInt8} {s : Bytes} (h : find? [c] s = none) : c ∉ s := by
  intro hmem
  obtain ⟨n, hn, hget⟩ := List.getElem_of_mem hmem
  refine not_isPrefix_drop_of_find?_eq_none h n ?_
  rw [List.drop_eq_getElem_cons hn, hget]
  exact ⟨_, rfl⟩

/-! ### What is not contained -/

/-- A pattern that is not found is not contained. -/
theorem not_isInfix_of_find?_eq_none {pattern s : Bytes} (h : find? pattern s = none) :
    ¬ pattern <:+: s := by
  rintro ⟨before, after, rfl⟩
  refine not_isPrefix_drop_of_find?_eq_none h before.length ?_
  rw [List.append_assoc, List.drop_left]
  exact List.prefix_append _ _

/-- In front of where a pattern is found it is not contained. -/
theorem not_isInfix_take_of_find? {pattern s : Bytes} {position : ℕ} (hne : pattern ≠ [])
    (h : find? pattern s = some position) : ¬ pattern <:+: s.take position := by
  rintro ⟨before, after, htake⟩
  have hlength := congrArg List.length htake
  rw [List.length_append, List.length_append, List.length_take] at hlength
  have hpos := List.length_pos_iff.mpr hne
  refine not_isPrefix_drop_of_find? h (show before.length < position by omega) ?_
  have hdrop : (s.take position).drop before.length = pattern ++ after := by
    rw [← htake, List.append_assoc, List.drop_left]
  rw [List.drop_take] at hdrop
  exact (hdrop ▸ List.prefix_append pattern after).trans (List.take_prefix _ _)

end Maock.Foundation.StringPositions
