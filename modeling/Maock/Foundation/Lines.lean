import Maock.Foundation.Bytes

/-!
# Lines

The lines of a text whose line break is CR LF (`linesOf`). A line break between two texts separates
their lines whatever they are (`linesOf_append_break`), so a text of parts with a line break behind
each has one line for each part exactly when no part contains a line break
(`length_linesOf_joined_iff`).
-/

set_option autoImplicit false
set_option relaxedAutoImplicit false

namespace Maock.Foundation.Lines

/-- CR LF. -/
def lineBreak : Bytes := [13, 10]

/-- A byte in front of the first line. -/
def consFirst (c : UInt8) : List Bytes → List Bytes
  | [] => [[c]]
  | line :: lines => (c :: line) :: lines

/-- The lines of a text, with what stands behind the last line break. -/
def linesOf : Bytes → List Bytes
  | [] => [[]]
  | 13 :: 10 :: rest => [] :: linesOf rest
  | c :: rest => consFirst c (linesOf rest)

theorem linesOf_cons {c : UInt8} {rest : Bytes} (h : ¬ (c = 13 ∧ ∃ tail, rest = 10 :: tail)) :
    linesOf (c :: rest) = consFirst c (linesOf rest) := by
  rw [linesOf]
  intro tail hc hrest
  exact h ⟨hc, tail, hrest⟩

theorem length_linesOf_pos (s : Bytes) : 0 < (linesOf s).length := by
  induction s using linesOf.induct with
  | case1 => exact Nat.one_pos
  | case2 rest ih =>
    rw [linesOf, List.length_cons]
    exact Nat.succ_pos _
  | case3 c rest hbreak ih =>
    rw [linesOf_cons fun ⟨hc, tail, hrest⟩ ↦ hbreak tail hc hrest]
    cases linesOf rest with
    | nil => exact Nat.one_pos
    | cons line lines => exact Nat.succ_pos _

/-- A line break separates the lines of two texts. -/
theorem linesOf_append_break (s rest : Bytes) :
    linesOf (s ++ lineBreak ++ rest) = linesOf s ++ linesOf rest := by
  induction s using linesOf.induct with
  | case1 => rfl
  | case2 tail ih =>
    show linesOf (13 :: 10 :: (tail ++ lineBreak ++ rest)) = _
    rw [linesOf, ih]
    rfl
  | case3 c tail hbreak ih =>
    have hjoined : ¬ (c = 13 ∧ ∃ others, tail ++ lineBreak ++ rest = 10 :: others) := by
      rintro ⟨hc, others, hothers⟩
      cases tail with
      | nil => exact absurd (List.cons.inj hothers).1 (by decide)
      | cons d tail => exact hbreak tail hc (by rw [(List.cons.inj hothers).1])
    show linesOf (c :: (tail ++ lineBreak ++ rest)) = _
    rw [linesOf_cons hjoined, ih, linesOf_cons fun ⟨hc, others, hothers⟩ ↦ hbreak others hc hothers]
    cases hlines : linesOf tail with
    | nil =>
      have hpos := length_linesOf_pos tail
      rw [hlines] at hpos
      exact absurd hpos (Nat.lt_irrefl 0)
    | cons line lines => rfl

/-- A text without line breaks is one line. -/
theorem linesOf_eq_self {s : Bytes} (h : ¬ lineBreak <:+: s) : linesOf s = [s] := by
  induction s using linesOf.induct with
  | case1 => rfl
  | case2 rest ih => exact absurd ⟨[], rest, rfl⟩ h
  | case3 c rest hbreak ih =>
    rw [linesOf_cons fun ⟨hc, tail, hrest⟩ ↦ hbreak tail hc hrest,
      ih fun hrest ↦ h (hrest.trans (List.suffix_cons c rest).isInfix)]
    rfl

/-- A text has one line exactly when it contains no line break. -/
theorem length_linesOf_eq_one_iff (s : Bytes) :
    (linesOf s).length = 1 ↔ ¬ lineBreak <:+: s := by
  refine ⟨?_, fun h ↦ by rw [linesOf_eq_self h]; rfl⟩
  rintro hone ⟨before, after, rfl⟩
  rw [linesOf_append_break, List.length_append] at hone
  have hbefore := length_linesOf_pos before
  have hafter := length_linesOf_pos after
  omega

/-- Parts, each with a line break behind it. -/
def joined (parts : List Bytes) : Bytes :=
  (parts.map fun part ↦ part ++ lineBreak).flatten

theorem linesOf_joined (parts : List Bytes) :
    linesOf (joined parts) = parts.flatMap linesOf ++ [[]] := by
  induction parts with
  | nil => rfl
  | cons part rest ih =>
    show linesOf (part ++ lineBreak ++ joined rest) = _
    rw [linesOf_append_break, ih, List.flatMap_cons, List.append_assoc]

/-- Parts have no fewer lines than there are parts. -/
theorem length_le_flatMap_linesOf (parts : List Bytes) :
    parts.length ≤ (parts.flatMap linesOf).length := by
  induction parts with
  | nil => exact Nat.le_refl 0
  | cons part rest ih =>
    rw [List.flatMap_cons, List.length_append, List.length_cons]
    have hpos := length_linesOf_pos part
    omega

/-- There are no more lines than parts exactly when no part contains a line break. -/
theorem length_linesOf_joined_iff (parts : List Bytes) :
    (linesOf (joined parts)).length = parts.length + 1 ↔ ∀ part ∈ parts, ¬ lineBreak <:+: part := by
  rw [linesOf_joined, List.length_append, List.length_singleton, Nat.add_right_cancel_iff]
  induction parts with
  | nil => simp
  | cons part rest ih =>
    have hpos := length_linesOf_pos part
    have hrest := length_le_flatMap_linesOf rest
    rw [List.forall_mem_cons, ← ih, ← length_linesOf_eq_one_iff, List.flatMap_cons,
      List.length_append, List.length_cons]
    omega

/-- Then the lines are the parts. -/
theorem linesOf_joined_eq {parts : List Bytes} (h : ∀ part ∈ parts, ¬ lineBreak <:+: part) :
    linesOf (joined parts) = parts ++ [[]] := by
  rw [linesOf_joined, List.append_cancel_right_eq]
  induction parts with
  | nil => rfl
  | cons part rest ih =>
    obtain ⟨hpart, hrest⟩ := List.forall_mem_cons.mp h
    rw [List.flatMap_cons, linesOf_eq_self hpart, ih hrest]
    rfl

/-- A text without CR contains no line break. -/
theorem not_lineBreak_of_notMem {s : Bytes} (h : (13 : UInt8) ∉ s) : ¬ lineBreak <:+: s :=
  fun hbreak ↦ h (hbreak.subset List.mem_cons_self)

/-- Behind another byte, a line break begins with neither what is in front of it nor it. -/
theorem lineBreak_append_cons {c : UInt8} (hcr : c ≠ 13) (hlf : c ≠ 10) {before after : Bytes}
    (h : lineBreak <:+: before ++ c :: after) : lineBreak <:+: before ∨ lineBreak <:+: after := by
  induction before with
  | nil =>
    rcases List.infix_cons_iff.mp h with hbegins | hafter
    · obtain ⟨rest, hrest⟩ := hbegins
      exact absurd (List.cons.inj hrest).1.symm hcr
    · exact Or.inr hafter
  | cons d before ih =>
    rcases List.infix_cons_iff.mp h with hbegins | hlater
    · obtain ⟨rest, hrest⟩ := hbegins
      obtain ⟨hd, htail⟩ := List.cons.inj hrest
      cases before with
      | nil => exact absurd (List.cons.inj htail).1.symm hlf
      | cons e before =>
        have he : 10 = e := (List.cons.inj htail).1
        exact Or.inl ⟨[], before, by rw [← hd, ← he]; rfl⟩
    · rcases ih hlater with hbefore | hafter
      · exact Or.inl (hbefore.trans (List.suffix_cons d before).isInfix)
      · exact Or.inr hafter

end Maock.Foundation.Lines
