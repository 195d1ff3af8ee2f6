import Mathlib.Algebra.Order.Ring.Nat
import Mathlib.Order.Defs.Unbundled
import Mathlib.Data.List.Basic
import Mathlib.Data.List.Forall2
import Mathlib.Data.List.Pairwise
import Mathlib.Data.List.Perm.Basic
import Mathlib.Tactic.Common

/-!
# Ordered associative containers under a comparator

Sets, maps and multimaps kept in the order of a Boolean comparator, with the documented behaviour
of the standard library's ordered containers. Two elements are the same element of a set when
neither is less than the other (`Equivalent`). An insertion walks to the place of the new element
and keeps an equivalent element that it meets there (`insertUnique`); lookups and erasures go to
the equivalent element. An `OrderedSet` carries the proof that its elements strictly increase, an
`OrderedMultimap` that its keys never decrease. `lockstepLess` compares two sequences element by
element.

The lemmas assume that the comparator is a strict weak order, stated with Mathlib's
`IsStrictWeakOrder`. `OrderedSet.mem_insert`, `OrderedSet.mem_insertAll_of_unique` and
`OrderedSet.exists_equivalent_insertAll` say what insertions keep, and `OrderedSet.index_eq_iff`
that positions in a set number the classes of equivalent elements.
-/

set_option autoImplicit false
set_option relaxedAutoImplicit false

namespace Maock.Foundation.OrderedContainer

variable {α κ υ : Type*}

/-! ### Comparators -/

/-- Two elements are equivalent under a comparator when neither is less than the other. -/
def Equivalent (lt : α → α → Bool) (a b : α) : Prop :=
  lt a b = false ∧ lt b a = false

instance decidableEquivalent (lt : α → α → Bool) (a b : α) : Decidable (Equivalent lt a b) :=
  inferInstanceAs (Decidable (_ ∧ _))

theorem Equivalent.symm {lt : α → α → Bool} {a b : α} (h : Equivalent lt a b) :
    Equivalent lt b a :=
  ⟨h.2, h.1⟩

/-- The comparator that a map uses on its entries: the keys decide. -/
def keyLess (lt : κ → κ → Bool) (p q : κ × υ) : Bool :=
  lt p.1 q.1

/-- The comparator of the standard library's default order on natural numbers. -/
def natLess (m n : ℕ) : Bool :=
  decide (m < n)

@[simp] theorem natLess_eq_true (m n : ℕ) : natLess m n = true ↔ m < n := by
  simp [natLess]

@[simp] theorem natLess_eq_false (m n : ℕ) : natLess m n = false ↔ n ≤ m := by
  simp [natLess]

@[simp] theorem equivalent_natLess (m n : ℕ) : Equivalent natLess m n ↔ m = n := by
  simp only [Equivalent, natLess_eq_false]
  omega

instance isStrictWeakOrder_natLess :
    IsStrictWeakOrder ℕ (fun m n ↦ natLess m n = true) where
  irrefl m := by simp
  trans a b c := by simp only [natLess_eq_true]; omega
  incomp_trans a b c := by simp only [natLess_eq_true]; omega

section Order

variable (lt : α → α → Bool) [IsStrictWeakOrder α (fun a b ↦ lt a b = true)]

theorem less_irrefl (a : α) : lt a a = false := by
  have h := irrefl_of (fun a b ↦ lt a b = true) a
  simpa using h

theorem less_trans {a b c : α} (hab : lt a b = true) (hbc : lt b c = true) : lt a c = true :=
  trans_of (fun a b ↦ lt a b = true) hab hbc

theorem less_asymm {a b : α} (hab : lt a b = true) : lt b a = false := by
  by_contra hba
  have hself := less_trans lt hab (by simpa using hba)
  rw [less_irrefl lt a] at hself
  exact Bool.noConfusion hself

theorem Equivalent.refl (a : α) : Equivalent lt a a :=
  ⟨less_irrefl lt a, less_irrefl lt a⟩

variable {lt}

theorem Equivalent.trans {a b c : α} (hab : Equivalent lt a b) (hbc : Equivalent lt b c) :
    Equivalent lt a c := by
  have h := @IsStrictWeakOrder.incomp_trans α (fun a b ↦ lt a b = true) _ a b c
  simp only [Bool.not_eq_true] at h
  exact h hab hbc

/-- An element below one of two equivalent elements is below the other. -/
theorem less_of_less_of_equivalent {a b c : α} (hab : lt a b = true) (hbc : Equivalent lt b c) :
    lt a c = true := by
  by_contra hac
  rw [Bool.not_eq_true] at hac
  by_cases hca : lt c a = true
  · have hcb := less_trans lt hca hab
    rw [hbc.2] at hcb
    exact Bool.noConfusion hcb
  · rw [Bool.not_eq_true] at hca
    have hequiv : Equivalent lt a b := Equivalent.trans ⟨hac, hca⟩ hbc.symm
    rw [hequiv.1] at hab
    exact Bool.noConfusion hab

/-- An element above one of two equivalent elements is above the other. -/
theorem less_of_equivalent_of_less {a b c : α} (hab : Equivalent lt a b) (hbc : lt b c = true) :
    lt a c = true := by
  by_contra hac
  rw [Bool.not_eq_true] at hac
  by_cases hca : lt c a = true
  · have hba := less_trans lt hbc hca
    rw [hab.2] at hba
    exact Bool.noConfusion hba
  · rw [Bool.not_eq_true] at hca
    have hequiv : Equivalent lt b c := Equivalent.trans hab.symm ⟨hac, hca⟩
    rw [hequiv.1] at hbc
    exact Bool.noConfusion hbc

end Order

/-- Entries are ordered by their keys, so the entry comparator is a strict weak order when the key
comparator is one. -/
instance isStrictWeakOrder_keyLess (lt : κ → κ → Bool)
    [IsStrictWeakOrder κ (fun a b ↦ lt a b = true)] :
    IsStrictWeakOrder (κ × υ) (fun p q ↦ keyLess lt p q = true) where
  irrefl p := by simp [keyLess, less_irrefl lt p.1]
  trans _ _ _ hpq hqr := less_trans lt hpq hqr
  incomp_trans p q r hpq hqr := by
    simp only [keyLess, Bool.not_eq_true] at hpq hqr ⊢
    exact Equivalent.trans hpq hqr

/-! ### Comparison in lockstep -/

/-- Two sequences compared in lockstep: the first pair that is not equivalent decides. -/
def lockstepLess (lt : α → α → Bool) : List α → List α → Bool
  | x :: l, y :: m =>
    if lt x y then true
    else if lt y x then false
    else lockstepLess lt l m
  | _, _ => false

theorem lockstepLess_cons_eq_true {lt : α → α → Bool} {x y : α} {l m : List α} :
    lockstepLess lt (x :: l) (y :: m) = true ↔
      lt x y = true ∨ Equivalent lt x y ∧ lockstepLess lt l m = true := by
  simp only [lockstepLess, Equivalent]
  cases hxy : lt x y <;> cases hyx : lt y x <;> simp

/-- Sequences of one length are equivalent when their elements are, one by one. -/
theorem equivalent_lockstepLess_iff {lt : α → α → Bool} {l m : List α}
    (hlength : l.length = m.length) :
    Equivalent (lockstepLess lt) l m ↔ List.Forall₂ (Equivalent lt) l m := by
  induction l generalizing m with
  | nil =>
    obtain rfl := List.length_eq_zero_iff.mp hlength.symm
    simp [Equivalent, lockstepLess]
  | cons x l ih =>
    cases m with
    | nil => exact absurd hlength (by simp)
    | cons y m =>
      rw [List.forall₂_cons, ← ih (by simpa using hlength)]
      simp only [Equivalent, lockstepLess]
      cases hxy : lt x y <;> cases hyx : lt y x <;> simp

/-- A change of the elements that the comparator does not see is not seen in lockstep either. -/
theorem lockstepLess_map {lt : α → α → Bool} {f : α → α} (hf : ∀ a b, lt (f a) (f b) = lt a b)
    (l m : List α) : lockstepLess lt (l.map f) (m.map f) = lockstepLess lt l m := by
  induction l generalizing m with
  | nil => rfl
  | cons x l ih =>
    cases m with
    | nil => rfl
    | cons y m => simp only [List.map_cons, lockstepLess, hf, ih]

section Lockstep

variable {lt : α → α → Bool} [IsStrictWeakOrder α (fun a b ↦ lt a b = true)]

theorem lockstepLess_irrefl (l : List α) : lockstepLess lt l l = false := by
  induction l with
  | nil => rfl
  | cons x l ih => simp [lockstepLess, less_irrefl lt x, ih]

theorem lockstepLess_trans {l m n : List α} (hlm : lockstepLess lt l m = true)
    (hmn : lockstepLess lt m n = true) : lockstepLess lt l n = true := by
  induction l generalizing m n with
  | nil => exact absurd hlm (by simp [lockstepLess])
  | cons x l ih =>
    cases m with
    | nil => exact absurd hlm (by simp [lockstepLess])
    | cons y m =>
      cases n with
      | nil => exact absurd hmn (by simp [lockstepLess])
      | cons z n =>
        rw [lockstepLess_cons_eq_true] at hlm hmn ⊢
        rcases hlm with hxy | ⟨hxy, hlm⟩ <;> rcases hmn with hyz | ⟨hyz, hmn⟩
        · exact Or.inl (less_trans lt hxy hyz)
        · exact Or.inl (less_of_less_of_equivalent hxy hyz)
        · exact Or.inl (less_of_equivalent_of_less hxy hyz)
        · exact Or.inr ⟨hxy.trans hyz, ih hlm hmn⟩

end Lockstep

/-! ### Insertion into a sorted list -/

/-- `insert` of a container with unique keys: walk to the first element that is not less than the
new one, and keep that element when it is equivalent to the new one. -/
def insertUnique (lt : α → α → Bool) (x : α) : List α → List α
  | [] => [x]
  | y :: rest =>
    if lt y x then y :: insertUnique lt x rest
    else if lt x y then x :: y :: rest
    else y :: rest

/-- `insert` of a container with repeated keys: the new element goes behind every element that is
not greater. -/
def insertLast (lt : α → α → Bool) (x : α) : List α → List α
  | [] => [x]
  | y :: rest => if lt x y then x :: y :: rest else y :: insertLast lt x rest

/-- A new element that is greater than all goes to the end. -/
theorem insertUnique_eq_append {lt : α → α → Bool} {x : α} {l : List α}
    (hgreatest : ∀ y ∈ l, lt y x = true) : insertUnique lt x l = l ++ [x] := by
  induction l with
  | nil => rfl
  | cons y rest ih =>
    obtain ⟨hy, hrest⟩ := List.forall_mem_cons.mp hgreatest
    rw [insertUnique, if_pos hy, ih hrest, List.cons_append]

/-- An element that nothing is greater than goes to the end. -/
theorem insertLast_eq_append {lt : α → α → Bool} {x : α} {l : List α}
    (hgreatest : ∀ y ∈ l, lt x y = false) : insertLast lt x l = l ++ [x] := by
  induction l with
  | nil => rfl
  | cons y rest ih =>
    obtain ⟨hy, hrest⟩ := List.forall_mem_cons.mp hgreatest
    rw [insertLast, hy, if_neg Bool.false_ne_true, ih hrest, List.cons_append]

theorem insertLast_perm (lt : α → α → Bool) (x : α) (l : List α) :
    (insertLast lt x l).Perm (x :: l) := by
  induction l with
  | nil => exact List.Perm.refl _
  | cons y rest ih =>
    simp only [insertLast]
    split_ifs
    · exact List.Perm.refl _
    · exact (ih.cons y).trans (List.Perm.swap x y rest)

section Insertion

variable {lt : α → α → Bool} [IsStrictWeakOrder α (fun a b ↦ lt a b = true)]

/-- What an insertion leaves in the container: the old elements, and the new one when no old one is
equivalent to it. -/
theorem mem_insertUnique {x z : α} {l : List α} (hl : l.Pairwise (fun a b ↦ lt a b = true)) :
    z ∈ insertUnique lt x l ↔ z ∈ l ∨ z = x ∧ ∀ y ∈ l, ¬ Equivalent lt x y := by
  induction l with
  | nil => simp [insertUnique]
  | cons y rest ih =>
    rw [List.pairwise_cons] at hl
    simp only [insertUnique]
    split_ifs with hyx hxy
    · have hne : ¬ Equivalent lt x y := fun h ↦ by rw [h.2] at hyx; exact Bool.noConfusion hyx
      rw [List.mem_cons, ih hl.2, List.mem_cons, List.forall_mem_cons, or_assoc]
      exact or_congr Iff.rfl (or_congr Iff.rfl
        ⟨fun h ↦ ⟨h.1, hne, h.2⟩, fun h ↦ ⟨h.1, h.2.2⟩⟩)
    · have hall : ∀ w ∈ y :: rest, ¬ Equivalent lt x w := by
        intro w hw hequiv
        have hxw : lt x w = true := by
          rcases List.mem_cons.mp hw with rfl | hw
          · exact hxy
          · exact less_trans lt hxy (hl.1 w hw)
        rw [hequiv.1] at hxw
        exact Bool.noConfusion hxw
      rw [List.mem_cons]
      constructor
      · rintro (rfl | hz)
        · exact Or.inr ⟨rfl, hall⟩
        · exact Or.inl hz
      · rintro (hz | ⟨rfl, _⟩)
        · exact Or.inr hz
        · exact Or.inl rfl
    · have hequiv : Equivalent lt x y := ⟨by simpa using hxy, by simpa using hyx⟩
      constructor
      · exact Or.inl
      · rintro (hz | ⟨_, hnone⟩)
        · exact hz
        · exact absurd hequiv (hnone y List.mem_cons_self)

theorem sorted_insertUnique {x : α} {l : List α} (hl : l.Pairwise (fun a b ↦ lt a b = true)) :
    (insertUnique lt x l).Pairwise (fun a b ↦ lt a b = true) := by
  induction l with
  | nil => simp [insertUnique]
  | cons y rest ih =>
    have hl' := List.pairwise_cons.mp hl
    simp only [insertUnique]
    split_ifs with hyx hxy
    · refine List.pairwise_cons.mpr ⟨fun z hz ↦ ?_, ih hl'.2⟩
      rcases (mem_insertUnique hl'.2).mp hz with hz | ⟨rfl, _⟩
      · exact hl'.1 z hz
      · exact hyx
    · refine List.pairwise_cons.mpr ⟨fun z hz ↦ ?_, hl⟩
      rcases List.mem_cons.mp hz with rfl | hz
      · exact hxy
      · exact less_trans lt hxy (hl'.1 z hz)
    · exact hl

theorem sorted_insertLast {x : α} {l : List α} (hl : l.Pairwise (fun a b ↦ lt b a = false)) :
    (insertLast lt x l).Pairwise (fun a b ↦ lt b a = false) := by
  induction l with
  | nil => simp [insertLast]
  | cons y rest ih =>
    have hl' := List.pairwise_cons.mp hl
    simp only [insertLast]
    split_ifs with hxy
    · refine List.pairwise_cons.mpr ⟨fun z hz ↦ ?_, hl⟩
      rcases List.mem_cons.mp hz with rfl | hz
      · exact less_asymm lt hxy
      · by_contra hzx
        have hzy := less_trans lt (by simpa using hzx) hxy
        rw [hl'.1 z hz] at hzy
        exact Bool.noConfusion hzy
    · refine List.pairwise_cons.mpr ⟨fun z hz ↦ ?_, ih hl'.2⟩
      rcases List.mem_cons.mp ((insertLast_perm lt x rest).mem_iff.mp hz) with rfl | hz
      · simpa using hxy
      · exact hl'.1 z hz

/-- An insertion puts the new element behind all others that pass a test, when the test fails for
everything greater than the new element as soon as it holds of that one. -/
theorem filter_insertLast {x : α} {l : List α} (hl : l.Pairwise (fun a b ↦ lt b a = false))
    {test : α → Bool} (htest : test x = true → ∀ y, lt x y = true → test y = false) :
    (insertLast lt x l).filter test = l.filter test ++ [x].filter test := by
  induction l with
  | nil => rfl
  | cons y rest ih =>
    have hl' := List.pairwise_cons.mp hl
    simp only [insertLast]
    split_ifs with hxy
    · by_cases hx : test x = true
      · have hgreater : ∀ z ∈ y :: rest, lt x z = true := by
          intro z hz
          rcases List.mem_cons.mp hz with rfl | hz
          · exact hxy
          · have hzy := hl'.1 z hz
            by_contra hxz
            have hxz' : lt x z = false := by simpa using hxz
            by_cases hzx : lt z x = true
            · rw [less_trans lt hzx hxy] at hzy
              exact Bool.noConfusion hzy
            · have hequiv : Equivalent lt z x := ⟨by simpa using hzx, hxz'⟩
              rw [less_of_equivalent_of_less hequiv hxy] at hzy
              exact Bool.noConfusion hzy
        have hnone : (y :: rest).filter test = [] := by
          rw [List.filter_eq_nil_iff]
          intro z hz
          rw [htest hx z (hgreater z hz)]
          exact Bool.false_ne_true
        rw [List.filter_cons_of_pos hx, hnone, List.filter_cons_of_pos hx]
        rfl
      · rw [List.filter_cons_of_neg hx, List.filter_cons_of_neg hx, List.filter_nil,
          List.append_nil]
    · rw [List.filter_cons, List.filter_cons, ih hl'.2]
      split_ifs <;> rfl

end Insertion

/-! ### Sets -/

/-- A `set` under a comparator: its elements, with the proof that they strictly increase. -/
structure OrderedSet (lt : α → α → Bool) where
  elems : List α
  sorted : elems.Pairwise (fun a b ↦ lt a b = true)

namespace OrderedSet

variable {lt : α → α → Bool}

instance : Membership α (OrderedSet lt) :=
  ⟨fun s x ↦ x ∈ s.elems⟩

theorem mem_def {x : α} {s : OrderedSet lt} : x ∈ s ↔ x ∈ s.elems :=
  Iff.rfl

@[ext] theorem ext {s t : OrderedSet lt} (h : s.elems = t.elems) : s = t := by
  cases s
  cases t
  cases h
  rfl

/-- The empty set. -/
def empty (lt : α → α → Bool) : OrderedSet lt where
  elems := []
  sorted := List.Pairwise.nil

@[simp] theorem elems_empty : (empty lt).elems = [] := rfl

@[simp] theorem not_mem_empty (x : α) : x ∉ empty lt := List.not_mem_nil

/-- `size()`. -/
def size (s : OrderedSet lt) : ℕ :=
  s.elems.length

/-- `find(x)`: the element equivalent to `x`. -/
def find? (s : OrderedSet lt) (x : α) : Option α :=
  s.elems.find? fun y ↦ decide (Equivalent lt x y)

/-- `distance(begin(), find(x))`: the position of the element found, and the size when there is
none. -/
def index (s : OrderedSet lt) (x : α) : ℕ :=
  s.elems.findIdx fun y ↦ decide (Equivalent lt x y)

/-- Removal of the elements that satisfy a test. -/
def removeIf (test : α → Bool) (s : OrderedSet lt) : OrderedSet lt where
  elems := s.elems.filter fun y ↦ !test y
  sorted := s.sorted.sublist List.filter_sublist

/-- `erase(x)`. -/
def erase (x : α) (s : OrderedSet lt) : OrderedSet lt :=
  s.removeIf fun y ↦ decide (Equivalent lt x y)

theorem mem_removeIf {test : α → Bool} {z : α} {s : OrderedSet lt} :
    z ∈ s.removeIf test ↔ z ∈ s ∧ test z = false := by
  simp [mem_def, removeIf]

/-- A set whose elements are changed in place by a function that the comparator does not see. -/
def mapInvariant (f : α → α) (hf : ∀ a b, lt (f a) (f b) = lt a b) (s : OrderedSet lt) :
    OrderedSet lt where
  elems := s.elems.map f
  sorted := by
    rw [List.pairwise_map]
    simpa only [hf] using s.sorted

section Order

variable [IsStrictWeakOrder α (fun a b ↦ lt a b = true)]

theorem nodup (s : OrderedSet lt) : s.elems.Nodup :=
  s.sorted.imp fun {a b} hab heq ↦ by
    rw [heq, less_irrefl lt b] at hab
    exact Bool.noConfusion hab

omit [IsStrictWeakOrder α fun a b ↦ lt a b = true] in
/-- Two equivalent elements of one set are the same element. -/
theorem eq_of_equivalent {x y : α} {s : OrderedSet lt} (hx : x ∈ s) (hy : y ∈ s)
    (h : Equivalent lt x y) : x = y := by
  by_contra hne
  have hlt : lt x y = true ∨ lt y x = true := by
    have hpair : s.elems.Pairwise fun a b ↦ lt a b = true ∨ lt b a = true :=
      s.sorted.imp fun {a b} hab ↦ Or.inl hab
    have : Std.Symm fun a b ↦ lt a b = true ∨ lt b a = true := ⟨fun _ _ h ↦ h.symm⟩
    exact hpair.forall hx hy hne
  rcases hlt with hlt | hlt
  · rw [h.1] at hlt
    exact Bool.noConfusion hlt
  · rw [h.2] at hlt
    exact Bool.noConfusion hlt

/-- A lookup finds exactly the element of the set that is equivalent to the key. -/
theorem find?_eq_some_iff {x z : α} {s : OrderedSet lt} :
    s.find? x = some z ↔ z ∈ s ∧ Equivalent lt x z := by
  constructor
  · intro h
    exact ⟨List.mem_of_find?_eq_some h, by simpa using List.find?_some h⟩
  · rintro ⟨hz, hequiv⟩
    obtain ⟨w, hw⟩ : ∃ w, s.find? x = some w := by
      rw [← Option.isSome_iff_exists, find?, List.find?_isSome]
      exact ⟨z, hz, by simpa using hequiv⟩
    have hxw : Equivalent lt x w := by simpa using List.find?_some hw
    rw [hw, eq_of_equivalent (List.mem_of_find?_eq_some hw) hz (hxw.symm.trans hequiv)]

/-- The position computed for a key that the set knows is the position of the element equivalent
to it. -/
theorem getElem?_index {x z : α} {s : OrderedSet lt} (hz : z ∈ s) (hequiv : Equivalent lt x z) :
    s.elems[s.index x]? = some z := by
  have hfound := find?_eq_some_iff.mpr ⟨hz, hequiv⟩
  rwa [find?, List.find?_eq_getElem?_findIdx] at hfound

/-- Positions number the classes of equivalent elements: two keys that the set knows have the same
position exactly when they are equivalent. -/
theorem index_eq_iff {x y : α} {s : OrderedSet lt} (hx : ∃ z ∈ s, Equivalent lt x z)
    (hy : ∃ z ∈ s, Equivalent lt y z) : s.index x = s.index y ↔ Equivalent lt x y := by
  obtain ⟨z, hz, hxz⟩ := hx
  obtain ⟨w, hw, hyw⟩ := hy
  have hatx := getElem?_index hz hxz
  have haty := getElem?_index hw hyw
  constructor
  · intro heq
    rw [heq, haty, Option.some_inj] at hatx
    rw [← hatx] at hxz
    exact hxz.trans hyw.symm
  · intro hxy
    have hzw : z = w := eq_of_equivalent hz hw ((hxz.symm.trans hxy).trans hyw)
    rw [← hzw] at haty
    have hlength := (List.getElem?_eq_some_iff.mp hatx).1
    exact (List.getElem?_inj hlength s.nodup).mp (hatx.trans haty.symm)

/-- `insert(x)`. -/
def insert (x : α) (s : OrderedSet lt) : OrderedSet lt where
  elems := insertUnique lt x s.elems
  sorted := sorted_insertUnique s.sorted

/-- Insertion of a list of elements, first to last. -/
def insertAll (xs : List α) (s : OrderedSet lt) : OrderedSet lt :=
  xs.foldl (fun t x ↦ t.insert x) s

theorem mem_insert {x z : α} {s : OrderedSet lt} :
    z ∈ s.insert x ↔ z ∈ s ∨ z = x ∧ ∀ y ∈ s, ¬ Equivalent lt x y :=
  mem_insertUnique s.sorted

/-- After an insertion the set holds an element equivalent to the one inserted. -/
theorem exists_equivalent_insert (x : α) (s : OrderedSet lt) :
    ∃ y ∈ s.insert x, Equivalent lt x y := by
  by_cases hnone : ∀ y ∈ s, ¬ Equivalent lt x y
  · exact ⟨x, mem_insert.mpr (Or.inr ⟨rfl, hnone⟩), Equivalent.refl lt x⟩
  · push Not at hnone
    obtain ⟨y, hy, hequiv⟩ := hnone
    exact ⟨y, mem_insert.mpr (Or.inl hy), hequiv⟩

/-- Insertions never remove an element. -/
theorem mem_insertAll_of_mem {xs : List α} {s : OrderedSet lt} {z : α} (hz : z ∈ s) :
    z ∈ s.insertAll xs := by
  induction xs generalizing s with
  | nil => exact hz
  | cons x rest ih => exact ih (mem_insert.mpr (Or.inl hz))

/-- Insertions add nothing but inserted elements. -/
theorem mem_or_mem_of_mem_insertAll {xs : List α} {s : OrderedSet lt} {z : α}
    (hz : z ∈ s.insertAll xs) : z ∈ s ∨ z ∈ xs := by
  induction xs generalizing s with
  | nil => exact Or.inl hz
  | cons x rest ih =>
    rcases ih hz with h | h
    · rcases mem_insert.mp h with h | ⟨rfl, _⟩
      · exact Or.inl h
      · exact Or.inr List.mem_cons_self
    · exact Or.inr (List.mem_cons_of_mem x h)

/-- Every inserted element is represented by an equivalent one. -/
theorem exists_equivalent_insertAll {xs : List α} {s : OrderedSet lt} {x : α} (hx : x ∈ xs) :
    ∃ y ∈ s.insertAll xs, Equivalent lt x y := by
  induction xs generalizing s with
  | nil => exact absurd hx List.not_mem_nil
  | cons w rest ih =>
    change ∃ y ∈ (s.insert w).insertAll rest, Equivalent lt x y
    rcases List.mem_cons.mp hx with rfl | hx
    · obtain ⟨y, hy, hequiv⟩ := exists_equivalent_insert x s
      exact ⟨y, mem_insertAll_of_mem hy, hequiv⟩
    · exact ih hx

/-- An inserted element that is equivalent to no other inserted element and to no old one is kept
itself. -/
theorem mem_insertAll_of_unique {xs : List α} {s : OrderedSet lt} {x : α} (hx : x ∈ xs)
    (hnew : ∀ y ∈ s, ¬ Equivalent lt x y) (hunique : ∀ y ∈ xs, Equivalent lt x y → y = x) :
    x ∈ s.insertAll xs := by
  obtain ⟨y, hy, hequiv⟩ := exists_equivalent_insertAll (s := s) hx
  rcases mem_or_mem_of_mem_insertAll hy with h | h
  · exact absurd hequiv (hnew y h)
  · rwa [hunique y h hequiv] at hy

/-- A strictly increasing list is the only one with its elements. -/
theorem eq_of_perm_of_sorted {l m : List α} (hl : l.Pairwise (fun a b ↦ lt a b = true))
    (hm : m.Pairwise (fun a b ↦ lt a b = true)) (hperm : l.Perm m) : l = m := by
  refine hperm.eq_of_pairwise (fun a b _ _ hab hba ↦ ?_) hl hm
  rw [less_asymm lt hab] at hba
  exact Bool.noConfusion hba

/-- Inserting elements of which no two are equivalent into an empty set keeps all of them. -/
theorem elems_insertAll_perm {xs : List α} (hunique : xs.Pairwise fun a b ↦ ¬ Equivalent lt a b) :
    ((empty lt).insertAll xs).elems.Perm xs := by
  have hnodup : xs.Nodup := List.Pairwise.imp
    (fun {a b} (hab : ¬ Equivalent lt a b) (heq : a = b) ↦ hab (heq ▸ Equivalent.refl lt a)) hunique
  have : Std.Symm fun a b ↦ ¬ Equivalent lt a b := ⟨fun _ _ h h' ↦ h h'.symm⟩
  refine (List.perm_ext_iff_of_nodup (nodup _) hnodup).mpr fun x ↦ ⟨fun hx ↦ ?_, fun hx ↦ ?_⟩
  · exact (mem_or_mem_of_mem_insertAll hx).resolve_left (not_mem_empty x)
  · refine mem_insertAll_of_unique hx (fun y hy ↦ absurd hy (not_mem_empty y))
      fun y hy hequiv ↦ ?_
    by_contra hne
    exact hunique.forall hx hy (Ne.symm hne) hequiv

/-- Inserting a strictly increasing list into an empty set gives this list. -/
theorem elems_insertAll_of_sorted {l : List α} (hl : l.Pairwise (fun a b ↦ lt a b = true)) :
    ((empty lt).insertAll l).elems = l := by
  refine eq_of_perm_of_sorted (sorted _) hl (elems_insertAll_perm (hl.imp fun {a b} hab h ↦ ?_))
  rw [h.1] at hab
  exact Bool.noConfusion hab

end Order

end OrderedSet

/-! ### Maps and multimaps -/

/-- A `map` under a comparator of its keys: its entries, with strictly increasing keys. -/
abbrev OrderedMap (υ : Type*) (lt : κ → κ → Bool) :=
  OrderedSet (keyLess (υ := υ) lt)

namespace OrderedMap

variable {lt : κ → κ → Bool}

/-- `find(key)`, as the value found. -/
def lookup (m : OrderedMap υ lt) (key : κ) : Option υ :=
  (m.elems.find? fun entry ↦ decide (Equivalent lt key entry.1)).map Prod.snd

/-- `upper_bound(key)`: the first entry with a greater key, where `none` is `end()`. -/
def upperBound (key : κ) (m : OrderedMap υ lt) : Option (κ × υ) :=
  m.elems.find? fun entry ↦ lt key entry.1

/-- `erase(key)`. -/
def eraseKey (key : κ) (m : OrderedMap υ lt) : OrderedMap υ lt :=
  m.removeIf fun entry ↦ decide (Equivalent lt key entry.1)

/-- The value at a key changed in place. -/
def modify (key : κ) (f : υ → υ) (m : OrderedMap υ lt) : OrderedMap υ lt :=
  m.mapInvariant
    (fun entry ↦ if Equivalent lt key entry.1 then (entry.1, f entry.2) else entry)
    fun a b ↦ by simp only [keyLess]; split_ifs <;> rfl

theorem mem_eraseKey {key : κ} {entry : κ × υ} {m : OrderedMap υ lt} :
    entry ∈ m.eraseKey key ↔ entry ∈ m ∧ ¬ Equivalent lt key entry.1 := by
  simp [eraseKey, OrderedSet.mem_removeIf]

/-- Erasing a key that the map does not know changes nothing. -/
theorem eraseKey_of_forall {key : κ} {m : OrderedMap υ lt}
    (h : ∀ entry ∈ m, ¬ Equivalent lt key entry.1) : m.eraseKey key = m := by
  refine OrderedSet.ext (List.filter_eq_self.mpr fun entry hentry ↦ ?_)
  simpa using h entry hentry

/-- The keys of a map, in order. -/
def keys (m : OrderedMap υ lt) : List κ :=
  m.elems.map Prod.fst

theorem keys_sorted (m : OrderedMap υ lt) : m.keys.Pairwise (fun a b ↦ lt a b = true) := by
  rw [keys, List.pairwise_map]
  exact m.sorted

theorem mem_keys {key : κ} {m : OrderedMap υ lt} : key ∈ m.keys ↔ ∃ value, (key, value) ∈ m := by
  simp [keys, OrderedSet.mem_def]

@[simp] theorem keys_modify (key : κ) (f : υ → υ) (m : OrderedMap υ lt) :
    (m.modify key f).keys = m.keys := by
  simp only [keys, modify, OrderedSet.mapInvariant, List.map_map]
  refine List.map_congr_left fun entry _ ↦ ?_
  simp only [Function.comp]
  split_ifs <;> rfl

theorem mem_keys_eraseKey {key other : κ} {m : OrderedMap υ lt} :
    other ∈ (m.eraseKey key).keys ↔ other ∈ m.keys ∧ ¬ Equivalent lt key other := by
  simp only [mem_keys, mem_eraseKey, exists_and_right]

/-- A lookup finds a value exactly for a key that the map knows. -/
theorem isSome_lookup_iff {key : κ} {m : OrderedMap υ lt} :
    (m.lookup key).isSome ↔ ∃ other ∈ m.keys, Equivalent lt key other := by
  simp [lookup, keys]

/-- Erasing a key leaves the lookup of the keys that are not equivalent to it. -/
theorem lookup_eraseKey_of_not_equivalent [IsStrictWeakOrder κ (fun a b ↦ lt a b = true)]
    {key other : κ} (h : ¬ Equivalent lt key other) (m : OrderedMap υ lt) :
    (m.eraseKey key).lookup other = m.lookup other := by
  rw [lookup, eraseKey, OrderedSet.removeIf, List.find?_filter, lookup]
  congr 2
  funext entry
  by_cases hother : Equivalent lt other entry.1
  · have hkey : ¬ Equivalent lt key entry.1 := fun hkey ↦ h (hkey.trans hother.symm)
    simp [hother, hkey]
  · simp [hother]

theorem mem_keys_insert [IsStrictWeakOrder κ (fun a b ↦ lt a b = true)] {key other : κ} {value : υ}
    {m : OrderedMap υ lt} :
    other ∈ keys (OrderedSet.insert (key, value) m) ↔
      other ∈ m.keys ∨ other = key ∧ ∀ known ∈ m.keys, ¬ Equivalent lt key known := by
  simp only [mem_keys, OrderedSet.mem_insert, exists_or, Prod.mk.injEq]
  refine or_congr Iff.rfl ⟨?_, ?_⟩
  · rintro ⟨_, ⟨rfl, rfl⟩, hnone⟩
    refine ⟨rfl, fun known hknown ↦ ?_⟩
    obtain ⟨v, hv⟩ := hknown
    exact hnone (known, v) hv
  · rintro ⟨rfl, hnone⟩
    exact ⟨value, ⟨rfl, rfl⟩, fun entry hentry ↦ hnone entry.1 ⟨entry.2, hentry⟩⟩

/-- A change in place changes the value found. -/
theorem lookup_modify (key : κ) (f : υ → υ) (m : OrderedMap υ lt) :
    (m.modify key f).lookup key = (m.lookup key).map f := by
  rw [lookup, modify, OrderedSet.mapInvariant, List.find?_map, lookup, Option.map_map]
  have htest : ((fun entry : κ × υ ↦ decide (Equivalent lt key entry.1)) ∘ fun entry ↦
      if Equivalent lt key entry.1 then (entry.1, f entry.2) else entry) =
      fun entry : κ × υ ↦ decide (Equivalent lt key entry.1) := by
    funext entry
    by_cases hkey : Equivalent lt key entry.1
    · simp [hkey]
    · simp [hkey]
  rw [htest]
  cases hfound : m.elems.find? fun entry ↦ decide (Equivalent lt key entry.1) with
  | none => rfl
  | some entry =>
    have hkey : Equivalent lt key entry.1 := by simpa using List.find?_some hfound
    simp [hkey]

/-- A value inserted under a new key is found. -/
theorem lookup_insert_of_new [IsStrictWeakOrder κ (fun a b ↦ lt a b = true)] {key : κ} {value : υ}
    {m : OrderedMap υ lt} (hnew : ∀ known ∈ m.keys, ¬ Equivalent lt key known) :
    lookup (OrderedSet.insert (key, value) m) key = some value := by
  have hmem : (key, value) ∈ OrderedSet.insert (key, value) m :=
    OrderedSet.mem_insert.mpr (Or.inr ⟨rfl, fun entry hentry ↦
      hnew entry.1 (mem_keys.mpr ⟨entry.2, hentry⟩)⟩)
  have hfound := (@OrderedSet.find?_eq_some_iff _ _ _ (key, value) (key, value) _).mpr
    ⟨hmem, Equivalent.refl (keyLess lt) _⟩
  exact congrArg (Option.map Prod.snd) hfound

/-- A lookup finds the value of the entry whose key is equivalent to the one looked for. -/
theorem lookup_eq_some_iff [IsStrictWeakOrder κ (fun a b ↦ lt a b = true)] {key : κ} {value : υ}
    {m : OrderedMap υ lt} :
    m.lookup key = some value ↔ ∃ known, (known, value) ∈ m ∧ Equivalent lt key known := by
  have hfind : ∀ entry : κ × υ,
      m.elems.find? (fun other ↦ decide (Equivalent lt key other.1)) = some entry ↔
        entry ∈ m ∧ Equivalent lt key entry.1 := fun entry ↦
    @OrderedSet.find?_eq_some_iff _ _ _ (key, value) entry m
  rw [lookup, Option.map_eq_some_iff]
  constructor
  · rintro ⟨entry, hfound, rfl⟩
    exact ⟨entry.1, (hfind entry).mp hfound⟩
  · rintro ⟨known, hknown⟩
    exact ⟨(known, value), (hfind _).mpr hknown, rfl⟩

/-- An insertion leaves the lookup of the keys that are not equivalent to the new one. -/
theorem lookup_insert_of_not_equivalent [IsStrictWeakOrder κ (fun a b ↦ lt a b = true)]
    {key other : κ} (h : ¬ Equivalent lt key other) (value : υ) (m : OrderedMap υ lt) :
    lookup (OrderedSet.insert (key, value) m) other = m.lookup other := by
  ext found
  rw [lookup_eq_some_iff, lookup_eq_some_iff]
  refine exists_congr fun known ↦ and_congr_left fun hknown ↦ ?_
  rw [OrderedSet.mem_insert]
  refine ⟨fun hmem ↦ hmem.resolve_right ?_, Or.inl⟩
  rintro ⟨heq, -⟩
  rw [(Prod.mk.inj heq).1] at hknown
  exact h hknown.symm

/-- A change in place leaves the values found at the keys that are not equivalent to it. -/
theorem lookup_modify_of_not_equivalent [IsStrictWeakOrder κ (fun a b ↦ lt a b = true)]
    {key other : κ} (h : ¬ Equivalent lt key other) (f : υ → υ) (m : OrderedMap υ lt) :
    (m.modify key f).lookup other = m.lookup other := by
  rw [lookup, modify, OrderedSet.mapInvariant, List.find?_map, lookup, Option.map_map]
  have htest : ((fun entry : κ × υ ↦ decide (Equivalent lt other entry.1)) ∘ fun entry ↦
      if Equivalent lt key entry.1 then (entry.1, f entry.2) else entry) =
      fun entry : κ × υ ↦ decide (Equivalent lt other entry.1) := by
    funext entry
    by_cases hkey : Equivalent lt key entry.1
    · simp [hkey]
    · simp [hkey]
  rw [htest]
  cases hfound : m.elems.find? fun entry ↦ decide (Equivalent lt other entry.1) with
  | none => rfl
  | some entry =>
    have hother : Equivalent lt other entry.1 := by simpa using List.find?_some hfound
    have hkey : ¬ Equivalent lt key entry.1 := fun hkey ↦ h (hkey.trans hother.symm)
    simp [hkey]

/-- An erased key is not found. -/
theorem lookup_eraseKey (key : κ) (m : OrderedMap υ lt) : (m.eraseKey key).lookup key = none := by
  rw [← Option.not_isSome_iff_eq_none, isSome_lookup_iff]
  rintro ⟨other, hother, hequiv⟩
  exact (mem_keys_eraseKey.mp hother).2 hequiv

end OrderedMap

/-- A `multimap` under a comparator of its keys: its entries, with keys that never decrease. -/
structure OrderedMultimap (υ : Type*) (lt : κ → κ → Bool) where
  entries : List (κ × υ)
  sorted : entries.Pairwise (fun a b ↦ lt b.1 a.1 = false)

namespace OrderedMultimap

variable {lt : κ → κ → Bool}

@[ext] theorem ext {s t : OrderedMultimap υ lt} (h : s.entries = t.entries) : s = t := by
  cases s
  cases t
  cases h
  rfl

/-- The empty multimap. -/
def empty (υ : Type*) (lt : κ → κ → Bool) : OrderedMultimap υ lt where
  entries := []
  sorted := List.Pairwise.nil

/-- `equal_range(key)`, as the values in it. -/
def equalRange (m : OrderedMultimap υ lt) (key : κ) : List υ :=
  (m.entries.filter fun entry ↦ decide (Equivalent lt key entry.1)).map Prod.snd

/-- `count(key)`. -/
def count (m : OrderedMultimap υ lt) (key : κ) : ℕ :=
  (m.equalRange key).length

/-- `find(key)`, as the value found: the first entry whose key is equivalent. -/
def lookup (m : OrderedMultimap υ lt) (key : κ) : Option υ :=
  (m.equalRange key).head?

variable [IsStrictWeakOrder κ (fun a b ↦ lt a b = true)]

/-- `emplace(key, value)`. -/
def emplace (key : κ) (value : υ) (m : OrderedMultimap υ lt) : OrderedMultimap υ lt where
  entries := insertLast (keyLess lt) (key, value) m.entries
  sorted := @sorted_insertLast (κ × υ) (keyLess lt) _ _ _ m.sorted

theorem entries_emplace_perm (key : κ) (value : υ) (m : OrderedMultimap υ lt) :
    (m.emplace key value).entries.Perm ((key, value) :: m.entries) :=
  insertLast_perm (keyLess lt) (key, value) m.entries

/-- The new value comes last in the range of its key, and the other ranges stay. -/
theorem equalRange_emplace (key other : κ) (value : υ) (m : OrderedMultimap υ lt) :
    (m.emplace key value).equalRange other =
      m.equalRange other ++ if Equivalent lt other key then [value] else [] := by
  have hgreater : decide (Equivalent lt other (key, value).1) = true → ∀ y : κ × υ,
      keyLess lt (key, value) y = true → decide (Equivalent lt other y.1) = false := by
    intro hkey y hless
    have hkey' : Equivalent lt other key := of_decide_eq_true hkey
    refine decide_eq_false fun hy ↦ ?_
    rw [keyLess, (hkey'.symm.trans hy).1] at hless
    exact Bool.noConfusion hless
  have hfilter := @filter_insertLast (κ × υ) (keyLess lt) _ (key, value) m.entries m.sorted
    (fun entry ↦ decide (Equivalent lt other entry.1)) hgreater
  rw [equalRange, emplace, hfilter, List.map_append, equalRange]
  congr 1
  by_cases hkey : Equivalent lt other key
  · simp [hkey]
  · simp [hkey]

/-- The first value of a key stays the first. -/
theorem lookup_emplace_of_eq_some {key other : κ} {value first : υ} {m : OrderedMultimap υ lt}
    (hfirst : m.lookup other = some first) : (m.emplace key value).lookup other = some first := by
  rw [lookup] at hfirst
  rw [lookup, equalRange_emplace, List.head?_append, hfirst, Option.some_or]

/-- Entries in the order of their keys, none less than those of the multimap, come behind them. -/
theorem entries_foldl_emplace {l : List (κ × υ)} {m : OrderedMultimap υ lt}
    (hsorted : (m.entries ++ l).Pairwise (fun a b ↦ lt b.1 a.1 = false)) :
    (l.foldl (fun m entry ↦ m.emplace entry.1 entry.2) m).entries = m.entries ++ l := by
  induction l generalizing m with
  | nil => exact (List.append_nil m.entries).symm
  | cons entry rest ih =>
    have hgreatest : ∀ y ∈ m.entries, keyLess lt entry y = false := fun y hy ↦
      (List.pairwise_append.mp hsorted).2.2 y hy entry List.mem_cons_self
    have hentries : (m.emplace entry.1 entry.2).entries = m.entries ++ [entry] :=
      insertLast_eq_append hgreatest
    rw [List.append_cons, ← hentries] at hsorted
    rw [List.foldl_cons, ih hsorted, hentries, List.append_assoc, List.singleton_append]

end OrderedMultimap

end Maock.Foundation.OrderedContainer
