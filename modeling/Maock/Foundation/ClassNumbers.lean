import Mathlib.Data.Set.Card
import Maock.Foundation.OrderedContainer

/-!
# Numbers of classes

Elements that a comparator does not tell apart form a class. A set into which some elements were
inserted keeps one of every class (`ncard_classes`), so the positions in it number the classes: they
lie below the number of classes (`index_lt_ncard_classes`), and two elements have one position
exactly when they are of one class (`index_insertAll_eq_iff`). A change that the comparator does not
see changes neither the set nor the number of classes (`elems_insertAll_map`, `ncard_classes_map`).
-/

set_option autoImplicit false
set_option relaxedAutoImplicit false

namespace Maock.Foundation.OrderedContainer

variable {α : Type*} {lt : α → α → Bool}

/-- The elements of a list that are equivalent to an element. -/
def classOf (lt : α → α → Bool) (xs : List α) (x : α) : Set α :=
  {y | y ∈ xs ∧ Equivalent lt x y}

/-- The classes of equivalent elements in a list. -/
def classes (lt : α → α → Bool) (xs : List α) : Set (Set α) :=
  {cls | ∃ x ∈ xs, classOf lt xs x = cls}

namespace OrderedSet

section Numbers

variable [IsStrictWeakOrder α (fun a b ↦ lt a b = true)] {xs : List α}

theorem classOf_eq_iff {x y : α} (hy : y ∈ xs) :
    classOf lt xs x = classOf lt xs y ↔ Equivalent lt x y := by
  constructor
  · intro h
    have hself : y ∈ classOf lt xs x := h ▸ ⟨hy, Equivalent.refl lt y⟩
    exact hself.2
  · intro h
    ext z
    exact and_congr_right fun _ ↦ ⟨fun hxz ↦ h.symm.trans hxz, fun hyz ↦ h.trans hyz⟩

/-- What insertions keep of the inserted elements is one element of every class. -/
theorem classes_eq_image (xs : List α) :
    classes lt xs = classOf lt xs '' {x | x ∈ (empty lt).insertAll xs} := by
  ext cls
  constructor
  · rintro ⟨x, hx, rfl⟩
    obtain ⟨kept, hkept, hequiv⟩ := exists_equivalent_insertAll (s := empty lt) hx
    exact ⟨kept, hkept, ((classOf_eq_iff hx).mpr hequiv.symm)⟩
  · rintro ⟨kept, hkept, rfl⟩
    exact ⟨kept, (mem_or_mem_of_mem_insertAll hkept).resolve_left (not_mem_empty kept), rfl⟩

/-- A set has as many elements as there are classes among the inserted ones. -/
theorem ncard_classes (xs : List α) :
    (classes lt xs).ncard = ((empty lt).insertAll xs).size := by
  classical
  have hinj : Set.InjOn (classOf lt xs) {x | x ∈ (empty lt).insertAll xs} := by
    intro x hx y hy h
    have hmem := (mem_or_mem_of_mem_insertAll hy).resolve_left (not_mem_empty y)
    exact eq_of_equivalent hx hy ((classOf_eq_iff hmem).mp h)
  have hset : {x | x ∈ (empty lt).insertAll xs} =
      (((empty lt).insertAll xs).elems.toFinset : Set α) := by
    ext x
    rw [Finset.mem_coe, List.mem_toFinset]
    rfl
  rw [classes_eq_image, hinj.ncard_image, hset, Set.ncard_coe_finset,
    List.toFinset_card_of_nodup (nodup _)]
  rfl

/-- Positions lie below the number of classes. -/
theorem index_lt_ncard_classes {x : α} (hx : x ∈ xs) :
    ((empty lt).insertAll xs).index x < (classes lt xs).ncard := by
  obtain ⟨kept, hkept, hequiv⟩ := exists_equivalent_insertAll (s := empty lt) hx
  rw [ncard_classes]
  exact (List.getElem?_eq_some_iff.mp (getElem?_index hkept hequiv)).1

/-- Positions tell apart what the comparator tells apart. -/
theorem index_insertAll_eq_iff {x y : α} (hx : x ∈ xs) (hy : y ∈ xs) :
    ((empty lt).insertAll xs).index x = ((empty lt).insertAll xs).index y ↔ Equivalent lt x y :=
  index_eq_iff (exists_equivalent_insertAll hx) (exists_equivalent_insertAll hy)

end Numbers

section Unseen

variable {f : α → α} (hf : ∀ a b, lt (f a) (f b) = lt a b)

include hf

theorem insertUnique_map (x : α) (l : List α) :
    insertUnique lt (f x) (l.map f) = (insertUnique lt x l).map f := by
  induction l with
  | nil => rfl
  | cons y rest ih =>
    rw [List.map_cons, insertUnique, insertUnique, hf, hf, ih]
    split_ifs <;> rfl

variable [IsStrictWeakOrder α (fun a b ↦ lt a b = true)]

theorem elems_insertAll_map (xs : List α) {s t : OrderedSet lt}
    (hstart : t.elems = s.elems.map f) :
    (t.insertAll (xs.map f)).elems = (s.insertAll xs).elems.map f := by
  induction xs generalizing s t with
  | nil => exact hstart
  | cons x rest ih =>
    refine ih (s := s.insert x) (t := t.insert (f x)) ?_
    show insertUnique lt (f x) t.elems = (insertUnique lt x s.elems).map f
    rw [hstart, insertUnique_map hf]

/-- A change that the comparator does not see leaves the number of classes. -/
theorem ncard_classes_map (xs : List α) :
    (classes lt (xs.map f)).ncard = (classes lt xs).ncard := by
  rw [ncard_classes, ncard_classes, size, elems_insertAll_map hf xs (s := empty lt) rfl,
    List.length_map, size]

end Unseen

end OrderedSet

end Maock.Foundation.OrderedContainer
