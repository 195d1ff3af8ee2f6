import Mathlib.Data.Tree.Basic
import Maock.Foundation.OrderedContainer

/-!
# Lookups in search trees

An ordered container keeps its elements in a binary tree. A lookup sees the elements through the
comparator only: it walks down from the root, to the left of every element that is not less than the
key and to the right of the others (`lowerBoundFrom`), and compares the last element that it has
left to its left with the key once more (`find`).

A `SearchTree` carries the proof that its elements increase from left to right. Its shape is free.
When the comparator is a strict weak order the walk finds what a look at all elements finds
(`find_eq_find?`), so lookups in the tree are those in the container that it stands for
(`find_keyOf`, `map_snd_find`), and an element that is in the tree is found (`find_of_mem`).
-/

set_option autoImplicit false
set_option relaxedAutoImplicit false

namespace Maock.Foundation.SearchTrees

open OrderedContainer

variable {α κ υ : Type*}

/-- The elements of a tree from left to right. -/
def inorder : BinaryTree α → List α
  | .nil => []
  | .node x left right => inorder left ++ x :: inorder right

/-- The walk of `lower_bound(key)`, with the element at which it has last gone to the left. -/
def lowerBoundFrom (keyOf : α → κ) (lt : κ → κ → Bool) (key : κ) :
    BinaryTree α → Option α → Option α
  | .nil, last => last
  | .node x left right, last =>
    if !lt (keyOf x) key then lowerBoundFrom keyOf lt key left (some x)
    else lowerBoundFrom keyOf lt key right last

/-- A binary tree with keys that increase from left to right. -/
structure SearchTree (keyOf : α → κ) (lt : κ → κ → Bool) where
  root : BinaryTree α
  sorted : (inorder root).Pairwise fun x y ↦ lt (keyOf x) (keyOf y) = true

namespace SearchTree

variable {keyOf : α → κ} {lt : κ → κ → Bool}

instance : Membership α (SearchTree keyOf lt) :=
  ⟨fun tree x ↦ x ∈ inorder tree.root⟩

/-- `find(key)`. -/
def find (key : κ) (tree : SearchTree keyOf lt) : Option α :=
  match lowerBoundFrom keyOf lt key tree.root none with
  | none => none
  | some x => if lt key (keyOf x) then none else some x

end SearchTree

section Walk

variable {keyOf : α → κ} {lt : κ → κ → Bool} [IsStrictWeakOrder κ (fun a b ↦ lt a b = true)]

/-- The walk ends at the first element that is not less than the key. -/
theorem lowerBoundFrom_eq (key : κ) {tree : BinaryTree α}
    (hsorted : (inorder tree).Pairwise fun x y ↦ lt (keyOf x) (keyOf y) = true)
    (last : Option α) :
    lowerBoundFrom keyOf lt key tree last =
      ((inorder tree).find? fun x ↦ !lt (keyOf x) key).or last := by
  induction tree generalizing last with
  | nil => rfl
  | node x left right ihLeft ihRight =>
    rw [inorder, List.pairwise_append, List.pairwise_cons] at hsorted
    obtain ⟨hleft, ⟨-, hright⟩, hbelow⟩ := hsorted
    rw [lowerBoundFrom, inorder, List.find?_append, List.find?_cons]
    cases hx : lt (keyOf x) key with
    | false =>
      rw [Bool.not_false, if_pos rfl, ihLeft hleft, Option.or_assoc]
      rfl
    | true =>
      -- what is left of an element below the key is below the key
      have hnone : (inorder left).find? (fun y ↦ !lt (keyOf y) key) = none := by
        rw [List.find?_eq_none]
        intro y hy
        rw [less_trans lt (hbelow y hy x List.mem_cons_self) hx]
        exact Bool.false_ne_true
      rw [Bool.not_true, if_neg Bool.false_ne_true, ihRight hright, hnone, Option.none_or]

/-- Among increasing keys the first one that is not less than a key decides whether it is there. -/
theorem find?_equivalent_eq (key : κ) {l : List α}
    (hsorted : l.Pairwise fun x y ↦ lt (keyOf x) (keyOf y) = true) :
    (l.find? fun x ↦ decide (Equivalent lt key (keyOf x))) =
      (l.find? fun x ↦ !lt (keyOf x) key).bind fun x ↦
        if lt key (keyOf x) then none else some x := by
  induction l with
  | nil => rfl
  | cons x rest ih =>
    obtain ⟨habove, hrest⟩ := List.pairwise_cons.mp hsorted
    rw [List.find?_cons, List.find?_cons]
    cases hx : lt (keyOf x) key with
    | true =>
      have hnot : ¬ Equivalent lt key (keyOf x) := fun h ↦ by
        rw [h.2] at hx
        exact Bool.false_ne_true hx
      rw [decide_eq_false hnot]
      exact ih hrest
    | false =>
      rw [Bool.not_false]
      cases hkey : lt key (keyOf x) with
      | false => simp [Equivalent, hkey, hx]
      | true =>
        -- nothing behind an element above the key is equivalent to it
        have hnone : ∀ y ∈ x :: rest, ¬ Equivalent lt key (keyOf y) := by
          intro y hy hequiv
          have hless : lt key (keyOf y) = true := by
            rcases List.mem_cons.mp hy with rfl | hy
            · exact hkey
            · exact less_trans lt hkey (habove y hy)
          rw [hequiv.1] at hless
          exact Bool.false_ne_true hless
        rw [decide_eq_false (hnone x List.mem_cons_self), Option.bind_some, if_pos hkey]
        refine List.find?_eq_none.mpr fun y hy ↦ ?_
        simpa using hnone y (List.mem_cons_of_mem x hy)

end Walk

/-- Elements are ordered by their keys, so their comparator is a strict weak order when that of the
keys is one. -/
theorem isStrictWeakOrder_byKey (keyOf : α → κ) (lt : κ → κ → Bool)
    [IsStrictWeakOrder κ (fun a b ↦ lt a b = true)] :
    IsStrictWeakOrder α (fun x y ↦ lt (keyOf x) (keyOf y) = true) where
  irrefl x := by simp [less_irrefl lt (keyOf x)]
  trans _ _ _ hxy hyz := less_trans lt hxy hyz
  incomp_trans x y z hxy hyz := by
    simp only [Bool.not_eq_true] at hxy hyz ⊢
    exact Equivalent.trans hxy hyz

namespace SearchTree

variable {keyOf : α → κ} {lt : κ → κ → Bool}

/-- The container that a tree stands for. -/
def toOrderedSet (tree : SearchTree keyOf lt) : OrderedSet fun x y ↦ lt (keyOf x) (keyOf y) where
  elems := inorder tree.root
  sorted := tree.sorted

variable [IsStrictWeakOrder κ (fun a b ↦ lt a b = true)]

/-- The walk finds what a look at all elements finds. -/
theorem find_eq_find? (key : κ) (tree : SearchTree keyOf lt) :
    tree.find key = (inorder tree.root).find? fun x ↦ decide (Equivalent lt key (keyOf x)) := by
  rw [find?_equivalent_eq key tree.sorted, find, lowerBoundFrom_eq key tree.sorted, Option.or_none]
  cases (inorder tree.root).find? fun x ↦ !lt (keyOf x) key with
  | none => rfl
  | some x => rfl

/-- A lookup by the key of an element is that of the element in the container. -/
theorem find_keyOf (x : α) (tree : SearchTree keyOf lt) :
    tree.find (keyOf x) = tree.toOrderedSet.find? x :=
  find_eq_find? (keyOf x) tree

/-- A lookup in the tree of a map is that in the map. -/
theorem map_snd_find (key : κ) (tree : SearchTree (Prod.fst : κ × υ → κ) lt) :
    (tree.find key).map Prod.snd = OrderedMap.lookup tree.toOrderedSet key :=
  congrArg (Option.map Prod.snd) (find_eq_find? key tree)

/-- An element of the tree is found by its key. -/
theorem find_of_mem {x : α} {tree : SearchTree keyOf lt} (hx : x ∈ tree) :
    tree.find (keyOf x) = some x := by
  have horder := isStrictWeakOrder_byKey keyOf lt
  rw [find_keyOf]
  exact OrderedSet.find?_eq_some_iff.mpr ⟨hx, less_irrefl lt (keyOf x), less_irrefl lt (keyOf x)⟩

end SearchTree

end Maock.Foundation.SearchTrees
