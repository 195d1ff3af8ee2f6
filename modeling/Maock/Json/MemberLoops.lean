import Maock.Foundation.Fuel
import Maock.Json.Segments

/-!
# The loops over the members of an object

`getNthValue` and `getNthName` as the source has them: iterators over the members of an object, and
an index of 64 bits that counts up from `1` or down from `-1`. An index stays next to its iterator,
so it never wraps, and the loops end with the member to which `walkMembers` comes
(`settles_searchForward`, `settles_searchBackward`, `settles_getNth`). `positionsAgree` says which
one that is, counted from either end.
-/

set_option autoImplicit false
set_option relaxedAutoImplicit false

namespace Maock.Json

open Foundation Foundation.Fuel

variable {Double : Type*}

/-! ### Objects -/

/-- An object of the JSON library. Its number of members is kept as a `SizeType`, which has 32
bits. -/
structure ObjectMembers (Double : Type*) where
  entries : List (Bytes × Value Double)
  counted : entries.length < 2 ^ 32

namespace ObjectMembers

/-- `MemberCount()`. -/
def memberCount (members : ObjectMembers Double) : UInt32 :=
  .ofNat members.entries.length

theorem toNat_memberCount (members : ObjectMembers Double) :
    members.memberCount.toNat = members.entries.length :=
  UInt32.toNat_ofNat_of_lt' members.counted

theorem memberCount_ne_zero_iff (members : ObjectMembers Double) :
    members.memberCount ≠ 0 ↔ members.entries ≠ [] := by
  rw [Ne, ← UInt32.toNat_inj, toNat_memberCount, UInt32.toNat_zero, List.length_eq_zero_iff]

end ObjectMembers

/-! ### The loops -/

/-- How a search can go wrong. -/
inductive SearchFault where
  | outOfFuel
  /-- An iterator is dereferenced that stands behind the last member. -/
  | pastTheEnd
  deriving DecidableEq

section Loops

variable (part : Bytes × Value Double → Value Double) (entries : List (Bytes × Value Double))
  (n : Int64)

/-- `return &(itr->value)` or `return &(itr->name)`. -/
def dereference (itr : ℕ) : Except SearchFault (Option (Value Double)) :=
  match entries[itr]? with
  | some entry => .ok (some (part entry))
  | none => .error .pastTheEnd

/-- The loop for positive numbers, from an iterator and its index on. -/
def searchForward : ℕ → ℕ → Int64 → Except SearchFault (Option (Value Double))
  | 0, _, _ => .error .outOfFuel
  | fuel + 1, itr, index =>
    if itr = entries.length then .ok none
    else if index = n then dereference part entries itr
    else searchForward fuel (itr + 1) (index + 1)

/-- The loop for negative numbers, which stops in front of the first member. -/
def searchBackward : ℕ → ℕ → Int64 → Except SearchFault (Option (Value Double))
  | 0, _, _ => .error .outOfFuel
  | fuel + 1, itr, index =>
    if itr = 0 then .ok none
    else if index = n then dereference part entries itr
    else searchBackward fuel (itr - 1) (index - 1)

end Loops

namespace ObjectMembers

/-- `getNthValue` and `getNthName`, up to the part of the member that they return. Of all numbers
only `-2 ^ 63` overflows in `0 - n`, which then stays negative and is no number of members. -/
def getNth (part : Bytes × Value Double → Value Double) (members : ObjectMembers Double) (n : Int64)
    (fuel : ℕ) : Except SearchFault (Option (Value Double)) :=
  if members.memberCount ≠ 0 ∧ 0 < n then searchForward part members.entries n fuel 0 1
  else if members.memberCount ≠ 0 ∧ n < 0 then
    if 0 - n = .ofNat members.memberCount.toNat then dereference part members.entries 0
    else searchBackward part members.entries n fuel (members.entries.length - 1) (-1)
  else .ok none

/-- `getNthValue(d, n)`. -/
def getNthValue (members : ObjectMembers Double) (n : Int64) (fuel : ℕ) :
    Except SearchFault (Option (Value Double)) :=
  getNth Prod.snd members n fuel

/-- `getNthName(d, n)`. -/
def getNthName (members : ObjectMembers Double) (n : Int64) (fuel : ℕ) :
    Except SearchFault (Option (Value Double)) :=
  getNth (fun entry ↦ .string entry.1) members n fuel

end ObjectMembers

/-! ### The index -/

theorem toInt_index_add_one {index : Int64} (h : index.toInt + 1 < 2 ^ 63) :
    (index + 1).toInt = index.toInt + 1 := by
  have hlow := index.le_toInt
  rw [Int64.toInt_add, Int64.toInt_one]
  exact Int.bmod_eq_of_le (by omega) (by omega)

theorem toInt_index_sub_one {index : Int64} (h : -2 ^ 63 ≤ index.toInt - 1) :
    (index - 1).toInt = index.toInt - 1 := by
  have hhigh := index.toInt_lt
  rw [Int64.toInt_sub, Int64.toInt_one]
  exact Int.bmod_eq_of_le (by omega) (by omega)

/-- The comparison of `0 - n` with a number of members. -/
theorem zero_sub_eq_ofNat_iff (n : Int64) {count : ℕ} (hcount : count < 2 ^ 32) :
    0 - n = .ofNat count ↔ -n.toInt = count := by
  have hlow := n.le_toInt
  have hhigh := n.toInt_lt
  rw [← Int64.toInt_inj, Int64.toInt_ofNat_of_lt (by omega), Int64.toInt_sub, Int64.toInt_zero,
    Int.zero_sub]
  by_cases hfirst : n.toInt = -2 ^ 63
  · have hwraps : (-n.toInt).bmod (2 ^ 64) = -2 ^ 63 := by
      rw [hfirst]
      decide
    omega
  · rw [Int.bmod_eq_of_le (by omega) (by omega)]

/-! ### Runs of the loops -/

section Runs

variable (part : Bytes × Value Double → Value Double) {entries : List (Bytes × Value Double)}
  (n : Int64) {itr : ℕ} (index : Int64)

theorem dereference_of_getElem? {entry : Bytes × Value Double} (h : entries[itr]? = some entry) :
    dereference part entries itr = .ok (some (part entry)) := by
  rw [dereference, h]

/-- From an iterator on the loop comes to the member that the walk over the rest comes to. -/
theorem settles_searchForward (hle : itr ≤ entries.length)
    (hroom : index.toInt + (entries.length - itr) < 2 ^ 63) :
    Settles .outOfFuel (fun fuel ↦ searchForward part entries n fuel itr index)
      (.ok ((walkMembers n.toInt 1 index.toInt (entries.drop itr)).map part)) := by
  induction hrest : entries.drop itr generalizing itr index with
  | nil =>
    have hend : itr = entries.length := Nat.le_antisymm hle (List.drop_eq_nil_iff.mp hrest)
    exact Settles.of_turn rfl fun fuel ↦ if_pos hend
  | cons entry rest ih =>
    have hentry : entries[itr]? = some entry := by
      rw [← List.head?_drop, hrest, List.head?_cons]
    have hlt := (List.getElem?_eq_some_iff.mp hentry).1
    rw [walkMembers]
    by_cases hfound : index = n
    · rw [if_pos (congrArg Int64.toInt hfound)]
      refine Settles.of_turn rfl fun fuel ↦ ?_
      rw [searchForward, if_neg hlt.ne, if_pos hfound]
      exact dereference_of_getElem? part hentry
    · have hindex : (index + 1).toInt = index.toInt + 1 := toInt_index_add_one (by omega)
      have htail : entries.drop (itr + 1) = rest := by
        rw [← List.tail_drop, hrest, List.tail_cons]
      rw [if_neg fun h ↦ hfound (Int64.toInt_inj.mp h), ← hindex]
      refine Settles.succ rfl (fun fuel ↦ ?_) (ih (index + 1) hlt (by omega) htail)
      rw [searchForward, if_neg hlt.ne, if_neg hfound]

/-- From an iterator down to the first member the loop comes to the member that the walk comes
to. -/
theorem settles_searchBackward (hlt : itr < entries.length) (hroom : -2 ^ 63 ≤ index.toInt - itr) :
    Settles .outOfFuel (fun fuel ↦ searchBackward part entries n fuel itr index)
      (.ok ((walkMembers n.toInt (-1) index.toInt (entries.tail.take itr).reverse).map part)) := by
  induction itr generalizing index with
  | zero => exact Settles.of_turn rfl fun fuel ↦ if_pos rfl
  | succ itr ih =>
    have hentry : entries.tail[itr]? = some entries[itr + 1] := by
      rw [List.getElem?_tail, List.getElem?_eq_getElem hlt]
    rw [List.take_add_one, hentry, Option.toList_some, List.reverse_concat, walkMembers]
    by_cases hfound : index = n
    · rw [if_pos (congrArg Int64.toInt hfound)]
      refine Settles.of_turn rfl fun fuel ↦ ?_
      rw [searchBackward, if_neg (Nat.succ_ne_zero itr), if_pos hfound]
      exact dereference_of_getElem? part (List.getElem?_eq_getElem hlt)
    · have hindex : (index - 1).toInt = index.toInt - 1 := toInt_index_sub_one (by omega)
      rw [if_neg fun h ↦ hfound (Int64.toInt_inj.mp h), ← Int.sub_eq_add_neg, ← hindex]
      refine Settles.succ rfl (fun fuel ↦ ?_) (ih (index - 1) (Nat.lt_of_succ_lt hlt) (by omega))
      rw [searchBackward, if_neg (Nat.succ_ne_zero itr), if_neg hfound]
      rfl

end Runs

/-- The loops come to the member that the walks over the list of members come to. -/
theorem ObjectMembers.settles_getNth (part : Bytes × Value Double → Value Double)
    (members : ObjectMembers Double) (n : Int64) :
    Settles .outOfFuel (members.getNth part n)
      (.ok ((nthMember n.toInt members.entries).map part)) := by
  have hcounted := members.counted
  have hpos : 0 < n ↔ 0 < n.toInt := by rw [Int64.lt_iff_toInt_lt, Int64.toInt_zero]
  have hneg : n < 0 ↔ n.toInt < 0 := by rw [Int64.lt_iff_toInt_lt, Int64.toInt_zero]
  have hone : (1 : Int64).toInt = 1 := rfl
  have hminusOne : (-1 : Int64).toInt = -1 := rfl
  unfold getNth nthMember
  simp only [memberCount_ne_zero_iff, hpos, hneg, toNat_memberCount,
    zero_sub_eq_ofNat_iff n hcounted]
  split_ifs with hup hdown hfirst
  · have hrun := settles_searchForward part n 1 (Nat.zero_le members.entries.length) (by omega)
    rwa [hone, List.drop_zero] at hrun
  · obtain ⟨entry, rest, hentries⟩ := List.exists_cons_of_ne_nil hdown.1
    rw [hentries]
    exact Settles.of_forall fun _ ↦ rfl
  · have hlength := List.length_pos_iff.mpr hdown.1
    have hrun := settles_searchBackward part n (-1) (Nat.sub_lt hlength Nat.one_pos) (by omega)
    rwa [hminusOne, ← List.length_tail, List.take_length, List.length_tail] at hrun
  · exact Settles.of_forall fun _ ↦ rfl

/-! ### Counted from either end -/

/-- The member that a number selects among `m`: the `n`-th for `1 ≤ n ≤ m`, the `m + n + 1`-th for
`-m ≤ n ≤ -1`, and none for the other numbers. -/
def selected (n : ℤ) (entries : List (Bytes × Value Double)) : Option (Bytes × Value Double) :=
  if 1 ≤ n ∧ n ≤ entries.length then entries[(n - 1).toNat]?
  else if -entries.length ≤ n ∧ n ≤ -1 then entries[(entries.length + n).toNat]?
  else none

/-- The walks come to the member that the number selects. -/
theorem nthMember_eq_selected (n : ℤ) (entries : List (Bytes × Value Double)) :
    nthMember n entries = selected n entries := by
  rw [nthMember_eq]
  unfold memberFromEither selected
  by_cases hpos : 0 < n
  · rw [if_pos hpos]
    split_ifs with hup hdown
    · rfl
    · omega
    · exact List.getElem?_eq_none (by omega)
  have hnotUp : ¬ (1 ≤ n ∧ n ≤ entries.length) := by omega
  rw [if_neg hpos, if_neg hnotUp]
  split_ifs with hneg hdown
  · have hindex : entries.length - 1 - (-n - 1).toNat = (entries.length + n).toNat := by omega
    rw [List.getElem?_reverse (by omega), hindex]
  · exact List.getElem?_eq_none (by rw [List.length_reverse]; omega)
  · omega
  · rfl

/-- A member is selected by its number from the start and by its number from the end. -/
theorem selected_of_up {n : ℤ} {entries : List (Bytes × Value Double)} (hlow : 1 ≤ n)
    (hhigh : n ≤ entries.length) :
    ∃ entry, entries[(n - 1).toNat]? = some entry ∧ selected n entries = some entry ∧
      selected (n - entries.length - 1) entries = some entry := by
  have hlt : (n - 1).toNat < entries.length := by omega
  have hindex : ((entries.length : ℤ) + (n - entries.length - 1)).toNat = (n - 1).toNat := by
    congr 1
    omega
  refine ⟨_, List.getElem?_eq_getElem hlt, ?_, ?_⟩
  · rw [selected, if_pos ⟨hlow, hhigh⟩, List.getElem?_eq_getElem hlt]
  · rw [selected, if_neg (by omega), if_pos (by omega), hindex, List.getElem?_eq_getElem hlt]

/-- What positional access to the members of an object has to do. -/
structure PositionsAgree (members : ObjectMembers Double) : Prop where
  value : ∀ n : Int64, Settles .outOfFuel (members.getNthValue n)
    (.ok ((selected n.toInt members.entries).map Prod.snd))
  name : ∀ n : Int64, Settles .outOfFuel (members.getNthName n)
    (.ok ((selected n.toInt members.entries).map fun entry ↦ .string entry.1))
  bothEnds : ∀ n : ℤ, 1 ≤ n → n ≤ members.entries.length →
    ∃ entry, members.entries[(n - 1).toNat]? = some entry ∧
      selected n members.entries = some entry ∧
      selected (n - members.entries.length - 1) members.entries = some entry

/-- **Positions count from either end.** For every object and every number both functions end, with
the value and the name of the one member that the number selects, and every member is selected by
its number from either end. -/
theorem positionsAgree (members : ObjectMembers Double) : PositionsAgree members where
  value n := nthMember_eq_selected n.toInt members.entries ▸
    members.settles_getNth Prod.snd n
  name n := nthMember_eq_selected n.toInt members.entries ▸
    members.settles_getNth (fun entry ↦ .string entry.1) n
  bothEnds _ hlow hhigh := selected_of_up hlow hhigh

end Maock.Json
