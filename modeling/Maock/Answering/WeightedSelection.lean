import Maock.Answering.ResponseGroup
import Maock.Foundation.WeightedChoice

/-!
# Selection by weight

The map that a response group fills has the ends of the intervals that the weights of its responses
cut out of the numbers below their sum, so `select_response` chooses by weight. `selectsByWeight`
says it for every list of weights: each response is selected by as many of the drawn numbers as its
weight says.
-/

set_option autoImplicit false
set_option relaxedAutoImplicit false

namespace Maock.Answering

open Foundation Foundation.OrderedContainer Foundation.WeightedChoice

/-- The weights of responses. -/
def weightsOf (responses : List H2ServerResponse) : List ℕ :=
  responses.map H2ServerResponse.weight

/-! ### The map -/

/-- The map after the loop over the responses from some index on. -/
theorem foldl_addWeight_zipIdx {responses : List H2ServerResponse} {first totalWeight : ℕ}
    {distribution : OrderedMap ℕ natLess} (hkeys : ∀ entry ∈ distribution, entry.1 ≤ totalWeight)
    (hrange : totalWeight + (weightsOf responses).sum < 2 ^ 64) :
    ((responses.zipIdx first).foldl addWeight (totalWeight, distribution)).2.elems =
      distribution.elems ++ upperEnds totalWeight first (weightsOf responses) := by
  induction responses generalizing first totalWeight distribution with
  | nil => exact (List.append_nil _).symm
  | cons response rest ih =>
    rw [weightsOf, List.map_cons, List.sum_cons] at hrange
    rw [List.zipIdx_cons, List.foldl_cons, weightsOf, List.map_cons, upperEnds, addWeight]
    split_ifs with hzero
    · exact ih hkeys (by rw [weightsOf]; omega)
    · have hpositive : 0 < response.weight := Nat.pos_of_ne_zero hzero
      have htotal : (totalWeight + response.weight) % 2 ^ 64 = totalWeight + response.weight :=
        Nat.mod_eq_of_lt (by omega)
      have hnew : ∀ entry ∈ distribution,
          ¬ Equivalent natLess (totalWeight + response.weight) entry.1 := by
        intro entry hentry hequiv
        have hle := hkeys entry hentry
        have heq := (equivalent_natLess _ _).mp hequiv
        omega
      have hgreatest : ∀ entry ∈ distribution.elems,
          keyLess natLess entry (totalWeight + response.weight, first) = true := by
        intro entry hentry
        have hle := hkeys entry hentry
        simp only [keyLess, natLess, decide_eq_true_eq]
        omega
      have hinsert : (OrderedSet.insert (totalWeight + response.weight, first) distribution).elems =
          distribution.elems ++ [(totalWeight + response.weight, first)] :=
        insertUnique_eq_append hgreatest
      dsimp only
      rw [htotal, OrderedMap.eraseKey_of_forall hnew, ih ?_ (by rw [weightsOf]; omega)]
      · rw [hinsert, List.append_assoc]
        rfl
      · intro entry hentry
        rcases OrderedSet.mem_insert.mp hentry with hold | ⟨rfl, -⟩
        · have hle := hkeys entry hold
          omega
        · exact Nat.le_refl _

/-- The map has the ends of the intervals of the weights. -/
theorem elems_initDistributionMap {responses : List H2ServerResponse}
    (hrange : (weightsOf responses).sum < 2 ^ 64) :
    (initDistributionMap responses).elems = upperEnds 0 0 (weightsOf responses) := by
  refine (foldl_addWeight_zipIdx (fun entry hentry ↦ ?_) (by omega)).trans (List.nil_append _)
  exact absurd hentry (OrderedSet.not_mem_empty entry)

/-! ### The choice -/

namespace H2ServerResponseGroup

/-- `total_weight`: the drawn numbers are those below it. -/
def totalWeight (group : H2ServerResponseGroup) : ℕ :=
  match group.distributionMap.elems.getLast? with
  | some entry => entry.1
  | none => 1

variable {responses : List H2ServerResponse} (hrange : (weightsOf responses).sum < 2 ^ 64)

include hrange

theorem totalWeight_ofResponses (hpos : 0 < (weightsOf responses).sum) :
    (ofResponses responses).totalWeight = (weightsOf responses).sum := by
  have hlast := @getLast?_upperEnds 0 0 (weightsOf responses) hpos
  obtain ⟨entry, hentry, hend⟩ := Option.map_eq_some_iff.mp hlast
  rw [totalWeight, ofResponses, elems_initDistributionMap hrange, hentry]
  exact hend.trans (Nat.zero_add _)

/-- With several positive weights the drawn number chooses. -/
theorem selectResponse_of_several (hseveral : 1 < (weightsOf responses).countP (0 < ·)) {n : ℕ}
    (hn : n < (weightsOf responses).sum) :
    choose (weightsOf responses) n = some ((ofResponses responses).selectResponse n) := by
  have hends := find?_upperEnds 0 0 n (weightsOf responses)
  obtain ⟨position, weight, hchoose, -, -⟩ := exists_choose_eq_some hn
  have hsize : 1 < (ofResponses responses).distributionMap.size := by
    rw [OrderedSet.size, ofResponses, elems_initDistributionMap hrange, length_upperEnds]
    exact hseveral
  have hbound : OrderedMap.upperBound n (ofResponses responses).distributionMap =
      (upperEnds 0 0 (weightsOf responses)).find? fun entry ↦ decide (0 + n < entry.1) := by
    rw [OrderedMap.upperBound, ofResponses, elems_initDistributionMap hrange]
    simp only [natLess, Nat.zero_add]
  rw [hchoose] at hends ⊢
  obtain ⟨entry, hentry, hposition⟩ := Option.map_eq_some_iff.mp hends
  rw [selectResponse, if_pos hsize, hbound, hentry]
  exact congrArg some (hposition.trans (Nat.zero_add position)).symm

/-- When there is a positive weight, every number selects through an entry of the map. -/
theorem exists_entry_selectResponse (hpos : 0 < (weightsOf responses).sum) (n : ℕ) :
    ∃ entry ∈ upperEnds 0 0 (weightsOf responses),
      (ofResponses responses).selectResponse n = entry.2 := by
  have helems : (ofResponses responses).distributionMap.elems =
      upperEnds 0 0 (weightsOf responses) :=
    elems_initDistributionMap hrange
  have hfirst : ∃ entry ∈ upperEnds 0 0 (weightsOf responses),
      (ofResponses responses).firstIndex = entry.2 := by
    obtain ⟨last, hlast, -⟩ := Option.map_eq_some_iff.mp (@getLast?_upperEnds 0 0 _ hpos)
    have hhead := List.head?_eq_some_head (List.ne_nil_of_mem (List.mem_of_getLast? hlast))
    exact ⟨_, List.head_mem _, by rw [firstIndex, helems, hhead]⟩
  unfold selectResponse
  split_ifs
  · cases hfound : OrderedMap.upperBound n (ofResponses responses).distributionMap with
    | some entry => exact ⟨entry, helems ▸ List.mem_of_find?_eq_some hfound, rfl⟩
    | none => exact hfirst
  · exact hfirst

/-- When there is a positive weight, every number selects a response with a positive weight. -/
theorem exists_weight_selectResponse (hpos : 0 < (weightsOf responses).sum) (n : ℕ) :
    ∃ response, responses[(ofResponses responses).selectResponse n]? = some response ∧
      0 < response.weight := by
  obtain ⟨entry, hentry, hselected⟩ := exists_entry_selectResponse hrange hpos n
  obtain ⟨position, weight, hposition, hweight, hweightPos⟩ := exists_weight_of_mem_upperEnds hentry
  rw [weightsOf, List.getElem?_map] at hweight
  obtain ⟨response, hresponse, rfl⟩ := Option.map_eq_some_iff.mp hweight
  exact ⟨response, by rw [hselected, hposition, Nat.zero_add, hresponse], hweightPos⟩

/-- Without a positive weight the first response is selected. -/
theorem selectResponse_of_none (hnone : (weightsOf responses).sum = 0) (n : ℕ) :
    (ofResponses responses).selectResponse n = 0 := by
  have hempty : (ofResponses responses).distributionMap.elems = [] := by
    rw [ofResponses, elems_initDistributionMap hrange, List.eq_nil_iff_forall_not_mem]
    intro entry hentry
    have hbounds := mem_upperEnds_bounds hentry
    omega
  rw [selectResponse, if_neg (by rw [OrderedSet.size, hempty]; simp), firstIndex, hempty]
  rfl

omit hrange in
/-- The number of positive weights, counted among the responses. -/
theorem countP_weightsOf (responses : List H2ServerResponse) :
    (weightsOf responses).countP (0 < ·) =
      responses.countP fun response ↦ decide (0 < response.weight) :=
  List.countP_map

/-- With several positive weights a response is selected as often as its weight says. -/
theorem count_selectResponse (hseveral : 1 < (weightsOf responses).countP (0 < ·)) {index : ℕ}
    {response : H2ServerResponse} (hresponse : responses[index]? = some response) :
    Nat.count (fun n ↦ (ofResponses responses).selectResponse n = index)
      (weightsOf responses).sum = response.weight := by
  have hchosen : ∀ n < (weightsOf responses).sum,
      ((ofResponses responses).selectResponse n = index ↔
        choose (weightsOf responses) n = some index) := by
    intro n hn
    rw [selectResponse_of_several hrange hseveral hn, Option.some_inj]
  have hweight : (weightsOf responses).getD index 0 = response.weight := by
    rw [weightsOf, List.getD_eq_getElem?_getD, List.getElem?_map, hresponse]
    rfl
  rw [← hweight, ← count_choose]
  exact Nat.le_antisymm (Nat.count_mono_left fun n hn ↦ (hchosen n hn).mp)
    (Nat.count_mono_left fun n hn ↦ (hchosen n hn).mpr)

/-- What `select_response` owes to the weights of its responses: the numbers drawn are those below
the sum of the weights; every one selects a response with a positive weight, and so many of them a
response as its weight says, unless it has the only positive weight and is always selected; without
a positive weight the first response is selected. -/
structure SelectsByWeight (responses : List H2ServerResponse) : Prop where
  draws : 0 < (weightsOf responses).sum →
    (ofResponses responses).totalWeight = (weightsOf responses).sum
  positive : 0 < (weightsOf responses).sum → ∀ n < (weightsOf responses).sum,
    ∃ response, responses[(ofResponses responses).selectResponse n]? = some response ∧
      0 < response.weight
  count_eq : 1 < responses.countP (fun response ↦ decide (0 < response.weight)) →
    ∀ index response, responses[index]? = some response →
      Nat.count (fun n ↦ (ofResponses responses).selectResponse n = index)
        (weightsOf responses).sum = response.weight
  only : ∀ index response, responses[index]? = some response → 0 < response.weight →
    (∀ other otherResponse, responses[other]? = some otherResponse → other ≠ index →
      otherResponse.weight = 0) →
    ∀ n, (ofResponses responses).selectResponse n = index
  first : (weightsOf responses).sum = 0 → ∀ n, (ofResponses responses).selectResponse n = 0

end H2ServerResponseGroup

open H2ServerResponseGroup

/-- **Selection by weight is exact**, for weights whose sum the drawn `int` can hold. -/
theorem selectsByWeight (responses : List H2ServerResponse)
    (htotal : (weightsOf responses).sum ≤ 2 ^ 31) : SelectsByWeight responses := by
  have hrange : (weightsOf responses).sum < 2 ^ 64 := Nat.lt_of_le_of_lt htotal (by decide)
  refine ⟨totalWeight_ofResponses hrange,
    fun hpos n _ ↦ exists_weight_selectResponse hrange hpos n,
    fun hseveral index response hresponse ↦ ?_, fun index response hresponse hpos honly n ↦ ?_,
    selectResponse_of_none hrange⟩
  · exact count_selectResponse hrange ((countP_weightsOf responses).symm ▸ hseveral) hresponse
  · have hsum : 0 < (weightsOf responses).sum := List.sum_pos_iff_exists_pos_nat.mpr
      ⟨_, List.mem_map.mpr ⟨response, List.mem_of_getElem? hresponse, rfl⟩, hpos⟩
    obtain ⟨selected, hselected, hselectedPos⟩ := exists_weight_selectResponse hrange hsum n
    by_contra hne
    have hzero := honly _ selected hselected hne
    omega

/-- A response of a weight without header fields, payload and script. -/
def weighted (weight : ℕ) : H2ServerResponse where
  statusCode := 200
  additonalHeaders := []
  payload := ⟨[[]], []⟩
  hasLuaState := false
  luaOffload := false
  throttleRatio := 0
  weight := weight

/-- Three responses, the second of which is never selected. -/
theorem selectsByWeight_threeResponses :
    SelectsByWeight [weighted 2, weighted 0, weighted 1] :=
  selectsByWeight _ (by decide)

end Maock.Answering
