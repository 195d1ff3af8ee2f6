import Maock.Answering.Template

/-!
# Response groups

`H2Server_Response_Group`: the responses of a service with the map from cumulative weights to
indices by which `select_response` chooses one of them. Responses of weight 0 are not in the map. A
group carries the proof that its map points to responses, so that `selectResponse_lt` holds for
every drawn number.
-/

set_option autoImplicit false
set_option relaxedAutoImplicit false

namespace Maock.Answering

open Foundation Foundation.OrderedContainer

/-! ### The distribution of the weights -/

/-- One turn of the loop over the responses with their indices: the weight so far, which is 64 bits
wide, and `distribution_map`. -/
def addWeight (distribution : ℕ × OrderedMap ℕ natLess) (response : H2ServerResponse × ℕ) :
    ℕ × OrderedMap ℕ natLess :=
  if response.1.weight = 0 then distribution
  else
    let totalWeight := (distribution.1 + response.1.weight) % 2 ^ 64
    (totalWeight,
      OrderedSet.insert (totalWeight, response.2)
        (OrderedMap.eraseKey totalWeight distribution.2))

/-- `init_distribution_map_and_total_weight`, as the map that it fills. -/
def initDistributionMap (responses : List H2ServerResponse) : OrderedMap ℕ natLess :=
  (responses.zipIdx.foldl addWeight (0, OrderedSet.empty _)).2

/-- An entry of the map is an old one or points to one of the responses. -/
theorem mem_addWeight {distribution : ℕ × OrderedMap ℕ natLess} {response : H2ServerResponse × ℕ}
    {entry : ℕ × ℕ} (hentry : entry ∈ (addWeight distribution response).2) :
    entry ∈ distribution.2 ∨ entry.2 = response.2 := by
  unfold addWeight at hentry
  split_ifs at hentry with hweight
  · exact Or.inl hentry
  · rcases OrderedSet.mem_insert.mp hentry with hold | ⟨rfl, -⟩
    · exact Or.inl (OrderedMap.mem_eraseKey.mp hold).1
    · exact Or.inr rfl

theorem mem_foldl_addWeight {responses : List (H2ServerResponse × ℕ)}
    {distribution : ℕ × OrderedMap ℕ natLess} {entry : ℕ × ℕ}
    (hentry : entry ∈ (responses.foldl addWeight distribution).2) :
    entry ∈ distribution.2 ∨ ∃ response ∈ responses, entry.2 = response.2 := by
  induction responses generalizing distribution with
  | nil => exact Or.inl hentry
  | cons response rest ih =>
    rcases ih hentry with hfirst | ⟨other, hother, heq⟩
    · rcases mem_addWeight hfirst with hold | heq
      · exact Or.inl hold
      · exact Or.inr ⟨response, List.mem_cons_self, heq⟩
    · exact Or.inr ⟨other, List.mem_cons_of_mem response hother, heq⟩

theorem index_lt_initDistributionMap {responses : List H2ServerResponse} {entry : ℕ × ℕ}
    (hentry : entry ∈ initDistributionMap responses) : entry.2 < responses.length := by
  rcases mem_foldl_addWeight hentry with hempty | ⟨⟨response, index⟩, hresponse, rfl⟩
  · exact absurd hempty (OrderedSet.not_mem_empty entry)
  · exact (List.getElem?_eq_some_iff.mp (List.mem_zipIdx_iff_getElem?.mp hresponse)).1

/-! ### Groups -/

/-- `H2Server_Response_Group`. -/
structure H2ServerResponseGroup where
  responses : List H2ServerResponse
  distributionMap : OrderedMap ℕ natLess
  index_lt : ∀ entry ∈ distributionMap, entry.2 < responses.length

namespace H2ServerResponseGroup

/-- `H2Server_Response_Group(responses_schema)`, from the responses built from the configured ones.
-/
def ofResponses (responses : List H2ServerResponse) : H2ServerResponseGroup where
  responses := responses
  distributionMap := initDistributionMap responses
  index_lt _ := index_lt_initDistributionMap

/-- `distribution_map.size() ? distribution_map.begin()->second : 0`. -/
def firstIndex (group : H2ServerResponseGroup) : ℕ :=
  match group.distributionMap.elems.head? with
  | some entry => entry.2
  | none => 0

/-- `select_response()` with the number that it draws when there are several positive weights. -/
def selectResponse (randomNumber : ℕ) (group : H2ServerResponseGroup) : ℕ :=
  if 1 < group.distributionMap.size then
    match OrderedMap.upperBound randomNumber group.distributionMap with
    | some entry => entry.2
    | none => group.firstIndex
  else group.firstIndex

theorem firstIndex_lt {group : H2ServerResponseGroup} (hresponses : group.responses ≠ []) :
    group.firstIndex < group.responses.length := by
  unfold firstIndex
  cases hhead : group.distributionMap.elems.head? with
  | some entry => exact group.index_lt entry (List.mem_of_mem_head? hhead)
  | none => exact List.length_pos_iff.mpr hresponses

/-- The response selected is one of the group, whatever number is drawn. -/
theorem selectResponse_lt {group : H2ServerResponseGroup} (hresponses : group.responses ≠ [])
    (randomNumber : ℕ) : group.selectResponse randomNumber < group.responses.length := by
  unfold selectResponse
  split_ifs with hseveral
  · cases hfound : OrderedMap.upperBound randomNumber group.distributionMap with
    | some entry => exact group.index_lt entry (List.mem_of_find?_eq_some hfound)
    | none => exact firstIndex_lt hresponses
  · exact firstIndex_lt hresponses

end H2ServerResponseGroup

end Maock.Answering
