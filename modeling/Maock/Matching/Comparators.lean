import Maock.Foundation.SearchTree
import Maock.Matching.Request

/-!
# The comparators of rules and requests

Rules are kept in a `std::set` under `Match_Rule::operator<`, services in a `std::map` under
`H2Server_Request::operator<`. `comparatorsOrder` puts together what the containers need of the two
and what they then give: the trees may have any shape, and every rule and every request that is
stored is found.
-/

set_option autoImplicit false
set_option relaxedAutoImplicit false

namespace Maock.Matching

open Foundation Foundation.OrderedContainer Foundation.SearchTrees

/-- The comparators are strict weak orders, requests are told apart by their rules, and what is
stored is found. -/
structure ComparatorsOrder (ResponseGroup : Type*) : Prop where
  rules : IsStrictWeakOrder MatchRule (fun a b ↦ MatchRule.lt a b = true)
  requests : IsStrictWeakOrder H2ServerRequest (fun a b ↦ H2ServerRequest.lt a b = true)
  incomparable_iff : ∀ a b : H2ServerRequest,
    (H2ServerRequest.lt a b = false ∧ H2ServerRequest.lt b a = false) ↔
      a.matchRules.size = b.matchRules.size ∧
        List.Forall₂ (fun x y ↦ MatchRule.lt x y = false ∧ MatchRule.lt y x = false)
          a.matchRules.elems b.matchRules.elems
  finds_rule : ∀ matchRules : SearchTree id MatchRule.lt, ∀ rule ∈ matchRules,
    matchRules.find rule = some rule
  finds_request :
    ∀ services : SearchTree (Prod.fst : H2ServerRequest × ResponseGroup → H2ServerRequest)
      H2ServerRequest.lt, ∀ service ∈ services, services.find service.1 = some service

/-- **Both comparators are strict weak orders**, so lookups of stored rules and requests find
them. -/
theorem comparatorsOrder (ResponseGroup : Type*) : ComparatorsOrder ResponseGroup where
  rules := MatchRule.isStrictWeakOrder_lt
  requests := H2ServerRequest.isStrictWeakOrder_lt
  incomparable_iff a b := by
    refine (H2ServerRequest.equivalent_lt_iff a b).trans ⟨fun hrules ↦ ⟨?_, hrules⟩, And.right⟩
    exact hrules.length_eq
  finds_rule _ _ hrule := SearchTree.find_of_mem hrule
  finds_request _ _ hservice := SearchTree.find_of_mem hservice

end Maock.Matching
