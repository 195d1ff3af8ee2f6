import Maock.Foundation.ClassNumbers
import Maock.Matching.Server

/-!
# The numbers of the rules

A match keeps its result under the number of its rule. `rulesNumbered` says what the numbers are
that `build_match_rule_unique_id` gives to the rules of all services: they lie below the number of
classes of rules that the order does not tell apart, and two rules have one number exactly when they
are of one class, in whatever services they stand. Nothing else of the services changes in the
rebuild.
-/

set_option autoImplicit false
set_option relaxedAutoImplicit false

namespace Maock.Matching

open Foundation Foundation.OrderedContainer

variable {ResponseGroup : Type*}

/-! ### The stored rules -/

/-- The rules of all services of a map. -/
def rulesOf (services : OrderedMap ResponseGroup H2ServerRequest.lt) : List MatchRule :=
  services.elems.flatMap fun service ↦ service.1.matchRules.elems

/-- A rule with its position among all rules of a map for its number. -/
def numbered (services : OrderedMap ResponseGroup H2ServerRequest.lt) (rule : MatchRule) :
    MatchRule :=
  { rule with uniqueId := (allMatchRules services).index rule }

theorem lt_numbered (services : OrderedMap ResponseGroup H2ServerRequest.lt) (a b : MatchRule) :
    MatchRule.lt (numbered services a) (numbered services b) = MatchRule.lt a b :=
  lt_setUniqueId _ a b

/-- The rules stored in a server are those of the services of its configuration, numbered. -/
theorem storedRules_ofConfig (config : List (SchemaService ResponseGroup)) :
    (H2Server.ofConfig config).storedRules =
      (rulesOf (configuredServices config)).map (numbered (configuredServices config)) := by
  rw [H2Server.storedRules, H2Server.ofConfig, elems_buildMatchRuleUniqueId, List.flatMap_map,
    rulesOf, List.map_flatMap]
  rfl

/-! ### What the numbers say -/

/-- The entry of a service before and after the rules are numbered. -/
structure SameService (before after : H2ServerRequest × ResponseGroup) : Prop where
  name : after.1.name = before.1.name
  requestIndex : after.1.requestIndex = before.1.requestIndex
  rules : List.Forall₂ MatchRule.SameRule before.1.matchRules.elems after.1.matchRules.elems
  responseGroup : after.2 = before.2

/-- The numbers of the rules of a server are those of their classes, and its services are the
configured ones. -/
structure RulesNumbered (config : List (SchemaService ResponseGroup)) : Prop where
  lt_classes : ∀ rule ∈ (H2Server.ofConfig config).storedRules,
    rule.uniqueId < (classes MatchRule.lt (H2Server.ofConfig config).storedRules).ncard
  eq_iff : ∀ a ∈ (H2Server.ofConfig config).storedRules,
    ∀ b ∈ (H2Server.ofConfig config).storedRules,
      a.uniqueId = b.uniqueId ↔ MatchRule.lt a b = false ∧ MatchRule.lt b a = false
  services : List.Forall₂ SameService (configuredServices config).elems
    (H2Server.ofConfig config).services.elems

theorem sameService_assignUniqueIds (all : OrderedSet MatchRule.lt)
    (service : H2ServerRequest × ResponseGroup) :
    SameService service (service.1.assignUniqueIds all, service.2) where
  name := rfl
  requestIndex := rfl
  rules := by
    refine List.forall₂_map_right_iff.mpr (List.forall₂_same.mpr fun rule _ ↦ ?_)
    exact ⟨rfl, rfl, rfl, rfl⟩
  responseGroup := rfl

/-- **The numbers identify the classes of rules**, over all services of every configuration. -/
theorem rulesNumbered (config : List (SchemaService ResponseGroup)) : RulesNumbered config := by
  constructor
  case lt_classes =>
    intro rule hrule
    rw [storedRules_ofConfig] at hrule ⊢
    obtain ⟨old, hold, rfl⟩ := List.mem_map.mp hrule
    rw [OrderedSet.ncard_classes_map (lt_numbered _)]
    exact OrderedSet.index_lt_ncard_classes hold
  case eq_iff =>
    intro a ha b hb
    rw [storedRules_ofConfig] at ha hb
    obtain ⟨first, hfirst, rfl⟩ := List.mem_map.mp ha
    obtain ⟨second, hsecond, rfl⟩ := List.mem_map.mp hb
    rw [lt_numbered, lt_numbered]
    exact OrderedSet.index_insertAll_eq_iff hfirst hsecond
  case services =>
    rw [H2Server.ofConfig, elems_buildMatchRuleUniqueId]
    refine List.forall₂_map_right_iff.mpr (List.forall₂_same.mpr fun service _ ↦ ?_)
    exact sameService_assignUniqueIds _ service

end Maock.Matching
