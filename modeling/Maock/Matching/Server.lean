import Maock.Matching.Request

/-!
# The matching server

`H2Server`: the map from requests to response groups built from the services of a configuration,
and the numbering of its rules. `configuredServices` is the map that the constructor fills,
`buildMatchRuleUniqueId` the rebuild that numbers the rules by their position in the set of all
rules and inserts every entry into a new map. `mem_services_ofConfig` and
`mem_services_ofConfig_of_unique` say what the rebuilt map holds.

The result is the identity of rules, `ruleIdentity_iff`: the order tells the rules of a
configuration apart, no request loses a rule and no service is merged into another, exactly when no
two configured rules differ only in the boundaries of their fields.
-/

set_option autoImplicit false
set_option relaxedAutoImplicit false

namespace Maock.Matching

open Foundation Foundation.OrderedContainer Foundation.Bytes Http

variable {ResponseGroup : Type*}

/-! ### Construction -/

/-- `Schema_Service`, with the response group that the constructor of `H2Server_Service` builds
from its responses. -/
structure SchemaService (ResponseGroup : Type*) where
  request : SchemaRequestMatch
  responseGroup : ResponseGroup

/-- `H2Server`. -/
structure H2Server (ResponseGroup : Type*) where
  services : OrderedMap ResponseGroup H2ServerRequest.lt

/-- The entries that the constructor of `H2Server` inserts, in its order. -/
def serviceEntries (config : List (SchemaService ResponseGroup)) :
    List (H2ServerRequest × ResponseGroup) :=
  config.zipIdx.map fun service ↦
    (H2ServerRequest.ofSchema service.1.request service.2, service.1.responseGroup)

/-- The numbering of a rule changes nothing that the order sees. -/
theorem lt_setUniqueId (number : MatchRule → ℕ) (a b : MatchRule) :
    MatchRule.lt { a with uniqueId := number a } { b with uniqueId := number b } =
      MatchRule.lt a b :=
  rfl

/-- The rules of a request numbered by their position in the set of all rules. -/
def H2ServerRequest.assignUniqueIds (allMatchRules : OrderedSet MatchRule.lt)
    (request : H2ServerRequest) : H2ServerRequest :=
  { request with
    matchRules := request.matchRules.mapInvariant
      (fun rule ↦ { rule with uniqueId := allMatchRules.index rule })
      (lt_setUniqueId allMatchRules.index) }

/-- The set of all rules of a map of services. -/
def allMatchRules (services : OrderedMap ResponseGroup H2ServerRequest.lt) :
    OrderedSet MatchRule.lt :=
  (OrderedSet.empty MatchRule.lt).insertAll
    (services.elems.flatMap fun service ↦ service.1.matchRules.elems)

/-- `build_match_rule_unique_id`. -/
def buildMatchRuleUniqueId (services : OrderedMap ResponseGroup H2ServerRequest.lt) :
    OrderedMap ResponseGroup H2ServerRequest.lt :=
  (OrderedSet.empty _).insertAll
    (services.elems.map fun service ↦
      (service.1.assignUniqueIds (allMatchRules services), service.2))

/-- The map of services before the rules are numbered. -/
def configuredServices (config : List (SchemaService ResponseGroup)) :
    OrderedMap ResponseGroup H2ServerRequest.lt :=
  (OrderedSet.empty _).insertAll (serviceEntries config)

/-- `H2Server(config_schema)`. -/
def H2Server.ofConfig (config : List (SchemaService ResponseGroup)) : H2Server ResponseGroup where
  services := buildMatchRuleUniqueId (configuredServices config)

/-- All rules that the services of a configuration name. -/
def configuredRules (config : List (SchemaService ResponseGroup)) : List MatchRule :=
  config.flatMap fun service ↦ service.request.rules

/-- The rules stored in a server. -/
def H2Server.storedRules (server : H2Server ResponseGroup) : List MatchRule :=
  server.services.elems.flatMap fun service ↦ service.1.matchRules.elems

/-! ### What the server stores -/

/-- The numbering leaves the order of requests as it was. -/
theorem lt_assignUniqueIds (all : OrderedSet MatchRule.lt) (a b : H2ServerRequest) :
    H2ServerRequest.lt (a.assignUniqueIds all) (b.assignUniqueIds all) =
      H2ServerRequest.lt a b := by
  have hlockstep := lockstepLess_map (lt_setUniqueId all.index) a.matchRules.elems.reverse
    b.matchRules.elems.reverse
  simp only [H2ServerRequest.lt, H2ServerRequest.assignUniqueIds, OrderedSet.mapInvariant,
    OrderedSet.size, List.length_map, ← List.map_reverse, hlockstep]
  rfl

/-- The rebuilt map has the entries of the old one in their order, with numbered rules. -/
theorem elems_buildMatchRuleUniqueId (services : OrderedMap ResponseGroup H2ServerRequest.lt) :
    (buildMatchRuleUniqueId services).elems = services.elems.map fun service ↦
      (service.1.assignUniqueIds (allMatchRules services), service.2) := by
  refine OrderedSet.elems_insertAll_of_sorted ?_
  rw [List.pairwise_map]
  refine services.sorted.imp fun {a b} hab ↦ ?_
  rw [keyLess, lt_assignUniqueIds]
  exact hab

/-- The entries of the rebuilt map are the entries of the old one with numbered rules. -/
theorem mem_buildMatchRuleUniqueId {services : OrderedMap ResponseGroup H2ServerRequest.lt}
    {entry : H2ServerRequest × ResponseGroup} :
    entry ∈ buildMatchRuleUniqueId services ↔ ∃ service ∈ services,
      (service.1.assignUniqueIds (allMatchRules services), service.2) = entry := by
  rw [OrderedSet.mem_def, elems_buildMatchRuleUniqueId]
  exact List.mem_map

/-- The entry of a service at a position of the configuration. -/
theorem mem_serviceEntries {config : List (SchemaService ResponseGroup)}
    {entry : H2ServerRequest × ResponseGroup} :
    entry ∈ serviceEntries config ↔ ∃ index service, config[index]? = some service ∧
      entry = (H2ServerRequest.ofSchema service.request index, service.responseGroup) := by
  simp only [serviceEntries, List.mem_map, List.mem_zipIdx_iff_getElem?, Prod.exists]
  constructor
  · rintro ⟨service, index, hservice, rfl⟩
    exact ⟨index, service, hservice, rfl⟩
  · rintro ⟨index, service, hservice, rfl⟩
    exact ⟨service, index, hservice, rfl⟩

/-- A rule kept by the set of a request is one of its configured rules. -/
theorem mem_rules_of_mem_matchRules {request : SchemaRequestMatch} {index : ℕ} {rule : MatchRule}
    (hrule : rule ∈ (H2ServerRequest.ofSchema request index).matchRules) :
    rule ∈ request.rules :=
  (OrderedSet.mem_or_mem_of_mem_insertAll hrule).resolve_left (OrderedSet.not_mem_empty rule)

/-- Every configured rule is represented in the set of its request by one that the order does not
tell apart from it. -/
theorem exists_equivalent_mem_matchRules {request : SchemaRequestMatch} (index : ℕ)
    {rule : MatchRule} (hrule : rule ∈ request.rules) :
    ∃ kept ∈ (H2ServerRequest.ofSchema request index).matchRules,
      Equivalent MatchRule.lt rule kept :=
  OrderedSet.exists_equivalent_insertAll hrule

/-- The entries stored in a server come from its configuration, with numbered rules. -/
theorem mem_services_ofConfig {config : List (SchemaService ResponseGroup)}
    {entry : H2ServerRequest × ResponseGroup}
    (hentry : entry ∈ (H2Server.ofConfig config).services) :
    ∃ index service, config[index]? = some service ∧
      entry = ((H2ServerRequest.ofSchema service.request index).assignUniqueIds
        (allMatchRules (configuredServices config)), service.responseGroup) := by
  obtain ⟨old, hold, rfl⟩ := mem_buildMatchRuleUniqueId.mp hentry
  have hmem := (OrderedSet.mem_or_mem_of_mem_insertAll hold).resolve_left
    (OrderedSet.not_mem_empty old)
  obtain ⟨index, service, hservice, rfl⟩ := mem_serviceEntries.mp hmem
  exact ⟨index, service, hservice, rfl⟩

/-- A service of the configuration is stored when no other service has an equivalent request. -/
theorem mem_services_ofConfig_of_unique {config : List (SchemaService ResponseGroup)} {index : ℕ}
    {service : SchemaService ResponseGroup} (hservice : config[index]? = some service)
    (hunique : ∀ other otherService, config[other]? = some otherService → other ≠ index →
      ¬ Equivalent H2ServerRequest.lt (H2ServerRequest.ofSchema service.request index)
        (H2ServerRequest.ofSchema otherService.request other)) :
    ((H2ServerRequest.ofSchema service.request index).assignUniqueIds
      (allMatchRules (configuredServices config)), service.responseGroup) ∈
        (H2Server.ofConfig config).services := by
  refine mem_buildMatchRuleUniqueId.mpr
    ⟨(H2ServerRequest.ofSchema service.request index, service.responseGroup), ?_, rfl⟩
  refine OrderedSet.mem_insertAll_of_unique (mem_serviceEntries.mpr ⟨index, service, hservice, rfl⟩)
    (fun entry hentry ↦ absurd hentry (OrderedSet.not_mem_empty entry)) fun entry hentry hequiv ↦ ?_
  obtain ⟨other, otherService, hother, rfl⟩ := mem_serviceEntries.mp hentry
  by_cases hindex : other = index
  · subst hindex
    rw [hservice, Option.some_inj] at hother
    rw [hother]
  · exact absurd hequiv (hunique other otherService hother hindex)

/-! ### Identity of rules -/

/-- Two lists of rules name the same set of rules. -/
def SameRuleSet (first second : List MatchRule) : Prop :=
  (∀ rule ∈ first, ∃ other ∈ second, MatchRule.SameRule rule other) ∧
    ∀ rule ∈ second, ∃ other ∈ first, MatchRule.SameRule rule other

/-- The identity of rules in a configuration: two rules are not ordered exactly when their four
fields agree; the set of every request keeps every configured rule; and the map of services keeps
every service whose rule set differs from those of all others, with all its rules. -/
structure RuleIdentity (config : List (SchemaService ResponseGroup)) : Prop where
  identity : ∀ a ∈ configuredRules config, ∀ b ∈ configuredRules config,
    (MatchRule.lt a b = false ∧ MatchRule.lt b a = false) ↔ MatchRule.SameRule a b
  rules_kept : ∀ service ∈ config, ∀ index, ∀ rule ∈ service.request.rules,
    ∃ kept ∈ (H2ServerRequest.ofSchema service.request index).matchRules,
      MatchRule.SameRule rule kept
  services_kept : ∀ index service, config[index]? = some service →
    (∀ other otherService, config[other]? = some otherService → other ≠ index →
      ¬ SameRuleSet service.request.rules otherService.request.rules) →
    ∃ entry ∈ (H2Server.ofConfig config).services, entry.1.requestIndex = index ∧
      entry.2 = service.responseGroup ∧
      ∀ rule ∈ service.request.rules, ∃ kept ∈ entry.1.matchRules, MatchRule.SameRule rule kept

theorem rules_subset_configuredRules {config : List (SchemaService ResponseGroup)} {index : ℕ}
    {service : SchemaService ResponseGroup} (hservice : config[index]? = some service)
    {rule : MatchRule} (hrule : rule ∈ service.request.rules) : rule ∈ configuredRules config :=
  List.mem_flatMap.mpr ⟨service, List.mem_of_getElem? hservice, hrule⟩

/-- Requests that the order does not tell apart have the same rule sets, when the order tells rules
apart. -/
theorem sameRuleSet_of_equivalent {first second : SchemaRequestMatch} {i j : ℕ}
    (hidentity : ∀ a ∈ first.rules, ∀ b ∈ second.rules, Equivalent MatchRule.lt a b →
      MatchRule.SameRule a b)
    (hequiv : Equivalent H2ServerRequest.lt (H2ServerRequest.ofSchema first i)
      (H2ServerRequest.ofSchema second j)) :
    ∀ rule ∈ first.rules, ∃ other ∈ second.rules, MatchRule.SameRule rule other := by
  intro rule hrule
  have hrules := (H2ServerRequest.equivalent_lt_iff _ _).mp hequiv
  obtain ⟨kept, hkept, hruleKept⟩ := exists_equivalent_mem_matchRules i hrule
  obtain ⟨n, hn, hget⟩ := List.getElem_of_mem hkept
  rw [List.forall₂_iff_get] at hrules
  have hpartner := hrules.2 n hn (hrules.1 ▸ hn)
  simp only [List.get_eq_getElem, hget] at hpartner
  have hother := mem_rules_of_mem_matchRules (OrderedSet.mem_def.mpr
    (List.getElem_mem (hrules.1 ▸ hn)))
  exact ⟨_, hother, hidentity rule hrule _ hother (hruleKept.trans hpartner)⟩

/-- The identity of rules follows when no two configured rules differ only in the boundaries of
their fields. -/
theorem ruleIdentity_of_not_fieldBoundariesDiffer {config : List (SchemaService ResponseGroup)}
    (hboundaries : ∀ a ∈ configuredRules config, ∀ b ∈ configuredRules config,
      ¬ MatchRule.FieldBoundariesDiffer a b) : RuleIdentity config := by
  have hidentity : ∀ a ∈ configuredRules config, ∀ b ∈ configuredRules config,
      (Equivalent MatchRule.lt a b ↔ MatchRule.SameRule a b) := fun a ha b hb ↦
    (MatchRule.equivalent_iff_sameRule_iff a b).mpr (hboundaries a ha b hb)
  have hkept : ∀ service ∈ config, ∀ index, ∀ rule ∈ service.request.rules,
      ∃ kept ∈ (H2ServerRequest.ofSchema service.request index).matchRules,
        MatchRule.SameRule rule kept := by
    intro service hservice index rule hrule
    obtain ⟨kept, hkept, hequiv⟩ := exists_equivalent_mem_matchRules index hrule
    have hruleMem : rule ∈ configuredRules config :=
      List.mem_flatMap.mpr ⟨service, hservice, hrule⟩
    have hkeptMem : kept ∈ configuredRules config :=
      List.mem_flatMap.mpr ⟨service, hservice, mem_rules_of_mem_matchRules hkept⟩
    exact ⟨kept, hkept, (hidentity rule hruleMem kept hkeptMem).mp hequiv⟩
  refine ⟨hidentity, hkept, fun index service hservice hdiffer ↦ ?_⟩
  refine ⟨_, mem_services_ofConfig_of_unique hservice fun other otherService hother hne hequiv ↦ ?_,
    rfl, rfl, fun rule hrule ↦ ?_⟩
  · refine hdiffer other otherService hother hne ⟨?_, ?_⟩
    · exact sameRuleSet_of_equivalent (fun a ha b hb ↦ (hidentity a
        (rules_subset_configuredRules hservice ha) b (rules_subset_configuredRules hother hb)).mp)
        hequiv
    · exact sameRuleSet_of_equivalent (fun a ha b hb ↦ (hidentity a
        (rules_subset_configuredRules hother ha) b (rules_subset_configuredRules hservice hb)).mp)
        hequiv.symm
  · obtain ⟨kept, hkeptMem, hsame⟩ :=
      hkept service (List.mem_of_getElem? hservice) index rule hrule
    exact ⟨{ kept with uniqueId := (allMatchRules (configuredServices config)).index kept },
      List.mem_map.mpr ⟨kept, hkeptMem, rfl⟩, hsame⟩

/-- The identity of rules holds in a configuration exactly when no two of its rules are of one kind
and match type and have fields that glue to the same string with different boundaries. -/
theorem ruleIdentity_iff (config : List (SchemaService ResponseGroup)) :
    RuleIdentity config ↔ ∀ a ∈ configuredRules config, ∀ b ∈ configuredRules config,
      ¬ MatchRule.FieldBoundariesDiffer a b :=
  ⟨fun h a ha b hb ↦ (MatchRule.equivalent_iff_sameRule_iff a b).mp (h.identity a ha b hb),
    ruleIdentity_of_not_fieldBoundariesDiffer⟩

/-- A request with two `EqualsTo` header rules, `x-id` equal to `1` and `x-i` equal to `d1`. -/
def splitHeaderRequest : SchemaRequestMatch where
  headerMatch := [⟨ascii "EqualsTo", ascii "x-id", ascii "1"⟩,
    ⟨ascii "EqualsTo", ascii "x-i", ascii "d1"⟩]
  payloadMatch := []
  name := ascii "split"

/-- The two rules of `splitHeaderRequest` glue to `0x-id1`: neither is less than the other, and the
set of the request keeps only one of them. -/
theorem not_ruleIdentity_splitHeaderRequest :
    ¬ RuleIdentity [SchemaService.mk splitHeaderRequest ()] ∧
      (H2ServerRequest.ofSchema splitHeaderRequest 0).matchRules.size = 1 := by
  refine ⟨fun h ↦ ?_, by decide⟩
  have hsplit := (MatchRule.equivalent_iff_sameRule_iff _ _).mp
    (h.identity (MatchRule.ofHeaderMatch ⟨ascii "EqualsTo", ascii "x-id", ascii "1"⟩) (by decide)
      (MatchRule.ofHeaderMatch ⟨ascii "EqualsTo", ascii "x-i", ascii "d1"⟩) (by decide))
  exact hsplit (by decide)

end Maock.Matching
