import Maock.Matching.BestFit

/-!
# The order of the services in a configuration

The map of a server sorts its services by their requests, so two configurations with the same
services in different orders give maps that differ in nothing but the request indices. Neither the
numbering of the rules nor the walk of `get_matched_request` reads these. `selection_perm` is the
result: whatever results a message has stored already, both servers select the same service.
-/

set_option autoImplicit false
set_option relaxedAutoImplicit false

namespace Maock.Matching

open Foundation Foundation.OrderedContainer Foundation.Bytes Http

variable {ResponseGroup Document : Type*}

/-! ### Entries without their indices -/

/-- A stored service without its place in the configuration: the rules and the name of its request,
and its response group. -/
structure StoredService (ResponseGroup : Type*) where
  matchRules : OrderedSet MatchRule.lt
  name : Bytes
  responseGroup : ResponseGroup

/-- The service that an entry of the map stores. -/
def storedService (entry : H2ServerRequest × ResponseGroup) : StoredService ResponseGroup where
  matchRules := entry.1.matchRules
  name := entry.1.name
  responseGroup := entry.2

/-- The service as the constructor stores it, before its rules are numbered. -/
def SchemaService.stored (service : SchemaService ResponseGroup) : StoredService ResponseGroup :=
  storedService (H2ServerRequest.ofSchema service.request 0, service.responseGroup)

namespace StoredService

/-- The order of requests, which does not read the index. -/
def lt (a b : StoredService ResponseGroup) : Bool :=
  H2ServerRequest.lt ⟨a.matchRules, a.name, 0⟩ ⟨b.matchRules, b.name, 0⟩

instance isStrictWeakOrder_lt :
    IsStrictWeakOrder (StoredService ResponseGroup) (fun a b ↦ lt a b = true) where
  irrefl a := by simp [lt, less_irrefl]
  trans a b c := less_trans H2ServerRequest.lt
  incomp_trans a b c hab hbc := by
    simp only [Bool.not_eq_true] at hab hbc ⊢
    have hab' : Equivalent H2ServerRequest.lt _ _ := hab
    exact hab'.trans hbc

/-- The service with its rules numbered by their position in the set of all rules. -/
def assignUniqueIds (all : OrderedSet MatchRule.lt) (service : StoredService ResponseGroup) :
    StoredService ResponseGroup :=
  { service with
    matchRules := (H2ServerRequest.assignUniqueIds all
      ⟨service.matchRules, service.name, 0⟩).matchRules }

end StoredService

theorem map_storedService_serviceEntries (config : List (SchemaService ResponseGroup)) :
    (serviceEntries config).map storedService = config.map SchemaService.stored := by
  have hstored : ∀ service : SchemaService ResponseGroup × ℕ,
      storedService (H2ServerRequest.ofSchema service.1.request service.2,
        service.1.responseGroup) = service.1.stored := fun _ ↦ rfl
  rw [serviceEntries, List.map_map]
  calc config.zipIdx.map _ = config.zipIdx.map (SchemaService.stored ∘ Prod.fst) := rfl
    _ = (config.zipIdx.map Prod.fst).map SchemaService.stored := (List.map_map ..).symm
    _ = config.map SchemaService.stored := by rw [List.zipIdx_map_fst]

/-- No two services have equivalent requests, stated without their places. -/
theorem requestsToldApart_iff (config : List (SchemaService ResponseGroup)) :
    RequestsToldApart config ↔ (config.map SchemaService.stored).Pairwise
      fun a b ↦ ¬ Equivalent StoredService.lt a b := by
  rw [← map_storedService_serviceEntries, List.pairwise_map]
  rfl

/-! ### The maps of two orders -/

/-- The map of a configuration holds all of its services when their requests are told apart. -/
theorem map_storedService_perm {config : List (SchemaService ResponseGroup)}
    (hrequests : RequestsToldApart config) :
    ((configuredServices config).elems.map storedService).Perm
      (config.map SchemaService.stored) := by
  rw [← map_storedService_serviceEntries]
  have hkeys : (serviceEntries config).Pairwise fun a b ↦
      ¬ Equivalent (keyLess H2ServerRequest.lt) a b := hrequests
  exact (OrderedSet.elems_insertAll_perm hkeys).map storedService

/-- The maps of two orders of one configuration hold the same services in the same order. -/
theorem map_storedService_eq {config config' : List (SchemaService ResponseGroup)}
    (hperm : config.Perm config') (hrequests : RequestsToldApart config) :
    (configuredServices config).elems.map storedService =
      (configuredServices config').elems.map storedService := by
  have hstored := hperm.map SchemaService.stored
  have hrequests' : RequestsToldApart config' := by
    rw [requestsToldApart_iff] at hrequests ⊢
    exact hrequests.perm hstored fun hab hba ↦ hab hba.symm
  refine @OrderedSet.eq_of_perm_of_sorted _ StoredService.lt _ _ _ ?_ ?_ ?_
  · exact List.pairwise_map.mpr (configuredServices config).sorted
  · exact List.pairwise_map.mpr (configuredServices config').sorted
  · exact ((map_storedService_perm hrequests).trans hstored).trans
      (map_storedService_perm hrequests').symm

theorem allMatchRules_eq (services : OrderedMap ResponseGroup H2ServerRequest.lt) :
    allMatchRules services = (OrderedSet.empty MatchRule.lt).insertAll
      ((services.elems.map storedService).flatMap fun service ↦ service.matchRules.elems) := by
  rw [List.flatMap_map]
  rfl

theorem map_storedService_buildMatchRuleUniqueId
    (services : OrderedMap ResponseGroup H2ServerRequest.lt) :
    (buildMatchRuleUniqueId services).elems.map storedService =
      (services.elems.map storedService).map
        (StoredService.assignUniqueIds (allMatchRules services)) := by
  rw [elems_buildMatchRuleUniqueId, List.map_map, List.map_map]
  rfl

/-- The servers of two orders of one configuration store the same services in the same order, with
the same numbers. -/
theorem map_storedService_ofConfig {config config' : List (SchemaService ResponseGroup)}
    (hperm : config.Perm config') (hrequests : RequestsToldApart config) :
    (H2Server.ofConfig config).services.elems.map storedService =
      (H2Server.ofConfig config').services.elems.map storedService := by
  have hservices := map_storedService_eq hperm hrequests
  have hall : allMatchRules (configuredServices config) =
      allMatchRules (configuredServices config') := by
    rw [allMatchRules_eq, allMatchRules_eq, hservices]
  unfold H2Server.ofConfig
  dsimp only
  rw [map_storedService_buildMatchRuleUniqueId, map_storedService_buildMatchRuleUniqueId,
    hservices, hall]

/-! ### The walk -/

/-- A match reads the rules of a request only. -/
theorem matches_eq_of_storedService_eq (libraries : MatchLibraries Document)
    {a b : H2ServerRequest × ResponseGroup} (hab : storedService a = storedService b)
    (msg : RequestMessage Document) :
    a.1.matches libraries msg = b.1.matches libraries msg := by
  have hrules : a.1.matchRules = b.1.matchRules := congrArg StoredService.matchRules hab
  rw [H2ServerRequest.matches, hrules]
  rfl

/-- The walk over the same services in the same order ends at the same service. -/
theorem map_storedService_findMatched (libraries : MatchLibraries Document)
    {services services' : List (H2ServerRequest × ResponseGroup)}
    (hservices : services.map storedService = services'.map storedService)
    (msg : RequestMessage Document) :
    (findMatched libraries services msg).1.map storedService =
      (findMatched libraries services' msg).1.map storedService := by
  induction services generalizing services' msg with
  | nil =>
    obtain rfl : services' = [] := List.map_eq_nil_iff.mp hservices.symm
    rfl
  | cons service rest ih =>
    obtain ⟨service', rest', rfl, hservice, hrest⟩ := List.map_eq_cons_iff.mp hservices.symm
    have hmatches := matches_eq_of_storedService_eq libraries hservice msg
    dsimp only [findMatched]
    rw [hmatches]
    split_ifs
    · exact congrArg some hservice.symm
    · exact ih hrest.symm _

/-- The service that `get_matched_request` selects, without its place in the configuration. -/
def H2Server.selection (server : H2Server ResponseGroup) (libraries : MatchLibraries Document)
    (msg : RequestMessage Document) : Option (StoredService ResponseGroup) :=
  (server.getMatchedRequest libraries msg).1.service.map storedService

/-- **The selection does not depend on the order of the services** in the configuration. Assumes
that no two services have equivalent requests. -/
theorem selection_perm (libraries : MatchLibraries Document)
    {config config' : List (SchemaService ResponseGroup)} (hperm : config.Perm config')
    (hrequests : RequestsToldApart config) (msg : RequestMessage Document) :
    (H2Server.ofConfig config).selection libraries msg =
      (H2Server.ofConfig config').selection libraries msg := by
  refine map_storedService_findMatched libraries ?_ msg
  rw [List.map_reverse, List.map_reverse, map_storedService_ofConfig hperm hrequests]

/-- `nestedServices` in the other order. -/
theorem selection_perm_nestedServices :
    (H2Server.ofConfig nestedServices).selection oneDocumentLibraries
        (RequestMessage.ofRequest oneDocumentLibraries oneDocumentRequest) =
      (H2Server.ofConfig nestedServices.reverse).selection oneDocumentLibraries
        (RequestMessage.ofRequest oneDocumentLibraries oneDocumentRequest) :=
  selection_perm oneDocumentLibraries (List.reverse_perm nestedServices).symm (by decide) _

end Maock.Matching
