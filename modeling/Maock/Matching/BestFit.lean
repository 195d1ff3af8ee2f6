import Mathlib.Data.Int.Notation
import Mathlib.Data.List.Dedup
import Maock.Matching.Server

/-!
# Best-fit matching

`get_matched_request` walks the services of a server from the greatest request down and answers with
the first that matches. `findMatched_spec` says that under the invariants of the stored results the
walk is a search by direct evaluation, and `sameRule_of_uniqueId_eq` that the numbers of a server
identify its rules when the order tells different rules apart.

The result is `getMatchedRequest_bestFit`: after any earlier match calls on a message, the service
found is a service of the configuration all of whose rules hold by direct evaluation, with the most
distinct rules among these, and none is found exactly when there is no such service.
-/

set_option autoImplicit false
set_option relaxedAutoImplicit false

namespace Maock.Matching

open Foundation Foundation.OrderedContainer Foundation.Bytes Http

variable {ResponseGroup Document : Type*}

/-! ### The walk over the services -/

/-- The loop of `get_matched_request`: the entries in turn, until one matches. -/
def findMatched (libraries : MatchLibraries Document) :
    List (H2ServerRequest × ResponseGroup) → RequestMessage Document →
      Option (H2ServerRequest × ResponseGroup) × RequestMessage Document
  | [], msg => (none, msg)
  | service :: rest, msg =>
    let (matched, msg) := service.1.matches libraries msg
    if matched then (some service, msg) else findMatched libraries rest msg

/-- What `get_matched_request` gives back: `matched_request_index` and the entry that the iterator
stands at, where `none` is `services.rend()`. -/
structure MatchedRequest (ResponseGroup : Type*) where
  index : ℤ
  service : Option (H2ServerRequest × ResponseGroup)

/-- `get_matched_request`. -/
def H2Server.getMatchedRequest (server : H2Server ResponseGroup)
    (libraries : MatchLibraries Document) (msg : RequestMessage Document) :
    MatchedRequest ResponseGroup × RequestMessage Document :=
  let (found, msg) := findMatched libraries server.services.elems.reverse msg
  let index : ℤ :=
    match found with
    | some service => service.1.requestIndex
    | none => -1
  (⟨index, found⟩, msg)

/-- The walk ends at one of the entries. -/
theorem mem_of_findMatched {libraries : MatchLibraries Document}
    {services : List (H2ServerRequest × ResponseGroup)} {msg : RequestMessage Document}
    {service : H2ServerRequest × ResponseGroup}
    (hfound : (findMatched libraries services msg).1 = some service) : service ∈ services := by
  induction services generalizing msg with
  | nil => exact absurd hfound (by simp [findMatched])
  | cons first rest ih =>
    dsimp only [findMatched] at hfound
    split_ifs at hfound with hmatched
    · exact List.mem_cons.mpr (Or.inl (Option.some.inj hfound).symm)
    · exact List.mem_cons_of_mem first (ih hfound)

/-- `get_matched_request` finds a stored entry and gives its index, or it finds none and gives -1.
-/
theorem H2Server.getMatchedRequest_cases (server : H2Server ResponseGroup)
    (libraries : MatchLibraries Document) (msg : RequestMessage Document) :
    (∃ service ∈ server.services, (server.getMatchedRequest libraries msg).1 =
        ⟨service.1.requestIndex, some service⟩) ∨
      (server.getMatchedRequest libraries msg).1 = ⟨-1, none⟩ := by
  unfold H2Server.getMatchedRequest
  cases hfound : (findMatched libraries server.services.elems.reverse msg).1 with
  | some service =>
    exact Or.inl ⟨service, List.mem_reverse.mp (mem_of_findMatched hfound), by simp [hfound]⟩
  | none => exact Or.inr (by simp [hfound])

/-- A match call on a message: of one rule, of one request, or of the whole server. -/
inductive MatchCall where
  | rule (rule : MatchRule)
  | request (request : H2ServerRequest)
  | matchedRequest

/-- The rules and requests of a match call are those of the server. -/
def MatchCall.MadeBy (server : H2Server ResponseGroup) : MatchCall → Prop
  | .rule matchRule => matchRule ∈ server.storedRules
  | .request matchRequest => ∃ service ∈ server.services, service.1 = matchRequest
  | .matchedRequest => True

/-- The message that a match call leaves. -/
def MatchCall.perform (server : H2Server ResponseGroup) (libraries : MatchLibraries Document)
    (msg : RequestMessage Document) : MatchCall → RequestMessage Document
  | .rule matchRule => (matchRule.matchMessage libraries msg).2
  | .request matchRequest => (matchRequest.matches libraries msg).2
  | .matchedRequest => (server.getMatchedRequest libraries msg).2

/-! ### What the numbers identify -/

/-- The order tells any two different rules of a configuration apart. -/
def RulesToldApart (config : List (SchemaService ResponseGroup)) : Prop :=
  ∀ a ∈ configuredRules config, ∀ b ∈ configuredRules config,
    MatchRule.lt a b = false → MatchRule.lt b a = false → MatchRule.SameRule a b

/-- No two services of a configuration have equivalent requests. -/
def RequestsToldApart (config : List (SchemaService ResponseGroup)) : Prop :=
  (serviceEntries config).Pairwise fun a b ↦ ¬ Equivalent H2ServerRequest.lt a.1 b.1

instance decidableRulesToldApart (config : List (SchemaService ResponseGroup)) :
    Decidable (RulesToldApart config) :=
  inferInstanceAs (Decidable (∀ a ∈ configuredRules config, ∀ b ∈ configuredRules config,
    MatchRule.lt a b = false → MatchRule.lt b a = false → MatchRule.SameRule a b))

instance decidableRequestsToldApart (config : List (SchemaService ResponseGroup)) :
    Decidable (RequestsToldApart config) :=
  inferInstanceAs (Decidable (List.Pairwise _ _))

/-- A rule stored in a server is a configured rule with its position among all rules. -/
theorem mem_storedRules_ofConfig {config : List (SchemaService ResponseGroup)} {rule : MatchRule}
    (hrule : rule ∈ (H2Server.ofConfig config).storedRules) :
    ∃ original ∈ configuredRules config,
      (∃ z ∈ allMatchRules (configuredServices config), Equivalent MatchRule.lt original z) ∧
        rule = { original with
          uniqueId := (allMatchRules (configuredServices config)).index original } := by
  obtain ⟨entry, hentry, hmem⟩ := List.mem_flatMap.mp hrule
  obtain ⟨old, hold, rfl⟩ := mem_buildMatchRuleUniqueId.mp hentry
  obtain ⟨original, horiginal, rfl⟩ := List.mem_map.mp hmem
  have hall : ∃ z ∈ allMatchRules (configuredServices config),
      Equivalent MatchRule.lt original z :=
    OrderedSet.exists_equivalent_insertAll (List.mem_flatMap.mpr ⟨old, hold, horiginal⟩)
  have hinserted := (OrderedSet.mem_or_mem_of_mem_insertAll hold).resolve_left
    (OrderedSet.not_mem_empty old)
  obtain ⟨index, service, hservice, rfl⟩ := mem_serviceEntries.mp hinserted
  exact ⟨original, rules_subset_configuredRules hservice (mem_rules_of_mem_matchRules horiginal),
    hall, rfl⟩

/-- Two rules of a server with one number have the same four fields. -/
theorem sameRule_of_uniqueId_eq {config : List (SchemaService ResponseGroup)}
    (hapart : RulesToldApart config) :
    ∀ a ∈ (H2Server.ofConfig config).storedRules, ∀ b ∈ (H2Server.ofConfig config).storedRules,
      a.uniqueId = b.uniqueId → MatchRule.SameRule a b := by
  intro a ha b hb hid
  obtain ⟨first, hfirst, hfirstAll, rfl⟩ := mem_storedRules_ofConfig ha
  obtain ⟨second, hsecond, hsecondAll, rfl⟩ := mem_storedRules_ofConfig hb
  have hequiv := (OrderedSet.index_eq_iff hfirstAll hsecondAll).mp hid
  exact hapart first hfirst second hsecond hequiv.1 hequiv.2

/-! ### The walk is a search by direct evaluation -/

section Walk

variable {libraries : MatchLibraries Document} {rules : List MatchRule}
  (hids : ∀ a ∈ rules, ∀ b ∈ rules, a.uniqueId = b.uniqueId → MatchRule.SameRule a b)

include hids

/-- The specification of the loop. Assumes that the rules of the entries are among `rules`. -/
theorem findMatched_spec {services : List (H2ServerRequest × ResponseGroup)}
    (hsubset : ∀ service ∈ services, ∀ rule ∈ service.1.matchRules, rule ∈ rules)
    {msg : RequestMessage Document} (hsound : MemoSound libraries rules msg) :
    (findMatched libraries services msg).1 = services.find? (fun service ↦
        service.1.matchRules.elems.all fun rule ↦ rule.matchesDirectly libraries msg) ∧
      SameRequest libraries (findMatched libraries services msg).2 msg ∧
      MemoSound libraries rules (findMatched libraries services msg).2 := by
  induction services generalizing msg with
  | nil => exact ⟨rfl, SameRequest.refl msg, hsound⟩
  | cons service rest ih =>
    obtain ⟨hresult, hsame, hsound'⟩ :=
      H2ServerRequest.matches_spec hids (hsubset service List.mem_cons_self) hsound
    obtain ⟨hrest, hsameRest, hsoundRest⟩ :=
      ih (fun other hother ↦ hsubset other (List.mem_cons_of_mem service hother)) hsound'
    have hall : (service.1.matches libraries msg).1 =
        service.1.matchRules.elems.all fun rule ↦ rule.matchesDirectly libraries msg := by
      rw [Bool.eq_iff_iff, hresult, List.all_eq_true]
      rfl
    simp only [findMatched, List.find?_cons, ← hall]
    cases (service.1.matches libraries msg).1 with
    | true => exact ⟨rfl, hsame, hsound'⟩
    | false =>
      refine ⟨?_, hsameRest.trans hsame, hsoundRest⟩
      simp only [Bool.false_eq_true, if_false, hrest, hsame.matchesDirectly_eq]

/-- A match call by a server leaves the request as it was and keeps the stored results sound. -/
theorem MatchCall.perform_spec {server : H2Server ResponseGroup}
    (hrules : ∀ rule ∈ server.storedRules, rule ∈ rules) {call : MatchCall}
    (hcall : call.MadeBy server) {msg : RequestMessage Document}
    (hsound : MemoSound libraries rules msg) :
    SameRequest libraries (call.perform server libraries msg) msg ∧
      MemoSound libraries rules (call.perform server libraries msg) := by
  have hstored : ∀ service ∈ server.services, ∀ rule ∈ service.1.matchRules, rule ∈ rules :=
    fun service hservice rule hrule ↦
      hrules rule (List.mem_flatMap.mpr ⟨service, hservice, hrule⟩)
  cases call with
  | rule matchRule => exact (MatchRule.matchMessage_spec hids hsound (hrules matchRule hcall)).2
  | request matchRequest =>
    obtain ⟨service, hservice, rfl⟩ := hcall
    exact (H2ServerRequest.matches_spec hids (hstored service hservice) hsound).2
  | matchedRequest =>
    exact (findMatched_spec hids (fun service hservice ↦
      hstored service (List.mem_reverse.mp hservice)) hsound).2

/-- Any number of match calls by a server leaves the request as it was and keeps the stored results
sound. -/
theorem MatchCall.foldl_perform_spec {server : H2Server ResponseGroup}
    (hrules : ∀ rule ∈ server.storedRules, rule ∈ rules) {calls : List MatchCall}
    (hcalls : ∀ call ∈ calls, call.MadeBy server) {msg : RequestMessage Document}
    (hsound : MemoSound libraries rules msg) :
    SameRequest libraries (calls.foldl (MatchCall.perform server libraries) msg) msg ∧
      MemoSound libraries rules (calls.foldl (MatchCall.perform server libraries) msg) := by
  induction calls generalizing msg with
  | nil => exact ⟨SameRequest.refl msg, hsound⟩
  | cons call rest ih =>
    obtain ⟨hsame, hsound'⟩ :=
      MatchCall.perform_spec hids hrules (hcalls call List.mem_cons_self) hsound
    obtain ⟨hsameRest, hsoundRest⟩ :=
      ih (fun other hother ↦ hcalls other (List.mem_cons_of_mem call hother)) hsound'
    exact ⟨hsameRest.trans hsame, hsoundRest⟩

end Walk

/-! ### Best fit -/

/-- All rules of a service hold of a message by direct evaluation. -/
def SchemaService.Satisfied (libraries : MatchLibraries Document)
    (service : SchemaService ResponseGroup) (msg : RequestMessage Document) : Prop :=
  ∀ rule ∈ service.request.rules, rule.matchesDirectly libraries msg = true

/-- The distinct rules of a service. -/
def SchemaService.distinctRules (service : SchemaService ResponseGroup) : List MatchRule :=
  service.request.rules.dedup

/-- A rule is built without a number. -/
theorem uniqueId_of_mem_rules {request : SchemaRequestMatch} {rule : MatchRule}
    (hrule : rule ∈ request.rules) : rule.uniqueId = 0 := by
  rcases List.mem_append.mp hrule with hmem | hmem
  · obtain ⟨headerMatch, _, rfl⟩ := List.mem_map.mp hmem
    rfl
  · obtain ⟨payloadMatch, _, rfl⟩ := List.mem_map.mp hmem
    rfl

section Configuration

variable {config : List (SchemaService ResponseGroup)} (hapart : RulesToldApart config)

include hapart

/-- The set of a request holds exactly the rules of its service. -/
theorem mem_matchRules_iff (index : ℕ) {service : SchemaService ResponseGroup}
    (hservice : service ∈ config) {rule : MatchRule} :
    rule ∈ (H2ServerRequest.ofSchema service.request index).matchRules ↔
      rule ∈ service.request.rules := by
  constructor
  · exact mem_rules_of_mem_matchRules
  · intro hrule
    obtain ⟨kept, hkept, hequiv⟩ := exists_equivalent_mem_matchRules index hrule
    have hkeptRule := mem_rules_of_mem_matchRules hkept
    have hsame := hapart rule (List.mem_flatMap.mpr ⟨service, hservice, hrule⟩) kept
      (List.mem_flatMap.mpr ⟨service, hservice, hkeptRule⟩) hequiv.1 hequiv.2
    have heq : rule = kept := by
      have hid := (uniqueId_of_mem_rules hrule).trans (uniqueId_of_mem_rules hkeptRule).symm
      obtain ⟨hheader, hpointer, htype, hobject⟩ := hsame
      cases rule
      cases kept
      simp_all
    exact heq ▸ hkept

/-- The size that the order of requests compares is the number of distinct rules of the service. -/
theorem size_matchRules (index : ℕ) {service : SchemaService ResponseGroup}
    (hservice : service ∈ config) :
    (H2ServerRequest.ofSchema service.request index).matchRules.size =
      service.distinctRules.length := by
  refine ((List.perm_ext_iff_of_nodup (OrderedSet.nodup _) (List.nodup_dedup _)).mpr
    fun rule ↦ ?_).length_eq
  rw [List.mem_dedup]
  exact mem_matchRules_iff hapart index hservice

/-- The numbered set of a request is satisfied when its service is. -/
theorem all_assignUniqueIds_iff (libraries : MatchLibraries Document)
    (msg : RequestMessage Document) (all : OrderedSet MatchRule.lt) (index : ℕ)
    {service : SchemaService ResponseGroup} (hservice : service ∈ config) :
    (((H2ServerRequest.ofSchema service.request index).assignUniqueIds all).matchRules.elems.all
      fun rule ↦ rule.matchesDirectly libraries msg) = true ↔ service.Satisfied libraries msg := by
  rw [List.all_eq_true]
  constructor
  · intro hall rule hrule
    have hkept := (mem_matchRules_iff hapart index hservice).mpr hrule
    exact hall { rule with uniqueId := all.index rule } (List.mem_map.mpr ⟨rule, hkept, rfl⟩)
  · intro hsatisfied rule hrule
    obtain ⟨original, horiginal, rfl⟩ := List.mem_map.mp hrule
    exact hsatisfied original (mem_rules_of_mem_matchRules horiginal)

end Configuration

/-- A service of a configuration is stored in the server when no two services have equivalent
requests. -/
theorem mem_services_of_requestsToldApart {config : List (SchemaService ResponseGroup)}
    (happart : RequestsToldApart config) {index : ℕ} {service : SchemaService ResponseGroup}
    (hservice : config[index]? = some service) :
    ((H2ServerRequest.ofSchema service.request index).assignUniqueIds
      (allMatchRules (configuredServices config)), service.responseGroup) ∈
        (H2Server.ofConfig config).services := by
  refine mem_services_ofConfig_of_unique hservice fun other otherService hother hne hequiv ↦ ?_
  have hentry : ∀ {i : ℕ} {s : SchemaService ResponseGroup}, config[i]? = some s →
      (serviceEntries config)[i]? =
        some (H2ServerRequest.ofSchema s.request i, s.responseGroup) := by
    intro i s hs
    simp [serviceEntries, List.getElem?_map, List.getElem?_zipIdx, hs]
  have hfirst := List.getElem?_eq_some_iff.mp (hentry hservice)
  have hsecond := List.getElem?_eq_some_iff.mp (hentry hother)
  obtain ⟨hindex, hfirst⟩ := hfirst
  obtain ⟨hotherIndex, hsecond⟩ := hsecond
  have hpairs := List.pairwise_iff_getElem.mp happart
  rcases Nat.lt_or_gt_of_ne hne with hlt | hlt
  · have hpair := hpairs other index hotherIndex hindex hlt
    rw [hfirst, hsecond] at hpair
    exact hpair hequiv.symm
  · have hpair := hpairs index other hindex hotherIndex hlt
    rw [hfirst, hsecond] at hpair
    exact hpair hequiv

/-- A request that is less than another has no more rules. -/
theorem size_le_of_lt {a b : H2ServerRequest} (h : H2ServerRequest.lt a b = true) :
    a.matchRules.size ≤ b.matchRules.size := by
  rcases (H2ServerRequest.lt_eq_true_iff a b).mp h with hsize | ⟨hsize, _⟩
  · exact Nat.le_of_lt hsize
  · exact Nat.le_of_eq hsize

/-- What a search from the greatest entry down finds satisfies the test, and every other entry that
does has no more rules. -/
theorem size_le_of_find?_reverse {services : OrderedMap ResponseGroup H2ServerRequest.lt}
    {test : H2ServerRequest × ResponseGroup → Bool} {found : H2ServerRequest × ResponseGroup}
    (hfound : services.elems.reverse.find? test = some found) :
    found ∈ services ∧ test found = true ∧ ∀ other ∈ services, test other = true →
      other.1.matchRules.size ≤ found.1.matchRules.size := by
  refine ⟨List.mem_reverse.mp (List.mem_of_find?_eq_some hfound), List.find?_some hfound, ?_⟩
  intro other hother htest
  obtain ⟨_, above, below, hsplit, habove⟩ := List.find?_eq_some_iff_append.mp hfound
  have hmem : other ∈ above ++ found :: below := by
    rw [← hsplit]
    exact List.mem_reverse.mpr hother
  have hsorted : (above ++ found :: below).Pairwise fun a b ↦ keyLess H2ServerRequest.lt b a := by
    rw [← hsplit]
    exact List.pairwise_reverse.mpr services.sorted
  rcases List.mem_append.mp hmem with hmem | hmem
  · have hfails := habove other hmem
    rw [htest] at hfails
    exact absurd hfails (by simp)
  · rcases List.mem_cons.mp hmem with rfl | hmem
    · exact Nat.le_refl _
    · have hbelow := (List.pairwise_append.mp hsorted).2.1
      exact size_le_of_lt ((List.pairwise_cons.mp hbelow).1 other hmem)

/-- The plain specification of the choice: the result is `-1` and no service exactly when no service
of the configuration is satisfied by direct evaluation; otherwise it is a satisfied service, with
the numbered rules of its request, and no satisfied service has more distinct rules. -/
structure IsBestFit (libraries : MatchLibraries Document)
    (config : List (SchemaService ResponseGroup)) (msg : RequestMessage Document)
    (result : MatchedRequest ResponseGroup) : Prop where
  none_iff : result = ⟨-1, none⟩ ↔ ∀ service ∈ config, ¬ service.Satisfied libraries msg
  best : result ≠ ⟨-1, none⟩ → ∃ (index : ℕ) (service : SchemaService ResponseGroup),
    config[index]? = some service ∧
      result = ⟨index, some ((H2ServerRequest.ofSchema service.request index).assignUniqueIds
        (allMatchRules (configuredServices config)), service.responseGroup)⟩ ∧
      service.Satisfied libraries msg ∧
      ∀ other ∈ config, other.Satisfied libraries msg →
        other.distinctRules.length ≤ service.distinctRules.length

/-- After any match calls the walk is a search by the direct evaluation of the message as it
arrived. -/
theorem service_getMatchedRequest (libraries : MatchLibraries Document)
    {config : List (SchemaService ResponseGroup)} (hrules : RulesToldApart config)
    (req : AsioServerRequest) {calls : List MatchCall}
    (hcalls : ∀ call ∈ calls, call.MadeBy (H2Server.ofConfig config)) :
    ((H2Server.ofConfig config).getMatchedRequest libraries (calls.foldl
      (MatchCall.perform (H2Server.ofConfig config) libraries)
      (RequestMessage.ofRequest libraries req))).1.service =
        (H2Server.ofConfig config).services.elems.reverse.find? fun service ↦
          service.1.matchRules.elems.all fun rule ↦
            rule.matchesDirectly libraries (RequestMessage.ofRequest libraries req) := by
  set server := H2Server.ofConfig config
  set msg := RequestMessage.ofRequest libraries req with hmsg
  have hids := sameRule_of_uniqueId_eq hrules
  have hinit : MemoSound libraries server.storedRules msg := by
    intro rule _ stored hstored
    exact absurd hstored (by simp [hmsg, RequestMessage.ofRequest])
  obtain ⟨hsame, hsound⟩ := MatchCall.foldl_perform_spec hids (fun rule hrule ↦ hrule) hcalls hinit
  simp only [← hsame.matchesDirectly_eq]
  exact (findMatched_spec hids (fun service hservice rule hrule ↦ List.mem_flatMap.mpr
    ⟨service, List.mem_reverse.mp hservice, hrule⟩) hsound).1

/-- Best-fit matching equals its plain specification, after any match calls that the server made on
the message. Assumes: rules that the order does not tell apart have the same four fields, and no
two services have equivalent requests. -/
theorem getMatchedRequest_bestFit (libraries : MatchLibraries Document)
    (config : List (SchemaService ResponseGroup)) (hrules : RulesToldApart config)
    (hrequests : RequestsToldApart config) (req : AsioServerRequest) (calls : List MatchCall)
    (hcalls : ∀ call ∈ calls, call.MadeBy (H2Server.ofConfig config)) :
    IsBestFit libraries config (RequestMessage.ofRequest libraries req)
      ((H2Server.ofConfig config).getMatchedRequest libraries (calls.foldl
        (MatchCall.perform (H2Server.ofConfig config) libraries)
        (RequestMessage.ofRequest libraries req))).1 := by
  set server := H2Server.ofConfig config
  set msg := RequestMessage.ofRequest libraries req
  set result := (server.getMatchedRequest libraries
    (calls.foldl (MatchCall.perform server libraries) msg)).1
  have hwalk := service_getMatchedRequest libraries hrules req hcalls
  change result.service = _ at hwalk
  have hindex : result.index = match result.service with
    | some service => (service.1.requestIndex : ℤ)
    | none => -1 := rfl
  have hstored := fun {index service} (hservice : config[index]? = some service) ↦
    mem_services_of_requestsToldApart hrequests hservice
  have hsatisfied := fun {index} {service : SchemaService ResponseGroup}
    (hservice : config[index]? = some service) ↦ all_assignUniqueIds_iff hrules libraries msg
      (allMatchRules (configuredServices config)) index (List.mem_of_getElem? hservice)
  cases hfound : result.service with
  | none =>
    have hresult : result = ⟨-1, none⟩ := by
      rw [hfound] at hindex
      exact congrArg₂ MatchedRequest.mk hindex hfound
    refine ⟨⟨fun _ service hservice hholds ↦ ?_, fun _ ↦ hresult⟩, absurd hresult⟩
    obtain ⟨index, hservice⟩ := List.getElem?_of_mem hservice
    rw [hwalk, List.find?_eq_none] at hfound
    exact hfound _ (List.mem_reverse.mpr (hstored hservice)) ((hsatisfied hservice).mpr hholds)
  | some found =>
    rw [hfound] at hwalk hindex
    obtain ⟨hmem, htest, hgreatest⟩ := size_le_of_find?_reverse hwalk.symm
    obtain ⟨index, service, hservice, rfl⟩ := mem_services_ofConfig hmem
    have hholds := (hsatisfied hservice).mp htest
    refine ⟨⟨fun hresult ↦ ?_, fun hnone ↦ ?_⟩,
      fun _ ↦ ⟨index, service, hservice, ?_, hholds, ?_⟩⟩
    · rw [hresult] at hfound
      exact absurd hfound (by simp)
    · exact absurd hholds (hnone service (List.mem_of_getElem? hservice))
    · exact congrArg₂ MatchedRequest.mk hindex hfound
    · intro other hother hotherHolds
      obtain ⟨otherIndex, hother⟩ := List.getElem?_of_mem hother
      have hle := hgreatest _ (hstored hother) ((hsatisfied hother).mpr hotherHolds)
      rw [← size_matchRules hrules otherIndex (List.mem_of_getElem? hother),
        ← size_matchRules hrules index (List.mem_of_getElem? hservice)]
      simpa [H2ServerRequest.assignUniqueIds, OrderedSet.size, OrderedSet.mapInvariant] using hle

/-! ### An instance -/

/-- A service for `GET` requests and one for those whose payload also has `1` at `/a`. -/
def nestedServices : List (SchemaService Unit) :=
  [⟨⟨[⟨ascii "EqualsTo", ascii ":method", ascii "GET"⟩], [], ascii "get"⟩, ()⟩,
    ⟨⟨[⟨ascii "EqualsTo", ascii ":method", ascii "GET"⟩],
      [⟨ascii "EqualsTo", ascii "/a", ascii "1"⟩], ascii "get one"⟩, ()⟩]

/-- Libraries that know one document. -/
def oneDocumentLibraries : MatchLibraries Bytes where
  regexMatch pattern subject := pattern == subject
  emptyDocument := []
  parse payload := payload
  getValueFromJsonPtr document pointer :=
    if document = ascii "\x7b\"a\":\"1\"\x7d" ∧ pointer = ascii "/a" then ascii "1" else []

/-- The document of `oneDocumentLibraries`, sent with `GET`. -/
def oneDocumentRequest : AsioServerRequest :=
  { AsioServerRequest.empty with
    method := ascii "GET", payload := ascii "\x7b\"a\":\"1\"\x7d" }

/-- The rule for `GET` as the server of `nestedServices` stores it. -/
def storedMethodRule : MatchRule where
  matchType := .equalsTo
  headerName := ascii ":method"
  jsonPointer := []
  object := ascii "GET"
  uniqueId := 1

theorem getMatchedRequest_nestedServices :
    RulesToldApart nestedServices ∧ RequestsToldApart nestedServices ∧
      IsBestFit oneDocumentLibraries nestedServices
        (RequestMessage.ofRequest oneDocumentLibraries oneDocumentRequest)
        ((H2Server.ofConfig nestedServices).getMatchedRequest oneDocumentLibraries
          ([MatchCall.rule storedMethodRule, MatchCall.matchedRequest].foldl
            (MatchCall.perform (H2Server.ofConfig nestedServices) oneDocumentLibraries)
            (RequestMessage.ofRequest oneDocumentLibraries oneDocumentRequest))).1 := by
  have hrules : RulesToldApart nestedServices := by decide
  have hrequests : RequestsToldApart nestedServices := by decide
  refine ⟨hrules, hrequests, getMatchedRequest_bestFit oneDocumentLibraries nestedServices hrules
    hrequests oneDocumentRequest _ ?_⟩
  intro call hcall
  rcases List.mem_pair.mp hcall with rfl | rfl
  · show storedMethodRule ∈ (H2Server.ofConfig nestedServices).storedRules
    decide
  · trivial

end Maock.Matching
