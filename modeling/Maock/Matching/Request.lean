import Maock.Matching.MatchRule
import Maock.Matching.RequestMessage

/-!
# Requests as sets of match rules

`H2Server_Request`: the set of rules built from one request of the configuration, the order of
requests, and the match of a request against a message. The order compares the number of rules and
then the rules in lockstep from the greatest down; `equivalent_lt_iff` says that two requests are
not told apart exactly when their rules are not, one by one, and `isStrictWeakOrder_lt` that the
order is a strict weak order.

A match keeps its result in the message under the identifier of the rule, so it may answer from an
earlier match. `MemoSound` is the invariant that makes this right: every stored result is the
direct, uncached evaluation (`matchesDirectly`) of every rule that carries its identifier.
`MatchRule.matchMessage_spec` and `H2ServerRequest.matches_spec` say that under it a match returns
the direct evaluation and keeps the invariant.
-/

set_option autoImplicit false
set_option relaxedAutoImplicit false

namespace Maock.Matching

open Foundation Foundation.OrderedContainer Foundation.Bytes Http

/-! ### The rules of a request -/

/-- `Schema_Request_Match`. -/
structure SchemaRequestMatch where
  headerMatch : List SchemaHeaderMatch
  payloadMatch : List SchemaPayloadMatch
  name : Bytes

/-- The rules that the constructor of `H2Server_Request` emplaces, in its order. -/
def SchemaRequestMatch.rules (request : SchemaRequestMatch) : List MatchRule :=
  request.headerMatch.map MatchRule.ofHeaderMatch ++
    request.payloadMatch.map MatchRule.ofPayloadMatch

/-- `H2Server_Request`. -/
structure H2ServerRequest where
  matchRules : OrderedSet MatchRule.lt
  name : Bytes
  requestIndex : ℕ

namespace H2ServerRequest

/-- `H2Server_Request(request_match, index)`. -/
def ofSchema (requestMatch : SchemaRequestMatch) (index : ℕ) : H2ServerRequest where
  matchRules := (OrderedSet.empty MatchRule.lt).insertAll requestMatch.rules
  name := requestMatch.name
  requestIndex := index

/-- `H2Server_Request::operator<`. -/
def lt (self rhs : H2ServerRequest) : Bool :=
  if self.matchRules.size < rhs.matchRules.size then true
  else if rhs.matchRules.size < self.matchRules.size then false
  else lockstepLess MatchRule.lt self.matchRules.elems.reverse rhs.matchRules.elems.reverse

theorem lt_eq_true_iff (a b : H2ServerRequest) :
    lt a b = true ↔ a.matchRules.size < b.matchRules.size ∨
      a.matchRules.size = b.matchRules.size ∧
        lockstepLess MatchRule.lt a.matchRules.elems.reverse b.matchRules.elems.reverse =
          true := by
  simp only [lt]
  split_ifs with hless hgreater
  · simp [hless]
  · simp only [hless, false_or, false_iff, not_and]
    intro heq
    omega
  · have heq : a.matchRules.size = b.matchRules.size := by omega
    simp [heq]

/-- Two requests are not told apart exactly when they have the same number of rules and their
rules, taken in order, are not told apart. -/
theorem equivalent_lt_iff (a b : H2ServerRequest) :
    Equivalent lt a b ↔
      List.Forall₂ (Equivalent MatchRule.lt) a.matchRules.elems b.matchRules.elems := by
  rw [← List.forall₂_reverse_iff]
  constructor
  · rintro ⟨hab, hba⟩
    rw [← Bool.not_eq_true, lt_eq_true_iff, not_or] at hab hba
    have hsize : a.matchRules.size = b.matchRules.size :=
      Nat.le_antisymm (Nat.not_lt.mp hba.1) (Nat.not_lt.mp hab.1)
    have hlength : a.matchRules.elems.reverse.length = b.matchRules.elems.reverse.length := by
      simpa [OrderedSet.size] using hsize
    refine (equivalent_lockstepLess_iff hlength).mp ⟨?_, ?_⟩
    · simpa using fun h ↦ hab.2 ⟨hsize, h⟩
    · simpa using fun h ↦ hba.2 ⟨hsize.symm, h⟩
  · intro hrules
    have hlength := hrules.length_eq
    have hsize : a.matchRules.size = b.matchRules.size := by
      simpa [OrderedSet.size] using hlength
    obtain ⟨hab, hba⟩ := (equivalent_lockstepLess_iff hlength).mpr hrules
    constructor
    · simp [lt, hsize, hab]
    · simp [lt, hsize, hba]

instance isStrictWeakOrder_lt : IsStrictWeakOrder H2ServerRequest (fun a b ↦ lt a b = true) where
  irrefl a := by simp [lt_eq_true_iff, lockstepLess_irrefl]
  trans a b c := by
    simp only [lt_eq_true_iff]
    rintro (hab | ⟨hab, hab'⟩) (hbc | ⟨hbc, hbc'⟩)
    · exact Or.inl (Nat.lt_trans hab hbc)
    · exact Or.inl (hbc ▸ hab)
    · exact Or.inl (hab ▸ hbc)
    · exact Or.inr ⟨hab.trans hbc, lockstepLess_trans hab' hbc'⟩
  incomp_trans a b c hab hbc := by
    simp only [Bool.not_eq_true] at hab hbc ⊢
    have hab' := (equivalent_lt_iff a b).mp hab
    have hbc' := (equivalent_lt_iff b c).mp hbc
    refine (equivalent_lt_iff a c).mpr ?_
    rw [List.forall₂_iff_get] at hab' hbc' ⊢
    refine ⟨hab'.1.trans hbc'.1, fun i hi hi' ↦ ?_⟩
    exact (hab'.2 i hi (hab'.1 ▸ hi)).trans (hbc'.2 i (hab'.1 ▸ hi) hi')

end H2ServerRequest

/-! ### Matching a message -/

section Matching

variable {Document : Type*} (libraries : MatchLibraries Document)

namespace MatchRule

/-- The direct evaluation of a rule against a message, reading no stored result. -/
def matchesDirectly (rule : MatchRule) (msg : RequestMessage Document) : Bool :=
  if !rule.headerName.isEmpty then
    (msg.headers.equalRange rule.headerName).any (matchSubject libraries.regexMatch rule)
  else if !rule.jsonPointer.isEmpty then
    matchSubject libraries.regexMatch rule
      (libraries.getValueFromJsonPtr (msg.document libraries) rule.jsonPointer)
  else matchSubject libraries.regexMatch rule msg.rawPayload

/-- The evaluation in `Match_Rule::match(H2Server_Request_Message&)`, which decodes the payload
when the rule has a JSON pointer. -/
def evaluate (rule : MatchRule) (msg : RequestMessage Document) :
    Bool × RequestMessage Document :=
  if !rule.headerName.isEmpty then
    ((msg.headers.equalRange rule.headerName).any (matchSubject libraries.regexMatch rule), msg)
  else if !rule.jsonPointer.isEmpty then
    let msg := msg.decodeJsonIfNotYet libraries
    (matchSubject libraries.regexMatch rule
      (libraries.getValueFromJsonPtr msg.jsonPayload rule.jsonPointer), msg)
  else (matchSubject libraries.regexMatch rule msg.rawPayload, msg)

/-- `Match_Rule::match(H2Server_Request_Message&)`: the stored result of the identifier, or the
evaluation, which is then stored. -/
def matchMessage (rule : MatchRule) (msg : RequestMessage Document) :
    Bool × RequestMessage Document :=
  match msg.matchResult.lookup rule.uniqueId with
  | some result => (result, msg)
  | none =>
    let (matched, msg) := rule.evaluate libraries msg
    (matched, msg.storeResult rule.uniqueId matched)

end MatchRule

/-- `H2Server_Request::match` over the rules in the order of its loop: it stops at the first rule
that does not match. -/
def matchRulesInTurn : List MatchRule → RequestMessage Document →
    Bool × RequestMessage Document
  | [], msg => (true, msg)
  | rule :: rest, msg =>
    let (matched, msg) := rule.matchMessage libraries msg
    if matched then matchRulesInTurn rest msg else (false, msg)

/-- `H2Server_Request::match`. -/
def H2ServerRequest.matches (request : H2ServerRequest) (msg : RequestMessage Document) :
    Bool × RequestMessage Document :=
  matchRulesInTurn libraries request.matchRules.elems.reverse msg

/-- Two messages carry the same request: the same headers, payload and JSON document. -/
def SameRequest (first second : RequestMessage Document) : Prop :=
  first.headers = second.headers ∧ first.rawPayload = second.rawPayload ∧
    first.document libraries = second.document libraries

/-- Every result stored in a message is the direct evaluation of every rule of `rules` that carries
its identifier. -/
def MemoSound (rules : List MatchRule) (msg : RequestMessage Document) : Prop :=
  ∀ rule ∈ rules, ∀ result, msg.matchResult.lookup rule.uniqueId = some result →
    result = rule.matchesDirectly libraries msg

variable {libraries}

theorem SameRequest.refl (msg : RequestMessage Document) : SameRequest libraries msg msg :=
  ⟨rfl, rfl, rfl⟩

theorem SameRequest.symm {first second : RequestMessage Document}
    (h : SameRequest libraries first second) : SameRequest libraries second first :=
  ⟨h.1.symm, h.2.1.symm, h.2.2.symm⟩

theorem SameRequest.trans {first second third : RequestMessage Document}
    (h : SameRequest libraries first second) (h' : SameRequest libraries second third) :
    SameRequest libraries first third :=
  ⟨h.1.trans h'.1, h.2.1.trans h'.2.1, h.2.2.trans h'.2.2⟩

/-- The direct evaluation reads the request only. -/
theorem SameRequest.matchesDirectly_eq {first second : RequestMessage Document}
    (h : SameRequest libraries first second) (rule : MatchRule) :
    rule.matchesDirectly libraries first = rule.matchesDirectly libraries second := by
  simp only [MatchRule.matchesDirectly, h.1, h.2.1, h.2.2]

/-- The direct evaluation reads the four fields of the rule only. -/
theorem MatchRule.SameRule.matchesDirectly_eq {a b : MatchRule} (h : MatchRule.SameRule a b)
    (msg : RequestMessage Document) :
    a.matchesDirectly libraries msg = b.matchesDirectly libraries msg := by
  have hsubject : a.matchSubject libraries.regexMatch = b.matchSubject libraries.regexMatch :=
    funext fun subject ↦ h.matchSubject_eq libraries.regexMatch subject
  simp only [MatchRule.matchesDirectly, h.1, h.2.1, hsubject]

/-- The evaluation is the direct one, and changes neither the request nor the stored results. -/
theorem MatchRule.evaluate_spec (rule : MatchRule) (msg : RequestMessage Document) :
    (rule.evaluate libraries msg).1 = rule.matchesDirectly libraries msg ∧
      SameRequest libraries (rule.evaluate libraries msg).2 msg ∧
      (rule.evaluate libraries msg).2.matchResult = msg.matchResult := by
  have hframe := msg.decodeJsonIfNotYet_frame libraries
  have hdocument := msg.document_decodeJsonIfNotYet libraries
  unfold MatchRule.evaluate MatchRule.matchesDirectly
  split_ifs
  · exact ⟨rfl, SameRequest.refl msg, rfl⟩
  · exact ⟨rfl, ⟨hframe.1, hframe.2.1, hdocument⟩, hframe.2.2⟩
  · exact ⟨rfl, SameRequest.refl msg, rfl⟩

/-- Storing a result leaves the request as it was. -/
theorem sameRequest_storeResult (msg : RequestMessage Document) (uniqueId : ℕ) (matched : Bool) :
    SameRequest libraries (msg.storeResult uniqueId matched) msg :=
  ⟨rfl, rfl, msg.document_storeResult libraries uniqueId matched⟩

/-- The specification of a match. Assumes: rules with one identifier have the same four fields, and
the stored results are sound. The match returns the direct evaluation, leaves the request as it
was and keeps the stored results sound. -/
theorem MatchRule.matchMessage_spec {rules : List MatchRule}
    (hids : ∀ a ∈ rules, ∀ b ∈ rules, a.uniqueId = b.uniqueId → MatchRule.SameRule a b)
    {msg : RequestMessage Document} (hsound : MemoSound libraries rules msg) {rule : MatchRule}
    (hrule : rule ∈ rules) :
    (rule.matchMessage libraries msg).1 = rule.matchesDirectly libraries msg ∧
      SameRequest libraries (rule.matchMessage libraries msg).2 msg ∧
      MemoSound libraries rules (rule.matchMessage libraries msg).2 := by
  cases hlookup : msg.matchResult.lookup rule.uniqueId with
  | some result =>
    have hstored : rule.matchMessage libraries msg = (result, msg) := by
      simp only [MatchRule.matchMessage, hlookup]
    rw [hstored]
    exact ⟨hsound rule hrule result hlookup, SameRequest.refl msg, hsound⟩
  | none =>
    obtain ⟨hresult, hsame, hmemo⟩ := @MatchRule.evaluate_spec _ libraries rule msg
    have hstored : rule.matchMessage libraries msg = ((rule.evaluate libraries msg).1,
        (rule.evaluate libraries msg).2.storeResult rule.uniqueId
          (rule.evaluate libraries msg).1) := by
      simp only [MatchRule.matchMessage, hlookup]
    rw [hstored]
    have hsame' := (sameRequest_storeResult (rule.evaluate libraries msg).2 rule.uniqueId
      (rule.evaluate libraries msg).1).trans hsame
    refine ⟨hresult, hsame', fun other hother result hfound ↦ ?_⟩
    rw [hsame'.matchesDirectly_eq]
    rw [hresult, RequestMessage.storeResult, hmemo, List.lookup_cons] at hfound
    by_cases hid : other.uniqueId = rule.uniqueId
    · rw [(hids other hother rule hrule hid).matchesDirectly_eq]
      simpa [hid] using hfound.symm
    · have hne : (other.uniqueId == rule.uniqueId) = false := by simpa using hid
      simp only [hne] at hfound
      exact hsound other hother result hfound

/-- The specification of the loop over the rules of a request. -/
theorem matchRulesInTurn_spec {rules : List MatchRule}
    (hids : ∀ a ∈ rules, ∀ b ∈ rules, a.uniqueId = b.uniqueId → MatchRule.SameRule a b)
    {inTurn : List MatchRule} (hsubset : ∀ rule ∈ inTurn, rule ∈ rules)
    {msg : RequestMessage Document} (hsound : MemoSound libraries rules msg) :
    (matchRulesInTurn libraries inTurn msg).1 =
        inTurn.all (fun rule ↦ rule.matchesDirectly libraries msg) ∧
      SameRequest libraries (matchRulesInTurn libraries inTurn msg).2 msg ∧
      MemoSound libraries rules (matchRulesInTurn libraries inTurn msg).2 := by
  induction inTurn generalizing msg with
  | nil => exact ⟨rfl, SameRequest.refl msg, hsound⟩
  | cons rule rest ih =>
    obtain ⟨hresult, hsame, hsound'⟩ :=
      MatchRule.matchMessage_spec hids hsound (hsubset rule List.mem_cons_self)
    obtain ⟨hrest, hsameRest, hsoundRest⟩ :=
      ih (fun other hother ↦ hsubset other (List.mem_cons_of_mem rule hother)) hsound'
    simp only [matchRulesInTurn, hresult, List.all_cons]
    cases rule.matchesDirectly libraries msg with
    | false => exact ⟨rfl, hsame, hsound'⟩
    | true =>
      refine ⟨?_, hsameRest.trans hsame, hsoundRest⟩
      simp only [if_true, Bool.true_and, hrest, hsame.matchesDirectly_eq]

/-- The specification of `H2Server_Request::match`: it tells whether every rule of the request is
satisfied by direct evaluation. -/
theorem H2ServerRequest.matches_spec {rules : List MatchRule}
    (hids : ∀ a ∈ rules, ∀ b ∈ rules, a.uniqueId = b.uniqueId → MatchRule.SameRule a b)
    {request : H2ServerRequest} (hsubset : ∀ rule ∈ request.matchRules, rule ∈ rules)
    {msg : RequestMessage Document} (hsound : MemoSound libraries rules msg) :
    ((request.matches libraries msg).1 = true ↔
        ∀ rule ∈ request.matchRules, rule.matchesDirectly libraries msg = true) ∧
      SameRequest libraries (request.matches libraries msg).2 msg ∧
      MemoSound libraries rules (request.matches libraries msg).2 := by
  have hsubset' : ∀ rule ∈ request.matchRules.elems.reverse, rule ∈ rules :=
    fun rule hrule ↦ hsubset rule (List.mem_reverse.mp hrule)
  obtain ⟨hresult, hsame, hsound'⟩ := matchRulesInTurn_spec hids hsubset' hsound
  refine ⟨?_, hsame, hsound'⟩
  rw [H2ServerRequest.matches, hresult, List.all_eq_true]
  exact forall_congr' fun rule ↦ by rw [List.mem_reverse, OrderedSet.mem_def]

end Matching

end Maock.Matching
