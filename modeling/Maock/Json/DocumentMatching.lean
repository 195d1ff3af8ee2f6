import Maock.Json.Scalars
import Maock.Matching.BestFit

/-!
# Matching over the documents of the JSON library

Matching takes `getValueFromJsonPtr` as a total function (`MatchLibraries`). The lookup of the
source may leave the program or break a precondition of the library, so matching may as well:
`tryFindMatched` is the walk over the services that ends with the first lookup that does.
`matchLibraries` are the libraries of matching over the lookup, and `tryFindMatched_eq_ok` says that
the walk over them is the walk of the source whenever the pointers of the rules are in order in the
document of the message.
-/

set_option autoImplicit false
set_option relaxedAutoImplicit false

namespace Maock.Json

open Foundation Foundation.Bytes Matching

variable {Double ResponseGroup : Type*} (lib : JsonLibrary Double)
  (regexMatch : Bytes → Bytes → Bool) (parse : Bytes → Value Double)

/-- The libraries of matching over the lookup, with the empty text where it does not return. -/
def matchLibraries : MatchLibraries (Value Double) where
  regexMatch := regexMatch
  emptyDocument := .null
  parse := parse
  getValueFromJsonPtr d jsonPointer := (getValueFromJsonPtr lib d jsonPointer).toOption.getD []

/-! ### Matching that may leave the program -/

/-- The evaluation in `Match_Rule::match(H2Server_Request_Message&)`. -/
def tryEvaluate (rule : MatchRule) (msg : RequestMessage (Value Double)) :
    Except LookupFault (Bool × RequestMessage (Value Double)) :=
  if !rule.headerName.isEmpty then
    .ok ((msg.headers.equalRange rule.headerName).any (rule.matchSubject regexMatch), msg)
  else if !rule.jsonPointer.isEmpty then
    let msg := msg.decodeJsonIfNotYet (matchLibraries lib regexMatch parse)
    (matchDocument lib regexMatch rule msg.jsonPayload).map fun matched ↦ (matched, msg)
  else .ok (rule.matchSubject regexMatch msg.rawPayload, msg)

/-- `Match_Rule::match(H2Server_Request_Message&)`. -/
def tryMatchMessage (rule : MatchRule) (msg : RequestMessage (Value Double)) :
    Except LookupFault (Bool × RequestMessage (Value Double)) :=
  match msg.matchResult.lookup rule.uniqueId with
  | some result => .ok (result, msg)
  | none => (tryEvaluate lib regexMatch parse rule msg).map fun (matched, msg) ↦
      (matched, msg.storeResult rule.uniqueId matched)

/-- `H2Server_Request::match` over the rules in the order of its loop. -/
def tryMatchRulesInTurn : List MatchRule → RequestMessage (Value Double) →
    Except LookupFault (Bool × RequestMessage (Value Double))
  | [], msg => .ok (true, msg)
  | rule :: rest, msg => do
    let (matched, msg) ← tryMatchMessage lib regexMatch parse rule msg
    if matched then tryMatchRulesInTurn rest msg else .ok (false, msg)

/-- The loop of `get_matched_request`. -/
def tryFindMatched : List (H2ServerRequest × ResponseGroup) → RequestMessage (Value Double) →
    Except LookupFault
      (Option (H2ServerRequest × ResponseGroup) × RequestMessage (Value Double))
  | [], msg => .ok (none, msg)
  | service :: rest, msg =>
    match tryMatchRulesInTurn lib regexMatch parse service.1.matchRules.elems.reverse msg with
    | .error fault => .error fault
    | .ok (matched, msg) => if matched then .ok (some service, msg) else tryFindMatched rest msg

/-! ### Where the two agree -/

variable {lib regexMatch parse}

/-- The pointer of a rule, if it has one, is in order in a document. -/
def InOrderIn (lib : JsonLibrary Double) (rule : MatchRule) (d : Value Double) : Prop :=
  rule.headerName = [] → rule.jsonPointer ≠ [] →
    AdmissibleWhereReached lib (splitComplexJsonPointer rule.jsonPointer) d

/-- A lookup that returns gives the text of the libraries of matching. -/
theorem matchDocument_eq_ok {rule : MatchRule} {d : Value Double}
    (horder : AdmissibleWhereReached lib (splitComplexJsonPointer rule.jsonPointer) d) :
    matchDocument lib regexMatch rule d = .ok (rule.matchSubject regexMatch
      ((matchLibraries lib regexMatch parse).getValueFromJsonPtr d rule.jsonPointer)) := by
  obtain ⟨text, htext⟩ := (getValueFromJsonPtr_returns_iff lib d rule.jsonPointer).mpr horder
  have htotal : (matchLibraries lib regexMatch parse).getValueFromJsonPtr d rule.jsonPointer =
      text := by
    show (getValueFromJsonPtr lib d rule.jsonPointer).toOption.getD [] = text
    rw [htext]
    rfl
  rw [matchDocument, htotal, htext]
  rfl

theorem tryEvaluate_eq_ok {rule : MatchRule} {msg : RequestMessage (Value Double)}
    (horder : InOrderIn lib rule (msg.document (matchLibraries lib regexMatch parse))) :
    tryEvaluate lib regexMatch parse rule msg =
      .ok (rule.evaluate (matchLibraries lib regexMatch parse) msg) := by
  unfold tryEvaluate MatchRule.evaluate
  split_ifs with hheader hpointer
  · rfl
  · have hname : rule.headerName = [] := by simpa using hheader
    have hsome : rule.jsonPointer ≠ [] := by simpa using hpointer
    have hmatched : matchDocument lib regexMatch rule
        (msg.decodeJsonIfNotYet (matchLibraries lib regexMatch parse)).jsonPayload = _ :=
      @matchDocument_eq_ok Double lib regexMatch parse rule _ (horder hname hsome)
    dsimp only
    rw [hmatched]
    rfl
  · rfl

/-- A match of a rule whose pointer is in order returns, and leaves the document as it was. -/
theorem tryMatchMessage_eq_ok {rule : MatchRule} {msg : RequestMessage (Value Double)}
    (horder : InOrderIn lib rule (msg.document (matchLibraries lib regexMatch parse))) :
    tryMatchMessage lib regexMatch parse rule msg =
        .ok (rule.matchMessage (matchLibraries lib regexMatch parse) msg) ∧
      (rule.matchMessage (matchLibraries lib regexMatch parse) msg).2.document
        (matchLibraries lib regexMatch parse) =
          msg.document (matchLibraries lib regexMatch parse) := by
  unfold tryMatchMessage MatchRule.matchMessage
  cases msg.matchResult.lookup rule.uniqueId with
  | some result => exact ⟨rfl, rfl⟩
  | none =>
    dsimp only
    rw [tryEvaluate_eq_ok horder]
    refine ⟨rfl, ?_⟩
    rw [RequestMessage.document_storeResult]
    exact (rule.evaluate_spec msg).2.1.2.2

/-- So does the match of a request all of whose rules have pointers that are in order. -/
theorem tryMatchRulesInTurn_eq_ok {rules : List MatchRule} {msg : RequestMessage (Value Double)}
    (horder : ∀ rule ∈ rules,
      InOrderIn lib rule (msg.document (matchLibraries lib regexMatch parse))) :
    tryMatchRulesInTurn lib regexMatch parse rules msg =
        .ok (matchRulesInTurn (matchLibraries lib regexMatch parse) rules msg) ∧
      (matchRulesInTurn (matchLibraries lib regexMatch parse) rules msg).2.document
        (matchLibraries lib regexMatch parse) =
          msg.document (matchLibraries lib regexMatch parse) := by
  induction rules generalizing msg with
  | nil => exact ⟨rfl, rfl⟩
  | cons rule rest ih =>
    obtain ⟨hfirst, hrest⟩ := List.forall_mem_cons.mp horder
    obtain ⟨hmatched, hdocument⟩ := tryMatchMessage_eq_ok hfirst
    unfold tryMatchRulesInTurn matchRulesInTurn
    rw [hmatched]
    dsimp only [bind, Except.bind]
    split_ifs
    · obtain ⟨hrules, hsame⟩ :=
        @ih (rule.matchMessage (matchLibraries lib regexMatch parse) msg).2
          fun other hother ↦ hdocument ▸ hrest other hother
      exact ⟨hrules, hsame.trans hdocument⟩
    · exact ⟨rfl, hdocument⟩

/-- **Matching is what the source computes** wherever the pointers of all rules are in order in the
document of the message: the walk over the services returns, and finds what the walk over the
libraries of matching finds. -/
theorem tryFindMatched_eq_ok {services : List (H2ServerRequest × ResponseGroup)}
    {msg : RequestMessage (Value Double)}
    (horder : ∀ service ∈ services, ∀ rule ∈ service.1.matchRules.elems,
      InOrderIn lib rule (msg.document (matchLibraries lib regexMatch parse))) :
    tryFindMatched lib regexMatch parse services msg =
      .ok (findMatched (matchLibraries lib regexMatch parse) services msg) := by
  induction services generalizing msg with
  | nil => rfl
  | cons service rest ih =>
    obtain ⟨hfirst, hrest⟩ := List.forall_mem_cons.mp horder
    obtain ⟨hmatched, hdocument⟩ := @tryMatchRulesInTurn_eq_ok Double lib regexMatch parse
      service.1.matchRules.elems.reverse msg
      fun rule hrule ↦ hfirst rule (List.mem_reverse.mp hrule)
    unfold tryFindMatched findMatched H2ServerRequest.matches
    rw [hmatched]
    dsimp only
    split_ifs
    · rfl
    · exact ih fun other hother rule hrule ↦ hdocument ▸ hrest other hother rule hrule

end Maock.Json
