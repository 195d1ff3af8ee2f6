import Maock.Http.Request

/-!
# The request message that rules are matched against

`H2Server_Request_Message`: the header fields of a request with its pseudo-headers, the raw
payload, the payload decoded as JSON on first use, and the table of match results kept by rule
identifier. The JSON library is a parameter: `MatchLibraries` collects the third-party functions
that matching calls, each as a fixed function.
-/

set_option autoImplicit false
set_option relaxedAutoImplicit false

namespace Maock.Matching

open Foundation Foundation.OrderedContainer Foundation.Bytes Http

/-- The functions of the regular expression and JSON libraries that matching calls, with
`getValueFromJsonPtr` over them. -/
structure MatchLibraries (Document : Type*) where
  /-- `std::regex_match(subject, std::regex(pattern))`, as a predicate of pattern and subject. -/
  regexMatch : Bytes → Bytes → Bool
  /-- A default-constructed document. -/
  emptyDocument : Document
  /-- `Document::Parse`. -/
  parse : Bytes → Document
  /-- `getValueFromJsonPtr`, as a function of document and pointer, where it returns. -/
  getValueFromJsonPtr : Document → Bytes → Bytes

/-- `H2Server_Request_Message`. -/
structure RequestMessage (Document : Type*) where
  headers : OrderedMultimap Bytes bytesLess
  jsonPayload : Document
  /-- The payload while it is not decoded yet; the null pointer afterwards. -/
  jsonPayloadString : Option Bytes
  rawPayload : Bytes
  /-- `match_result`, as the entries stored so far. An identifier is stored once. -/
  matchResult : List (ℕ × Bool)

namespace RequestMessage

variable {Document : Type*}

/-- The value of `:path` that the constructor of the message takes from the request. -/
def pathHeader (req : AsioServerRequest) : Bytes :=
  if req.uri.rawQuery.isEmpty then req.uri.rawPath
  else req.uri.rawPath ++ ascii "?" ++ req.uri.rawQuery

/-- `H2Server_Request_Message(req)`. -/
def ofRequest (libraries : MatchLibraries Document) (req : AsioServerRequest) :
    RequestMessage Document where
  headers :=
    let pseudo := ((((OrderedMultimap.empty Bytes bytesLess).emplace (ascii ":path")
      (pathHeader req)).emplace (ascii ":method") req.method).emplace (ascii ":scheme")
      req.uri.scheme).emplace (ascii ":authority") req.uri.host
    req.header.entries.foldl (fun headers entry ↦ headers.emplace entry.1 entry.2.value) pseudo
  jsonPayload := libraries.emptyDocument
  jsonPayloadString := some req.payload
  rawPayload := req.payload
  matchResult := []

/-- The first `:path` field of the message is the one taken from the request target, whatever fields
the client adds. -/
theorem lookup_path_ofRequest (libraries : MatchLibraries Document) (req : AsioServerRequest) :
    (ofRequest libraries req).headers.lookup (ascii ":path") = some (pathHeader req) := by
  have hkeep : ∀ (fields : List (Bytes × HeaderValue)) (headers : OrderedMultimap Bytes bytesLess),
      headers.lookup (ascii ":path") = some (pathHeader req) →
        (fields.foldl (fun headers entry ↦ headers.emplace entry.1 entry.2.value)
          headers).lookup (ascii ":path") = some (pathHeader req) := by
    intro fields
    induction fields with
    | nil => exact fun _ h ↦ h
    | cons entry rest ih =>
      exact fun headers h ↦ ih _ (OrderedMultimap.lookup_emplace_of_eq_some h)
  refine hkeep _ _ ?_
  refine OrderedMultimap.lookup_emplace_of_eq_some (OrderedMultimap.lookup_emplace_of_eq_some
    (OrderedMultimap.lookup_emplace_of_eq_some ?_))
  rw [OrderedMultimap.lookup, OrderedMultimap.equalRange_emplace]
  simp [OrderedMultimap.equalRange, OrderedMultimap.empty]

/-- `decode_json_if_not_yet`. -/
def decodeJsonIfNotYet (libraries : MatchLibraries Document) (msg : RequestMessage Document) :
    RequestMessage Document :=
  match msg.jsonPayloadString with
  | some payload =>
    { msg with jsonPayload := libraries.parse (cString payload), jsonPayloadString := none }
  | none => msg

/-- The JSON document that the message stands for: the one decoded, or the one that decoding will
give. -/
def document (libraries : MatchLibraries Document) (msg : RequestMessage Document) : Document :=
  (msg.decodeJsonIfNotYet libraries).jsonPayload

/-- Decoding twice is decoding once. -/
theorem document_decodeJsonIfNotYet (libraries : MatchLibraries Document)
    (msg : RequestMessage Document) :
    (msg.decodeJsonIfNotYet libraries).document libraries = msg.document libraries := by
  unfold document decodeJsonIfNotYet
  cases hpayload : msg.jsonPayloadString with
  | none => simp [hpayload]
  | some payload => rfl

/-- `match_result[unique_id] = matched`, for an identifier that is not stored yet. -/
def storeResult (msg : RequestMessage Document) (uniqueId : ℕ) (matched : Bool) :
    RequestMessage Document :=
  { msg with matchResult := (uniqueId, matched) :: msg.matchResult }

@[simp] theorem document_storeResult (libraries : MatchLibraries Document)
    (msg : RequestMessage Document) (uniqueId : ℕ) (matched : Bool) :
    (msg.storeResult uniqueId matched).document libraries = msg.document libraries := by
  unfold document decodeJsonIfNotYet storeResult
  cases msg.jsonPayloadString with
  | none => rfl
  | some payload => rfl

/-- Decoding touches neither headers, raw payload nor match results. -/
theorem decodeJsonIfNotYet_frame (libraries : MatchLibraries Document)
    (msg : RequestMessage Document) :
    (msg.decodeJsonIfNotYet libraries).headers = msg.headers ∧
      (msg.decodeJsonIfNotYet libraries).rawPayload = msg.rawPayload ∧
      (msg.decodeJsonIfNotYet libraries).matchResult = msg.matchResult := by
  unfold decodeJsonIfNotYet
  cases msg.jsonPayloadString with
  | none => exact ⟨rfl, rfl, rfl⟩
  | some payload => exact ⟨rfl, rfl, rfl⟩

end RequestMessage

end Maock.Matching
