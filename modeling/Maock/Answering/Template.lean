import Maock.Answering.Argument

/-!
# The header fields and the payload of a response

`H2Server_Response` with the texts of its header fields and of its payload, which are cut at their
placeholders when the response is constructed. `produce_headers` and `produce_payload` put the texts
together again, with the values of the arguments in the place of the placeholders.

`produceHeaders_run` takes `produce_headers` apart: the assembled texts of the header fields come
from the evaluation of the arguments, and the map is a function of these texts.
-/

set_option autoImplicit false
set_option relaxedAutoImplicit false

namespace Maock.Answering

open Foundation Foundation.OrderedContainer Foundation.Bytes

variable {Document σ : Type}

/-- A `std::map` of strings, as the header fields and the trailers of a response. -/
abbrev StringMap := OrderedMap Bytes bytesLess

/-! ### Construction -/

/-- The loop of `tokenize_string` over the occurrences of a delimiter that is not empty. -/
def splitAt (delimiter : Bytes) (hne : delimiter ≠ []) (source : Bytes) : List Bytes :=
  match _hfound : find? delimiter source with
  | none => [source]
  | some position =>
    source.take position :: splitAt delimiter hne (source.drop (position + delimiter.length))
termination_by source.length
decreasing_by
  have hlength := length_le_of_find? _hfound
  have hpos := List.length_pos_iff.mpr hne
  rw [List.length_drop]
  omega

/-- `tokenize_string(source, delimeter)`. -/
def tokenizeString (source delimiter : Bytes) : List Bytes :=
  if hne : delimiter ≠ [] then splitAt delimiter hne source else [source]

/-- `Schema_Response_Header`, and `Schema_Response_Payload` with its text. -/
structure SchemaTemplate where
  text : Bytes
  placeholder : Bytes
  arguments : List SchemaArgument

/-- A text cut at its placeholders with the arguments that take their places: the `tokenizedHeader`
and `header_arguments` of an `H2Server_Response_Header`, and the `tokenizedPayload` and
`payload_arguments` of an `H2Server_Response`. -/
structure Template where
  tokens : List Bytes
  arguments : List Argument
  deriving DecidableEq

/-- The tokens and arguments that the constructors make, which leave the program when their numbers
do not fit. -/
def Template.ofSchema (schema : SchemaTemplate) : Option Template :=
  let tokens := tokenizeString schema.text schema.placeholder
  if tokens.length = schema.arguments.length + 1 then
    some ⟨tokens, schema.arguments.map Argument.ofSchema⟩
  else none

/-- The position of the colon behind the name of a header field: `find(":", 1)`. -/
def findColon (header : Bytes) : Option ℕ :=
  (find? (ascii ":") (header.drop 1)).map (· + 1)

/-- `H2Server_Response_Header(schema_header)`. -/
def headerOfSchema (schema : SchemaTemplate) : Option Template :=
  match findColon schema.text with
  | none => none
  | some t =>
    if schema.text.head? = some (char ':') ∧ t = 1 then none
    else if schema.text.drop (t + 1) = [] then none
    else Template.ofSchema schema

/-- `H2Server_Response`. -/
structure H2ServerResponse where
  statusCode : ℕ
  additonalHeaders : List Template
  payload : Template
  /-- There is a `luaState`: the response has a script. -/
  hasLuaState : Bool
  luaOffload : Bool
  throttleRatio : Float
  weight : ℕ

/-! ### Values -/

/-- The loops of `produce_payload` and `produce_header`: every token is followed by the value of its
argument, if it has one. -/
def substitute (s : Surroundings Document σ) :
    List Bytes → List Argument → Evaluation Document σ Bytes
  | [], _ => return []
  | token :: tokens, [] => do
    let rest ← substitute s tokens []
    return token ++ rest
  | token :: tokens, arg :: arguments => do
    let value ← arg.getValue s
    let rest ← substitute s tokens arguments
    return token ++ value ++ rest

/-- The text of a template with the values of its arguments. -/
def Template.assemble (s : Surroundings Document σ) (template : Template) :
    Evaluation Document σ Bytes :=
  substitute s template.tokens template.arguments

/-- The name and the value that `produce_header` cuts out of the text. Without a colon, `npos + 1`
is the beginning of the text. -/
def splitHeader (text : Bytes) : Bytes × Bytes :=
  match findColon text with
  | some t => (text.take t, text.drop (t + 1))
  | none => (text, text)

/-- `produce_header(header_with_var, msg)`. -/
def produceHeader (s : Surroundings Document σ) (header : Template) :
    Evaluation Document σ (Bytes × Bytes) := do
  let text ← header.assemble s
  return splitHeader text

/-- The header fields in the order of the configuration, each inserted into the map. -/
def insertHeaders (s : Surroundings Document σ) :
    List Template → StringMap → Evaluation Document σ StringMap
  | [], headers => return headers
  | header :: rest, headers => do
    let headerWithValue ← produceHeader s header
    insertHeaders s rest (headers.insert headerWithValue)

/-- `produce_headers(msg)`, for the `additonalHeaders` of a response. -/
def produceHeaders (s : Surroundings Document σ) (additonalHeaders : List Template) :
    Evaluation Document σ StringMap :=
  insertHeaders s additonalHeaders (OrderedSet.empty _)

/-- `produce_payload(msg)`. -/
def producePayload (s : Surroundings Document σ) (payload : Template) :
    Evaluation Document σ Bytes :=
  payload.assemble s

/-- With a colon, the text is the name, the colon and the value. -/
theorem append_splitHeader {text : Bytes} {t : ℕ} (hcolon : findColon text = some t) :
    (splitHeader text).1 ++ ascii ":" ++ (splitHeader text).2 = text := by
  unfold splitHeader
  rw [hcolon]
  obtain ⟨position, hfound, rfl⟩ := Option.map_eq_some_iff.mp hcolon
  cases text with
  | nil => exact absurd (hfound.symm.trans (show find? (ascii ":") [] = none from rfl)) (by simp)
  | cons c rest =>
    have hsplit := take_append_of_find? hfound
    rw [List.drop_succ_cons, List.drop_zero] at hsplit
    dsimp only
    rw [List.take_succ_cons, List.drop_succ_cons, List.cons_append, List.cons_append]
    exact congrArg (c :: ·) hsplit

/-! ### Texts and map -/

/-- The texts of header fields, one evaluated after the other. -/
def assembleAll (s : Surroundings Document σ) :
    List Template → Evaluation Document σ (List Bytes)
  | [] => return []
  | header :: rest => do
    let text ← header.assemble s
    let texts ← assembleAll s rest
    return text :: texts

/-- The map of header fields with given texts. -/
def headersOfTexts (texts : List Bytes) : StringMap :=
  (OrderedSet.empty _).insertAll (texts.map splitHeader)

/-- A field of the map comes from a text. -/
theorem exists_text_of_mem_headersOfTexts {texts : List Bytes} {field : Bytes × Bytes}
    (hfield : field ∈ (headersOfTexts texts).elems) : ∃ text ∈ texts, splitHeader text = field := by
  rcases OrderedSet.mem_or_mem_of_mem_insertAll hfield with hempty | hmem
  · exact absurd hempty (OrderedSet.not_mem_empty field)
  · exact List.mem_map.mp hmem

theorem insertHeaders_run (s : Surroundings Document σ) (headers : List Template)
    (start : StringMap) (state : Matching.RequestMessage Document × σ) :
    (insertHeaders s headers start).run state =
      (start.insertAll (((assembleAll s headers).run state).1.map splitHeader),
        ((assembleAll s headers).run state).2) := by
  induction headers generalizing start state with
  | nil => rfl
  | cons header rest ih =>
    exact ih (start.insert (splitHeader ((header.assemble s).run state).1))
      ((header.assemble s).run state).2

/-- The map of header fields is a function of their texts. -/
theorem produceHeaders_run (s : Surroundings Document σ) (additonalHeaders : List Template)
    (state : Matching.RequestMessage Document × σ) :
    (produceHeaders s additonalHeaders).run state =
      (headersOfTexts ((assembleAll s additonalHeaders).run state).1,
        ((assembleAll s additonalHeaders).run state).2) :=
  insertHeaders_run s additonalHeaders (OrderedSet.empty _) state

end Maock.Answering
