import Maock.Worker.ContentLength
import Maock.Worker.RequestHandler

/-!
# The lines of a head

The head that `on_write` writes for the header fields of `produce_headers`, cut at its line breaks.
The values of the arguments are not looked at on their way from the request to the head, so a value
with a line break ends its line. `oneLinePerField_iff` says exactly which texts of header fields
keep to their lines.
-/

set_option autoImplicit false
set_option relaxedAutoImplicit false

namespace Maock.Worker

open Foundation Foundation.OrderedContainer Foundation.Bytes Foundation.Lines Http Answering
open Matching (RequestMessage)
open Http1 (headFields fieldText headBytes headParts statusText)

variable {Document σ : Type}

/-- The head of a sent response is a status line, one line for each field of its header map and for
a content length that is added, in some order, and an empty line. -/
def OneLinePerField (shouldKeepAlive : Bool) (request : AsioServerRequest) (a : Answer) : Prop :=
  ∃ fields : List (Bytes × Bytes),
    fields.Perm
      ((if a.AddsContentLength then [(contentLength, decimal a.payload.length)] else []) ++
        a.ownFields) ∧
    linesOf (headBytes shouldKeepAlive (a.sent request)) =
      statusText shouldKeepAlive (a.sent request) :: fields.map fieldText ++ [[], []]

/-- The head has one line for each field exactly when no field of the response's own contains a line
break. -/
theorem oneLinePerField_ownFields_iff (shouldKeepAlive : Bool) (request : AsioServerRequest)
    (a : Answer) : OneLinePerField shouldKeepAlive request a ↔
      ∀ field ∈ a.ownFields, ¬ lineBreak <:+: fieldText field := by
  have hperm := headFields_sent_perm a request
  unfold OneLinePerField
  rw [Http1.headBytes_eq]
  constructor
  · rintro ⟨fields, hfields, hlines⟩ field hfield
    have hlength : (linesOf (joined (headParts shouldKeepAlive (a.sent request)))).length =
        (headParts shouldKeepAlive (a.sent request)).length + 1 := by
      rw [hlines]
      have hsame := (hperm.trans hfields.symm).length_eq
      simp only [headParts, List.length_append, List.length_cons, List.length_map, List.length_nil]
      omega
    refine (length_linesOf_joined_iff _).mp hlength (fieldText field) ?_
    have hmem := hperm.symm.subset (List.mem_append_right _ hfield)
    exact List.mem_append_left _ (List.mem_cons_of_mem _ (List.mem_map_of_mem hmem))
  · intro hown
    refine ⟨headFields (a.sent request), hperm, ?_⟩
    have hparts : ∀ part ∈ headParts shouldKeepAlive (a.sent request), ¬ lineBreak <:+: part := by
      intro part hpart
      rcases List.mem_append.mp hpart with hpart | hpart
      · rcases List.mem_cons.mp hpart with rfl | hpart
        · exact Http1.not_lineBreak_statusText shouldKeepAlive (a.sent request)
        · obtain ⟨field, hfield, rfl⟩ := List.mem_map.mp hpart
          rcases List.mem_append.mp (hperm.subset hfield) with hadded | hfield
          · split_ifs at hadded
            · rw [List.mem_singleton.mp hadded]
              exact not_lineBreak_contentLength a.payload.length
            · exact absurd hadded List.not_mem_nil
          · exact hown field hfield
      · rw [List.mem_singleton.mp hpart]
        exact not_lineBreak_of_notMem List.not_mem_nil
    rw [linesOf_joined_eq hparts, headParts, List.append_assoc]
    rfl

/-! ### Texts of header fields -/

/-- The line of a field contains a line break exactly when the text of the header field does. -/
theorem lineBreak_fieldText_iff (text : Bytes) :
    lineBreak <:+: fieldText (splitHeader text) ↔ lineBreak <:+: text := by
  cases hcolon : findColon text with
  | some t => rw [show fieldText (splitHeader text) = text from append_splitHeader hcolon]
  | none =>
    unfold splitHeader
    rw [hcolon]
    show lineBreak <:+: text ++ ascii ":" ++ text ↔ _
    rw [List.append_assoc]
    refine ⟨fun h ↦ ?_, fun h ↦ h.trans (List.infix_append' [] text _)⟩
    exact (lineBreak_append_cons (by decide) (by decide) h).elim id id

/-- **The lines of a head.** For every configuration and every request, the head for the header
fields of `produce_headers` has one line for each field exactly when no text of a field that is in
the map contains a line break. -/
theorem oneLinePerField_iff (s : Surroundings Document σ) (additonalHeaders : List Template)
    (state : RequestMessage Document × σ) (statusCode : ℕ) (payload : Bytes) (trailers : StringMap)
    (shouldKeepAlive : Bool) (request : AsioServerRequest) :
    OneLinePerField shouldKeepAlive request
        ⟨statusCode, ((produceHeaders s additonalHeaders).run state).1, payload, trailers⟩ ↔
      ∀ text ∈ ((assembleAll s additonalHeaders).run state).1,
        splitHeader text ∈ ((produceHeaders s additonalHeaders).run state).1.elems →
          ¬ lineBreak <:+: text := by
  rw [oneLinePerField_ownFields_iff, produceHeaders_run]
  unfold Answer.ownFields
  constructor
  · intro hown text _ hkept
    rw [← lineBreak_fieldText_iff]
    exact hown (splitHeader text) hkept
  · intro htexts field hfield
    obtain ⟨text, htext, rfl⟩ := exists_text_of_mem_headersOfTexts hfield
    rw [lineBreak_fieldText_iff]
    exact htexts text htext hfield

/-- The configuration of a header field with the raw payload of the request as its value. -/
def echoHeader : SchemaTemplate where
  text := ascii "x-echo: $VAR"
  placeholder := ascii "$VAR"
  arguments := [⟨ascii "RawPayload", [], 0, -1, []⟩]

/-- A payload with a line break adds a line to the head. -/
theorem not_oneLinePerField_echoedPayload :
    ∃ header, headerOfSchema echoHeader = some header ∧
      (∀ token ∈ header.tokens, (13 : UInt8) ∉ token ∧ (10 : UInt8) ∉ token) ∧
      ¬ OneLinePerField true AsioServerRequest.empty
        ⟨200, ((produceHeaders Visit.plainSurroundings [header]).run
          ({ Visit.bareMessage with rawPayload := [49, 13, 10, 120, 58, 50] }, ())).1, [],
          OrderedSet.empty _⟩ := by
  refine ⟨⟨[ascii "x-echo: ", []], echoHeader.arguments.map Argument.ofSchema⟩,
    by decide +kernel, by decide, ?_⟩
  rw [oneLinePerField_ownFields_iff]
  intro hown
  exact hown (ascii "x-echo", 32 :: [49, 13, 10, 120, 58, 50]) (by decide)
    ⟨ascii "x-echo: 1", [120, 58, 50], by decide⟩

end Maock.Worker
