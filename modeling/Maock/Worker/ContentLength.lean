import Maock.Http1.BatchBytes
import Maock.Worker.SendResponse

/-!
# The content length of an HTTP/1 response

`send_response` and `on_write` both may add the content length of a response. They look for a header
field of the response's own under the lower-case name only, and they add nothing for an empty
payload. `headFields_sent_perm` says which fields the head of a sent response has.
-/

set_option autoImplicit false
set_option relaxedAutoImplicit false

namespace Maock.Worker

open Foundation Foundation.OrderedContainer Foundation.Bytes Foundation.Lines Http Answering
open Http1 (AsioServerResponse Stream fieldText headFields expectResponseBody stringGenerator)

/-! ### A sent response -/

/-- The response of a new stream after `send_response`. -/
def Answer.sent (a : Answer) (request : AsioServerRequest) : AsioServerResponse :=
  a.writeTo { request := request, response := AsioServerResponse.initial }

/-- `send_response` completes the response. Its payload is dropped where no body is expected. -/
theorem sent_eq (a : Answer) (request : AsioServerRequest) :
    a.sent request =
      { header := a.headerMap
        trailers := toHeaderMap a.trailers
        generator := if expectResponseBody request.method a.statusCode then
          some (stringGenerator a.payload) else some .deferred
        statusCode := a.statusCode
        state := .bodyStarted
        payloadSize := a.payload.length } := by
  unfold Answer.sent Answer.writeTo AsioServerResponse.endString AsioServerResponse.sendDataNoEos
    AsioServerResponse.endGenerator AsioServerResponse.writeHead
  by_cases htrailers : a.trailers.elems = [] <;>
    by_cases hexpect : expectResponseBody request.method a.statusCode = true <;>
      simp [htrailers, hexpect, toHeaderMap, AsioServerResponse.initial,
        AsioServerResponse.writeTrailer]

/-- A sent response has the payload of the answer for its body where one is expected. -/
theorem body_of_sent {strm : Stream} {a : Answer} (h : strm.response = a.sent strm.request) :
    strm.body = if expectResponseBody strm.request.method a.statusCode then a.payload else [] := by
  rw [Stream.body, h, sent_eq]
  dsimp only
  split_ifs with hexpect
  · exact Http1.bodyBytes_of_stringGenerator rfl
  · rfl

theorem ended_of_sent {strm : Stream} {a : Answer} (h : strm.response = a.sent strm.request) :
    strm.Ended := by
  unfold Stream.Ended
  rw [h, sent_eq]
  intro hexpect
  exact ⟨a.payload, if_pos hexpect, rfl⟩

/-! ### Fields of the head -/

/-- The header fields of the response's own, as the configuration or a script gives them. -/
def Answer.ownFields (a : Answer) : List (Bytes × Bytes) :=
  a.headers.elems

/-- The name of the field as both places look for it. -/
def contentLength : Bytes := ascii "content-length"

/-- A content length is added: there is a payload, and no own field has the lower-case name. -/
def Answer.AddsContentLength (a : Answer) : Prop :=
  a.payload ≠ [] ∧ ∀ field ∈ a.ownFields, field.1 ≠ contentLength

instance (a : Answer) : Decidable a.AddsContentLength :=
  inferInstanceAs (Decidable (a.payload ≠ [] ∧ ∀ field ∈ a.ownFields, field.1 ≠ contentLength))

theorem map_entries_toHeaderMap (fields : StringMap) :
    ((toHeaderMap fields).entries.map fun header ↦ (header.1, header.2.value)) = fields.elems := by
  rw [entries_toHeaderMap, List.map_map]
  exact List.map_id _

/-- A field is added to those of a map. -/
theorem map_entries_emplace_perm (name value : Bytes) (fields : StringMap) :
    (((toHeaderMap fields).emplace name ⟨value, false⟩).entries.map
      fun header ↦ (header.1, header.2.value)).Perm ((name, value) :: fields.elems) := by
  have hperm := (OrderedMultimap.entries_emplace_perm name (⟨value, false⟩ : HeaderValue)
    (toHeaderMap fields)).map fun header ↦ (header.1, header.2.value)
  rwa [List.map_cons, map_entries_toHeaderMap] at hperm

theorem count_toHeaderMap_eq_zero_iff (fields : StringMap) (name : Bytes) :
    (toHeaderMap fields).count name = 0 ↔ ∀ field ∈ fields.elems, field.1 ≠ name := by
  unfold OrderedMultimap.count OrderedMultimap.equalRange
  rw [entries_toHeaderMap, List.length_map, List.length_eq_zero_iff, List.filter_eq_nil_iff,
    List.forall_mem_map]
  exact forall₂_congr fun field _ ↦ by simp [eq_comm]

/-- The head of a sent response has its own fields and, if it is added, one content length. -/
theorem headFields_sent_perm (a : Answer) (request : AsioServerRequest) :
    (headFields (a.sent request)).Perm
      ((if a.AddsContentLength then [(contentLength, decimal a.payload.length)] else []) ++
        a.ownFields) := by
  have hcount : (toHeaderMap a.headers).count contentLength = 0 ↔
      ∀ field ∈ a.ownFields, field.1 ≠ contentLength :=
    count_toHeaderMap_eq_zero_iff a.headers contentLength
  have hown := map_entries_toHeaderMap a.headers
  have hsize : a.payload.length ≠ 0 ↔ a.payload ≠ [] := not_congr List.length_eq_zero_iff
  rw [sent_eq]
  unfold headFields Answer.headerMap
  rw [show ascii "content-length" = contentLength from rfl]
  dsimp only
  by_cases hadded : a.payload ≠ [] ∧ (toHeaderMap a.headers).count contentLength = 0 ∧
      a.trailers.elems = []
  · -- `send_response` adds it
    have hfound : ((toHeaderMap a.headers).emplace contentLength
        ⟨decimal a.payload.length, false⟩).count contentLength ≠ 0 := by
      unfold OrderedMultimap.count
      rw [OrderedMultimap.equalRange_emplace]
      simp
    rw [if_pos hadded, if_neg fun h ↦ hfound h.1, if_pos ⟨hadded.1, hcount.mp hadded.2.1⟩]
    exact map_entries_emplace_perm contentLength (decimal a.payload.length) a.headers
  · rw [if_neg hadded, hown]
    -- if anyone adds it, it is `on_write`
    refine List.Perm.append_right _ ?_
    by_cases hadds : a.AddsContentLength
    · rw [if_pos hadds, if_pos ⟨hcount.mpr hadds.2, hsize.mpr hadds.1⟩]
    · rw [if_neg hadds, if_neg fun h ↦ hadds ⟨hsize.mp h.2, hcount.mp h.1⟩]

/-- A content length that is added keeps to its line. -/
theorem not_lineBreak_contentLength (n : ℕ) :
    ¬ lineBreak <:+: fieldText (contentLength, decimal n) := by
  refine not_lineBreak_of_notMem ?_
  unfold fieldText
  simp only [List.mem_append, not_or]
  exact ⟨⟨by decide, by decide⟩, fun hmem ↦ absurd (isDigit_of_mem_decimal hmem) (by decide)⟩

/-! ### Content lengths -/

/-- A field is a content length, in any letter case. -/
def isContentLength (field : Bytes × Bytes) : Bool :=
  field.1.map toLower == contentLength

/-- A blank. -/
def isBlank (c : UInt8) : Bool :=
  c == 32 || c == 9

/-- A text without the blanks around it. -/
def trimBlanks (text : Bytes) : Bytes :=
  ((text.dropWhile isBlank).reverse.dropWhile isBlank).reverse

theorem dropWhile_eq_self_of_forall {α : Type*} {p : α → Bool} {xs : List α}
    (h : ∀ a ∈ xs, p a = false) : xs.dropWhile p = xs := by
  cases xs with
  | nil => rfl
  | cons a rest => rw [List.dropWhile_cons_of_neg (by simp [h a List.mem_cons_self])]

/-- A number has no blanks around it. -/
theorem trimBlanks_decimal (n : ℕ) : trimBlanks (decimal n) = decimal n := by
  have hall : ∀ c : UInt8, Foundation.Bytes.isDigit c = true → isBlank c = false :=
    forall_byte (by decide +kernel)
  have hblank : ∀ c ∈ decimal n, isBlank c = false :=
    fun c hc ↦ hall c (isDigit_of_mem_decimal hc)
  unfold trimBlanks
  rw [dropWhile_eq_self_of_forall hblank, dropWhile_eq_self_of_forall fun c hc ↦
    hblank c (List.mem_reverse.mp hc), List.reverse_reverse]

/-- An answer with header fields and payload. -/
def answerOf (headers : List (Bytes × Bytes)) (payload : Bytes) : Answer where
  statusCode := 200
  headers := (OrderedSet.empty _).insertAll headers
  payload := payload
  trailers := OrderedSet.empty _

end Maock.Worker
