import Maock.Answering.Template
import Maock.Http1.Handler

/-!
# Sending a response

`send_response` turns status, header fields, payload and trailers into calls on the response of a
stream: `write_head`, and `end` or `send_data_no_eos` with `write_trailer`. The status 0 stands for
no response.
-/

set_option autoImplicit false
set_option relaxedAutoImplicit false

namespace Maock.Worker

open Foundation Foundation.OrderedContainer Foundation.Bytes Http Answering
open Http1 (AsioServerResponse Stream)

/-- The arguments of `send_response` that say what is sent. -/
structure Answer where
  statusCode : ℕ
  headers : StringMap
  payload : Bytes
  trailers : StringMap

/-- The `header_map` with the fields of a string map. -/
def toHeaderMap (fields : StringMap) : HeaderMap :=
  fields.elems.foldl (fun headers field ↦ headers.emplace field.1 ⟨field.2, false⟩)
    (OrderedMultimap.empty HeaderValue bytesLess)

/-- The fields of the map, in its order. -/
theorem entries_toHeaderMap (fields : StringMap) :
    (toHeaderMap fields).entries =
      fields.elems.map fun field ↦ (field.1, (⟨field.2, false⟩ : HeaderValue)) := by
  have hsorted : (fields.elems.map fun field ↦ (field.1, (⟨field.2, false⟩ : HeaderValue))).Pairwise
      (fun a b ↦ bytesLess b.1 a.1 = false) :=
    List.pairwise_map.mpr (fields.sorted.imp fun h ↦ less_asymm bytesLess h)
  have hentries := OrderedMultimap.entries_foldl_emplace
    (m := OrderedMultimap.empty HeaderValue bytesLess) hsorted
  rwa [List.foldl_map] at hentries

/-- Different maps of fields give different header maps. -/
theorem toHeaderMap_injective {fields fields' : StringMap}
    (h : toHeaderMap fields = toHeaderMap fields') : fields = fields' := by
  have hentries := congrArg OrderedMultimap.entries h
  rw [entries_toHeaderMap, entries_toHeaderMap] at hentries
  refine OrderedSet.ext (List.map_injective_iff.mpr (fun a b hab ↦ ?_) hentries)
  obtain ⟨hname, hvalue⟩ := Prod.mk.inj hab
  exact Prod.ext hname (HeaderValue.mk.inj hvalue).1

namespace Answer

/-- The header fields that `send_response` gives to `write_head`. -/
def headerMap (a : Answer) : HeaderMap :=
  let headers := toHeaderMap a.headers
  if a.payload ≠ [] ∧ headers.count (ascii "content-length") = 0 ∧ a.trailers.elems = [] then
    headers.emplace (ascii "content-length") ⟨decimal a.payload.length, false⟩
  else headers

/-- What `send_response` does to the response of a stream that it has found. -/
def writeTo (a : Answer) (strm : Stream) : AsioServerResponse :=
  let res := strm.response.writeHead strm.request.method a.statusCode a.headerMap
  if a.trailers.elems = [] then res.endString strm.request.method a.payload
  else (res.sendDataNoEos strm.request.method a.payload).writeTrailer (toHeaderMap a.trailers)

end Answer

/-- The arguments of the calls that `send_response` makes on the response of a stream. -/
structure StreamCalls where
  statusCode : ℕ
  headers : HeaderMap
  payload : Bytes
  trailers : HeaderMap

/-- The calls on the response of a stream that is still there. The status 0 makes none. -/
def Answer.calls (a : Answer) : Option StreamCalls :=
  if a.statusCode = 0 then none
  else some ⟨a.statusCode, a.headerMap, a.payload, toHeaderMap a.trailers⟩

end Maock.Worker
