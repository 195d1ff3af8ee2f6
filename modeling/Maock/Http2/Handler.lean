import Maock.Foundation.Interleaving
import Maock.Http.RequestTarget
import Maock.Http1.Handler

/-!
# The HTTP/2 handler

`http2_handler` as the receiving side of an nghttp2 session: the callbacks that open a stream, fill
its request from header fields and data, dispatch it, and close the stream. The session itself is
not modelled: an event is a callback that it makes, or a task that sends a response to a stream.

The request callback that `call_on_request` calls is a parameter. `streamStep` is one stream on its
own, and `projection` says that the handler acts on each stream in this way, whatever happens to the
others in between.
-/

set_option autoImplicit false
set_option relaxedAutoImplicit false

namespace Maock.Http2

open Foundation Foundation.OrderedContainer Foundation.Bytes Foundation.Interleaving Http
open Http1 (AsioServerResponse Stream)

/-! ### Header fields -/

/-- The tokens of `lookup_token` that `on_header_callback` tells apart. -/
inductive HeaderToken where
  | method
  | scheme
  | authority
  | path
  | host
  | other
  deriving DecidableEq

/-- `lookup_token`. -/
def lookupToken (name : Bytes) : HeaderToken :=
  if name = ascii ":method" then .method
  else if name = ascii ":scheme" then .scheme
  else if name = ascii ":authority" then .authority
  else if name = ascii ":path" then .path
  else if name = ascii "host" then .host
  else .other

/-- A field of a header block. `noIndex` is its flag `NGHTTP2_NV_FLAG_NO_INDEX`. -/
structure Field where
  name : Bytes
  value : Bytes
  noIndex : Bool

/-- The default branch of `on_header_callback`: the request keeps the field as long as its fields
have no more than 64 KiB. The second component tells whether the stream is reset. -/
def keepField (field : Field) (req : AsioServerRequest) : AsioServerRequest × Bool :=
  if req.headerBufferSize + field.name.length + field.value.length > 64 * 1024 then (req, true)
  else
    ({ req with
      headerBufferSize := req.headerBufferSize + (field.name.length + field.value.length)
      header := req.header.emplace field.name ⟨field.value, field.noIndex⟩ }, false)

/-- The switch of `on_header_callback`. -/
def receiveField (field : Field) (req : AsioServerRequest) : AsioServerRequest × Bool :=
  match lookupToken field.name with
  | .method => ({ req with method := field.value }, false)
  | .scheme => ({ req with uri := { req.uri with scheme := field.value } }, false)
  | .authority => ({ req with uri := { req.uri with host := field.value } }, false)
  | .path => (req.onPath field.value, false)
  | .host =>
    let host := if req.uri.host.isEmpty then field.value else req.uri.host
    keepField field { req with uri := { req.uri with host := host } }
  | .other => keepField field req

theorem payload_keepField (field : Field) (req : AsioServerRequest) :
    (keepField field req).1.payload = req.payload := by
  unfold keepField
  split_ifs <;> rfl

/-- Header fields do not touch the payload. -/
theorem payload_receiveField (field : Field) (req : AsioServerRequest) :
    (receiveField field req).1.payload = req.payload := by
  unfold receiveField
  cases lookupToken field.name with
  | method => rfl
  | scheme => rfl
  | authority => rfl
  | path => rfl
  | host => exact payload_keepField field _
  | other => exact payload_keepField field req

/-! ### Events -/

/-- `nghttp2_headers_category`. -/
inductive HeadersCategory where
  | request
  | response
  | pushResponse
  | headers
  deriving DecidableEq

/-- The type of a frame, as far as the callbacks tell it apart. -/
inductive FrameType where
  | data
  | headers (category : HeadersCategory)
  | other
  deriving DecidableEq

/-- What happens to a handler: a callback of the session, or a posted `send_response`, which closes
the stream for the status 0. -/
inductive SessionEvent where
  | beginHeaders (streamId : ℕ) (frameType : FrameType)
  | header (streamId : ℕ) (frameType : FrameType) (field : Field)
  | dataChunk (streamId : ℕ) (data : Bytes)
  | frameRecv (streamId : ℕ) (frameType : FrameType) (endStream : Bool)
  | streamClose (streamId : ℕ)
  | sendResponse (streamId : ℕ) (response : Option AsioServerResponse)

/-- What the request callback leaves of the response of a stream, or that it closes the stream. -/
abbrev RequestCallback := ℕ → Stream → Option AsioServerResponse

/-! ### The handler -/

/-- `http2_handler`, with the streams for which it has submitted RST_STREAM. -/
structure Http2Handler where
  streams : OrderedMap Stream natLess
  reset : List ℕ

namespace Http2Handler

/-- A handler when its connection starts. -/
def initial : Http2Handler where
  streams := OrderedSet.empty _
  reset := []

/-- `create_stream(stream_id)`. -/
def createStream (streamId : ℕ) (h : Http2Handler) : Http2Handler :=
  { h with streams := h.streams.insert (streamId, Stream.initial) }

/-- `find_stream(stream_id)`. -/
def findStream (streamId : ℕ) (h : Http2Handler) : Option Stream :=
  OrderedMap.lookup h.streams streamId

/-- `close_stream(stream_id)`. -/
def closeStream (streamId : ℕ) (h : Http2Handler) : Http2Handler :=
  { h with streams := OrderedMap.eraseKey streamId h.streams }

/-- A change of the stream that a pointer to it makes. -/
def modifyStream (streamId : ℕ) (f : Stream → Stream) (h : Http2Handler) : Http2Handler :=
  { h with streams := OrderedMap.modify streamId f h.streams }

/-- `on_begin_headers_callback`. -/
def onBeginHeaders (streamId : ℕ) (frameType : FrameType) (h : Http2Handler) : Http2Handler :=
  if frameType = .headers .request then h.createStream streamId else h

/-- `on_header_callback`. -/
def onHeader (streamId : ℕ) (frameType : FrameType) (field : Field) (h : Http2Handler) :
    Http2Handler :=
  if frameType = .headers .request then
    match h.findStream streamId with
    | none => h
    | some strm =>
      let (request, reset) := receiveField field strm.request
      let h := h.modifyStream streamId fun strm ↦ { strm with request := request }
      if reset then { h with reset := streamId :: h.reset } else h
  else h

/-- `on_data_chunk_recv_callback`. -/
def onDataChunk (streamId : ℕ) (data : Bytes) (h : Http2Handler) : Http2Handler :=
  h.modifyStream streamId fun strm ↦
    { strm with request := { strm.request with payload := strm.request.payload ++ data } }

/-- `send_response` for a stream. -/
def sendResponse (streamId : ℕ) (response : Option AsioServerResponse) (h : Http2Handler) :
    Http2Handler :=
  match response with
  | none => h.closeStream streamId
  | some response => h.modifyStream streamId fun strm ↦ { strm with response := response }

/-- `call_on_request`, with the request that it hands over. -/
def callOnRequest (cb : RequestCallback) (streamId : ℕ) (strm : Stream) (h : Http2Handler) :
    Http2Handler × Option AsioServerRequest :=
  (h.sendResponse streamId (cb streamId strm), some strm.request)

/-- `on_frame_recv_callback`, with the request that it dispatches. -/
def onFrameRecv (cb : RequestCallback) (streamId : ℕ) (frameType : FrameType) (endStream : Bool)
    (h : Http2Handler) : Http2Handler × Option AsioServerRequest :=
  match frameType, h.findStream streamId with
  | .data, some strm => if endStream then h.callOnRequest cb streamId strm else (h, none)
  | .headers category, some strm =>
    if category ≠ .request then (h, none)
    else if endStream then h.callOnRequest cb streamId strm
    else (h, none)
  | _, _ => (h, none)

/-- One event, with the request that it dispatches. -/
def step (cb : RequestCallback) (h : Http2Handler) :
    SessionEvent → Http2Handler × Option AsioServerRequest
  | .beginHeaders streamId frameType => (h.onBeginHeaders streamId frameType, none)
  | .header streamId frameType field => (h.onHeader streamId frameType field, none)
  | .dataChunk streamId data => (h.onDataChunk streamId data, none)
  | .frameRecv streamId frameType endStream => h.onFrameRecv cb streamId frameType endStream
  | .streamClose streamId => (h.closeStream streamId, none)
  | .sendResponse streamId response => (h.sendResponse streamId response, none)

/-! ### What an operation does to a stream -/

theorem findStream_createStream (streamId : ℕ) (h : Http2Handler) :
    (h.createStream streamId).findStream streamId =
      some ((h.findStream streamId).getD Stream.initial) := by
  cases hfound : h.findStream streamId with
  | none =>
    refine OrderedMap.lookup_insert_of_new fun known hknown hequiv ↦ ?_
    have hsome := OrderedMap.isSome_lookup_iff.mpr ⟨known, hknown, hequiv⟩
    rw [show OrderedMap.lookup h.streams streamId = none from hfound] at hsome
    exact absurd hsome Bool.false_ne_true
  | some strm =>
    obtain ⟨known, hknown, hequiv⟩ := OrderedMap.lookup_eq_some_iff.mp hfound
    exact OrderedMap.lookup_eq_some_iff.mpr
      ⟨known, OrderedSet.mem_insert.mpr (Or.inl hknown), hequiv⟩

theorem findStream_modifyStream (streamId : ℕ) (f : Stream → Stream) (h : Http2Handler) :
    (h.modifyStream streamId f).findStream streamId = (h.findStream streamId).map f :=
  OrderedMap.lookup_modify streamId f h.streams

theorem findStream_closeStream (streamId : ℕ) (h : Http2Handler) :
    (h.closeStream streamId).findStream streamId = none :=
  OrderedMap.lookup_eraseKey streamId h.streams

section Other

variable {streamId other : ℕ} (hne : streamId ≠ other)

include hne

theorem findStream_createStream_of_ne (h : Http2Handler) :
    (h.createStream streamId).findStream other = h.findStream other :=
  OrderedMap.lookup_insert_of_not_equivalent (by simpa using hne) Stream.initial h.streams

theorem findStream_modifyStream_of_ne (f : Stream → Stream) (h : Http2Handler) :
    (h.modifyStream streamId f).findStream other = h.findStream other :=
  OrderedMap.lookup_modify_of_not_equivalent (by simpa using hne) f h.streams

theorem findStream_closeStream_of_ne (h : Http2Handler) :
    (h.closeStream streamId).findStream other = h.findStream other :=
  OrderedMap.lookup_eraseKey_of_not_equivalent (by simpa using hne) h.streams

theorem findStream_sendResponse_of_ne (response : Option AsioServerResponse) (h : Http2Handler) :
    (h.sendResponse streamId response).findStream other = h.findStream other := by
  cases response with
  | none => exact findStream_closeStream_of_ne hne h
  | some response => exact findStream_modifyStream_of_ne hne _ h

end Other

/-! ### One stream on its own -/

end Http2Handler

/-- The events that concern a stream: those with its identifier, but for the frames of other types
than HEADERS and DATA. -/
def SessionEvent.concerns (streamId : ℕ) : SessionEvent → Bool
  | .beginHeaders id frameType | .header id frameType _ | .frameRecv id frameType _ =>
    id == streamId && frameType != .other
  | .dataChunk id _ | .streamClose id | .sendResponse id _ => id == streamId

/-- A response sent to a stream, or the stream closed. -/
def respondTo (response : Option AsioServerResponse) (strm : Stream) : Option Stream :=
  response.map fun response ↦ { strm with response := response }

/-- One event on one stream, with the request that it dispatches. -/
def streamStep (cb : RequestCallback) (streamId : ℕ) (strm : Option Stream) :
    SessionEvent → Option Stream × Option AsioServerRequest
  | .beginHeaders _ frameType =>
    (if frameType = .headers .request then some (strm.getD Stream.initial) else strm, none)
  | .header _ frameType field =>
    (if frameType = .headers .request then
      strm.map fun strm ↦ { strm with request := (receiveField field strm.request).1 }
    else strm, none)
  | .dataChunk _ data =>
    (strm.map fun strm ↦
      { strm with request := { strm.request with payload := strm.request.payload ++ data } }, none)
  | .frameRecv _ frameType endStream =>
    match strm with
    | none => (none, none)
    | some strm =>
      if endStream ∧ (frameType = .data ∨ frameType = .headers .request) then
        (respondTo (cb streamId strm) strm, some strm.request)
      else (some strm, none)
  | .streamClose _ => (none, none)
  | .sendResponse _ response => (strm.bind (respondTo response), none)

namespace Http2Handler

theorem findStream_sendResponse (streamId : ℕ) (response : Option AsioServerResponse)
    (h : Http2Handler) : (h.sendResponse streamId response).findStream streamId =
      (h.findStream streamId).bind (respondTo response) := by
  cases response with
  | none =>
    refine (findStream_closeStream streamId h).trans ?_
    cases h.findStream streamId <;> rfl
  | some response =>
    refine (findStream_modifyStream streamId _ h).trans ?_
    cases h.findStream streamId <;> rfl

theorem findStream_onHeader (streamId : ℕ) (field : Field) (h : Http2Handler) :
    (h.onHeader streamId (.headers .request) field).findStream streamId =
      (h.findStream streamId).map fun strm ↦
        { strm with request := (receiveField field strm.request).1 } := by
  unfold onHeader
  rw [if_pos rfl]
  cases hfound : h.findStream streamId with
  | none => exact hfound
  | some strm =>
    have hmodified := findStream_modifyStream streamId
      (fun other ↦ { other with request := (receiveField field strm.request).1 }) h
    rw [hfound] at hmodified
    dsimp only
    split_ifs
    · exact hmodified
    · exact hmodified

theorem findStream_onHeader_of_ne {streamId other : ℕ} (hne : streamId ≠ other)
    (frameType : FrameType) (field : Field) (h : Http2Handler) :
    (h.onHeader streamId frameType field).findStream other = h.findStream other := by
  unfold onHeader
  split_ifs
  · cases h.findStream streamId with
    | none => rfl
    | some strm =>
      have hmodified := findStream_modifyStream_of_ne hne
        (fun other ↦ { other with request := (receiveField field strm.request).1 }) h
      dsimp only
      split_ifs
      · exact hmodified
      · exact hmodified
  · rfl

/-- A frame that ends a request, or does not. -/
theorem onFrameRecv_eq (cb : RequestCallback) (streamId : ℕ) (frameType : FrameType)
    (endStream : Bool) (h : Http2Handler) : h.onFrameRecv cb streamId frameType endStream =
      match h.findStream streamId with
      | none => (h, none)
      | some strm =>
        if endStream ∧ (frameType = .data ∨ frameType = .headers .request) then
          h.callOnRequest cb streamId strm
        else (h, none) := by
  unfold onFrameRecv
  cases h.findStream streamId with
  | none => cases frameType <;> rfl
  | some strm =>
    cases frameType with
    | data => simp
    | other => simp
    | headers category =>
      by_cases hcategory : category = .request
      · simp [hcategory]
      · simp [hcategory]

theorem findStream_onBeginHeaders (streamId : ℕ) (frameType : FrameType) (h : Http2Handler) :
    (h.onBeginHeaders streamId frameType).findStream streamId =
      if frameType = .headers .request then some ((h.findStream streamId).getD Stream.initial)
      else h.findStream streamId := by
  unfold onBeginHeaders
  split_ifs
  · exact findStream_createStream streamId h
  · rfl

/-- An event that concerns a stream acts on it as on one stream alone. -/
theorem streamStep_findStream (cb : RequestCallback) {streamId : ℕ} (h : Http2Handler)
    {event : SessionEvent} (hconcerns : event.concerns streamId = true) :
    streamStep cb streamId (h.findStream streamId) event =
      ((h.step cb event).1.findStream streamId, (h.step cb event).2) := by
  cases event with
  | beginHeaders id frameType =>
    obtain ⟨rfl, -⟩ : id = streamId ∧ _ := by simpa [SessionEvent.concerns] using hconcerns
    exact Prod.ext (findStream_onBeginHeaders id frameType h).symm rfl
  | header id frameType field =>
    obtain ⟨rfl, -⟩ : id = streamId ∧ _ := by simpa [SessionEvent.concerns] using hconcerns
    refine Prod.ext ?_ rfl
    show _ = (h.onHeader id frameType field).findStream id
    by_cases htype : frameType = .headers .request
    · rw [htype, findStream_onHeader]
      rfl
    · simp only [streamStep, onHeader, if_neg htype]
  | dataChunk id data =>
    obtain rfl : id = streamId := by simpa [SessionEvent.concerns] using hconcerns
    exact Prod.ext (findStream_modifyStream id _ h).symm rfl
  | frameRecv id frameType endStream =>
    obtain ⟨rfl, -⟩ : id = streamId ∧ _ := by simpa [SessionEvent.concerns] using hconcerns
    show _ = ((h.onFrameRecv cb id frameType endStream).1.findStream id,
      (h.onFrameRecv cb id frameType endStream).2)
    rw [onFrameRecv_eq]
    unfold streamStep
    cases hfound : h.findStream id with
    | none => exact Prod.ext hfound.symm rfl
    | some strm =>
      dsimp only
      split_ifs
      · refine Prod.ext ?_ rfl
        show _ = (h.sendResponse id (cb id strm)).findStream id
        rw [findStream_sendResponse, hfound]
        rfl
      · exact Prod.ext hfound.symm rfl
  | streamClose id =>
    obtain rfl : id = streamId := by simpa [SessionEvent.concerns] using hconcerns
    exact Prod.ext (findStream_closeStream id h).symm rfl
  | sendResponse id response =>
    obtain rfl : id = streamId := by simpa [SessionEvent.concerns] using hconcerns
    exact Prod.ext (findStream_sendResponse id response h).symm rfl

/-- An event that does not concern a stream leaves it as it is. -/
theorem findStream_step_of_not_concerns (cb : RequestCallback) {streamId : ℕ} (h : Http2Handler)
    {event : SessionEvent} (hother : event.concerns streamId = false) :
    (h.step cb event).1.findStream streamId = h.findStream streamId := by
  cases event with
  | beginHeaders id frameType =>
    show (h.onBeginHeaders id frameType).findStream streamId = _
    unfold onBeginHeaders
    split_ifs with htype
    · have hne : id ≠ streamId := by simpa [SessionEvent.concerns, htype] using hother
      exact findStream_createStream_of_ne hne h
    · rfl
  | header id frameType field =>
    show (h.onHeader id frameType field).findStream streamId = _
    by_cases htype : frameType = .headers .request
    · have hne : id ≠ streamId := by simpa [SessionEvent.concerns, htype] using hother
      exact findStream_onHeader_of_ne hne frameType field h
    · rw [onHeader, if_neg htype]
  | dataChunk id data =>
    have hne : id ≠ streamId := by simpa [SessionEvent.concerns] using hother
    exact findStream_modifyStream_of_ne hne _ h
  | frameRecv id frameType endStream =>
    show (h.onFrameRecv cb id frameType endStream).1.findStream streamId = _
    rw [onFrameRecv_eq]
    cases h.findStream id with
    | none => rfl
    | some strm =>
      dsimp only
      split_ifs with hends
      · have hne : id ≠ streamId := by
          rcases hends.2 with htype | htype
          · simpa [SessionEvent.concerns, htype] using hother
          · simpa [SessionEvent.concerns, htype] using hother
        exact findStream_sendResponse_of_ne hne _ h
      · rfl
  | streamClose id =>
    have hne : id ≠ streamId := by simpa [SessionEvent.concerns] using hother
    exact findStream_closeStream_of_ne hne h
  | sendResponse id response =>
    have hne : id ≠ streamId := by simpa [SessionEvent.concerns] using hother
    exact findStream_sendResponse_of_ne hne response h

/-- **The handler acts on each stream on its own.** -/
theorem projection (cb : RequestCallback) (streamId : ℕ) :
    Projection (step cb) (streamStep cb streamId) (findStream streamId)
      (SessionEvent.concerns streamId) :=
  ⟨fun h _ hconcerns ↦ streamStep_findStream cb h hconcerns,
    fun h _ hother ↦ findStream_step_of_not_concerns cb h hother⟩

end Http2Handler

end Maock.Http2
