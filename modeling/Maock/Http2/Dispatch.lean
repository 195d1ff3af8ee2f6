import Maock.Http2.Handler

/-!
# Dispatching HTTP/2 requests

A request comes as frames on its stream: a request HEADERS frame, DATA frames, and at times a
HEADERS frame with trailers; the last of them carries END_STREAM. Between these frames anything may
happen on the other streams. `dispatchedOnce_iff` says that the handler dispatches the request
exactly once, at the frame with END_STREAM and with the whole payload, if and only if it has no
trailers: `on_frame_recv_callback` passes over every HEADERS frame that does not open a request.

What the frames add to the payload is collected by `Gathers`, which composes along the events.
-/

set_option autoImplicit false
set_option relaxedAutoImplicit false

namespace Maock.Http2

open Foundation Foundation.OrderedContainer Foundation.Bytes Foundation.Interleaving Http
open Http1 (AsioServerResponse Stream)

/-! ### Requests as frames -/

/-- A frame of a request, with its header fields or its data as the session hands them over. -/
inductive RequestFrame where
  | headers (category : HeadersCategory) (fields : List Field)
  | data (chunks : List Bytes)

/-- The callbacks of a frame. -/
def RequestFrame.events (streamId : ℕ) (endStream : Bool) : RequestFrame → List SessionEvent
  | .headers category fields =>
    .beginHeaders streamId (.headers category) ::
      (fields.map (.header streamId (.headers category)) ++
        [.frameRecv streamId (.headers category) endStream])
  | .data chunks => chunks.map (.dataChunk streamId) ++ [.frameRecv streamId .data endStream]

/-- The callbacks of frames of which the last one carries END_STREAM. -/
def frameEvents (streamId : ℕ) : List RequestFrame → List SessionEvent
  | [] => []
  | [frame] => frame.events streamId true
  | frame :: next :: rest => frame.events streamId false ++ frameEvents streamId (next :: rest)

theorem frameEvents_concat (streamId : ℕ) (frames : List RequestFrame) (last : RequestFrame) :
    frameEvents streamId (frames ++ [last]) =
      (frames.flatMap fun frame ↦ frame.events streamId false) ++ last.events streamId true := by
  induction frames with
  | nil => rfl
  | cons frame rest ih =>
    rw [List.flatMap_cons, List.append_assoc, ← ih]
    cases rest with
    | nil => rfl
    | cons next rest => rfl

/-- A request: the fields of its HEADERS frame, the chunks of its DATA frames, and the fields of its
trailing HEADERS frame, if it has one. -/
structure RequestFrames where
  fields : List Field
  data : List (List Bytes)
  trailers : Option (List Field)

namespace RequestFrames

/-- The frames of a request. -/
def frames (r : RequestFrames) : List RequestFrame :=
  .headers .request r.fields :: (r.data.map .data ++ (r.trailers.map (.headers .headers)).toList)

/-- The data of a request, one chunk after another. -/
def payload (r : RequestFrames) : Bytes :=
  r.data.flatten.flatten

end RequestFrames

/-- The stream an event belongs to. -/
def SessionEvent.streamId : SessionEvent → ℕ
  | .beginHeaders id _ | .header id _ _ | .dataChunk id _ | .frameRecv id _ _ | .streamClose id
  | .sendResponse id _ => id

/-- The events that answer or close a stream. -/
def SessionEvent.Answers : SessionEvent → Prop
  | .streamClose _ | .sendResponse _ _ => True
  | _ => False

/-- Among any events, those that concern the stream are the callbacks of the request, before the
stream is answered or closed. -/
def Carries (streamId : ℕ) (r : RequestFrames) (events : List SessionEvent) : Prop :=
  ∃ answers, events.filter (SessionEvent.concerns streamId) =
      frameEvents streamId r.frames ++ answers ∧ ∀ event ∈ answers, event.Answers

/-- Of the requests dispatched, one belongs to the stream. It was dispatched at a frame with
END_STREAM, with this payload. -/
def DispatchedOnce (streamId : ℕ) (payload : Bytes)
    (dispatched : List (SessionEvent × AsioServerRequest)) : Prop :=
  ∃ frameType request, dispatched.filter (fun d ↦ d.1.streamId == streamId) =
    [(.frameRecv streamId frameType true, request)] ∧ request.payload = payload

/-! ### What a frame adds to the payload -/

section Gathering

variable {cb : RequestCallback} {streamId : ℕ}

/-- On the open stream the events dispatch nothing and add this to the payload. -/
def Gathers (cb : RequestCallback) (streamId : ℕ) (events : List SessionEvent) (data : Bytes) :
    Prop :=
  ∀ strm : Stream, outputs (streamStep cb streamId) (some strm) events = [] ∧
    ∃ next : Stream, finalState (streamStep cb streamId) (some strm) events = some next ∧
      next.request.payload = strm.request.payload ++ data

theorem gathers_nil : Gathers cb streamId [] [] :=
  fun strm ↦ ⟨rfl, strm, rfl, (List.append_nil _).symm⟩

theorem Gathers.append {first second : List SessionEvent} {a b : Bytes}
    (hfirst : Gathers cb streamId first a) (hsecond : Gathers cb streamId second b) :
    Gathers cb streamId (first ++ second) (a ++ b) := by
  intro strm
  obtain ⟨hnone, middle, hmiddle, ha⟩ := hfirst strm
  obtain ⟨hnone', next, hnext, hb⟩ := hsecond middle
  refine ⟨?_, next, ?_, ?_⟩
  · rw [outputs_append, hnone, hmiddle, hnone', List.append_nil]
  · show List.foldl _ _ (first ++ second) = _
    rw [List.foldl_append]
    show finalState _ (finalState _ _ first) second = _
    rw [hmiddle, hnext]
  · rw [hb, ha, List.append_assoc]

/-- Of a list of items, each adds its part. -/
theorem gathers_flatMap {α : Type*} {events : α → List SessionEvent} {data : α → Bytes}
    {items : List α} (hitems : ∀ item ∈ items, Gathers cb streamId (events item) (data item)) :
    Gathers cb streamId (items.flatMap events) (items.flatMap data) := by
  induction items with
  | nil => exact gathers_nil
  | cons item rest ih =>
    rw [List.flatMap_cons, List.flatMap_cons]
    exact (hitems item List.mem_cons_self).append
      (ih fun other hother ↦ hitems other (List.mem_cons_of_mem item hother))

theorem gathers_header (category : HeadersCategory) (field : Field) :
    Gathers cb streamId [.header streamId (.headers category) field] [] := by
  intro strm
  by_cases hcategory : category = .request
  · subst hcategory
    refine ⟨rfl, { strm with request := (receiveField field strm.request).1 }, rfl, ?_⟩
    rw [payload_receiveField, List.append_nil]
  · refine ⟨rfl, strm, ?_, (List.append_nil _).symm⟩
    show (if FrameType.headers category = FrameType.headers .request then
      (some strm).map fun strm ↦ { strm with request := (receiveField field strm.request).1 }
      else some strm) = some strm
    rw [if_neg (by simpa using hcategory)]

theorem gathers_headers (category : HeadersCategory) (fields : List Field) :
    Gathers cb streamId (fields.map (.header streamId (.headers category))) [] := by
  have hfields := @gathers_flatMap cb streamId Field
    (fun field ↦ [.header streamId (.headers category) field]) (fun _ ↦ []) fields
    fun field _ ↦ gathers_header category field
  rwa [← List.map_eq_flatMap, List.flatMap_eq_nil_iff.mpr fun _ _ ↦ rfl] at hfields

theorem gathers_dataChunk (data : Bytes) : Gathers cb streamId [.dataChunk streamId data] data :=
  fun strm ↦ ⟨rfl,
    { strm with request := { strm.request with payload := strm.request.payload ++ data } },
    rfl, rfl⟩

theorem gathers_dataChunks (chunks : List Bytes) :
    Gathers cb streamId (chunks.map (.dataChunk streamId)) chunks.flatten := by
  have hchunks := @gathers_flatMap cb streamId Bytes
    (fun data ↦ [.dataChunk streamId data]) (fun data ↦ data) chunks
    fun data _ ↦ gathers_dataChunk data
  rwa [← List.map_eq_flatMap, List.flatMap_id'] at hchunks

/-- A frame that does not end the request only closes its own callbacks. -/
theorem gathers_frameRecv {frameType : FrameType} {endStream : Bool}
    (hquiet : ¬ (endStream = true ∧ (frameType = .data ∨ frameType = .headers .request))) :
    Gathers cb streamId [.frameRecv streamId frameType endStream] [] := by
  intro strm
  have hstep : streamStep cb streamId (some strm) (.frameRecv streamId frameType endStream) =
      (some strm, none) := if_neg hquiet
  refine ⟨?_, strm, ?_, (List.append_nil _).symm⟩
  · rw [outputs, hstep]
    rfl
  · exact congrArg Prod.fst hstep

/-- A DATA frame that does not end the request adds its chunks. -/
theorem gathers_data (chunks : List Bytes) :
    Gathers cb streamId ((RequestFrame.data chunks).events streamId false) chunks.flatten := by
  have hframe := (gathers_dataChunks chunks).append
    (@gathers_frameRecv cb streamId .data false fun h ↦ Bool.false_ne_true h.1)
  rwa [List.append_nil] at hframe

theorem gathers_dataFrames (data : List (List Bytes)) :
    Gathers cb streamId ((data.map RequestFrame.data).flatMap fun frame ↦
      frame.events streamId false) data.flatten.flatten := by
  have hframes := @gathers_flatMap cb streamId (List Bytes)
    (fun chunks ↦ (RequestFrame.data chunks).events streamId false) List.flatten data
    fun chunks _ ↦ gathers_data chunks
  rw [List.flatMap_map, List.flatten_flatten]
  exact hframes

/-- Trailers add nothing, even when they end the request. -/
theorem gathers_trailers (fields : List Field) (endStream : Bool) :
    Gathers cb streamId ((RequestFrame.headers .headers fields).events streamId endStream) [] := by
  have hbegin : Gathers cb streamId [.beginHeaders streamId (.headers .headers)] [] :=
    fun strm ↦ ⟨rfl, strm, rfl, (List.append_nil _).symm⟩
  exact hbegin.append ((gathers_headers .headers fields).append (gathers_frameRecv (by simp)))

end Gathering

/-! ### What a request dispatches -/

namespace RequestFrames

variable {cb : RequestCallback} {streamId : ℕ}

/-- A request without trailers is its beginning, events that add its payload, and a frame that ends
the request. -/
theorem frameEvents_of_no_trailers {r : RequestFrames} (htrailers : r.trailers = none) :
    ∃ quiet frameType, frameEvents streamId r.frames =
        .beginHeaders streamId (.headers .request) ::
          (quiet ++ [.frameRecv streamId frameType true]) ∧
      (frameType = .data ∨ frameType = .headers .request) ∧
      Gathers cb streamId quiet r.payload := by
  have hframes : r.frames = .headers .request r.fields :: r.data.map .data := by
    rw [frames, htrailers]
    exact congrArg _ (List.append_nil _)
  have hfields := @gathers_headers cb streamId .request r.fields
  rcases List.eq_nil_or_concat r.data with hdata | ⟨init, last, hdata⟩
  · refine ⟨r.fields.map (.header streamId (.headers .request)), .headers .request, ?_,
      Or.inr rfl, ?_⟩
    · rw [hframes, hdata]
      rfl
    · rw [payload, hdata]
      exact hfields
  · -- the HEADERS frame does not end the request: the last DATA frame does
    have hopen := hfields.append
      (@gathers_frameRecv cb streamId (.headers .request) false fun h ↦ Bool.false_ne_true h.1)
    have hgather := (hopen.append (gathers_dataFrames init)).append (gathers_dataChunks last)
    refine ⟨r.fields.map (.header streamId (.headers .request)) ++
      [.frameRecv streamId (.headers .request) false] ++
      ((init.map RequestFrame.data).flatMap fun frame ↦ frame.events streamId false) ++
      last.map (.dataChunk streamId), .data, ?_, Or.inl rfl, ?_⟩
    · rw [hframes, hdata, List.concat_eq_append, List.map_append, ← List.cons_append, List.map_cons,
        List.map_nil, frameEvents_concat, List.flatMap_cons]
      simp [RequestFrame.events]
    · rw [payload, hdata, List.concat_eq_append, List.flatten_append, List.flatten_append]
      simpa using hgather

/-- A request with trailers is its beginning and events that add its payload. -/
theorem frameEvents_of_trailers {r : RequestFrames} {trailers : List Field}
    (htrailers : r.trailers = some trailers) :
    ∃ quiet, frameEvents streamId r.frames = .beginHeaders streamId (.headers .request) :: quiet ∧
      Gathers cb streamId quiet r.payload := by
  have hframes : r.frames =
      (.headers .request r.fields :: r.data.map .data) ++ [.headers .headers trailers] := by
    rw [frames, htrailers]
    rfl
  have hopen := (@gathers_headers cb streamId .request r.fields).append
    (@gathers_frameRecv cb streamId (.headers .request) false fun h ↦ Bool.false_ne_true h.1)
  have hgather := (hopen.append (gathers_dataFrames r.data)).append
    (@gathers_trailers cb streamId trailers true)
  refine ⟨_, ?_, by simpa [payload] using hgather⟩
  rw [hframes, frameEvents_concat, List.flatMap_cons]
  simp [RequestFrame.events]

end RequestFrames

/-- Answering and closing dispatches nothing. -/
theorem streamStep_of_answers (cb : RequestCallback) (streamId : ℕ) (strm : Option Stream)
    {event : SessionEvent} (h : event.Answers) : (streamStep cb streamId strm event).2 = none := by
  cases event with
  | streamClose id => rfl
  | sendResponse id response => rfl
  | beginHeaders id frameType => exact h.elim
  | header id frameType field => exact h.elim
  | dataChunk id data => exact h.elim
  | frameRecv id frameType endStream => exact h.elim

namespace Http2Handler

/-- The requests that a list of events dispatches, each with its event. -/
def dispatches (cb : RequestCallback) (h : Http2Handler) (events : List SessionEvent) :
    List (SessionEvent × AsioServerRequest) :=
  outputs (step cb) h events

/-- An event that dispatches a request concerns its stream. -/
theorem concerns_of_dispatched {cb : RequestCallback} {h : Http2Handler} {event : SessionEvent}
    {request : AsioServerRequest} (hstep : (h.step cb event).2 = some request) (streamId : ℕ) :
    event.concerns streamId = (event.streamId == streamId) := by
  cases event with
  | frameRecv id frameType endStream =>
    have hrecv : (h.onFrameRecv cb id frameType endStream).2 = some request := hstep
    rw [onFrameRecv_eq] at hrecv
    cases hfound : h.findStream id with
    | none =>
      rw [hfound] at hrecv
      exact absurd hrecv (by simp)
    | some strm =>
      rw [hfound] at hrecv
      dsimp only at hrecv
      split_ifs at hrecv with hends
      · rcases hends.2 with rfl | rfl
        · exact Bool.and_true _
        · exact Bool.and_true _
  | beginHeaders id frameType => exact absurd hstep (by simp [step])
  | header id frameType field => exact absurd hstep (by simp [step])
  | dataChunk id data => exact absurd hstep (by simp [step])
  | streamClose id => exact absurd hstep (by simp [step])
  | sendResponse id response => exact absurd hstep (by simp [step])

/-- The requests dispatched for a stream are those that it dispatches on its own. -/
theorem dispatches_filter (cb : RequestCallback) (h : Http2Handler) (streamId : ℕ)
    (events : List SessionEvent) :
    (h.dispatches cb events).filter (fun d ↦ d.1.streamId == streamId) =
      outputs (streamStep cb streamId) (h.findStream streamId)
        (events.filter (SessionEvent.concerns streamId)) := by
  rw [← (projection cb streamId).outputs_filter]
  refine List.filter_congr fun d hd ↦ ?_
  obtain ⟨before, hbefore⟩ := @exists_step_of_mem_outputs _ _ _ _ _ _ d.1 d.2 hd
  exact (concerns_of_dispatched hbefore streamId).symm

/-- What the stream of a request dispatches: nothing before the end of the frames, and there the
request with its payload, unless it has trailers. -/
theorem dispatches_request (cb : RequestCallback) {h : Http2Handler} {streamId : ℕ}
    (hfresh : h.findStream streamId = none) {r : RequestFrames} {events : List SessionEvent}
    (hcarries : Carries streamId r events) :
    match r.trailers with
    | none => DispatchedOnce streamId r.payload (h.dispatches cb events)
    | some _ => (h.dispatches cb events).filter (fun d ↦ d.1.streamId == streamId) = [] := by
  obtain ⟨answers, hevents, hanswers⟩ := hcarries
  have hdispatches := h.dispatches_filter cb streamId events
  rw [hevents, hfresh, outputs_append, outputs_eq_nil
    (fun strm event ↦ streamStep_of_answers cb streamId strm) _ hanswers, List.append_nil]
    at hdispatches
  cases htrailers : r.trailers with
  | some trailers =>
    obtain ⟨quiet, hquiet, hgathers⟩ :=
      @RequestFrames.frameEvents_of_trailers cb streamId r trailers htrailers
    rw [hdispatches, hquiet]
    exact (hgathers Stream.initial).1
  | none =>
    obtain ⟨quiet, frameType, hquiet, htype, hgathers⟩ :=
      @RequestFrames.frameEvents_of_no_trailers cb streamId r htrailers
    obtain ⟨hnone, strm, hstrm, hpayload⟩ := hgathers Stream.initial
    have hend : streamStep cb streamId (some strm) (.frameRecv streamId frameType true) =
        (respondTo (cb streamId strm) strm, some strm.request) := if_pos ⟨rfl, htype⟩
    refine ⟨frameType, strm.request, ?_, hpayload⟩
    rw [hdispatches, hquiet]
    show outputs _ (some Stream.initial) (quiet ++ _) = _
    rw [outputs_append, hnone, hstrm, List.nil_append, outputs, hend]
    rfl

end Http2Handler

/-- **A request is dispatched exactly once**, at the frame that ends it and with its payload, if and
only if it has no trailers. -/
theorem dispatchedOnce_iff (cb : RequestCallback) {h : Http2Handler} {streamId : ℕ}
    (hfresh : h.findStream streamId = none) {r : RequestFrames} {events : List SessionEvent}
    (hcarries : Carries streamId r events) :
    DispatchedOnce streamId r.payload (h.dispatches cb events) ↔ r.trailers = none := by
  have hrequest := h.dispatches_request cb hfresh hcarries
  cases htrailers : r.trailers with
  | none =>
    rw [htrailers] at hrequest
    exact ⟨fun _ ↦ rfl, fun _ ↦ hrequest⟩
  | some trailers =>
    rw [htrailers] at hrequest
    refine ⟨?_, fun hnone ↦ absurd hnone (by simp)⟩
    rintro ⟨frameType, request, hdispatched, -⟩
    rw [hrequest] at hdispatched
    exact absurd hdispatched (by simp)

/-- A request callback that leaves the response as it is. -/
def keepResponse : RequestCallback := fun _ strm ↦ some strm.response

/-- A request with two DATA frames, between which another stream has a whole request. -/
def interleavedPost : List SessionEvent :=
  [.beginHeaders 1 (.headers .request),
    .header 1 (.headers .request) ⟨ascii ":method", ascii "POST", false⟩,
    .frameRecv 1 (.headers .request) false, .beginHeaders 3 (.headers .request),
    .dataChunk 1 (ascii "ab"), .frameRecv 1 .data false, .frameRecv 3 (.headers .request) true,
    .dataChunk 1 (ascii "c"), .sendResponse 3 none, .frameRecv 1 .other false,
    .frameRecv 1 .data true, .streamClose 1]

theorem dispatchedOnce_interleavedPost :
    DispatchedOnce 1 (ascii "abc") (Http2Handler.initial.dispatches keepResponse interleavedPost) :=
  (@dispatchedOnce_iff keepResponse Http2Handler.initial 1 rfl
    ⟨[⟨ascii ":method", ascii "POST", false⟩], [[ascii "ab"], [ascii "c"]], none⟩ interleavedPost
    ⟨[.streamClose 1], rfl, fun _ hevent ↦ List.mem_singleton.mp hevent ▸ trivial⟩).mpr rfl

/-- A request with one DATA frame and a trailing field. -/
def postWithTrailers : RequestFrames where
  fields := [⟨ascii ":method", ascii "POST", false⟩]
  data := [[ascii "ab"]]
  trailers := some [⟨ascii "checksum", ascii "1", false⟩]

/-- A request with trailers is never dispatched. -/
theorem not_dispatchedOnce_postWithTrailers :
    Carries 1 postWithTrailers (frameEvents 1 postWithTrailers.frames) ∧
      ¬ DispatchedOnce 1 postWithTrailers.payload
        (Http2Handler.initial.dispatches keepResponse (frameEvents 1 postWithTrailers.frames)) := by
  refine ⟨⟨[], rfl, fun _ hevent ↦ absurd hevent List.not_mem_nil⟩, ?_⟩
  have hnone : Http2Handler.initial.dispatches keepResponse
      (frameEvents 1 postWithTrailers.frames) = [] := rfl
  rintro ⟨frameType, request, hdispatched, -⟩
  rw [hnone] at hdispatched
  exact absurd hdispatched (by simp)

end Maock.Http2
