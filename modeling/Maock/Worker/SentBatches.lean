import Maock.Foundation.TransitionSystem
import Maock.Http1.BatchBytes
import Maock.Http1.Pipelining
import Maock.Worker.ContentLength

/-!
# Batches of sent responses

The runs of an HTTP/1 handler whose streams are answered by `send_response`: callbacks of llhttp,
answers and calls of `on_write` in any order. A stream is answered once, when its request has been
received as a whole. `SentOnly` is the invariant: the ready streams are those that were answered,
and each holds what `send_response` left on it.

`serialisesBatch_of_run_iff` says what a call of `on_write` leaves in any state of these runs.
-/

set_option autoImplicit false
set_option relaxedAutoImplicit false

namespace Maock.Worker

open Foundation Foundation.OrderedContainer Foundation.Bytes Foundation.TransitionSystem Http
open Http1

/-! ### Runs -/

/-- A call on an `http1_handler`. -/
inductive HandlerCall where
  /-- llhttp makes a callback. -/
  | callback (callback : Callback)
  /-- The callback guard of `on_read` is entered or left. -/
  | guard (inside : Bool)
  /-- The posted `initiate_write` runs. -/
  | initiateWrite
  /-- `send_response` for a stream. -/
  | sendResponse (streamId : ℕ) (a : Answer)
  /-- A throttled response closes its stream. -/
  | closeStream (streamId : ℕ)
  /-- `on_write` is called with a buffer, and its loops run for at most `fuel` turns. -/
  | onWrite (fuel : ℕ) (buffer : Bytes)

/-- A handler, and whether llhttp is within a message. -/
structure AnsweringHandler where
  handler : Http1Handler
  receiving : Bool

namespace AnsweringHandler

/-- A handler when its connection starts. -/
def initial : AnsweringHandler where
  handler := Http1Handler.initial
  receiving := false

/-- The request of an open stream has been received as a whole, and the stream is not answered. -/
def Unanswered (streamId : ℕ) (s : AnsweringHandler) : Prop :=
  streamId ∈ s.handler.openIds ∧ streamId ∉ s.handler.streamIdsToRespond.elems ∧
    ¬ (s.receiving = true ∧ streamId = s.handler.requestCount)

instance (streamId : ℕ) (s : AnsweringHandler) : Decidable (s.Unanswered streamId) :=
  inferInstanceAs (Decidable (_ ∧ _ ∧ _))

/-- `send_response` for an open stream, when the status is not 0. -/
def start (streamId : ℕ) (a : Answer) (h : Http1Handler) : Http1Handler :=
  ((h.modifyStream streamId fun strm ↦ { strm with response := a.writeTo strm }).startResponse
    streamId).1

/-- `send_response` for an open stream. -/
def sendResponse (streamId : ℕ) (a : Answer) (h : Http1Handler) : Http1Handler :=
  if a.statusCode = 0 then h.closeStream streamId else start streamId a h

/-- One call. A message begins outside of messages and completes within one, a stream is answered or
closed once, and a call of `on_write` that does not return leads nowhere. -/
def step (config : TlsConfig) (s : AnsweringHandler) : HandlerCall → Option AnsweringHandler
  | .callback .messageBegin =>
    if s.receiving then none
    else some { handler := s.handler.messageBegin, receiving := true }
  | .callback (.messageComplete shouldKeepAlive) =>
    if s.receiving then
      some { handler := (s.handler.messageComplete config shouldKeepAlive).1, receiving := false }
    else none
  | .callback callback =>
    if s.receiving then some { s with handler := (s.handler.onCallback config callback).1 }
    else none
  | .guard inside => some { s with handler := { s.handler with insideCallback := inside } }
  | .initiateWrite => some { s with handler := { s.handler with writeSignaled := false } }
  | .sendResponse streamId a =>
    if s.Unanswered streamId then some { s with handler := sendResponse streamId a s.handler }
    else none
  | .closeStream streamId =>
    if s.Unanswered streamId then some { s with handler := s.handler.closeStream streamId }
    else none
  | .onWrite fuel buffer =>
    let writing := s.handler.onWrite fuel buffer
    if writing.fault = none then some { s with handler := writing.handler } else none

/-! ### An answer -/

theorem findStream_start (streamId : ℕ) (a : Answer) (h : Http1Handler) :
    (start streamId a h).findStream streamId =
      (h.findStream streamId).map fun strm ↦ { strm with response := a.writeTo strm } := by
  rw [start, Http1Handler.findStream_startResponse, Http1Handler.findStream_modifyStream]

theorem findStream_start_of_ne {streamId id : ℕ} (hne : streamId ≠ id) (a : Answer)
    (h : Http1Handler) : (start streamId a h).findStream id = h.findStream id := by
  rw [start, Http1Handler.findStream_startResponse, Http1Handler.findStream_modifyStream_of_ne hne]

theorem openIds_start (streamId : ℕ) (a : Answer) (h : Http1Handler) :
    (start streamId a h).openIds = h.openIds := by
  rw [start, Http1Handler.openIds_startResponse, Http1Handler.openIds_modifyStream]

theorem requestCount_start (streamId : ℕ) (a : Answer) (h : Http1Handler) :
    (start streamId a h).requestCount = h.requestCount :=
  Http1Handler.requestCount_startResponse streamId _

/-! ### The invariant -/

/-- What `send_response` leaves on a stream. -/
def Sent (strm : Stream) : Prop :=
  ∃ a : Answer, strm.response = a.sent strm.request

/-- The invariant: ready streams are open and hold a sent response, other streams hold a new one,
the current request is not answered before it is received, and no stream is newer than it. -/
structure SentOnly (s : AnsweringHandler) : Prop where
  ready_sent : ∀ id ∈ s.handler.streamIdsToRespond,
    ∃ strm, s.handler.findStream id = some strm ∧ Sent strm
  unready_new : ∀ id strm, s.handler.findStream id = some strm →
    id ∉ s.handler.streamIdsToRespond → strm.response = AsioServerResponse.initial
  receiving_unready : s.receiving = true →
    s.handler.requestCount ∉ s.handler.streamIdsToRespond
  open_le : ∀ id ∈ s.handler.openIds, id ≤ s.handler.requestCount

theorem mem_openIds_of_findStream {h : Http1Handler} {id : ℕ} {strm : Stream}
    (hfound : h.findStream id = some strm) : id ∈ h.openIds :=
  Http1Handler.isSome_findStream_iff.mp (Option.isSome_iff_exists.mpr ⟨strm, hfound⟩)

theorem sentOnly_initial : SentOnly initial :=
  ⟨fun id hid ↦ absurd hid (OrderedSet.not_mem_empty id),
    fun _ _ hfound ↦ absurd (mem_openIds_of_findStream hfound) List.not_mem_nil,
    fun _ ↦ OrderedSet.not_mem_empty _, fun _ hid ↦ absurd hid List.not_mem_nil⟩

/-- A handler that has changed in nothing but the request being received and in what the invariant
does not speak of. -/
structure KeepsResponses (h h' : Http1Handler) : Prop where
  sameStreams : Connection.SameStreams h h'
  other : ∀ id, id ≠ h.requestCount → h'.findStream id = h.findStream id
  current : ∀ strm, h'.findStream h.requestCount = some strm →
    ∃ earlier, h.findStream h.requestCount = some earlier ∧ strm.response = earlier.response

theorem keepsResponses_modifyRequest (f : AsioServerRequest → AsioServerRequest)
    (h : Http1Handler) : KeepsResponses h (h.modifyRequest f) := by
  refine ⟨Connection.sameStreams_modifyRequest f h,
    fun id hne ↦ Connection.findStream_modifyRequest_of_ne hne f, fun strm hfound ↦ ?_⟩
  have hcurrent : (h.modifyRequest f).findStream h.requestCount =
      (h.findStream h.requestCount).map fun strm ↦ { strm with request := f strm.request } :=
    Http1Handler.findStream_modifyRequest f h
  obtain ⟨earlier, hearlier, rfl⟩ := Option.map_eq_some_iff.mp (hcurrent.symm.trans hfound)
  exact ⟨earlier, hearlier, rfl⟩

/-- The end of a message changes no response. -/
theorem keepsResponses_messageComplete (config : TlsConfig) (shouldKeepAlive : Bool)
    (h : Http1Handler) : KeepsResponses h (h.messageComplete config shouldKeepAlive).1 := by
  obtain ⟨⟨hopen, hready, hcount⟩, hother, hcurrent⟩ := keepsResponses_modifyRequest
    (completeRequest config) { h with shouldKeepAlive := shouldKeepAlive }
  exact ⟨⟨hopen, hready, hcount⟩, hother, hcurrent⟩

/-- A callback within a message changes no response. -/
theorem keepsResponses_onCallback (config : TlsConfig) (h : Http1Handler) {callback : Callback}
    (hinner : callback.isInner = true) : KeepsResponses h (h.onCallback config callback).1 := by
  refine ⟨Connection.sameStreams_onCallback config h hinner,
    fun id hne ↦ (Connection.onCallback_of_ne config hne hinner).1, ?_⟩
  cases callback with
  | messageBegin => exact absurd hinner Bool.false_ne_true
  | messageComplete shouldKeepAlive => exact absurd hinner Bool.false_ne_true
  | url method data =>
    intro strm hstrm
    change (h.onUrl method data).findStream h.requestCount = some strm at hstrm
    unfold Http1Handler.onUrl at hstrm
    cases hfound : h.findStream h.requestCount with
    | none =>
      rw [hfound] at hstrm
      exact absurd (hfound.symm.trans hstrm) (by simp)
    | some found =>
      rw [hfound] at hstrm
      rw [← hfound]
      exact (keepsResponses_modifyRequest (AsioServerRequest.onUrl method data) h).current strm
        hstrm
  | headerField data => exact fun strm hstrm ↦ ⟨strm, hstrm, rfl⟩
  | headerValue data => exact (keepsResponses_modifyRequest _ h).current
  | body data => exact (keepsResponses_modifyRequest _ h).current

namespace SentOnly

variable {s : AnsweringHandler} (hinv : SentOnly s)

include hinv

theorem ready_open : ∀ id ∈ s.handler.streamIdsToRespond, id ∈ s.handler.openIds := by
  intro id hid
  obtain ⟨strm, hfound, -⟩ := hinv.ready_sent id hid
  exact mem_openIds_of_findStream hfound

/-- A message begins on a new stream. -/
theorem messageBegin : SentOnly { handler := s.handler.messageBegin, receiving := true } := by
  have hnew : s.handler.requestCount + 1 ∉ s.handler.streamIdsToRespond := fun hmem ↦
    absurd (hinv.open_le _ (hinv.ready_open _ hmem)) (Nat.not_succ_le_self _)
  refine ⟨fun id hid ↦ ?_, fun id strm hfound hunready ↦ ?_, fun _ ↦ hnew, fun id hid ↦ ?_⟩
  · have hne : s.handler.requestCount + 1 ≠ id := fun heq ↦ hnew (heq ▸ hid)
    rw [Http1Handler.findStream_messageBegin_of_ne hne]
    exact hinv.ready_sent id hid
  · by_cases hown : s.handler.requestCount + 1 = id
    · subst hown
      have hbegun : s.handler.messageBegin.findStream (s.handler.requestCount + 1) =
          some Stream.initial := Http1Handler.findStream_messageBegin hinv.open_le
      rw [← Option.some_inj.mp (hbegun.symm.trans hfound)]
      rfl
    · rw [Http1Handler.findStream_messageBegin_of_ne hown] at hfound
      exact hinv.unready_new id strm hfound hunready
  · rcases Http1Handler.mem_openIds_messageBegin.mp hid with hopen | rfl
    · exact Nat.le_succ_of_le (hinv.open_le id hopen)
    · exact Nat.le_refl _

/-- The request being received changes. -/
theorem of_keepsResponses (hunready : s.handler.requestCount ∉ s.handler.streamIdsToRespond)
    {h : Http1Handler} (hkeeps : KeepsResponses s.handler h) (receiving : Bool) :
    SentOnly { handler := h, receiving := receiving } := by
  obtain ⟨⟨hopen, hready, hcount⟩, hother, hcurrent⟩ := hkeeps
  refine ⟨fun id hid ↦ ?_, fun id strm hfound hnot ↦ ?_, fun _ ↦ ?_, fun id hid ↦ ?_⟩
  · have hid' : id ∈ s.handler.streamIdsToRespond := hready ▸ hid
    have hne : id ≠ s.handler.requestCount := fun heq ↦ hunready (heq ▸ hid')
    rw [hother id hne]
    exact hinv.ready_sent id hid'
  · have hnot' : id ∉ s.handler.streamIdsToRespond := hready ▸ hnot
    by_cases hown : id = s.handler.requestCount
    · subst hown
      obtain ⟨earlier, hearlier, hresponse⟩ := hcurrent strm hfound
      exact hresponse.trans (hinv.unready_new _ earlier hearlier hunready)
    · exact hinv.unready_new id strm ((hother id hown).symm.trans hfound) hnot'
  · show h.requestCount ∉ h.streamIdsToRespond
    rw [hcount, hready]
    exact hunready
  · show id ≤ h.requestCount
    rw [hcount]
    exact hinv.open_le id (hopen ▸ hid)

/-- A stream that is not ready is closed. -/
theorem closeStream {streamId : ℕ} (hunready : streamId ∉ s.handler.streamIdsToRespond) :
    SentOnly { s with handler := s.handler.closeStream streamId } := by
  refine ⟨fun id hid ↦ ?_, fun id strm hfound hnot ↦ ?_, hinv.receiving_unready, fun id hid ↦ ?_⟩
  · have hne : streamId ≠ id := fun heq ↦ hunready (heq ▸ hid)
    show ∃ strm, (s.handler.closeStream streamId).findStream id = some strm ∧ Sent strm
    rw [Http1Handler.findStream_closeStream_of_ne _ hne]
    exact hinv.ready_sent id hid
  · exact hinv.unready_new id strm (Connection.findStream_of_closeStream hfound) hnot
  · exact hinv.open_le id (Http1Handler.mem_openIds_closeStream.mp hid).1

/-- A stream is answered. -/
theorem sendResponse {streamId : ℕ} (hunanswered : s.Unanswered streamId) (a : Answer) :
    SentOnly { s with handler := sendResponse streamId a s.handler } := by
  obtain ⟨hopen, hunready, hreceived⟩ := hunanswered
  unfold AnsweringHandler.sendResponse
  by_cases hnone : a.statusCode = 0
  · rw [if_pos hnone]
    exact hinv.closeStream hunready
  rw [if_neg hnone]
  have hready : ∀ id, id ∈ (AnsweringHandler.start streamId a s.handler).streamIdsToRespond ↔
      id ∈ s.handler.streamIdsToRespond ∨ id = streamId := fun _ ↦
    Http1Handler.mem_streamIdsToRespond_startResponse
  refine ⟨fun id hid ↦ ?_, fun id strm hfound hnot ↦ ?_, fun hreceiving hmem ↦ ?_, fun id hid ↦ ?_⟩
  · by_cases hown : streamId = id
    · subst hown
      obtain ⟨earlier, hearlier⟩ :=
        Option.isSome_iff_exists.mp (Http1Handler.isSome_findStream_iff.mpr hopen)
      -- `send_response` finds the response as it was made
      have hnew := hinv.unready_new streamId earlier hearlier hunready
      refine ⟨{ earlier with response := a.writeTo earlier }, ?_, a, ?_⟩
      · rw [findStream_start, hearlier]
        rfl
      · show a.writeTo earlier = a.sent earlier.request
        rw [Answer.sent, ← hnew]
    · rw [findStream_start_of_ne hown]
      exact hinv.ready_sent id (((hready id).mp hid).resolve_right (Ne.symm hown))
  · have hne : streamId ≠ id := fun heq ↦ hnot ((hready id).mpr (Or.inr heq.symm))
    rw [findStream_start_of_ne hne] at hfound
    exact hinv.unready_new id strm hfound fun hmem ↦ hnot ((hready id).mpr (Or.inl hmem))
  · rw [requestCount_start] at hmem
    rcases (hready _).mp hmem with hmem | heq
    · exact hinv.receiving_unready hreceiving hmem
    · exact hreceived ⟨hreceiving, heq.symm⟩
  · rw [openIds_start] at hid
    rw [requestCount_start]
    exact hinv.open_le id hid

/-- A call of `on_write` that returns closes what it takes out of the ready streams. -/
theorem onWrite {fuel : ℕ} {buffer : Bytes}
    (hfault : (s.handler.onWrite fuel buffer).fault = none) :
    SentOnly { s with handler := (s.handler.onWrite fuel buffer).handler } := by
  have hfind := Http1Handler.findStream_onWrite hfault
  have hready : ∀ id, id ∈ (s.handler.onWrite fuel buffer).handler.streamIdsToRespond ↔
      id ∈ s.handler.streamIdsToRespond ∧ id ∉ s.handler.batch :=
    fun _ ↦ Http1Handler.mem_streamIdsToRespond_onWrite
  have hcount := Http1Handler.requestCount_onWrite fuel buffer s.handler
  have hkept : ∀ id strm, (s.handler.onWrite fuel buffer).handler.findStream id = some strm →
      id ∉ s.handler.batch ∧ s.handler.findStream id = some strm := by
    intro id strm hfound
    rw [hfind] at hfound
    by_cases htaken : id ∈ s.handler.batch
    · rw [if_pos htaken] at hfound
      exact absurd hfound (by simp)
    · rw [if_neg htaken] at hfound
      exact ⟨htaken, hfound⟩
  refine ⟨fun id hid ↦ ?_, fun id strm hfound hnot ↦ ?_, fun hreceiving hmem ↦ ?_, fun id hid ↦ ?_⟩
  · obtain ⟨hmem, htaken⟩ := (hready id).mp hid
    show ∃ strm, (s.handler.onWrite fuel buffer).handler.findStream id = some strm ∧ Sent strm
    rw [hfind, if_neg htaken]
    exact hinv.ready_sent id hmem
  · obtain ⟨htaken, hfound'⟩ := hkept id strm hfound
    exact hinv.unready_new id strm hfound' fun hmem ↦ hnot ((hready id).mpr ⟨hmem, htaken⟩)
  · change (s.handler.onWrite fuel buffer).handler.requestCount ∈ _ at hmem
    rw [hcount] at hmem
    exact hinv.receiving_unready hreceiving ((hready _).mp hmem).1
  · show id ≤ (s.handler.onWrite fuel buffer).handler.requestCount
    rw [hcount]
    obtain ⟨strm, hfound⟩ :=
      Option.isSome_iff_exists.mp (Http1Handler.isSome_findStream_iff.mpr hid)
    exact hinv.open_le id (mem_openIds_of_findStream (hkept id strm hfound).2)

end SentOnly

/-- One call keeps the invariant. -/
theorem sentOnly_step {config : TlsConfig} (s : AnsweringHandler) (call : HandlerCall)
    (next : AnsweringHandler) (hinv : SentOnly s) (hstep : s.step config call = some next) :
    SentOnly next := by
  have hinner : ∀ callback : Callback, callback.isInner = true →
      (if s.receiving then some { s with handler := (s.handler.onCallback config callback).1 }
        else none) = some next → SentOnly next := by
    intro callback hcallback hnext
    split_ifs at hnext with hreceiving
    rw [← Option.some_inj.mp hnext]
    exact hinv.of_keepsResponses (hinv.receiving_unready hreceiving)
      (keepsResponses_onCallback config s.handler hcallback) s.receiving
  cases call with
  | callback callback =>
    cases callback with
    | messageBegin =>
      simp only [step] at hstep
      split_ifs at hstep
      rw [← Option.some_inj.mp hstep]
      exact hinv.messageBegin
    | messageComplete shouldKeepAlive =>
      simp only [step] at hstep
      split_ifs at hstep with hreceiving
      rw [← Option.some_inj.mp hstep]
      exact hinv.of_keepsResponses (hinv.receiving_unready hreceiving)
        (keepsResponses_messageComplete config shouldKeepAlive s.handler) false
    | url method data => exact hinner (.url method data) rfl hstep
    | headerField data => exact hinner (.headerField data) rfl hstep
    | headerValue data => exact hinner (.headerValue data) rfl hstep
    | body data => exact hinner (.body data) rfl hstep
  | guard inside =>
    rw [← Option.some_inj.mp hstep]
    exact ⟨hinv.ready_sent, hinv.unready_new, hinv.receiving_unready, hinv.open_le⟩
  | initiateWrite =>
    rw [← Option.some_inj.mp hstep]
    exact ⟨hinv.ready_sent, hinv.unready_new, hinv.receiving_unready, hinv.open_le⟩
  | sendResponse streamId a =>
    simp only [step] at hstep
    split_ifs at hstep with hunanswered
    rw [← Option.some_inj.mp hstep]
    exact hinv.sendResponse hunanswered a
  | closeStream streamId =>
    simp only [step] at hstep
    split_ifs at hstep with hunanswered
    rw [← Option.some_inj.mp hstep]
    exact hinv.closeStream hunanswered.2.1
  | onWrite fuel buffer =>
    simp only [step] at hstep
    split_ifs at hstep with hfault
    rw [← Option.some_inj.mp hstep]
    exact hinv.onWrite hfault

/-! ### Batches -/

theorem SentOnly.endedBatch {s : AnsweringHandler} (hinv : SentOnly s) :
    EndedBatch s.handler.streamIdsToRespond.elems s.handler := by
  intro id hid
  obtain ⟨strm, hfound, a, hsent⟩ := hinv.ready_sent id hid
  exact ⟨strm, hfound, ended_of_sent hsent⟩

/-- **The serialisation of batches of sent responses.** In every state of the runs, a call of
`on_write` that finds room for its batch leaves exactly the bytes of the batch and removes exactly
its streams, when every body that it is to write is shorter than `2 ^ 31` bytes, and only then. -/
theorem serialisesBatch_of_run_iff {config : TlsConfig} {calls : List HandlerCall}
    {s : AnsweringHandler} (hrun : run (step config) initial calls = some s) {buffer : Bytes}
    (hfits : (batchBytes s.handler.batch s.handler).length ≤ buffer.length) (fuel : ℕ) :
    s.handler.SerialisesBatch (s.handler.onWrite fuel buffer) ↔
      ShortBodies s.handler.batch s.handler := by
  have hinv : SentOnly s := invariant_run sentOnly_step sentOnly_initial hrun
  exact Http1Handler.serialisesBatch_iff hinv.endedBatch hfits fuel

/-- A request received as a whole. -/
def request (method : Bytes) : List HandlerCall :=
  [.callback .messageBegin, .callback (.url method (ascii "/")),
    .callback (.messageComplete true)]

/-- Two pipelined requests, the second of which, to `HEAD`, is answered first. -/
def answeredOutOfTurn : List HandlerCall :=
  request (ascii "GET") ++ request (ascii "HEAD") ++
    [.sendResponse 2 (answerOf [] (ascii "ok")),
      .sendResponse 1 (answerOf [(ascii "x-id", ascii "7")] (ascii "ok"))]

theorem serialisesBatch_of_run_outOfTurn :
    ∃ s, run (step ⟨[], []⟩) initial answeredOutOfTurn = some s ∧ s.handler.batch = [1, 2] ∧
      s.handler.SerialisesBatch (s.handler.onWrite 1 (List.replicate 128 0)) := by
  have hstate : (run (step ⟨[], []⟩) initial answeredOutOfTurn).map (fun s ↦ (s.handler.batch,
      (batchBytes s.handler.batch s.handler).length,
      decide (ShortBodies s.handler.batch s.handler))) = some ([1, 2], 84, true) := by
    decide +kernel
  obtain ⟨s, hrun, hs⟩ := Option.map_eq_some_iff.mp hstate
  obtain ⟨hbatch, hlength, hshort⟩ : s.handler.batch = [1, 2] ∧
      (batchBytes s.handler.batch s.handler).length = 84 ∧
      decide (ShortBodies s.handler.batch s.handler) = true := by simpa using hs
  refine ⟨s, hrun, hbatch,
    (serialisesBatch_of_run_iff hrun ?_ 1).mpr (of_decide_eq_true hshort)⟩
  rw [hlength, List.length_replicate]
  decide

/-- A request answered with a payload. -/
def answeredWith (payload : Bytes) : List HandlerCall :=
  request (ascii "GET") ++ [.sendResponse 1 (answerOf [] payload)]

theorem run_answeredWith (payload : Bytes) :
    ∃ s strm, run (step ⟨[], []⟩) initial (answeredWith payload) = some s ∧
      s.handler.batch = [1] ∧ s.handler.shouldKeepAlive = true ∧
      s.handler.findStream 1 = some strm ∧
      strm.response = (answerOf [] payload).sent strm.request ∧
      strm.request.method = ascii "GET" :=
  ⟨_, _, rfl, rfl, rfl, rfl, rfl, rfl⟩

/-- The head of an answer with a payload and no header fields of its own. -/
theorem length_headBytes_of_payload {payload : Bytes} (hpayload : payload ≠ [])
    (request : AsioServerRequest) :
    (headBytes true ((answerOf [] payload).sent request)).length =
      36 + (decimal payload.length).length := by
  have hperm := headFields_sent_perm (answerOf [] payload) request
  have hadds : (answerOf [] payload).AddsContentLength :=
    ⟨hpayload, fun field hfield ↦ absurd hfield List.not_mem_nil⟩
  rw [if_pos hadds] at hperm
  have hfields : headFields ((answerOf [] payload).sent request) =
      [(contentLength, decimal payload.length)] := List.perm_singleton.mp hperm
  have hstatus : (statusText true ((answerOf [] payload).sent request)).length = 15 := by
    have hcode : ((answerOf [] payload).sent request).statusCode = 200 := by rw [sent_eq]; rfl
    unfold statusText
    rw [hcode]
    decide
  have hname : contentLength.length = 14 := by decide
  have hcolon : (ascii ":").length = 1 := by decide
  have hbreak : Lines.lineBreak.length = 2 := rfl
  rw [headBytes_eq, headParts, hfields]
  simp only [fieldText, Lines.joined, List.map_cons, List.map_nil, List.cons_append,
    List.nil_append, List.flatten_cons, List.flatten_nil, List.length_append, List.length_nil]
  omega

/-- A body of `2 ^ 31` bytes fits into a buffer that is 64 KiB larger, but the length returned is
not where it ends. -/
theorem not_serialisesBatch_hugeBody :
    ∃ s, run (step ⟨[], []⟩) initial (answeredWith (List.replicate (2 ^ 31) 97)) = some s ∧
      (batchBytes s.handler.batch s.handler).length ≤ 2 ^ 31 + 64 * 1024 ∧
      ∀ fuel, ¬ s.handler.SerialisesBatch
        (s.handler.onWrite fuel (List.replicate (2 ^ 31 + 64 * 1024) 0)) := by
  obtain ⟨s, strm, hrun, hbatch, halive, hfound, hsent, hmethod⟩ :=
    run_answeredWith (List.replicate (2 ^ 31) 97)
  have hinv : SentOnly s := invariant_run sentOnly_step sentOnly_initial hrun
  have hlength : (List.replicate (2 ^ 31) (97 : UInt8)).length = 2 ^ 31 := List.length_replicate
  have hbody : strm.body = List.replicate (2 ^ 31) 97 := by
    rw [body_of_sent hsent, hmethod]
    exact if_pos (by decide)
  have hnonempty : List.replicate (2 ^ 31) (97 : UInt8) ≠ [] := by
    rw [← List.length_pos_iff, hlength]
    decide
  have hdigits : (decimal (2 ^ 31)).length = 10 := by decide +kernel
  have hrest : (batchBytes [] (s.handler.closeStream 1)).length = 0 := rfl
  have hsize : (batchBytes s.handler.batch s.handler).length = 46 + 2 ^ 31 := by
    rw [hbatch, batchBytes_cons List.not_mem_nil hfound, List.length_append, halive,
      length_responseBytes, hbody, hlength, hsent,
      length_headBytes_of_payload hnonempty, hlength, hdigits, hrest]
    omega
  have hfits : (batchBytes s.handler.batch s.handler).length ≤ 2 ^ 31 + 64 * 1024 := by
    rw [hsize]
    decide
  refine ⟨s, hrun, hfits, fun fuel hserialises ↦ ?_⟩
  have hshort := (Http1Handler.serialisesBatch_iff hinv.endedBatch
    (by rw [List.length_replicate]; exact hfits) fuel).mp hserialises
  have hone : 1 ∈ s.handler.batch := by rw [hbatch]; exact List.mem_singleton_self 1
  have hsmall := hshort 1 hone strm hfound
  rw [hbody, hlength] at hsmall
  exact absurd hsmall (Nat.lt_irrefl _)

end AnsweringHandler

end Maock.Worker
