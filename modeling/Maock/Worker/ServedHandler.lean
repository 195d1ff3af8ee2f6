import Maock.Connection.Lifecycle
import Maock.Worker.ClientReader
import Maock.Worker.SentBatches

/-!
# An HTTP/1 handler that serves a connection

`http1_handler` as a handler of `asio_server_connection`: a read makes callbacks, in which requests
may be answered at once; tasks answer the others; and `on_write` hands the answers over to the
connection. `ServedHandler` keeps a history beside it: which answers have been sent, which streams
have been closed without one, which exchanges have been written, and all bytes handed over.

`Served` is the invariant: the bytes are those of the messages of the exchanges, which are in the
order of the requests and leave none out unless a stream was closed.
-/

set_option autoImplicit false
set_option relaxedAutoImplicit false

namespace Maock.Worker

open Foundation Foundation.OrderedContainer Foundation.Bytes Foundation.TransitionSystem Http
open Http1
open AnsweringHandler (SentOnly)

/-! ### The handler -/

/-- A request that has been answered in writing: its stream, the request, the version written, and
the answer. -/
structure Exchange where
  streamId : ℕ
  request : AsioServerRequest
  keepAlive : Bool
  answer : Answer

/-- The message that the client gets. -/
def Exchange.message (e : Exchange) : Message :=
  e.answer.message e.keepAlive e.request

/-- The method that the client has asked with. -/
def Exchange.method (e : Exchange) : Bytes :=
  e.request.method

/-- What the program does with a request: it sends an answer, or closes the stream of a throttled
one. -/
structure Reply where
  streamId : ℕ
  answer : Option Answer

/-- What happens while a read is handled. -/
inductive ReadEvent where
  | callback (callback : Callback)
  | reply (reply : Reply)

/-- The call on the handler. -/
def ReadEvent.call : ReadEvent → HandlerCall
  | .callback made => .callback made
  | .reply ⟨streamId, some a⟩ => .sendResponse streamId a
  | .reply ⟨streamId, none⟩ => .closeStream streamId

/-- An `http1_handler` with the buffer that its connection passes to `on_write`, and its history.
-/
structure ServedHandler where
  answering : AnsweringHandler
  outbuf : Bytes
  answers : ℕ → Option Answer
  closings : List ℕ
  exchanges : List Exchange
  written : Bytes
  faulted : Bool

namespace ServedHandler

/-- A handler when its connection starts. -/
def initial : ServedHandler where
  answering := AnsweringHandler.initial
  outbuf := List.replicate (64 * 1024) 0
  answers _ := none
  closings := []
  exchanges := []
  written := []
  faulted := false

/-- The streams of the handler. -/
def handler (h : ServedHandler) : Http1Handler :=
  h.answering.handler

/-- One event of a read, or a reply that a task brings. -/
def receive (config : TlsConfig) (h : ServedHandler) (event : ReadEvent) : Option ServedHandler :=
  (h.answering.step config event.call).map fun answering ↦
    match event with
    | .callback _ => { h with answering := answering }
    | .reply ⟨streamId, none⟩ =>
      { h with answering := answering, closings := streamId :: h.closings }
    | .reply ⟨streamId, some a⟩ =>
      if a.statusCode = 0 then
        { h with answering := answering, closings := streamId :: h.closings }
      else
        { h with answering := answering, answers := Function.update h.answers streamId (some a) }

/-- The exchange that the response on a stream completes. -/
def exchange (h : ServedHandler) (streamId : ℕ) : Option Exchange :=
  (h.handler.findStream streamId).bind fun strm ↦
    (h.answers streamId).map fun a ↦ ⟨streamId, strm.request, h.handler.shouldKeepAlive, a⟩

/-- `on_write`, whose loops run for at most `fuel` turns. -/
def onWrite (fuel : ℕ) (h : ServedHandler) : ServedHandler × Option ℕ :=
  let writing := h.handler.onWrite fuel h.outbuf
  if writing.fault = none then
    ({ h with
        answering := { h.answering with handler := writing.handler }
        outbuf := writing.out.buffer
        exchanges := h.exchanges ++ h.handler.batch.filterMap h.exchange
        written := h.written ++ writing.out.written }, some writing.out.dataLen.toNat)
  else ({ h with faulted := true }, none)

end ServedHandler

/-- `http1_handler` as a handler of a connection. A read delivers events, and tells whether llhttp
has found no error. The write function and the flag of a signaled write are those of the
connection. -/
def http1BaseHandler (config : TlsConfig) (fuel : ℕ) :
    Maock.Connection.BaseHandler ServedHandler (List ReadEvent × Bool) Reply where
  start := (ServedHandler.initial, true)
  onRead received h :=
    match run (ServedHandler.receive config) h received.1 with
    | none => (h, false)
    | some next => (next, received.2)
  onWrite h := h.onWrite fuel
  shouldStop h := h.handler.shouldStop
  call reply h :=
    match h.receive config (.reply reply) with
    | none => (h, false)
    | some next => (next, (reply.answer.any fun a ↦ decide (a.statusCode ≠ 0)))

/-! ### The invariant -/

namespace ServedHandler

/-- The invariant: ready streams hold the answer that was sent for them; streams whose answers have
been written are gone; what has been written are the messages of the exchanges, unless a body is too
long for `call_read`; and unless a stream has been closed without an answer, the exchanges are those
of the first requests, and the streams of all later ones are open. -/
structure Served (h : ServedHandler) : Prop where
  sentOnly : SentOnly h.answering
  ready : ∀ id ∈ h.handler.streamIdsToRespond, ∃ strm a, h.handler.findStream id = some strm ∧
    h.answers id = some a ∧ strm.response = a.sent strm.request
  past : ∀ e ∈ h.exchanges, e.streamId ∉ h.handler.openIds ∧
    e.streamId ≤ h.handler.requestCount ∧ h.answers e.streamId = some e.answer
  written : (∀ e ∈ h.exchanges, e.message.body.length < 2 ^ 31) → incStep ≤ h.outbuf.length ∧
    h.written = (h.exchanges.map Exchange.message).flatMap Message.text
  inOrder : h.closings = [] → h.exchanges.map Exchange.streamId = List.range' 1 h.exchanges.length ∧
    ∀ id, id ∈ h.handler.openIds ↔ h.exchanges.length < id ∧ id ≤ h.handler.requestCount

theorem served_initial : Served initial := by
  have hsize : incStep ≤ initial.outbuf.length := by
    rw [initial, List.length_replicate]
    decide
  refine ⟨AnsweringHandler.sentOnly_initial, fun id hid ↦ absurd hid (OrderedSet.not_mem_empty id),
    fun e he ↦ absurd he List.not_mem_nil, fun _ ↦ ⟨hsize, rfl⟩, fun _ ↦ ⟨rfl, fun id ↦ ?_⟩⟩
  exact ⟨fun h ↦ absurd h List.not_mem_nil, fun h ↦ absurd h.2 (Nat.not_le.mpr h.1)⟩

/-- A chain of consecutive numbers is a range. -/
theorem eq_range'_of_isChain {first : ℕ} {rest : List ℕ}
    (h : (first :: rest).IsChain fun id next ↦ next = id + 1) :
    first :: rest = List.range' first (first :: rest).length := by
  induction rest generalizing first with
  | nil => rfl
  | cons next rest ih =>
    obtain ⟨rfl, hrest⟩ := List.isChain_cons_cons.mp h
    rw [List.length_cons, List.range'_succ, ← ih hrest]

namespace Served

variable {h : ServedHandler} (hinv : Served h)

include hinv

/-- The exchanges are with streams that have been opened. -/
theorem length_exchanges_le (hnone : h.closings = []) :
    h.exchanges.length ≤ h.handler.requestCount := by
  obtain ⟨hids, -⟩ := hinv.inOrder hnone
  by_contra hlt
  have hlast : h.exchanges.length ∈ h.exchanges.map Exchange.streamId := by
    rw [hids, List.mem_range'_1]
    omega
  obtain ⟨e, he, heq⟩ := List.mem_map.mp hlast
  exact hlt (heq ▸ (hinv.past e he).2.1)

/-- A callback changes neither ready streams nor the history, and opens at most a new stream. -/
theorem callback {answering : AnsweringHandler} (hsent : SentOnly answering)
    (hready : answering.handler.streamIdsToRespond = h.handler.streamIdsToRespond)
    (hsame : ∀ id ∈ h.handler.streamIdsToRespond,
      answering.handler.findStream id = h.handler.findStream id)
    (hcount : h.handler.requestCount ≤ answering.handler.requestCount)
    (hopen : ∀ id, id ∈ answering.handler.openIds ↔ id ∈ h.handler.openIds ∨
      h.handler.requestCount < id ∧ id ≤ answering.handler.requestCount) :
    Served { h with answering := answering } := by
  refine ⟨hsent, fun id hid ↦ ?_, fun e he ↦ ?_, hinv.written, fun hnone ↦ ?_⟩
  · have hid' : id ∈ h.handler.streamIdsToRespond := hready ▸ hid
    obtain ⟨strm, a, hfound, hrest⟩ := hinv.ready id hid'
    exact ⟨strm, a, (hsame id hid').trans hfound, hrest⟩
  · obtain ⟨hclosed, hle, hanswer⟩ := hinv.past e he
    refine ⟨fun hmem ↦ ?_, Nat.le_trans hle hcount, hanswer⟩
    rcases (hopen _).mp hmem with hmem | hnew
    · exact hclosed hmem
    · omega
  · obtain ⟨hids, hall⟩ := hinv.inOrder hnone
    have hle := hinv.length_exchanges_le hnone
    refine ⟨hids, fun id ↦ ?_⟩
    show id ∈ answering.handler.openIds ↔
      h.exchanges.length < id ∧ id ≤ answering.handler.requestCount
    rw [hopen, hall]
    omega

/-- An answer is sent for an open stream. -/
theorem answer {streamId : ℕ} (hunanswered : h.answering.Unanswered streamId) {a : Answer}
    (hcode : a.statusCode ≠ 0) :
    Served { h with
      answering := { h.answering with handler := AnsweringHandler.start streamId a h.handler }
      answers := Function.update h.answers streamId (some a) } := by
  have hsent := hinv.sentOnly.sendResponse hunanswered a
  rw [AnsweringHandler.sendResponse, if_neg hcode] at hsent
  obtain ⟨hopen, hunready, -⟩ := hunanswered
  refine ⟨hsent, fun id hid ↦ ?_, fun e he ↦ ?_, hinv.written, fun hnone ↦ ?_⟩
  · show ∃ strm b, (AnsweringHandler.start streamId a h.handler).findStream id = some strm ∧
      Function.update h.answers streamId (some a) id = some b ∧ _
    by_cases hown : streamId = id
    · subst hown
      obtain ⟨earlier, hearlier⟩ :=
        Option.isSome_iff_exists.mp (Http1Handler.isSome_findStream_iff.mpr hopen)
      have hnew := hinv.sentOnly.unready_new streamId earlier hearlier hunready
      have hfound : h.handler.findStream streamId = some earlier := hearlier
      refine ⟨{ earlier with response := a.writeTo earlier }, a, ?_, Function.update_self .., ?_⟩
      · rw [AnsweringHandler.findStream_start, hfound]
        rfl
      · show a.writeTo earlier = a.sent earlier.request
        rw [Answer.sent, ← hnew]
    · have hearlier : id ∈ h.handler.streamIdsToRespond :=
        (Http1Handler.mem_streamIdsToRespond_startResponse.mp hid).resolve_right (Ne.symm hown)
      rw [AnsweringHandler.findStream_start_of_ne hown, Function.update_of_ne (Ne.symm hown)]
      exact hinv.ready id hearlier
  · obtain ⟨hclosed, hle, hanswer⟩ := hinv.past e he
    have hne : e.streamId ≠ streamId := fun heq ↦ hclosed (heq ▸ hopen)
    refine ⟨?_, ?_, (Function.update_of_ne hne _ _).trans hanswer⟩
    · show e.streamId ∉ (AnsweringHandler.start streamId a h.handler).openIds
      rw [AnsweringHandler.openIds_start]
      exact hclosed
    · show e.streamId ≤ (AnsweringHandler.start streamId a h.handler).requestCount
      rw [AnsweringHandler.requestCount_start]
      exact hle
  · obtain ⟨hids, hall⟩ := hinv.inOrder hnone
    refine ⟨hids, fun id ↦ ?_⟩
    show id ∈ (AnsweringHandler.start streamId a h.handler).openIds ↔
      _ ∧ id ≤ (AnsweringHandler.start streamId a h.handler).requestCount
    rw [AnsweringHandler.openIds_start, AnsweringHandler.requestCount_start]
    exact hall id

/-- A stream is closed without an answer. -/
theorem close {streamId : ℕ} (hunready : streamId ∉ h.handler.streamIdsToRespond) :
    Served { h with
      answering := { h.answering with handler := h.handler.closeStream streamId }
      closings := streamId :: h.closings } := by
  refine ⟨hinv.sentOnly.closeStream hunready, fun id hid ↦ ?_, fun e he ↦ ?_, hinv.written,
    fun hnone ↦ absurd hnone (List.cons_ne_nil _ _)⟩
  · have hne : streamId ≠ id := fun heq ↦ hunready (heq ▸ hid)
    show ∃ strm a, (h.handler.closeStream streamId).findStream id = some strm ∧ _
    rw [Http1Handler.findStream_closeStream_of_ne _ hne]
    exact hinv.ready id hid
  · obtain ⟨hclosed, hrest⟩ := hinv.past e he
    exact ⟨fun hmem ↦ hclosed (Http1Handler.mem_openIds_closeStream.mp hmem).1, hrest⟩

/-! ### Writing -/

/-- A ready stream is about to complete its exchange. -/
theorem exchange_of_ready {streamId : ℕ} (hready : streamId ∈ h.handler.streamIdsToRespond) :
    ∃ e, h.exchange streamId = some e ∧ e.streamId = streamId ∧
      h.answers streamId = some e.answer ∧ h.handler.responseOn streamId = e.message.text ∧
      ∀ strm, h.handler.findStream streamId = some strm → strm.body = e.message.body := by
  obtain ⟨strm, a, hfound, hanswer, hsent⟩ := hinv.ready streamId hready
  have hbody : strm.body =
      if expectResponseBody strm.request.method a.statusCode then a.payload else [] :=
    body_of_sent hsent
  refine ⟨⟨streamId, strm.request, h.handler.shouldKeepAlive, a⟩, ?_, rfl, hanswer, ?_, ?_⟩
  · rw [exchange, hfound, hanswer]
    rfl
  · have hcode : strm.response.statusCode = a.statusCode := by
      rw [hsent, sent_eq]
    rw [Http1Handler.responseOn, hfound, Option.map_some, Option.getD_some, responseBytes_eq, hbody,
      headBytes_eq, headParts, statusText, hcode, hsent]
    rfl
  · intro other hother
    rw [← Option.some_inj.mp (hfound.symm.trans hother)]
    exact hbody

/-- The exchanges of ready streams. -/
theorem exchanges_of_ready {ids : List ℕ} (hready : ∀ id ∈ ids, id ∈ h.handler.streamIdsToRespond) :
    (ids.filterMap h.exchange).map Exchange.streamId = ids ∧
      ((ids.filterMap h.exchange).map Exchange.message).flatMap Message.text =
        batchBytes ids h.handler ∧
      ((∀ e ∈ ids.filterMap h.exchange, e.message.body.length < 2 ^ 31) →
        ShortBodies ids h.handler) ∧
      ∀ e ∈ ids.filterMap h.exchange, h.answers e.streamId = some e.answer := by
  induction ids with
  | nil => exact ⟨rfl, rfl, fun _ id hid ↦ absurd hid List.not_mem_nil, by simp⟩
  | cons id rest ih =>
    obtain ⟨hid, hrest⟩ := List.forall_mem_cons.mp hready
    obtain ⟨e, hexchange, hown, hanswer, htext, hbody⟩ := hinv.exchange_of_ready hid
    obtain ⟨hids, hbytes, hshort, hanswers⟩ := ih hrest
    rw [List.filterMap_cons_some hexchange]
    refine ⟨by rw [List.map_cons, hids, hown], ?_, fun hall ↦ ?_, ?_⟩
    · rw [List.map_cons, List.flatMap_cons, hbytes, ← htext]
      rfl
    · obtain ⟨hfirst, hothers⟩ := List.forall_mem_cons.mp hall
      refine List.forall_mem_cons.mpr ⟨fun strm hstrm ↦ ?_, hshort hothers⟩
      rw [hbody strm hstrm]
      exact hfirst
    · exact List.forall_mem_cons.mpr ⟨hown ▸ hanswer, hanswers⟩

/-- Where the streams from one on are open, a batch is the first of them. -/
theorem batch_eq_range' {n : ℕ} (hopen : ∀ id, id ∈ h.handler.openIds ↔
    n < id ∧ id ≤ h.handler.requestCount) :
    h.handler.batch = List.range' (n + 1) h.handler.batch.length := by
  obtain ⟨hbatch, -⟩ :=
    Http1Handler.getConsecutiveStreamIdsToRespond_spec hinv.sentOnly.ready_open
  have hready : BatchReady h.handler.batch h.handler := hbatch
  have hconsecutive := h.handler.isChain_batch
  cases hids : h.handler.batch with
  | nil => rfl
  | cons first rest =>
    rw [hids] at hready hconsecutive
    have hfirst := (hopen first).mp (hready.isOpen first List.mem_cons_self)
    have hnext : n + 1 ∈ first :: rest := by
      refine (hready.least (n + 1) ((hopen _).mpr (by omega))).resolve_right fun hbelow ↦ ?_
      have := hbelow first List.mem_cons_self
      omega
    have heq : first = n + 1 := by
      rcases List.mem_cons.mp hnext with heq | hmem
      · exact heq.symm
      · have := (List.pairwise_cons.mp hready.sorted).1 _ hmem
        omega
    rw [heq] at hconsecutive ⊢
    exact eq_range'_of_isChain hconsecutive

/-- A call of `on_write` that returns completes the exchanges of its batch. -/
theorem onWrite {fuel : ℕ} (hfault : (h.handler.onWrite fuel h.outbuf).fault = none) :
    Served (h.onWrite fuel).1 := by
  have hready := hinv.sentOnly.ready_open
  obtain ⟨hbatch, hsubset⟩ := Http1Handler.getConsecutiveStreamIdsToRespond_spec hready
  have hbatchReady : ∀ id ∈ h.handler.batch, id ∈ h.handler.streamIdsToRespond := hsubset
  obtain ⟨hids, hbytes, hshort, hanswers⟩ := hinv.exchanges_of_ready hbatchReady
  have hfind := Http1Handler.findStream_onWrite hfault
  have hcount := Http1Handler.requestCount_onWrite fuel h.outbuf h.handler
  have hopen : ∀ id, id ∈ (h.handler.onWrite fuel h.outbuf).handler.openIds ↔
      id ∈ h.handler.openIds ∧ id ∉ h.handler.batch := by
    intro id
    rw [← Http1Handler.isSome_findStream_iff, hfind, ← Http1Handler.isSome_findStream_iff]
    split_ifs with htaken
    · simp [htaken]
    · simp [htaken]
  unfold ServedHandler.onWrite
  rw [if_pos hfault]
  refine ⟨hinv.sentOnly.onWrite hfault, fun id hid ↦ ?_, fun e he ↦ ?_, fun hall ↦ ?_,
    fun hnone ↦ ?_⟩
  · obtain ⟨hmem, hleft⟩ := Http1Handler.mem_streamIdsToRespond_onWrite.mp hid
    show ∃ strm a, (h.handler.onWrite fuel h.outbuf).handler.findStream id = some strm ∧ _
    rw [hfind, if_neg (show id ∉ h.handler.batch from hleft)]
    exact hinv.ready id hmem
  · show e.streamId ∉ (h.handler.onWrite fuel h.outbuf).handler.openIds ∧
      e.streamId ≤ (h.handler.onWrite fuel h.outbuf).handler.requestCount ∧ _
    rw [hopen, hcount]
    rcases List.mem_append.mp he with hold | hnew
    · obtain ⟨hclosed, hrest⟩ := hinv.past e hold
      exact ⟨fun hmem ↦ hclosed hmem.1, hrest⟩
    · have hmem : e.streamId ∈ h.handler.batch := by
        rw [← hids]
        exact List.mem_map_of_mem hnew
      exact ⟨fun hopen' ↦ hopen'.2 hmem,
        hinv.sentOnly.open_le _ (hready _ (hbatchReady _ hmem)), hanswers e hnew⟩
  · obtain ⟨holdShort, hnewShort⟩ := List.forall_mem_append.mp hall
    obtain ⟨hsize, hwritten⟩ := hinv.written holdShort
    have hended : EndedBatch h.handler.batch h.handler := fun id hid ↦
      hinv.sentOnly.endedBatch id (hbatchReady id hid)
    obtain ⟨hbatchBytes, hgrown⟩ := written_onWrite hsize hended (hshort hnewShort) hfault
    refine ⟨hgrown, ?_⟩
    show h.written ++ (h.handler.onWrite fuel h.outbuf).out.written = _
    rw [hbatchBytes, hwritten, List.map_append, List.flatMap_append, hbytes]
  · obtain ⟨hpast, hlater⟩ := hinv.inOrder hnone
    have hrange := hinv.batch_eq_range' hlater
    have hlength : (h.handler.batch.filterMap h.exchange).length = h.handler.batch.length := by
      rw [← List.length_map Exchange.streamId, hids]
    refine ⟨?_, fun id ↦ ?_⟩
    · rw [List.map_append, List.length_append, hids, hpast, hlength]
      conv_lhs => rw [hrange]
      rw [Nat.add_comm h.exchanges.length 1, List.range'_append_1]
    · show id ∈ (h.handler.onWrite fuel h.outbuf).handler.openIds ↔
        (h.exchanges ++ h.handler.batch.filterMap h.exchange).length < id ∧
          id ≤ (h.handler.onWrite fuel h.outbuf).handler.requestCount
      have hmem : id ∈ h.handler.batch ↔ h.exchanges.length + 1 ≤ id ∧
          id < h.exchanges.length + 1 + h.handler.batch.length := by
        conv_lhs => rw [hrange]
        exact List.mem_range'_1
      rw [hopen, hcount, hlater, hmem, List.length_append, hlength]
      omega

end Served

/-! ### Reading -/

/-- A callback within a message changes no response. -/
theorem keepsResponses_step {config : TlsConfig} {s next : AnsweringHandler} {callback : Callback}
    (hother : callback ≠ .messageBegin) (hstep : s.step config (.callback callback) = some next) :
    s.receiving = true ∧ AnsweringHandler.KeepsResponses s.handler next.handler := by
  have hinner : callback.isInner = true →
      (if s.receiving then some { s with handler := (s.handler.onCallback config callback).1 }
        else none) = some next →
      s.receiving = true ∧ AnsweringHandler.KeepsResponses s.handler next.handler := by
    intro hcallback hnext
    obtain ⟨hreceiving, heq⟩ := Option.ite_none_right_eq_some.mp hnext
    rw [← Option.some_inj.mp heq]
    exact ⟨hreceiving, AnsweringHandler.keepsResponses_onCallback config s.handler hcallback⟩
  cases callback with
  | messageBegin => exact absurd rfl hother
  | messageComplete shouldKeepAlive =>
    obtain ⟨hreceiving, heq⟩ := Option.ite_none_right_eq_some.mp hstep
    rw [← Option.some_inj.mp heq]
    exact ⟨hreceiving,
      AnsweringHandler.keepsResponses_messageComplete config shouldKeepAlive s.handler⟩
  | url method data => exact hinner rfl hstep
  | headerField data => exact hinner rfl hstep
  | headerValue data => exact hinner rfl hstep
  | body data => exact hinner rfl hstep

/-- An event of a read, or a reply, keeps the invariant. -/
theorem Served.receive {config : TlsConfig} {h next : ServedHandler} {event : ReadEvent}
    (hinv : Served h) (hstep : h.receive config event = some next) : Served next := by
  obtain ⟨answering, hanswering, rfl⟩ := Option.map_eq_some_iff.mp hstep
  have hsent := AnsweringHandler.sentOnly_step _ _ _ hinv.sentOnly hanswering
  cases event with
  | callback made =>
    by_cases hbegin : made = .messageBegin
    · subst hbegin
      obtain ⟨-, heq⟩ := Option.ite_none_left_eq_some.mp hanswering
      obtain rfl := Option.some_inj.mp heq
      refine hinv.callback hsent rfl (fun id hid ↦ ?_) (Nat.le_succ _) fun id ↦ ?_
      · have hle := hinv.sentOnly.open_le id (hinv.sentOnly.ready_open id hid)
        exact Http1Handler.findStream_messageBegin_of_ne (Nat.ne_of_gt (Nat.lt_succ_of_le hle))
      · refine Http1Handler.mem_openIds_messageBegin.trans (or_congr_right ?_)
        show id = h.handler.requestCount + 1 ↔
          h.handler.requestCount < id ∧ id ≤ h.handler.requestCount + 1
        omega
    · obtain ⟨hreceiving, ⟨hopen, hready, hcount⟩, hother, -⟩ :=
        keepsResponses_step hbegin hanswering
      refine hinv.callback hsent hready (fun id hid ↦ hother id fun heq ↦ ?_) hcount.ge fun id ↦ ?_
      · exact hinv.sentOnly.receiving_unready hreceiving (heq ▸ hid)
      · rw [hopen, hcount]
        exact (or_iff_left fun hnew ↦ absurd hnew.1 (Nat.not_lt.mpr hnew.2)).symm
  | reply reply =>
    obtain ⟨streamId, answer⟩ := reply
    cases answer with
    | none =>
      obtain ⟨hunanswered, heq⟩ := Option.ite_none_right_eq_some.mp hanswering
      obtain rfl := Option.some_inj.mp heq
      exact hinv.close hunanswered.2.1
    | some a =>
      obtain ⟨hunanswered, heq⟩ := Option.ite_none_right_eq_some.mp hanswering
      obtain rfl := Option.some_inj.mp heq
      dsimp only
      by_cases hcode : a.statusCode = 0
      · rw [if_pos hcode, AnsweringHandler.sendResponse, if_pos hcode]
        exact hinv.close hunanswered.2.1
      · rw [if_neg hcode, AnsweringHandler.sendResponse, if_neg hcode]
        exact hinv.answer hunanswered hcode

/-- Only a call of `on_write` goes wrong. -/
theorem faulted_receive {config : TlsConfig} {h next : ServedHandler} {event : ReadEvent}
    (hstep : h.receive config event = some next) : next.faulted = h.faulted := by
  obtain ⟨answering, -, rfl⟩ := Option.map_eq_some_iff.mp hstep
  cases event with
  | callback made => rfl
  | reply reply =>
    obtain ⟨streamId, answer⟩ := reply
    cases answer with
    | none => rfl
    | some a =>
      dsimp only
      split_ifs <;> rfl

/-- The invariant, as long as no call of `on_write` has gone wrong. -/
def Unbroken (h : ServedHandler) : Prop :=
  h.faulted = false → Served h

theorem unbroken_receive {config : TlsConfig} (h : ServedHandler) (event : ReadEvent)
    (next : ServedHandler) (hinv : Unbroken h) (hstep : h.receive config event = some next) :
    Unbroken next :=
  fun hsafe ↦ (hinv ((faulted_receive hstep).symm.trans hsafe)).receive hstep

theorem unbroken_onRead {config : TlsConfig} {fuel : ℕ} (received : List ReadEvent × Bool)
    (h : ServedHandler) (hinv : Unbroken h) :
    Unbroken ((http1BaseHandler config fuel).onRead received h).1 := by
  show Unbroken (match run (ServedHandler.receive config) h received.1 with
    | none => (h, false)
    | some next => (next, received.2)).1
  cases hrun : run (ServedHandler.receive config) h received.1 with
  | none => exact hinv
  | some next => exact invariant_run unbroken_receive hinv hrun

theorem unbroken_call {config : TlsConfig} {fuel : ℕ} (reply : Reply) (h : ServedHandler)
    (hinv : Unbroken h) : Unbroken ((http1BaseHandler config fuel).call reply h).1 := by
  show Unbroken (match h.receive config (.reply reply) with
    | none => (h, false)
    | some next => (next, (reply.answer.any fun a : Answer ↦ decide (a.statusCode ≠ 0)))).1
  cases hstep : h.receive config (.reply reply) with
  | none => exact hinv
  | some next => exact unbroken_receive h _ next hinv hstep

theorem unbroken_onWrite {config : TlsConfig} {fuel : ℕ} (h : ServedHandler) (hinv : Unbroken h) :
    Unbroken ((http1BaseHandler config fuel).onWrite h).1 := by
  show Unbroken (h.onWrite fuel).1
  by_cases hfault : (h.handler.onWrite fuel h.outbuf).fault = none
  · intro hsafe
    refine (hinv ?_).onWrite hfault
    rw [ServedHandler.onWrite, if_pos hfault] at hsafe
    exact hsafe
  · intro hsafe
    rw [ServedHandler.onWrite, if_neg hfault] at hsafe
    exact absurd hsafe (by simp)

end ServedHandler

end Maock.Worker
