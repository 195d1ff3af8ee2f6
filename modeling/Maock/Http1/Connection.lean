import Maock.Foundation.TransitionSystem
import Maock.Http1.Callbacks
import Maock.Http1.Progress

/-!
# An HTTP/1 connection

`asio_server_connection` with its `http1_handler`, as a transition system. An event is a completion
that the `io_service` runs: of a read, of a write, of a posted `initiate_write`, or of a script that
another thread has run for a response. `do_write` is called by all but the last, and closes the
connection when it has nothing to write and the request read last does not keep the connection
alive. The next read is under way as long as the connection is not stopped, and there are no socket
errors, parse errors or timeouts. A parse error is every result of llhttp but OK, as it is for
`on_read`: also the pause behind a complete request to upgrade the protocol or with the method
CONNECT, after which `do_read` stops the connection.

`Consistent` is the invariant that ties the streams of the handler to the requests dispatched and to
the scripts under way. The second part of this file shows that a read keeps it.
-/

set_option autoImplicit false
set_option relaxedAutoImplicit false

namespace Maock.Http1

open Foundation Foundation.OrderedContainer Foundation.Bytes Http

/-! ### State -/

/-- What the request callback does with a dispatched request: it starts a response, leaves the
response to a script on another thread, or closes the stream, as it does with a throttled response
and with the status 0. -/
inductive Outcome where
  | respond (response : AsioServerResponse)
  | offload
  | close

/-- A callback of llhttp, with what the request callback does if this one dispatches a request. -/
structure Received where
  callback : Callback
  outcome : Outcome

/-- `asio_server_connection`. Beside its members the state has the tasks under way (the scripts that
have not come back and the number of posted `initiate_write` calls), whether llhttp is within a
message, the streams dispatched so far, and whether a call of `on_write` has not returned. -/
structure Connection where
  handler : Http1Handler
  outbuf : Bytes
  writing : Bool
  stopped : Bool
  offloaded : List ℕ
  posted : ℕ
  receiving : Bool
  dispatched : List ℕ
  halted : Bool

/-- `http1_handler::should_stop`. -/
def Http1Handler.shouldStop (h : Http1Handler) : Bool :=
  !h.shouldKeepAlive

namespace Connection

/-- A connection when it starts. -/
def initial : Connection where
  handler := Http1Handler.initial
  outbuf := List.replicate (64 * 1024) 0
  writing := false
  stopped := false
  offloaded := []
  posted := 0
  receiving := false
  dispatched := []
  halted := false

/-! ### Reading -/

/-- A response started on an open stream. -/
def start (streamId : ℕ) (response : AsioServerResponse) (c : Connection) : Connection :=
  let (handler, posted) := (c.handler.modifyStream streamId fun strm ↦
    { strm with response := response }).startResponse streamId
  { c with handler := handler, posted := if posted then c.posted + 1 else c.posted }

/-- `call_on_request`, for the stream of the current request. -/
def dispatch (outcome : Outcome) (c : Connection) : Connection :=
  let streamId := c.handler.requestCount
  let c := { c with dispatched := streamId :: c.dispatched }
  match outcome with
  | .respond response => c.start streamId response
  | .offload => { c with offloaded := streamId :: c.offloaded }
  | .close => { c with handler := c.handler.closeStream streamId }

/-- One callback of llhttp. A message begins outside of messages and completes within one. -/
def receive (config : TlsConfig) (c : Connection) (received : Received) : Option Connection :=
  match received.callback with
  | .messageBegin =>
    if c.receiving then none
    else some { c with handler := c.handler.messageBegin, receiving := true }
  | .messageComplete shouldKeepAlive =>
    if c.receiving then
      let (handler, request) := c.handler.messageComplete config shouldKeepAlive
      let c := { c with handler := handler, receiving := false }
      some (if request.isSome then c.dispatch received.outcome else c)
    else none
  | callback =>
    if c.receiving then some { c with handler := (c.handler.onCallback config callback).1 }
    else none

/-- The callbacks of a read. -/
def receiveAll (config : TlsConfig) (c : Connection) (received : List Received) :
    Option Connection :=
  received.foldlM (receive config) c

/-- The callback guard of the handler entered or left. -/
def guard (inside : Bool) (c : Connection) : Connection :=
  { c with handler := { c.handler with insideCallback := inside } }

/-- `on_read`, for a read in which llhttp makes these callbacks. -/
def onRead (config : TlsConfig) (received : List Received) (c : Connection) : Option Connection :=
  ((c.guard true).receiveAll config received).map (guard false)

/-! ### Writing and stopping -/

/-- `stop`. -/
def stop (c : Connection) : Connection :=
  { c with stopped := true }

/-- `do_write`. -/
def doWrite (fuel : ℕ) (c : Connection) : Connection :=
  if c.stopped || c.writing then c
  else
    let writing := c.handler.onWrite fuel c.outbuf
    let c := { c with handler := writing.handler, outbuf := writing.out.buffer }
    if writing.fault.isSome then { c with halted := true }
    else if writing.out.dataLen = 0 then (if c.handler.shouldStop then c.stop else c)
    else { c with writing := true }

/-- The completion of a read behind `on_read`. -/
def afterRead (fuel : ℕ) (c : Connection) : Connection :=
  let c := c.doWrite fuel
  if !c.halted && !c.writing && c.handler.shouldStop then c.stop else c

/-! ### Events -/

/-- What the `io_service` runs. A script comes back with a response, or with the status 0. -/
inductive Event where
  | readCompletion (received : List Received) (fuel : ℕ)
  | writeCompletion (fuel : ℕ)
  | initiateWrite (fuel : ℕ)
  | scriptCompletion (streamId : ℕ) (response : Option AsioServerResponse)

/-- The connection as `do_write` finds it when an event calls it. -/
def beforeWrite (config : TlsConfig) (c : Connection) : Event → Option Connection
  | .readCompletion received _ => if c.stopped then none else c.onRead config received
  | .writeCompletion _ =>
    if c.writing && !c.stopped then some { c with writing := false } else none
  | .initiateWrite _ =>
    if 0 < c.posted then
      some { c with posted := c.posted - 1, handler := { c.handler with writeSignaled := false } }
    else none
  | .scriptCompletion _ _ => none

/-- `send_response` for a stream: it closes the stream for the status 0, and does nothing when the
stream is closed already. -/
def sendResponse (streamId : ℕ) (response : Option AsioServerResponse) (c : Connection) :
    Connection :=
  match response with
  | none => { c with handler := c.handler.closeStream streamId }
  | some response =>
    if (c.handler.findStream streamId).isSome then c.start streamId response else c

/-- The posted `send_response` of a script that has come back. -/
def finishScript (streamId : ℕ) (response : Option AsioServerResponse) (c : Connection) :
    Connection :=
  { c with offloaded := c.offloaded.erase streamId }.sendResponse streamId response

/-- One event. Nothing happens any more once a call of `on_write` has not returned. -/
def step (config : TlsConfig) (c : Connection) (event : Event) : Option Connection :=
  if c.halted then none
  else
    match event with
    | .readCompletion _ fuel => (c.beforeWrite config event).map (afterRead fuel)
    | .writeCompletion fuel | .initiateWrite fuel => (c.beforeWrite config event).map (doWrite fuel)
    | .scriptCompletion streamId response =>
      if streamId ∈ c.offloaded then some (c.finishScript streamId response) else none

/-! ### The invariant -/

/-- A stream whose request was dispatched is still open. -/
def Pending (c : Connection) : Prop :=
  ∃ id ∈ c.dispatched, id ∈ c.handler.openIds

instance (c : Connection) : Decidable c.Pending :=
  inferInstanceAs (Decidable (∃ id ∈ c.dispatched, id ∈ c.handler.openIds))

/-- The invariant of the runs: ready streams are open and dispatched; a script under way is that of
one dispatched stream that is not ready; the request being received is not dispatched; and a stopped
connection has no dispatched stream open. -/
structure Consistent (c : Connection) : Prop where
  ready_open : ∀ id ∈ c.handler.streamIdsToRespond, id ∈ c.handler.openIds
  ready_dispatched : ∀ id ∈ c.handler.streamIdsToRespond, id ∈ c.dispatched
  dispatched_le : ∀ id ∈ c.dispatched, id ≤ c.handler.requestCount
  receiving_fresh : c.receiving = true → c.handler.requestCount ∉ c.dispatched
  offloaded_nodup : c.offloaded.Nodup
  offloaded_dispatched : ∀ id ∈ c.offloaded, id ∈ c.dispatched
  offloaded_unready : ∀ id ∈ c.offloaded, id ∉ c.handler.streamIdsToRespond
  answered : c.stopped = true → ¬ c.Pending

theorem consistent_initial : Consistent initial :=
  ⟨fun id hid ↦ absurd hid (OrderedSet.not_mem_empty id),
    fun id hid ↦ absurd hid (OrderedSet.not_mem_empty id),
    fun _ hid ↦ absurd hid List.not_mem_nil, fun h ↦ absurd h Bool.false_ne_true,
    List.nodup_nil, fun _ hid ↦ absurd hid List.not_mem_nil,
    fun _ hid ↦ absurd hid List.not_mem_nil, fun h ↦ absurd h Bool.false_ne_true⟩

/-! ### Reading keeps the invariant -/

/-- A response is started on an open stream that was dispatched. -/
theorem Consistent.start {c : Connection} (hinv : Consistent c) {streamId : ℕ}
    (hopen : streamId ∈ c.handler.openIds) (hdispatched : streamId ∈ c.dispatched)
    (hdecided : streamId ∉ c.offloaded) (response : AsioServerResponse) :
    Consistent (c.start streamId response) := by
  have hopenIds : (c.start streamId response).handler.openIds = c.handler.openIds := by
    show (Http1Handler.startResponse _ _).1.openIds = _
    rw [Http1Handler.openIds_startResponse, Http1Handler.openIds_modifyStream]
  have hcount : (c.start streamId response).handler.requestCount = c.handler.requestCount :=
    Http1Handler.requestCount_startResponse streamId _
  have hready : ∀ id ∈ (c.start streamId response).handler.streamIdsToRespond,
      id ∈ c.handler.streamIdsToRespond ∨ id = streamId := fun id hid ↦
    (@Http1Handler.mem_streamIdsToRespond_startResponse streamId id
      (c.handler.modifyStream streamId _)).mp hid
  refine ⟨fun id hid ↦ ?_, fun id hid ↦ ?_, fun id hid ↦ ?_, fun hreceiving ↦ ?_,
    hinv.offloaded_nodup, hinv.offloaded_dispatched, fun id hid hmem ↦ ?_, fun hstopped ↦ ?_⟩
  · rw [hopenIds]
    rcases hready id hid with hid | rfl
    · exact hinv.ready_open id hid
    · exact hopen
  · rcases hready id hid with hid | rfl
    · exact hinv.ready_dispatched id hid
    · exact hdispatched
  · rw [hcount]
    exact hinv.dispatched_le id hid
  · rw [hcount]
    exact hinv.receiving_fresh hreceiving
  · rcases hready id hmem with hmem | rfl
    · exact hinv.offloaded_unready id hid hmem
    · exact hdecided hid
  · rintro ⟨id, hid, hidOpen⟩
    exact hinv.answered hstopped ⟨id, hid, hopenIds ▸ hidOpen⟩

/-- A stream that is not ready is closed. -/
theorem Consistent.closeStream {c : Connection} (hinv : Consistent c) {streamId : ℕ}
    (hunready : streamId ∉ c.handler.streamIdsToRespond) :
    Consistent { c with handler := c.handler.closeStream streamId } := by
  refine ⟨fun id hid ↦ ?_, hinv.ready_dispatched, hinv.dispatched_le, hinv.receiving_fresh,
    hinv.offloaded_nodup, hinv.offloaded_dispatched, hinv.offloaded_unready, fun hstopped ↦ ?_⟩
  · exact Http1Handler.mem_openIds_closeStream.mpr
      ⟨hinv.ready_open id hid, fun heq ↦ hunready (heq ▸ hid)⟩
  · rintro ⟨id, hid, hopen⟩
    exact hinv.answered hstopped ⟨id, hid, (Http1Handler.mem_openIds_closeStream.mp hopen).1⟩

/-- A handler that differs from the one before in nothing that the invariant speaks of. -/
structure SameStreams (h h' : Http1Handler) : Prop where
  openIds : h'.openIds = h.openIds
  ready : h'.streamIdsToRespond = h.streamIdsToRespond
  requestCount : h'.requestCount = h.requestCount

theorem Consistent.of_sameStreams {c : Connection} (hinv : Consistent c) {handler : Http1Handler}
    (hsame : SameStreams c.handler handler) : Consistent { c with handler := handler } := by
  refine ⟨?_, ?_, ?_, ?_, hinv.offloaded_nodup, hinv.offloaded_dispatched, ?_, ?_⟩
  · intro id hid
    show id ∈ handler.openIds
    rw [hsame.openIds]
    exact hinv.ready_open id (hsame.ready ▸ hid)
  · intro id hid
    exact hinv.ready_dispatched id (hsame.ready ▸ hid)
  · intro id hid
    show id ≤ handler.requestCount
    rw [hsame.requestCount]
    exact hinv.dispatched_le id hid
  · intro hreceiving
    show handler.requestCount ∉ c.dispatched
    rw [hsame.requestCount]
    exact hinv.receiving_fresh hreceiving
  · intro id hid
    show id ∉ handler.streamIdsToRespond
    rw [hsame.ready]
    exact hinv.offloaded_unready id hid
  · rintro hstopped ⟨id, hid, hopen⟩
    exact hinv.answered hstopped ⟨id, hid, hsame.openIds ▸ hopen⟩

theorem sameStreams_modifyRequest (f : AsioServerRequest → AsioServerRequest) (h : Http1Handler) :
    SameStreams h (h.modifyRequest f) :=
  ⟨Http1Handler.openIds_modifyStream _ _ h, rfl, rfl⟩

/-- A callback within a message leaves the streams as they were. -/
theorem sameStreams_onCallback (config : TlsConfig) (h : Http1Handler) {callback : Callback}
    (hinner : callback.isInner = true) : SameStreams h (h.onCallback config callback).1 := by
  cases callback with
  | messageBegin => exact absurd hinner Bool.false_ne_true
  | messageComplete shouldKeepAlive => exact absurd hinner Bool.false_ne_true
  | url method data =>
    show SameStreams h (h.onUrl method data)
    unfold Http1Handler.onUrl
    cases h.findStream h.requestCount with
    | none => exact ⟨rfl, rfl, rfl⟩
    | some strm =>
      obtain ⟨hopen, hready, hcount⟩ := sameStreams_modifyRequest
        (AsioServerRequest.onUrl method data) h
      exact ⟨hopen, hready, hcount⟩
  | headerField data => exact ⟨rfl, rfl, rfl⟩
  | headerValue data => exact sameStreams_modifyRequest _ h
  | body data => exact sameStreams_modifyRequest _ h

/-- A request is dispatched on the current stream. -/
theorem Consistent.dispatch {c : Connection} (hinv : Consistent c)
    (hfresh : c.handler.requestCount ∉ c.dispatched)
    (hopen : c.handler.requestCount ∈ c.handler.openIds) (hreceiving : c.receiving = false)
    (hrunning : c.stopped = false) (outcome : Outcome) : Consistent (c.dispatch outcome) := by
  have hunready : c.handler.requestCount ∉ c.handler.streamIdsToRespond :=
    fun hmem ↦ hfresh (hinv.ready_dispatched _ hmem)
  have hdecided : c.handler.requestCount ∉ c.offloaded :=
    fun hmem ↦ hfresh (hinv.offloaded_dispatched _ hmem)
  have hdispatched : Consistent
      { c with dispatched := c.handler.requestCount :: c.dispatched } := by
    refine ⟨hinv.ready_open, fun id hid ↦ List.mem_cons_of_mem _ (hinv.ready_dispatched id hid),
      fun id hid ↦ ?_, fun h ↦ ?_, hinv.offloaded_nodup,
      fun id hid ↦ List.mem_cons_of_mem _ (hinv.offloaded_dispatched id hid),
      hinv.offloaded_unready, fun h ↦ ?_⟩
    · rcases List.mem_cons.mp hid with rfl | hid
      · exact Nat.le_refl _
      · exact hinv.dispatched_le id hid
    · exact absurd (hreceiving.symm.trans h) Bool.false_ne_true
    · exact absurd (hrunning.symm.trans h) Bool.false_ne_true
  cases outcome with
  | respond response => exact hdispatched.start hopen List.mem_cons_self hdecided response
  | offload =>
    refine ⟨hdispatched.ready_open, hdispatched.ready_dispatched, hdispatched.dispatched_le,
      hdispatched.receiving_fresh, List.nodup_cons.mpr ⟨hdecided, hinv.offloaded_nodup⟩,
      fun id hid ↦ ?_, fun id hid ↦ ?_, hdispatched.answered⟩
    · rcases List.mem_cons.mp hid with rfl | hid
      · exact List.mem_cons_self
      · exact hdispatched.offloaded_dispatched id hid
    · rcases List.mem_cons.mp hid with rfl | hid
      · exact hunready
      · exact hinv.offloaded_unready id hid
  | close => exact hdispatched.closeStream hunready

/-- A message begins. -/
theorem Consistent.messageBegin {c : Connection} (hinv : Consistent c)
    (hrunning : c.stopped = false) :
    Consistent { c with handler := c.handler.messageBegin, receiving := true } := by
  refine ⟨fun id hid ↦ ?_, hinv.ready_dispatched, fun id hid ↦ ?_, fun _ hmem ↦ ?_,
    hinv.offloaded_nodup, hinv.offloaded_dispatched, hinv.offloaded_unready,
    fun h ↦ absurd (hrunning.symm.trans h) Bool.false_ne_true⟩
  · exact Http1Handler.mem_openIds_messageBegin.mpr (Or.inl (hinv.ready_open id hid))
  · exact Nat.le_succ_of_le (hinv.dispatched_le id hid)
  · exact absurd (hinv.dispatched_le _ hmem) (Nat.not_succ_le_self _)

/-- A message completes. -/
theorem Consistent.messageComplete {c : Connection} (hinv : Consistent c) (config : TlsConfig)
    (shouldKeepAlive : Bool) : Consistent { c with
      handler := (c.handler.messageComplete config shouldKeepAlive).1, receiving := false } := by
  have hsame : SameStreams c.handler (c.handler.messageComplete config shouldKeepAlive).1 :=
    ⟨Http1Handler.openIds_modifyStream _ _ _, rfl, rfl⟩
  obtain ⟨hopen, hready, hle, -, hnodup, hoffloaded, hunready, hanswered⟩ :=
    hinv.of_sameStreams hsame
  exact ⟨hopen, hready, hle, fun h ↦ absurd h Bool.false_ne_true, hnodup, hoffloaded, hunready,
    hanswered⟩

theorem stopped_dispatch (outcome : Outcome) (c : Connection) :
    (c.dispatch outcome).stopped = c.stopped := by
  cases outcome <;> rfl

/-- One callback of llhttp keeps the invariant. -/
theorem Consistent.receive {config : TlsConfig} {c next : Connection} (hinv : Consistent c)
    (hrunning : c.stopped = false) {received : Received}
    (hstep : c.receive config received = some next) :
    Consistent next ∧ next.stopped = false := by
  have hinner : ∀ callback : Callback, callback.isInner = true →
      (if c.receiving then some { c with handler := (c.handler.onCallback config callback).1 }
        else none) = some next → Consistent next ∧ next.stopped = false := by
    intro callback hcallback hnext
    split_ifs at hnext
    rw [← Option.some_inj.mp hnext]
    exact ⟨hinv.of_sameStreams (sameStreams_onCallback config c.handler hcallback), hrunning⟩
  obtain ⟨callback, outcome⟩ := received
  unfold Connection.receive at hstep
  cases callback with
  | messageBegin =>
    dsimp only at hstep
    split_ifs at hstep
    rw [← Option.some_inj.mp hstep]
    exact ⟨hinv.messageBegin hrunning, hrunning⟩
  | messageComplete shouldKeepAlive =>
    dsimp only at hstep
    have hcompleted := hinv.messageComplete config shouldKeepAlive
    split_ifs at hstep with hreceiving hrequest
    · rw [← Option.some_inj.mp hstep]
      rw [Http1Handler.messageComplete, Option.isSome_map] at hrequest
      exact ⟨hcompleted.dispatch (hinv.receiving_fresh hreceiving)
        (Http1Handler.isSome_findStream_iff.mp hrequest) rfl hrunning outcome,
        (stopped_dispatch _ _).trans hrunning⟩
    · rw [← Option.some_inj.mp hstep]
      exact ⟨hcompleted, hrunning⟩
  | url method data => exact hinner (.url method data) rfl hstep
  | headerField data => exact hinner (.headerField data) rfl hstep
  | headerValue data => exact hinner (.headerValue data) rfl hstep
  | body data => exact hinner (.body data) rfl hstep

/-- The callbacks of a read keep the invariant. -/
theorem Consistent.receiveAll {config : TlsConfig} {received : List Received} {c next : Connection}
    (hinv : Consistent c) (hrunning : c.stopped = false)
    (hstep : c.receiveAll config received = some next) :
    Consistent next ∧ next.stopped = false := by
  induction received generalizing c with
  | nil =>
    rw [← Option.some_inj.mp hstep]
    exact ⟨hinv, hrunning⟩
  | cons first rest ih =>
    unfold Connection.receiveAll at hstep
    rw [List.foldlM_cons] at hstep
    obtain ⟨middle, hfirst, hrest⟩ := Option.bind_eq_some_iff.mp hstep
    obtain ⟨hmiddle, hmiddleRunning⟩ := hinv.receive hrunning hfirst
    exact ih hmiddle hmiddleRunning hrest

theorem Consistent.guard {c : Connection} (hinv : Consistent c) (inside : Bool) :
    Consistent (c.guard inside) :=
  hinv.of_sameStreams ⟨rfl, rfl, rfl⟩

/-- `on_read` keeps the invariant. -/
theorem Consistent.onRead {config : TlsConfig} {received : List Received} {c next : Connection}
    (hinv : Consistent c) (hrunning : c.stopped = false)
    (hstep : c.onRead config received = some next) :
    Consistent next ∧ next.stopped = false := by
  obtain ⟨after, hreceived, rfl⟩ := Option.map_eq_some_iff.mp hstep
  obtain ⟨hafter, hafterRunning⟩ := (hinv.guard true).receiveAll hrunning hreceived
  exact ⟨hafter.guard false, hafterRunning⟩

end Connection

end Maock.Http1
