import Maock.Http1.Closing
import Maock.Http1.EmittedBytes

/-!
# Pipelined responses

Two continuations of a connection from the moment at which a request has been received completely.
They may differ in everything but what the scripts of this request bring back: in the requests that
follow, in how these are spread over reads, and in the order of the tasks. `Leads` says what a piece
of a continuation does to the request: its stream changes by its own scripts only, and the
keep-alive setting of the handler is that of the message completed last.

A later request reaches the response of this one in two ways: its keep-alive setting selects the
version of all responses that are written, and its own response, in the same call of `on_write`, may
keep that call from returning. `emits_alike` says that these are the only ones.
-/

set_option autoImplicit false
set_option relaxedAutoImplicit false

namespace Maock.Http1

open Foundation Foundation.OrderedContainer Foundation.Bytes Foundation.TransitionSystem Http

/-! ### What a continuation consists of -/

/-- The keep-alive setting of the message that some callbacks complete last, or else the one
before them. -/
def lastKeepAlive (before : Bool) (callbacks : List Callback) : Bool :=
  callbacks.foldl (fun last callback ↦ match callback with
    | .messageComplete shouldKeepAlive => shouldKeepAlive
    | _ => last) before

theorem lastKeepAlive_append (before : Bool) (first second : List Callback) :
    lastKeepAlive before (first ++ second) = lastKeepAlive (lastKeepAlive before first) second :=
  List.foldl_append

theorem lastKeepAlive_of_isInner (before : Bool) {callback : Callback}
    (hinner : callback.isInner = true) : lastKeepAlive before [callback] = before := by
  cases callback with
  | messageComplete shouldKeepAlive => exact absurd hinner Bool.false_ne_true
  | _ => rfl

/-- A stream after some responses were started on it. -/
def Stream.answered (strm : Stream) (responses : List AsioServerResponse) : Stream :=
  responses.foldl (fun strm response ↦ { strm with response := response }) strm

theorem Stream.answered_append (strm : Stream) (first second : List AsioServerResponse) :
    strm.answered (first ++ second) = (strm.answered first).answered second :=
  List.foldl_append

namespace Connection

/-- The callbacks of llhttp in an event. -/
def Event.callbacks : Event → List Callback
  | .readCompletion received _ => received.map Received.callback
  | .writeCompletion _ | .initiateWrite _ | .scriptCompletion _ _ => []

/-- The responses that an event brings back from the scripts of a stream. -/
def Event.responsesFor (streamId : ℕ) : Event → List AsioServerResponse
  | .scriptCompletion other response => if other = streamId then response.toList else []
  | .readCompletion _ _ | .writeCompletion _ | .initiateWrite _ => []

/-- A request has been received completely. -/
def Completed (streamId : ℕ) (c : Connection) : Prop :=
  streamId ≤ c.handler.requestCount ∧ (c.receiving = true → streamId ≠ c.handler.requestCount)

/-- What lies between two states of a connection, as far as a request received completely is
concerned: these callbacks, and these responses from its scripts. -/
structure Leads (streamId : ℕ) (callbacks : List Callback) (responses : List AsioServerResponse)
    (c next : Connection) : Prop where
  completed : c.Completed streamId → next.Completed streamId
  keepAlive : next.handler.shouldKeepAlive = lastKeepAlive c.handler.shouldKeepAlive callbacks
  stream : c.Completed streamId → ∀ strm, next.handler.findStream streamId = some strm →
    ∃ earlier, c.handler.findStream streamId = some earlier ∧ strm = earlier.answered responses

theorem Leads.trans {streamId : ℕ} {callbacks callbacks' : List Callback}
    {responses responses' : List AsioServerResponse} {c c' c'' : Connection}
    (h : Leads streamId callbacks responses c c')
    (h' : Leads streamId callbacks' responses' c' c'') :
    Leads streamId (callbacks ++ callbacks') (responses ++ responses') c c'' := by
  refine ⟨fun hc ↦ h'.completed (h.completed hc), ?_, fun hc strm hstrm ↦ ?_⟩
  · rw [lastKeepAlive_append, ← h.keepAlive, h'.keepAlive]
  · obtain ⟨middle, hmiddle, rfl⟩ := h'.stream (h.completed hc) strm hstrm
    obtain ⟨earlier, hearlier, rfl⟩ := h.stream hc middle hmiddle
    exact ⟨earlier, hearlier, (Stream.answered_append earlier responses responses').symm⟩

/-- A step that closes streams at most. -/
theorem Leads.of_closing {streamId : ℕ} {c next : Connection}
    (hcount : next.handler.requestCount = c.handler.requestCount)
    (hreceiving : next.receiving = c.receiving)
    (halive : next.handler.shouldKeepAlive = c.handler.shouldKeepAlive)
    (hstream : ∀ strm, next.handler.findStream streamId = some strm →
      c.handler.findStream streamId = some strm) : Leads streamId [] [] c next := by
  refine ⟨fun hc ↦ ?_, halive, fun _ strm hstrm ↦ ⟨strm, hstream strm hstrm, rfl⟩⟩
  rw [Completed, hcount, hreceiving]
  exact hc

/-! ### Reading -/

/-- A response started on a stream. -/
theorem leads_start (streamId other : ℕ) (response : AsioServerResponse) (c : Connection) :
    Leads streamId [] (if other = streamId then [response] else []) c (c.start other response) := by
  have hcount : (c.start other response).handler.requestCount = c.handler.requestCount :=
    Http1Handler.requestCount_startResponse other _
  have halive : (c.start other response).handler.shouldKeepAlive = c.handler.shouldKeepAlive := by
    unfold start Http1Handler.startResponse Http1Handler.signalWrite
    split_ifs <;> rfl
  refine ⟨fun hc ↦ ?_, halive, fun _ strm hstrm ↦ ?_⟩
  · rw [Completed, hcount]
    exact hc
  · have hfound := (Http1Handler.findStream_startResponse other streamId _).symm.trans hstrm
    by_cases hown : other = streamId
    · subst hown
      rw [Http1Handler.findStream_modifyStream] at hfound
      obtain ⟨earlier, hearlier, rfl⟩ := Option.map_eq_some_iff.mp hfound
      rw [if_pos rfl]
      exact ⟨earlier, hearlier, rfl⟩
    · rw [Http1Handler.findStream_modifyStream_of_ne hown] at hfound
      rw [if_neg hown]
      exact ⟨strm, hfound, rfl⟩

theorem findStream_of_closeStream {streamId other : ℕ} {h : Http1Handler} {strm : Stream}
    (hstrm : (h.closeStream other).findStream streamId = some strm) :
    h.findStream streamId = some strm := by
  by_cases hown : other = streamId
  · subst hown
    exact absurd (hstrm.symm.trans (h.findStream_closeStream other)) (by simp)
  · rwa [Http1Handler.findStream_closeStream_of_ne h hown] at hstrm

/-- A stream closed without a response. -/
theorem leads_closeStream (streamId other : ℕ) (c : Connection) :
    Leads streamId [] [] c { c with handler := c.handler.closeStream other } :=
  Leads.of_closing rfl rfl rfl fun _ hstrm ↦ findStream_of_closeStream hstrm

/-- A later request dispatched. -/
theorem leads_dispatch {streamId : ℕ} {c : Connection} (hlater : streamId ≠ c.handler.requestCount)
    (outcome : Outcome) : Leads streamId [] [] c (c.dispatch outcome) := by
  have hdispatched : Leads streamId [] [] c
      { c with dispatched := c.handler.requestCount :: c.dispatched } :=
    Leads.of_closing rfl rfl rfl fun _ h ↦ h
  cases outcome with
  | respond response =>
    have hstart := leads_start streamId c.handler.requestCount response
      { c with dispatched := c.handler.requestCount :: c.dispatched }
    rw [if_neg hlater.symm] at hstart
    exact hdispatched.trans hstart
  | offload => exact Leads.of_closing rfl rfl rfl fun _ h ↦ h
  | close => exact hdispatched.trans (leads_closeStream _ _ _)

/-- A change of the request being received. -/
theorem findStream_modifyRequest_of_ne {streamId : ℕ} {h : Http1Handler}
    (hlater : streamId ≠ h.requestCount) (f : AsioServerRequest → AsioServerRequest) :
    (h.modifyRequest f).findStream streamId = h.findStream streamId :=
  Http1Handler.findStream_modifyStream_of_ne hlater.symm _ h

/-- A callback within a later message leaves the stream and the keep-alive setting as they were. -/
theorem onCallback_of_ne (config : TlsConfig) {streamId : ℕ} {h : Http1Handler}
    (hlater : streamId ≠ h.requestCount) {callback : Callback} (hinner : callback.isInner = true) :
    (h.onCallback config callback).1.findStream streamId = h.findStream streamId ∧
      (h.onCallback config callback).1.shouldKeepAlive = h.shouldKeepAlive := by
  cases callback with
  | messageBegin => exact absurd hinner Bool.false_ne_true
  | messageComplete shouldKeepAlive => exact absurd hinner Bool.false_ne_true
  | url method data =>
    show (h.onUrl method data).findStream streamId = _ ∧ (h.onUrl method data).shouldKeepAlive = _
    unfold Http1Handler.onUrl
    cases h.findStream h.requestCount with
    | none => exact ⟨rfl, rfl⟩
    | some strm => exact ⟨findStream_modifyRequest_of_ne hlater _, rfl⟩
  | headerField data => exact ⟨rfl, rfl⟩
  | headerValue data => exact ⟨findStream_modifyRequest_of_ne hlater _, rfl⟩
  | body data => exact ⟨findStream_modifyRequest_of_ne hlater _, rfl⟩

/-- One callback of llhttp behind the request. -/
theorem leads_receive {config : TlsConfig} {streamId : ℕ} {c next : Connection}
    (hc : c.Completed streamId) {received : Received}
    (hstep : c.receive config received = some next) :
    Leads streamId [received.callback] [] c next := by
  have hinner : ∀ callback : Callback, callback.isInner = true →
      (if c.receiving then some { c with handler := (c.handler.onCallback config callback).1 }
        else none) = some next → Leads streamId [callback] [] c next := by
    intro callback hcallback hnext
    split_ifs at hnext with hreceiving
    obtain rfl := Option.some_inj.mp hnext
    obtain ⟨hstream, halive⟩ := onCallback_of_ne config (hc.2 hreceiving) hcallback
    have hframe : Leads streamId [] [] c
        { c with handler := (c.handler.onCallback config callback).1 } :=
      Leads.of_closing (sameStreams_onCallback config c.handler hcallback).requestCount rfl halive
        fun strm hstrm ↦ hstream.symm.trans hstrm
    exact ⟨hframe.completed, hframe.keepAlive.trans (lastKeepAlive_of_isInner _ hcallback).symm,
      hframe.stream⟩
  obtain ⟨callback, outcome⟩ := received
  unfold receive at hstep
  cases callback with
  | messageBegin =>
    dsimp only at hstep
    split_ifs at hstep
    obtain rfl := Option.some_inj.mp hstep
    have hnew : c.handler.requestCount + 1 ≠ streamId := by
      have hle := hc.1
      omega
    refine ⟨fun _ ↦ ⟨Nat.le_succ_of_le hc.1, fun _ ↦ ?_⟩, rfl, fun _ strm hstrm ↦ ⟨strm, ?_, rfl⟩⟩
    · exact Nat.ne_of_lt (Nat.lt_succ_of_le hc.1)
    · exact (Http1Handler.findStream_messageBegin_of_ne hnew).symm.trans hstrm
  | messageComplete shouldKeepAlive =>
    dsimp only at hstep
    split_ifs at hstep with hreceiving hrequest
    all_goals
      obtain rfl := Option.some_inj.mp hstep
      have hcompleted : Leads streamId [.messageComplete shouldKeepAlive] [] c { c with
          handler := (c.handler.messageComplete config shouldKeepAlive).1
          receiving := false } :=
        ⟨fun hc ↦ ⟨hc.1, fun h ↦ absurd h Bool.false_ne_true⟩, rfl, fun hc strm hstrm ↦
          ⟨strm, (findStream_modifyRequest_of_ne (hc.2 hreceiving) _).symm.trans hstrm, rfl⟩⟩
    · exact hcompleted.trans (leads_dispatch (by exact hc.2 hreceiving) outcome)
    · exact hcompleted
  | url method data => exact hinner (.url method data) rfl hstep
  | headerField data => exact hinner (.headerField data) rfl hstep
  | headerValue data => exact hinner (.headerValue data) rfl hstep
  | body data => exact hinner (.body data) rfl hstep

/-- The callbacks of llhttp behind the request. -/
theorem leads_receiveAll {config : TlsConfig} {streamId : ℕ} {received : List Received}
    {c next : Connection} (hc : c.Completed streamId)
    (hstep : c.receiveAll config received = some next) :
    Leads streamId (received.map Received.callback) [] c next := by
  induction received generalizing c with
  | nil =>
    obtain rfl := Option.some_inj.mp hstep
    exact Leads.of_closing rfl rfl rfl fun _ h ↦ h
  | cons first rest ih =>
    unfold receiveAll at hstep
    rw [List.foldlM_cons] at hstep
    obtain ⟨middle, hfirst, hrest⟩ := Option.bind_eq_some_iff.mp hstep
    have hleads := leads_receive hc hfirst
    exact hleads.trans (ih (hleads.completed hc) hrest)

/-- The rest of a read, from its callbacks to `do_write`. -/
theorem leads_restOfRead {config : TlsConfig} {streamId : ℕ} {received : List Received}
    {c next : Connection} (hc : c.Completed streamId)
    (hstep : (c.receiveAll config received).map (guard false) = some next) :
    Leads streamId (received.map Received.callback) [] c next := by
  obtain ⟨after, hreceived, rfl⟩ := Option.map_eq_some_iff.mp hstep
  have hguard : Leads streamId [] [] after (after.guard false) :=
    Leads.of_closing rfl rfl rfl fun _ h ↦ h
  have hleads := (leads_receiveAll hc hreceived).trans hguard
  rwa [List.append_nil] at hleads

/-! ### Writing -/

/-- Answering a batch changes no stream other than by closing it. -/
theorem findStream_of_respondInTurn {fuel streamId : ℕ} {batch : List ℕ} {h : Http1Handler}
    {out : Output} {strm : Stream}
    (hstrm : (respondInTurn fuel batch h out).handler.findStream streamId = some strm) :
    h.findStream streamId = some strm := by
  induction batch generalizing h out with
  | nil => exact hstrm
  | cons first rest ih =>
    unfold respondInTurn at hstrm
    cases hfound : h.findStream first with
    | none =>
      rw [hfound] at hstrm
      exact hstrm
    | some other =>
      rw [hfound] at hstrm
      dsimp only at hstrm
      cases hrespond : respond fuel h.shouldKeepAlive other out with
      | error fault =>
        rw [hrespond] at hstrm
        exact hstrm
      | ok next =>
        rw [hrespond] at hstrm
        exact findStream_of_closeStream (ih hstrm)

/-- A call of `on_write` behind the request. -/
theorem leads_onWrite (streamId fuel : ℕ) (buffer : Bytes) (c : Connection) :
    Leads streamId [] [] c { c with handler := (c.handler.onWrite fuel buffer).handler } := by
  refine Leads.of_closing (Http1Handler.requestCount_onWrite fuel buffer c.handler) rfl
    (Http1Handler.shouldKeepAlive_onWrite fuel buffer c.handler) fun strm hstrm ↦ ?_
  rw [Http1Handler.onWrite_eq] at hstrm
  have hfound : c.handler.takeBatch.findStream streamId = some strm :=
    findStream_of_respondInTurn hstrm
  exact hfound

/-- `do_write` behind the request. -/
theorem leads_doWrite (streamId fuel : ℕ) (c : Connection) :
    Leads streamId [] [] c (c.doWrite fuel) := by
  have hwritten := leads_onWrite streamId fuel c.outbuf c
  have hlast : ∀ last : Connection, last.handler = (c.handler.onWrite fuel c.outbuf).handler →
      last.receiving = c.receiving → Leads streamId [] [] c last := by
    intro last hhandler hreceiving
    refine hwritten.trans (Leads.of_closing ?_ hreceiving ?_ fun strm hstrm ↦ ?_)
    · rw [hhandler]
    · rw [hhandler]
    · rwa [hhandler] at hstrm
  unfold Connection.doWrite
  dsimp only
  split_ifs
  · exact Leads.of_closing rfl rfl rfl fun _ h ↦ h
  all_goals exact hlast _ rfl rfl

/-! ### Events -/

/-- What comes before the `do_write` of an event, behind the request. -/
theorem leads_beforeWrite {config : TlsConfig} {streamId : ℕ} {c before : Connection}
    (hc : c.Completed streamId) {event : Event}
    (hbefore : c.beforeWrite config event = some before) :
    Leads streamId event.callbacks (event.responsesFor streamId) c before := by
  unfold beforeWrite at hbefore
  cases event with
  | readCompletion received fuel =>
    dsimp only at hbefore
    split_ifs at hbefore
    have hguard : Leads streamId [] [] c (c.guard true) :=
      Leads.of_closing rfl rfl rfl fun _ h ↦ h
    exact hguard.trans (leads_restOfRead (hguard.completed hc) hbefore)
  | writeCompletion fuel =>
    dsimp only at hbefore
    split_ifs at hbefore
    obtain rfl := Option.some_inj.mp hbefore
    exact Leads.of_closing rfl rfl rfl fun _ h ↦ h
  | initiateWrite fuel =>
    dsimp only at hbefore
    split_ifs at hbefore
    obtain rfl := Option.some_inj.mp hbefore
    exact Leads.of_closing rfl rfl rfl fun _ h ↦ h
  | scriptCompletion other response => exact absurd hbefore (by simp)

/-- A script that comes back. The response of another request leaves the stream as it was. -/
theorem leads_finishScript (streamId other : ℕ) (response : Option AsioServerResponse)
    (c : Connection) :
    Leads streamId [] (if other = streamId then response.toList else []) c
      (c.finishScript other response) := by
  have hback : Leads streamId [] [] c { c with offloaded := c.offloaded.erase other } :=
    Leads.of_closing rfl rfl rfl fun _ h ↦ h
  unfold finishScript sendResponse
  cases response with
  | none =>
    rw [Option.toList_none, ite_self]
    exact hback.trans (leads_closeStream streamId other _)
  | some response =>
    dsimp only
    by_cases hopen : (c.handler.findStream other).isSome = true
    · rw [if_pos hopen]
      exact hback.trans (leads_start streamId other response _)
    · rw [if_neg hopen]
      refine ⟨fun hc ↦ hc, rfl, fun _ strm hstrm ↦ ⟨strm, hstrm, ?_⟩⟩
      by_cases hown : other = streamId
      · -- the stream is closed, so it is not found behind the event either
        subst hown
        exact absurd (Option.isSome_iff_exists.mpr ⟨strm, hstrm⟩) hopen
      · rw [if_neg hown]
        rfl

/-- One event behind the request. -/
theorem leads_step {config : TlsConfig} {streamId : ℕ} {c next : Connection}
    (hc : c.Completed streamId) {event : Event} (hstep : c.step config event = some next) :
    Leads streamId event.callbacks (event.responsesFor streamId) c next := by
  rcases step_cases hstep with ⟨before, fuel, hbefore, rfl⟩ | ⟨other, response, rfl, -, rfl⟩
  · have hleads := (leads_beforeWrite hc hbefore).trans (leads_doWrite streamId fuel before)
    rwa [List.append_nil, List.append_nil] at hleads
  · exact leads_finishScript streamId other response c

/-- The connection as the `do_write` of the last of some events finds it. -/
def lastWrite (config : TlsConfig) (c : Connection) : List Event → Option Connection
  | [] => none
  | [last] => if c.halted then none else c.beforeWrite config last
  | event :: next :: rest =>
    (c.step config event).bind fun following ↦ following.lastWrite config (next :: rest)

/-- The events behind the request up to the last `do_write`. -/
theorem leads_lastWrite {config : TlsConfig} {streamId : ℕ} {events : List Event}
    {c before : Connection} (hc : c.Completed streamId)
    (hlast : c.lastWrite config events = some before) :
    Leads streamId (events.flatMap Event.callbacks)
      (events.flatMap (Event.responsesFor streamId)) c before := by
  induction events generalizing c with
  | nil => exact absurd hlast (by simp [lastWrite])
  | cons event rest ih =>
    rw [List.flatMap_cons, List.flatMap_cons]
    cases rest with
    | nil =>
      rw [lastWrite] at hlast
      split_ifs at hlast
      rw [List.flatMap_nil, List.flatMap_nil, List.append_nil, List.append_nil]
      exact leads_beforeWrite hc hlast
    | cons next more =>
      rw [lastWrite] at hlast
      obtain ⟨following, hstep, hrest⟩ := Option.bind_eq_some_iff.mp hlast
      have hleads := leads_step hc hstep
      exact hleads.trans (ih (hleads.completed hc) hrest)

/-! ### The buffer -/

/-- Reading leaves the buffer. -/
theorem outbuf_receive {config : TlsConfig} {c next : Connection} {received : Received}
    (hstep : c.receive config received = some next) : next.outbuf = c.outbuf := by
  obtain ⟨callback, outcome⟩ := received
  unfold receive at hstep
  cases callback with
  | messageComplete shouldKeepAlive =>
    dsimp only at hstep
    split_ifs at hstep
    all_goals obtain rfl := Option.some_inj.mp hstep
    · cases outcome <;> rfl
    · rfl
  | _ =>
    dsimp only at hstep
    split_ifs at hstep
    obtain rfl := Option.some_inj.mp hstep
    rfl

theorem outbuf_receiveAll {config : TlsConfig} {received : List Received} {c next : Connection}
    (hstep : c.receiveAll config received = some next) : next.outbuf = c.outbuf := by
  induction received generalizing c with
  | nil => rw [← Option.some_inj.mp hstep]
  | cons first rest ih =>
    unfold receiveAll at hstep
    rw [List.foldlM_cons] at hstep
    obtain ⟨middle, hfirst, hrest⟩ := Option.bind_eq_some_iff.mp hstep
    exact (ih hrest).trans (outbuf_receive hfirst)

theorem outbuf_beforeWrite {config : TlsConfig} {c before : Connection} {event : Event}
    (hbefore : c.beforeWrite config event = some before) : before.outbuf = c.outbuf := by
  unfold beforeWrite at hbefore
  cases event with
  | readCompletion received fuel =>
    dsimp only at hbefore
    split_ifs at hbefore
    obtain ⟨after, hreceived, rfl⟩ := Option.map_eq_some_iff.mp hbefore
    have houtbuf : after.outbuf = (c.guard true).outbuf := outbuf_receiveAll hreceived
    exact houtbuf
  | scriptCompletion other response => exact absurd hbefore (by simp)
  | _ =>
    dsimp only at hbefore
    split_ifs at hbefore
    obtain rfl := Option.some_inj.mp hbefore
    rfl

theorem length_outbuf_doWrite (fuel : ℕ) (c : Connection) :
    c.outbuf.length ≤ (c.doWrite fuel).outbuf.length := by
  have hwritten := length_le_onWrite fuel c.outbuf c.handler
  unfold Connection.doWrite
  dsimp only
  split_ifs
  · exact Nat.le_refl _
  all_goals exact hwritten

/-- The buffer does not shrink in an event. -/
theorem length_outbuf_step {config : TlsConfig} {c next : Connection} {event : Event}
    (hstep : c.step config event = some next) : c.outbuf.length ≤ next.outbuf.length := by
  rcases step_cases hstep with ⟨before, fuel, hbefore, rfl⟩ | ⟨other, response, -, -, rfl⟩
  · rw [← outbuf_beforeWrite hbefore]
    exact length_outbuf_doWrite fuel before
  · unfold finishScript sendResponse
    cases response with
    | none => exact Nat.le_refl _
    | some response =>
      dsimp only
      split_ifs <;> exact Nat.le_refl _

/-- In every state of a run the buffer is at least as large as the step that it grows by. -/
theorem incStep_le_outbuf {config : TlsConfig} {events : List Event} {c : Connection}
    (hrun : run (step config) initial events = some c) : incStep ≤ c.outbuf.length := by
  have hinitial : incStep ≤ initial.outbuf.length := by
    rw [initial, List.length_replicate]
    decide
  exact @invariant_run _ _ (step config) (fun c ↦ incStep ≤ c.outbuf.length)
    (fun _ _ _ hinv hstep ↦ hinv.trans (length_outbuf_step hstep)) _ _ _ hinitial hrun

theorem length_outbuf_lastWrite {config : TlsConfig} {events : List Event} {c before : Connection}
    (hlast : c.lastWrite config events = some before) :
    c.outbuf.length ≤ before.outbuf.length := by
  induction events generalizing c with
  | nil => exact absurd hlast (by simp [lastWrite])
  | cons event rest ih =>
    cases rest with
    | nil =>
      rw [lastWrite] at hlast
      split_ifs at hlast
      exact Nat.le_of_eq (congrArg List.length (outbuf_beforeWrite hlast).symm)
    | cons next more =>
      rw [lastWrite] at hlast
      obtain ⟨following, hstep, hrest⟩ := Option.bind_eq_some_iff.mp hlast
      exact (length_outbuf_step hstep).trans (ih hrest)

/-! ### Two continuations -/

/-- What follows the message complete of a request up to the writing of its response: the callbacks
that its read goes on with, the fuel of the `do_write` of this read, and the events behind it. -/
structure Continuation where
  later : List Received
  fuel : ℕ
  events : List Event

namespace Continuation

/-- The events, from the read that begins with the given callbacks. -/
def eventsFrom (first : List Received) (k : Continuation) : List Event :=
  .readCompletion (first ++ k.later) k.fuel :: k.events

/-- The callbacks of the later requests. -/
def callbacks (k : Continuation) : List Callback :=
  k.later.map Received.callback ++ k.events.flatMap Event.callbacks

/-- The responses from the scripts of a request. -/
def responsesFor (streamId : ℕ) (k : Continuation) : List AsioServerResponse :=
  k.events.flatMap (Event.responsesFor streamId)

end Continuation

/-- A continuation up to the last `do_write`. -/
theorem leads_continuation {config : TlsConfig} {c completed before : Connection}
    {first : List Received} {streamId : ℕ} {k : Continuation}
    (hfirst : (c.guard true).receiveAll config first = some completed)
    (hc : completed.Completed streamId)
    (hlast : c.lastWrite config (k.eventsFrom first) = some before) :
    Leads streamId k.callbacks (k.responsesFor streamId) completed before := by
  have hread : c.onRead config (first ++ k.later) =
      (completed.receiveAll config k.later).map (guard false) := by
    unfold onRead receiveAll at *
    rw [List.foldlM_append, hfirst]
    rfl
  unfold Continuation.callbacks Continuation.responsesFor
  unfold Continuation.eventsFrom at hlast
  cases hevents : k.events with
  | nil =>
    rw [hevents, lastWrite] at hlast
    split_ifs at hlast
    unfold beforeWrite at hlast
    dsimp only at hlast
    split_ifs at hlast
    rw [List.flatMap_nil, List.flatMap_nil, List.append_nil]
    exact leads_restOfRead hc (hread ▸ hlast)
  | cons next rest =>
    rw [hevents, lastWrite] at hlast
    obtain ⟨following, hstep, hrest⟩ := Option.bind_eq_some_iff.mp hlast
    unfold step at hstep
    split_ifs at hstep
    unfold beforeWrite at hstep
    dsimp only at hstep
    split_ifs at hstep
    · exact absurd hstep (by simp)
    · rw [hread] at hstep
      obtain ⟨found, hfound, rfl⟩ := Option.map_eq_some_iff.mp hstep
      have hwrite := leads_doWrite streamId k.fuel found
      rw [← afterRead_eq_doWrite] at hwrite
      have hleads := (leads_restOfRead hc hfound).trans hwrite
      rw [List.append_nil] at hleads
      exact hleads.trans (leads_lastWrite (hleads.completed hc) hrest)

/-- A connection whose next `do_write` calls `on_write` and takes the response of a stream, among
others that were all ended with a string. -/
structure WritesFor (streamId : ℕ) (c : Connection) : Prop where
  running : c.stopped = false
  idle : c.writing = false
  taken : streamId ∈ c.handler.batch
  ended : EndedBatch c.handler.batch c.handler

/-- This call of `on_write` emits these bytes for the stream. -/
def Emits (streamId : ℕ) (bytes : Bytes) (c : Connection) : Prop :=
  c.handler.EmitsFor streamId bytes c.outbuf

/-- There is room in the buffer for all responses that this call takes. -/
def HasRoom (c : Connection) : Prop :=
  RoomForBatch c.outbuf.length 0 (batchSizes c.handler.batch c.handler)

/-- The bodies of these responses are shorter than `2 ^ 31` bytes. -/
def HasShortBodies (c : Connection) : Prop :=
  ShortBodies c.handler.batch c.handler

/-- Two continuations treat a response alike: in both of them there is room for all responses
written with it, their bodies are short, and the requests completed last have the same keep-alive
setting; or in neither of them there is room. -/
def TreatAlike (keepAlive keepAlive' : Bool) (c c' : Connection) : Prop :=
  (c.HasRoom ∧ c'.HasRoom) ∧ (c.HasShortBodies ∧ c'.HasShortBodies) ∧ keepAlive = keepAlive' ∨
    ¬ c.HasRoom ∧ ¬ c'.HasRoom

/-- Two calls of `on_write` that find a response as it is, under the keep-alive settings. -/
theorem emits_alike_of_stream {streamId : ℕ} {strm : Stream} {c c' : Connection}
    (hsize : incStep ≤ c.outbuf.length) (hsize' : incStep ≤ c'.outbuf.length)
    (hwrites : c.WritesFor streamId) (hwrites' : c'.WritesFor streamId)
    (hfound : c.handler.findStream streamId = some strm)
    (hfound' : c'.handler.findStream streamId = some strm) :
    (TreatAlike c.handler.shouldKeepAlive c'.handler.shouldKeepAlive c c' →
        ∀ bytes, c.Emits streamId bytes ↔ c'.Emits streamId bytes) ∧
      ((c.HasRoom → c.HasShortBodies) → (c'.HasRoom → c'.HasShortBodies) →
        (∀ bytes, c.Emits streamId bytes ↔ c'.Emits streamId bytes) →
          TreatAlike c.handler.shouldKeepAlive c'.handler.shouldKeepAlive c c') := by
  have hsome : (∃ bytes, c.Emits streamId bytes) ↔ c.HasRoom :=
    Http1Handler.exists_emitsFor_iff hwrites.taken hwrites.ended
  have hsome' : (∃ bytes, c'.Emits streamId bytes) ↔ c'.HasRoom :=
    Http1Handler.exists_emitsFor_iff hwrites'.taken hwrites'.ended
  have hresponse : c.handler.responseOn streamId =
      responseBytes c.handler.shouldKeepAlive strm := by
    rw [Http1Handler.responseOn, hfound]
    rfl
  have hresponse' : c'.handler.responseOn streamId =
      responseBytes c'.handler.shouldKeepAlive strm := by
    rw [Http1Handler.responseOn, hfound']
    rfl
  refine ⟨fun halike bytes ↦ ?_, fun hshort hshort' hsame ↦ ?_⟩
  · rcases halike with ⟨⟨hroom, hroom'⟩, ⟨hshort, hshort'⟩, halive⟩ | ⟨hnoRoom, hnoRoom'⟩
    · have hiff : c.Emits streamId bytes ↔ _ :=
        Http1Handler.emitsFor_iff hsize hwrites.taken hwrites.ended hshort
      have hiff' : c'.Emits streamId bytes ↔ _ :=
        Http1Handler.emitsFor_iff hsize' hwrites'.taken hwrites'.ended hshort'
      rw [hiff, hiff', hresponse, hresponse', halive]
      exact and_congr_left fun _ ↦ iff_of_true hroom hroom'
    · exact iff_of_false (fun hemits ↦ hnoRoom (hsome.mp ⟨bytes, hemits⟩))
        fun hemits ↦ hnoRoom' (hsome'.mp ⟨bytes, hemits⟩)
  · have hrooms : c.HasRoom ↔ c'.HasRoom :=
      hsome.symm.trans ((exists_congr hsame).trans hsome')
    by_cases hroom : c.HasRoom
    · -- what the one call emits, the other one emits too: the response with either version
      obtain ⟨bytes, hemits⟩ := hsome.mpr hroom
      have hbytes := Http1Handler.EmitsFor.eq_responseOn hemits hsize hwrites.ended (hshort hroom)
      have hbytes' := Http1Handler.EmitsFor.eq_responseOn ((hsame bytes).mp hemits) hsize'
        hwrites'.ended (hshort' (hrooms.mp hroom))
      rw [hresponse] at hbytes
      rw [hresponse'] at hbytes'
      exact Or.inl ⟨⟨hroom, hrooms.mp hroom⟩, ⟨hshort hroom, hshort' (hrooms.mp hroom)⟩,
        responseBytes_inj (hbytes.symm.trans hbytes')⟩
    · exact Or.inr ⟨hroom, fun hroom' ↦ hroom (hrooms.mpr hroom')⟩

/-- **How pipelined responses influence each other.** Two continuations behind a request, with the
same responses from its scripts, lead to calls of `on_write` that write its response. Both calls
emit the same bytes for it, or nothing both, when the continuations treat it alike; and, unless a
body of `2 ^ 31` bytes or more is drawn, only then. -/
theorem emits_alike {config : TlsConfig} {earlier : List Event}
    {c completed before before' : Connection} {first : List Received} {streamId : ℕ}
    {k k' : Continuation} (hrun : run (step config) initial earlier = some c)
    (hfirst : (c.guard true).receiveAll config first = some completed)
    (hc : completed.Completed streamId)
    (hresponses : k.responsesFor streamId = k'.responsesFor streamId)
    (hlast : c.lastWrite config (k.eventsFrom first) = some before)
    (hlast' : c.lastWrite config (k'.eventsFrom first) = some before')
    (hwrites : before.WritesFor streamId) (hwrites' : before'.WritesFor streamId) :
    (TreatAlike (lastKeepAlive completed.handler.shouldKeepAlive k.callbacks)
          (lastKeepAlive completed.handler.shouldKeepAlive k'.callbacks) before before' →
        ∀ bytes, before.Emits streamId bytes ↔ before'.Emits streamId bytes) ∧
      ((before.HasRoom → before.HasShortBodies) → (before'.HasRoom → before'.HasShortBodies) →
        (∀ bytes, before.Emits streamId bytes ↔ before'.Emits streamId bytes) →
          TreatAlike (lastKeepAlive completed.handler.shouldKeepAlive k.callbacks)
            (lastKeepAlive completed.handler.shouldKeepAlive k'.callbacks) before before') := by
  have hleads := leads_continuation hfirst hc hlast
  have hleads' := leads_continuation hfirst hc hlast'
  obtain ⟨strm, hfound, -⟩ := hwrites.ended streamId hwrites.taken
  obtain ⟨strm', hfound', -⟩ := hwrites'.ended streamId hwrites'.taken
  -- both find the stream as the request left it, and start the same responses on it
  obtain ⟨completedStream, hcompleted, rfl⟩ := hleads.stream hc strm hfound
  obtain ⟨completedStream', hcompleted', rfl⟩ := hleads'.stream hc strm' hfound'
  obtain rfl : completedStream = completedStream' :=
    Option.some_inj.mp (hcompleted.symm.trans hcompleted')
  rw [← hresponses] at hfound'
  have hsize := incStep_le_outbuf hrun
  rw [← hleads.keepAlive, ← hleads'.keepAlive]
  exact emits_alike_of_stream (hsize.trans (length_outbuf_lastWrite hlast))
    (hsize.trans (length_outbuf_lastWrite hlast')) hwrites hwrites' hfound hfound'

/-- `GET /` answered at once, with an empty payload. -/
def answeredRoot (shouldKeepAlive : Bool) : List Received :=
  getRoot shouldKeepAlive (.respond (AsioServerResponse.initial.endString (ascii "GET") []))

theorem exists_completed_answeredRoot :
    ∃ completed, (initial.guard true).receiveAll ⟨[], []⟩ (answeredRoot true) = some completed ∧
      completed.Completed 1 ∧ completed.handler.shouldKeepAlive = true := by
  obtain ⟨completed, hfirst, hstate⟩ :
      ∃ completed, (initial.guard true).receiveAll ⟨[], []⟩ (answeredRoot true) = some completed ∧
        (completed.handler.requestCount, completed.receiving,
          completed.handler.shouldKeepAlive) = (1, false, true) :=
    Option.map_eq_some_iff.mp (by decide +kernel)
  obtain ⟨hcount, hreceiving, halive⟩ : completed.handler.requestCount = 1 ∧
      completed.receiving = false ∧ completed.handler.shouldKeepAlive = true := by
    simpa using hstate
  exact ⟨completed, hfirst, ⟨Nat.le_of_eq hcount.symm,
    fun h ↦ absurd (hreceiving.symm.trans h) Bool.false_ne_true⟩, halive⟩

/-- The call of `on_write` behind a read on a new connection takes a batch of responses that were
ended with empty strings. -/
theorem exists_writesFor {later : List Received} {batch : List ℕ} {bytes : Bytes}
    (hstate : (initial.lastWrite ⟨[], []⟩
      (Continuation.eventsFrom (answeredRoot true) ⟨later, 1, []⟩)).any (fun c ↦ decide
        ((c.stopped = false ∧ c.writing = false ∧ c.handler.batch = batch) ∧
          (batchSizes c.handler.batch c.handler = batch.map (fun _ ↦ ⟨[17, 2], some 0⟩) ∧
            ShortBodies c.handler.batch c.handler ∧ c.handler.responseOn 1 = bytes) ∧
          (batch.map fun id ↦ (c.handler.findStream id).map fun strm ↦
            (strm.response.generator, strm.response.payloadSize)) =
              batch.map fun _ ↦ some (some (stringGenerator []), 0))) = true)
    (hmem : 1 ∈ batch)
    (hroom : RoomForBatch (64 * 1024) 0 (batch.map fun _ ↦ ⟨[17, 2], some 0⟩)) :
    ∃ before, initial.lastWrite ⟨[], []⟩
        (Continuation.eventsFrom (answeredRoot true) ⟨later, 1, []⟩) = some before ∧
      before.WritesFor 1 ∧ before.HasRoom ∧ before.HasShortBodies ∧
      ∀ emitted, before.Emits 1 emitted ↔ emitted = bytes := by
  obtain ⟨before, hlast, hbefore⟩ := (Option.any_eq_true _ _).mp hstate
  obtain ⟨⟨hrunning, hidle, hbatch⟩, ⟨hsizes, hshort, hbytes⟩, hstreams⟩ :=
    of_decide_eq_true hbefore
  have hended : EndedBatch before.handler.batch before.handler := by
    rw [← hbatch] at hstreams
    intro id hid
    obtain ⟨strm, hfound, hresponse⟩ :=
      Option.map_eq_some_iff.mp (List.map_inj_left.mp hstreams id hid)
    obtain ⟨hgenerator, hsize⟩ := Prod.mk.inj hresponse
    exact ⟨strm, hfound, fun _ ↦ ⟨[], hgenerator, hsize⟩⟩
  have hwrites : before.WritesFor 1 := ⟨hrunning, hidle, hbatch ▸ hmem, hended⟩
  have hbuffer : before.outbuf.length = 64 * 1024 := by
    rw [Continuation.eventsFrom, lastWrite, if_neg (by decide)] at hlast
    rw [outbuf_beforeWrite hlast, initial, List.length_replicate]
  have hhasRoom : before.HasRoom := by
    rw [HasRoom, hbuffer, hsizes]
    exact hroom
  have hsize : incStep ≤ before.outbuf.length := hbuffer ▸ (by decide)
  refine ⟨before, hlast, hwrites, hhasRoom, hshort, fun emitted ↦ ?_⟩
  rw [← hbytes]
  exact (Http1Handler.emitsFor_iff hsize hwrites.taken hended hshort).trans
    (and_iff_right hhasRoom)

/-- One continuation is nothing, the other one a second request that keeps the connection alive. -/
theorem emits_alike_pipelinedKeepAlive :
    ∃ before before',
      initial.lastWrite ⟨[], []⟩
        (Continuation.eventsFrom (answeredRoot true) ⟨[], 1, []⟩) = some before ∧
      initial.lastWrite ⟨[], []⟩
        (Continuation.eventsFrom (answeredRoot true) ⟨answeredRoot true, 1, []⟩) = some before' ∧
      before.Emits 1 (ascii "HTTP/1.1 200 OK\r\n\r\n") ∧
      ∀ bytes, before.Emits 1 bytes ↔ before'.Emits 1 bytes := by
  obtain ⟨completed, hfirst, hcompleted, halive⟩ := exists_completed_answeredRoot
  obtain ⟨before, hlast, hwrites, hroom, hshort, hemits⟩ := @exists_writesFor [] [1]
    (ascii "HTTP/1.1 200 OK\r\n\r\n") (by decide +kernel) (by decide) (by decide +kernel)
  obtain ⟨before', hlast', hwrites', hroom', hshort', -⟩ := @exists_writesFor (answeredRoot true)
    [1, 2] (ascii "HTTP/1.1 200 OK\r\n\r\n") (by decide +kernel) (by decide)
    (by decide +kernel)
  refine ⟨before, before', hlast, hlast', (hemits _).mpr rfl, ?_⟩
  refine (emits_alike (run_nil initial) hfirst hcompleted (by rfl) hlast hlast' hwrites hwrites').1
    (Or.inl ⟨⟨hroom, hroom'⟩, ⟨hshort, hshort'⟩, ?_⟩)
  rw [halive]
  rfl

/-- The second request of the other continuation closes the connection: the first response is then
labelled as one of HTTP/1.0. -/
theorem not_emits_pipelinedClose :
    ∃ before before',
      initial.lastWrite ⟨[], []⟩
        (Continuation.eventsFrom (answeredRoot true) ⟨[], 1, []⟩) = some before ∧
      initial.lastWrite ⟨[], []⟩
        (Continuation.eventsFrom (answeredRoot true) ⟨answeredRoot false, 1, []⟩) = some before' ∧
      before.WritesFor 1 ∧ before'.WritesFor 1 ∧
      before.Emits 1 (ascii "HTTP/1.1 200 OK\r\n\r\n") ∧
      before'.Emits 1 (ascii "HTTP/1.0 200 OK\r\n\r\n") ∧
      ¬ before'.Emits 1 (ascii "HTTP/1.1 200 OK\r\n\r\n") := by
  obtain ⟨before, hlast, hwrites, -, -, hemits⟩ := @exists_writesFor [] [1]
    (ascii "HTTP/1.1 200 OK\r\n\r\n") (by decide +kernel) (by decide) (by decide +kernel)
  obtain ⟨before', hlast', hwrites', -, -, hemits'⟩ := @exists_writesFor (answeredRoot false)
    [1, 2] (ascii "HTTP/1.0 200 OK\r\n\r\n") (by decide +kernel) (by decide)
    (by decide +kernel)
  exact ⟨before, before', hlast, hlast', hwrites, hwrites', (hemits _).mpr rfl,
    (hemits' _).mpr rfl, fun h ↦ absurd ((hemits' _).mp h) (by decide)⟩

end Connection

end Maock.Http1
