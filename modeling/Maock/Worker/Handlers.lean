import Maock.Foundation.TransitionSystem
import Maock.Worker.SendResponse

/-!
# The handlers of a worker thread

`alive_handlers` and `handler_unique_id`, through which a posted `send_response` finds its handler
and its stream by two numbers. A task may run when the stream, the handler or both are gone and
others have been created. `sendResponse_actsFor` says that it then changes nothing: numbers of
handlers are never given out twice, and neither are the stream identifiers of a handler.

Every request has a number here, which its stream and its tasks keep, to say which stream was
created for which request. The program has no such numbers and does not read them.
-/

set_option autoImplicit false
set_option relaxedAutoImplicit false

namespace Maock.Worker

open Foundation Foundation.OrderedContainer Foundation.TransitionSystem
open Http1 (AsioServerResponse Stream)

/-! ### State -/

/-- A stream with the number of the request that it was created for. -/
structure OpenStream where
  stream : Stream
  request : ℕ

/-- `base_handler`, with the stream identifiers that its streams have had so far. -/
structure BaseHandler where
  streams : OrderedMap OpenStream natLess
  used : List ℕ

namespace BaseHandler

/-- `base_handler()`. -/
def initial : BaseHandler where
  streams := OrderedSet.empty _
  used := []

/-- `create_stream(stream_id)`. -/
def createStream (streamId request : ℕ) (handler : BaseHandler) : BaseHandler where
  streams := handler.streams.insert (streamId, ⟨Stream.initial, request⟩)
  used := streamId :: handler.used

/-- `find_stream(stream_id)`. -/
def findStream (streamId : ℕ) (handler : BaseHandler) : Option OpenStream :=
  OrderedMap.lookup handler.streams streamId

/-- `close_stream(stream_id)`. -/
def closeStream (streamId : ℕ) (handler : BaseHandler) : BaseHandler :=
  { handler with streams := OrderedMap.eraseKey streamId handler.streams }

/-- A response written to a stream. -/
def writeResponse (a : Answer) (streamId : ℕ) (handler : BaseHandler) : BaseHandler :=
  { handler with
    streams := OrderedMap.modify streamId
      (fun strm ↦ { strm with stream := { strm.stream with response := a.writeTo strm.stream } })
      handler.streams }

end BaseHandler

/-- The arguments of a posted `send_response` that say where to send, with the number of the request
it is posted for. -/
structure Task where
  handlerId : ℕ
  streamId : ℕ
  request : ℕ
  deriving DecidableEq

/-- A worker thread: its thread-local handlers with their counter, the tasks that have not run, and
the number of requests so far. -/
structure Thread where
  handlerUniqueId : ℕ
  aliveHandlers : OrderedMap BaseHandler natLess
  requests : ℕ
  pending : List Task

namespace Thread

/-- A worker thread when it starts. -/
def initial : Thread where
  handlerUniqueId := 0
  aliveHandlers := OrderedSet.empty _
  requests := 0
  pending := []

/-- `find_handler(handler_id)`. -/
def findHandler (handlerId : ℕ) (w : Thread) : Option BaseHandler :=
  OrderedMap.lookup w.aliveHandlers handlerId

/-- The stream that a handler and a stream identifier denote. -/
def findStream (handlerId streamId : ℕ) (w : Thread) : Option OpenStream :=
  (w.findHandler handlerId).bind (BaseHandler.findStream streamId)

/-- The constructor of `base_handler`. -/
def construct (w : Thread) : Thread :=
  { w with
    handlerUniqueId := w.handlerUniqueId + 1
    aliveHandlers := OrderedSet.insert (w.handlerUniqueId, BaseHandler.initial)
      (OrderedMap.eraseKey w.handlerUniqueId w.aliveHandlers) }

/-- The destructor of `base_handler`. -/
def destruct (handlerId : ℕ) (w : Thread) : Thread :=
  { w with aliveHandlers := OrderedMap.eraseKey handlerId w.aliveHandlers }

/-- A change of the handler that a pointer to it makes. -/
def modifyHandler (handlerId : ℕ) (f : BaseHandler → BaseHandler) (w : Thread) : Thread :=
  { w with aliveHandlers := OrderedMap.modify handlerId f w.aliveHandlers }

/-- `send_response`, for a handler and a stream. -/
def sendResponse (a : Answer) (handlerId streamId : ℕ) (w : Thread) : Thread :=
  match w.findHandler handlerId with
  | none => w
  | some handler =>
    if a.statusCode = 0 then w.modifyHandler handlerId (BaseHandler.closeStream streamId)
    else if (handler.findStream streamId).isNone then w
    else w.modifyHandler handlerId (BaseHandler.writeResponse a streamId)

/-! ### Events -/

/-- What happens on a worker thread. -/
inductive Event where
  | openConnection
  | destroyConnection (handlerId : ℕ)
  /-- A request arrives on a stream that its connection has not had before. -/
  | requestArrives (handlerId streamId : ℕ)
  /-- The request of a stream is left to another thread, which will post `send_response`. -/
  | offload (handlerId streamId : ℕ)
  | closeStream (handlerId streamId : ℕ)
  /-- A posted `send_response` runs. -/
  | sendResponse (task : Task) (a : Answer)

/-- One event. -/
def step (w : Thread) : Event → Option Thread
  | .openConnection => some w.construct
  | .destroyConnection handlerId => some (w.destruct handlerId)
  | .requestArrives handlerId streamId =>
    match w.findHandler handlerId with
    | none => none
    | some handler =>
      if streamId ∈ handler.used then none
      else some { w.modifyHandler handlerId (BaseHandler.createStream streamId w.requests) with
        requests := w.requests + 1 }
  | .offload handlerId streamId =>
    (w.findStream handlerId streamId).map fun strm ↦
      { w with pending := ⟨handlerId, streamId, strm.request⟩ :: w.pending }
  | .closeStream handlerId streamId =>
    some (w.modifyHandler handlerId (BaseHandler.closeStream streamId))
  | .sendResponse task a =>
    if task ∈ w.pending then
      some ({ w with pending := w.pending.erase task }.sendResponse a task.handlerId task.streamId)
    else none

/-! ### What the operations do to handlers and streams -/

theorem findHandler_construct (w : Thread) :
    w.construct.findHandler w.handlerUniqueId = some BaseHandler.initial := by
  refine OrderedMap.lookup_insert_of_new fun known hknown hequiv ↦ ?_
  exact (OrderedMap.mem_keys_eraseKey.mp hknown).2 hequiv

theorem findHandler_construct_of_ne {w : Thread} {id : ℕ} (hne : w.handlerUniqueId ≠ id) :
    w.construct.findHandler id = w.findHandler id :=
  (OrderedMap.lookup_insert_of_not_equivalent (by simpa using hne) _ _).trans
    (OrderedMap.lookup_eraseKey_of_not_equivalent (by simpa using hne) _)

theorem findHandler_modifyHandler (handlerId : ℕ) (f : BaseHandler → BaseHandler) (w : Thread) :
    (w.modifyHandler handlerId f).findHandler handlerId = (w.findHandler handlerId).map f :=
  OrderedMap.lookup_modify handlerId f w.aliveHandlers

theorem findHandler_modifyHandler_of_ne {handlerId id : ℕ} (hne : handlerId ≠ id)
    (f : BaseHandler → BaseHandler) (w : Thread) :
    (w.modifyHandler handlerId f).findHandler id = w.findHandler id :=
  OrderedMap.lookup_modify_of_not_equivalent (by simpa using hne) f w.aliveHandlers

theorem findHandler_destruct (handlerId : ℕ) (w : Thread) :
    (w.destruct handlerId).findHandler handlerId = none :=
  OrderedMap.lookup_eraseKey handlerId w.aliveHandlers

theorem findHandler_destruct_of_ne {handlerId id : ℕ} (hne : handlerId ≠ id) (w : Thread) :
    (w.destruct handlerId).findHandler id = w.findHandler id :=
  OrderedMap.lookup_eraseKey_of_not_equivalent (by simpa using hne) w.aliveHandlers

theorem findStream_eq_some_iff {handlerId streamId : ℕ} {strm : OpenStream} {w : Thread} :
    w.findStream handlerId streamId = some strm ↔
      ∃ handler, w.findHandler handlerId = some handler ∧ handler.findStream streamId = some strm :=
  Option.bind_eq_some_iff

theorem findStream_modifyHandler (handlerId streamId : ℕ) (f : BaseHandler → BaseHandler)
    (w : Thread) : (w.modifyHandler handlerId f).findStream handlerId streamId =
      (w.findHandler handlerId).bind fun handler ↦ (f handler).findStream streamId := by
  rw [findStream, findHandler_modifyHandler, Option.bind_map]
  rfl

theorem findStream_modifyHandler_of_ne {handlerId id : ℕ} (hne : handlerId ≠ id) (streamId : ℕ)
    (f : BaseHandler → BaseHandler) (w : Thread) :
    (w.modifyHandler handlerId f).findStream id streamId = w.findStream id streamId := by
  rw [findStream, findHandler_modifyHandler_of_ne hne, findStream]

end Thread

namespace BaseHandler

theorem findStream_createStream {streamId : ℕ} {handler : BaseHandler}
    (hnew : handler.findStream streamId = none) (request : ℕ) :
    (handler.createStream streamId request).findStream streamId =
      some ⟨Stream.initial, request⟩ := by
  refine OrderedMap.lookup_insert_of_new fun known hknown hequiv ↦ ?_
  have hsome := OrderedMap.isSome_lookup_iff.mpr ⟨known, hknown, hequiv⟩
  rw [show OrderedMap.lookup handler.streams streamId = none from hnew] at hsome
  exact absurd hsome Bool.false_ne_true

theorem findStream_createStream_of_ne {streamId id : ℕ} (hne : streamId ≠ id) (request : ℕ)
    (handler : BaseHandler) :
    (handler.createStream streamId request).findStream id = handler.findStream id :=
  OrderedMap.lookup_insert_of_not_equivalent (by simpa using hne) _ handler.streams

theorem findStream_closeStream (streamId : ℕ) (handler : BaseHandler) :
    (handler.closeStream streamId).findStream streamId = none :=
  OrderedMap.lookup_eraseKey streamId handler.streams

theorem findStream_closeStream_of_ne {streamId id : ℕ} (hne : streamId ≠ id)
    (handler : BaseHandler) :
    (handler.closeStream streamId).findStream id = handler.findStream id :=
  OrderedMap.lookup_eraseKey_of_not_equivalent (by simpa using hne) handler.streams

theorem findStream_writeResponse (a : Answer) (streamId : ℕ) (handler : BaseHandler) :
    (handler.writeResponse a streamId).findStream streamId =
      (handler.findStream streamId).map fun strm ↦
        { strm with stream := { strm.stream with response := a.writeTo strm.stream } } :=
  OrderedMap.lookup_modify streamId _ handler.streams

theorem findStream_writeResponse_of_ne {streamId id : ℕ} (hne : streamId ≠ id) (a : Answer)
    (handler : BaseHandler) :
    (handler.writeResponse a streamId).findStream id = handler.findStream id :=
  OrderedMap.lookup_modify_of_not_equivalent (by simpa using hne) _ handler.streams

/-- The handler afterwards has no streams but those it had before, for the same requests. -/
def Shrinks (before after : BaseHandler) : Prop :=
  after.used = before.used ∧ ∀ streamId strm, after.findStream streamId = some strm →
    ∃ old, before.findStream streamId = some old ∧ strm.request = old.request

theorem shrinks_refl (handler : BaseHandler) : Shrinks handler handler :=
  ⟨rfl, fun _ strm hstrm ↦ ⟨strm, hstrm, rfl⟩⟩

theorem shrinks_closeStream (streamId : ℕ) (handler : BaseHandler) :
    Shrinks handler (handler.closeStream streamId) := by
  refine ⟨rfl, fun id strm hstrm ↦ ?_⟩
  by_cases hid : streamId = id
  · rw [← hid, findStream_closeStream] at hstrm
    exact absurd hstrm (by simp)
  · rw [findStream_closeStream_of_ne hid] at hstrm
    exact ⟨strm, hstrm, rfl⟩

theorem shrinks_writeResponse (a : Answer) (streamId : ℕ) (handler : BaseHandler) :
    Shrinks handler (handler.writeResponse a streamId) := by
  refine ⟨rfl, fun id strm hstrm ↦ ?_⟩
  by_cases hid : streamId = id
  · rw [← hid, findStream_writeResponse] at hstrm
    obtain ⟨old, hold, rfl⟩ := Option.map_eq_some_iff.mp hstrm
    exact ⟨old, hid ▸ hold, rfl⟩
  · rw [findStream_writeResponse_of_ne hid] at hstrm
    exact ⟨strm, hstrm, rfl⟩

end BaseHandler

namespace Thread

/-! ### The invariant -/

/-- The invariant of the runs: handlers have numbers below the counter and open streams identifiers
that are in use; every request has at most one stream; and what a task denotes, if it is still
there, is the stream of its request. -/
structure Tracked (w : Thread) : Prop where
  handler_lt : ∀ handlerId handler, w.findHandler handlerId = some handler →
    handlerId < w.handlerUniqueId
  open_used : ∀ handlerId handler, w.findHandler handlerId = some handler →
    ∀ streamId strm, handler.findStream streamId = some strm → streamId ∈ handler.used
  request_lt : ∀ handlerId streamId strm, w.findStream handlerId streamId = some strm →
    strm.request < w.requests
  request_unique : ∀ handlerId streamId strm, w.findStream handlerId streamId = some strm →
    ∀ handlerId' streamId' strm', w.findStream handlerId' streamId' = some strm' →
      strm.request = strm'.request → handlerId = handlerId' ∧ streamId = streamId'
  task_lt : ∀ task ∈ w.pending, task.handlerId < w.handlerUniqueId
  task_used : ∀ task ∈ w.pending, ∀ handler, w.findHandler task.handlerId = some handler →
    task.streamId ∈ handler.used
  task_request : ∀ task ∈ w.pending, ∀ strm,
    w.findStream task.handlerId task.streamId = some strm → strm.request = task.request

theorem tracked_initial : Tracked initial := by
  have hnone : ∀ handlerId, initial.findHandler handlerId = none := fun _ ↦ rfl
  have hstream : ∀ handlerId streamId, initial.findStream handlerId streamId = none := fun _ _ ↦ rfl
  refine ⟨fun id handler h ↦ absurd ((hnone id).symm.trans h) (by simp),
    fun id handler h ↦ absurd ((hnone id).symm.trans h) (by simp),
    fun id streamId strm h ↦ absurd ((hstream id streamId).symm.trans h) (by simp),
    fun id streamId strm h ↦ absurd ((hstream id streamId).symm.trans h) (by simp), ?_, ?_, ?_⟩
  · exact fun _ h ↦ absurd h List.not_mem_nil
  · exact fun _ h ↦ absurd h List.not_mem_nil
  · exact fun _ h ↦ absurd h List.not_mem_nil

/-- The thread afterwards has no handlers, streams and tasks but those it had before. -/
structure Shrinks (before after : Thread) : Prop where
  handlerUniqueId : after.handlerUniqueId = before.handlerUniqueId
  requests : after.requests = before.requests
  pending : ∀ task ∈ after.pending, task ∈ before.pending
  handler : ∀ handlerId handler, after.findHandler handlerId = some handler →
    ∃ old, before.findHandler handlerId = some old ∧ old.Shrinks handler

theorem Shrinks.stream {before after : Thread} (hshrinks : Shrinks before after)
    {handlerId streamId : ℕ} {strm : OpenStream}
    (hstrm : after.findStream handlerId streamId = some strm) :
    ∃ old, before.findStream handlerId streamId = some old ∧ strm.request = old.request := by
  obtain ⟨handler, hhandler, hfound⟩ := findStream_eq_some_iff.mp hstrm
  obtain ⟨oldHandler, hold, -, hstreams⟩ := hshrinks.handler handlerId handler hhandler
  obtain ⟨old, hfoundOld, hrequest⟩ := hstreams streamId strm hfound
  exact ⟨old, findStream_eq_some_iff.mpr ⟨oldHandler, hold, hfoundOld⟩, hrequest⟩

theorem Tracked.of_shrinks {before after : Thread} (hinv : Tracked before)
    (hshrinks : Shrinks before after) : Tracked after := by
  refine ⟨fun id handler h ↦ ?_, fun id handler h streamId strm hstrm ↦ ?_,
    fun id streamId strm h ↦ ?_, fun id streamId strm h id' streamId' strm' h' heq ↦ ?_,
    fun task htask ↦ ?_, fun task htask handler h ↦ ?_, fun task htask strm h ↦ ?_⟩
  · obtain ⟨old, hold, -⟩ := hshrinks.handler id handler h
    rw [hshrinks.handlerUniqueId]
    exact hinv.handler_lt id old hold
  · obtain ⟨old, hold, hused, hstreams⟩ := hshrinks.handler id handler h
    obtain ⟨oldStrm, hfound, -⟩ := hstreams streamId strm hstrm
    rw [hused]
    exact hinv.open_used id old hold streamId oldStrm hfound
  · obtain ⟨old, hold, hrequest⟩ := hshrinks.stream h
    rw [hrequest, hshrinks.requests]
    exact hinv.request_lt id streamId old hold
  · obtain ⟨old, hold, hrequest⟩ := hshrinks.stream h
    obtain ⟨old', hold', hrequest'⟩ := hshrinks.stream h'
    exact hinv.request_unique id streamId old hold id' streamId' old' hold'
      (hrequest.symm.trans (heq.trans hrequest'))
  · rw [hshrinks.handlerUniqueId]
    exact hinv.task_lt task (hshrinks.pending task htask)
  · obtain ⟨old, hold, hused, -⟩ := hshrinks.handler task.handlerId handler h
    rw [hused]
    exact hinv.task_used task (hshrinks.pending task htask) old hold
  · obtain ⟨old, hold, hrequest⟩ := hshrinks.stream h
    exact hrequest.trans (hinv.task_request task (hshrinks.pending task htask) old hold)

/-- Destroying a handler shrinks the thread. -/
theorem shrinks_destruct (handlerId : ℕ) (w : Thread) : Shrinks w (w.destruct handlerId) := by
  refine ⟨rfl, rfl, fun _ h ↦ h, fun id handler hhandler ↦ ?_⟩
  by_cases hid : handlerId = id
  · rw [← hid, findHandler_destruct] at hhandler
    exact absurd hhandler (by simp)
  · rw [findHandler_destruct_of_ne hid] at hhandler
    exact ⟨handler, hhandler, handler.shrinks_refl⟩

/-- A change that shrinks a handler shrinks the thread. -/
theorem shrinks_modifyHandler {f : BaseHandler → BaseHandler}
    (hf : ∀ handler : BaseHandler, handler.Shrinks (f handler)) (handlerId : ℕ) (w : Thread) :
    Shrinks w (w.modifyHandler handlerId f) := by
  refine ⟨rfl, rfl, fun _ h ↦ h, fun id handler hhandler ↦ ?_⟩
  by_cases hid : handlerId = id
  · rw [← hid, findHandler_modifyHandler] at hhandler
    obtain ⟨old, hold, rfl⟩ := Option.map_eq_some_iff.mp hhandler
    exact ⟨old, hid ▸ hold, hf old⟩
  · rw [findHandler_modifyHandler_of_ne hid] at hhandler
    exact ⟨handler, hhandler, handler.shrinks_refl⟩

theorem shrinks_refl (w : Thread) : Shrinks w w :=
  ⟨rfl, rfl, fun _ h ↦ h, fun _ handler h ↦ ⟨handler, h, handler.shrinks_refl⟩⟩

theorem shrinks_sendResponse (a : Answer) (handlerId streamId : ℕ) (w : Thread) :
    Shrinks w (w.sendResponse a handlerId streamId) := by
  unfold sendResponse
  cases w.findHandler handlerId with
  | none => exact shrinks_refl w
  | some handler =>
    dsimp only
    split_ifs
    · exact shrinks_modifyHandler (BaseHandler.shrinks_closeStream streamId) handlerId w
    · exact shrinks_refl w
    · exact shrinks_modifyHandler (BaseHandler.shrinks_writeResponse a streamId) handlerId w

/-- A new handler has a number that no handler and no task has. -/
theorem Tracked.construct {w : Thread} (hinv : Tracked w) : Tracked w.construct := by
  have hold : ∀ id handler, w.construct.findHandler id = some handler →
      id = w.handlerUniqueId ∧ handler = BaseHandler.initial ∨ w.findHandler id = some handler := by
    intro id handler h
    by_cases hid : w.handlerUniqueId = id
    · rw [← hid, findHandler_construct, Option.some_inj] at h
      exact Or.inl ⟨hid.symm, h.symm⟩
    · rw [findHandler_construct_of_ne hid] at h
      exact Or.inr h
  have hstream : ∀ id streamId strm, w.construct.findStream id streamId = some strm →
      w.findStream id streamId = some strm := by
    intro id streamId strm h
    obtain ⟨handler, hhandler, hfound⟩ := findStream_eq_some_iff.mp h
    rcases hold id handler hhandler with ⟨-, rfl⟩ | hhandler
    · exact absurd hfound (by simp [BaseHandler.findStream, BaseHandler.initial, OrderedMap.lookup])
    · exact findStream_eq_some_iff.mpr ⟨handler, hhandler, hfound⟩
  refine ⟨fun id handler h ↦ ?_, fun id handler h streamId strm hstrm ↦ ?_,
    fun id streamId strm h ↦ hinv.request_lt id streamId strm (hstream id streamId strm h),
    fun id streamId strm h id' streamId' strm' h' ↦ hinv.request_unique id streamId strm
      (hstream id streamId strm h) id' streamId' strm' (hstream id' streamId' strm' h'),
    fun task htask ↦ Nat.lt_succ_of_lt (hinv.task_lt task htask), fun task htask handler h ↦ ?_,
    fun task htask strm h ↦ hinv.task_request task htask strm
      (hstream task.handlerId task.streamId strm h)⟩
  · rcases hold id handler h with ⟨rfl, -⟩ | h
    · exact Nat.lt_succ_self _
    · exact Nat.lt_succ_of_lt (hinv.handler_lt id handler h)
  · rcases hold id handler h with ⟨-, rfl⟩ | h
    · exact absurd hstrm (by simp [BaseHandler.findStream, BaseHandler.initial, OrderedMap.lookup])
    · exact hinv.open_used id handler h streamId strm hstrm
  · rcases hold task.handlerId handler h with ⟨heq, -⟩ | h
    · exact absurd (hinv.task_lt task htask) (by omega)
    · exact hinv.task_used task htask handler h

section CreateStream

variable {w : Thread} {handlerId streamId : ℕ} {handler : BaseHandler}

/-- A handler behind the creation of a stream is the one that has it or one from before. -/
theorem findHandler_createStream_cases (hhandler : w.findHandler handlerId = some handler)
    {id : ℕ} {found : BaseHandler}
    (h : (w.modifyHandler handlerId (BaseHandler.createStream streamId w.requests)).findHandler id =
      some found) :
    (handlerId = id ∧ found = handler.createStream streamId w.requests) ∨
      w.findHandler id = some found := by
  by_cases hid : handlerId = id
  · rw [← hid, findHandler_modifyHandler, hhandler, Option.map_some, Option.some_inj] at h
    exact Or.inl ⟨hid, h.symm⟩
  · rw [findHandler_modifyHandler_of_ne hid] at h
    exact Or.inr h

/-- A stream behind the creation of one is the new one or one from before. -/
theorem findStream_createStream_cases (hhandler : w.findHandler handlerId = some handler)
    (hnone : handler.findStream streamId = none) {id streamId' : ℕ} {strm : OpenStream}
    (h : (w.modifyHandler handlerId (BaseHandler.createStream streamId w.requests)).findStream id
      streamId' = some strm) :
    (handlerId = id ∧ streamId = streamId' ∧ strm.request = w.requests) ∨
      w.findStream id streamId' = some strm := by
  obtain ⟨found, hfound, hstrm⟩ := findStream_eq_some_iff.mp h
  rcases findHandler_createStream_cases hhandler hfound with ⟨hid, rfl⟩ | hold
  · subst hid
    by_cases hstreamId : streamId = streamId'
    · subst hstreamId
      rw [BaseHandler.findStream_createStream hnone, Option.some_inj] at hstrm
      exact Or.inl ⟨rfl, rfl, by rw [← hstrm]⟩
    · rw [BaseHandler.findStream_createStream_of_ne hstreamId] at hstrm
      exact Or.inr (findStream_eq_some_iff.mpr ⟨handler, hhandler, hstrm⟩)
  · exact Or.inr (findStream_eq_some_iff.mpr ⟨found, hold, hstrm⟩)

/-- A new stream has an identifier that its handler has not given to a stream or a task before. -/
theorem Tracked.createStream (hinv : Tracked w)
    (hhandler : w.findHandler handlerId = some handler) (hnew : streamId ∉ handler.used) :
    Tracked { w.modifyHandler handlerId (BaseHandler.createStream streamId w.requests) with
      requests := w.requests + 1 } := by
  have hnone : handler.findStream streamId = none := by
    refine Option.eq_none_iff_forall_ne_some.mpr fun strm hstrm ↦ ?_
    exact hnew (hinv.open_used handlerId handler hhandler streamId strm hstrm)
  constructor
  case handler_lt =>
    intro id found h
    rcases findHandler_createStream_cases hhandler h with ⟨rfl, -⟩ | hold
    · exact hinv.handler_lt handlerId handler hhandler
    · exact hinv.handler_lt id found hold
  case open_used =>
    intro id found h streamId' strm hstrm
    rcases findHandler_createStream_cases hhandler h with ⟨-, rfl⟩ | hold
    · by_cases hstreamId : streamId = streamId'
      · exact hstreamId ▸ List.mem_cons_self
      · rw [BaseHandler.findStream_createStream_of_ne hstreamId] at hstrm
        exact List.mem_cons_of_mem _
          (hinv.open_used handlerId handler hhandler streamId' strm hstrm)
    · exact hinv.open_used id found hold streamId' strm hstrm
  case request_lt =>
    intro id streamId' strm h
    rcases findStream_createStream_cases hhandler hnone h with ⟨-, -, hrequest⟩ | hold
    · exact hrequest ▸ Nat.lt_succ_self _
    · exact Nat.lt_succ_of_lt (hinv.request_lt id streamId' strm hold)
  case request_unique =>
    -- the number of the new request is above those of all others
    intro id streamId' strm h id' streamId'' strm' h' heq
    rcases findStream_createStream_cases hhandler hnone h with ⟨hid, hstreamId, hrequest⟩ | hold <;>
      rcases findStream_createStream_cases hhandler hnone h' with
        ⟨hid', hstreamId', hrequest'⟩ | hold'
    · exact ⟨hid.symm.trans hid', hstreamId.symm.trans hstreamId'⟩
    · exact absurd (hinv.request_lt id' streamId'' strm' hold') (by omega)
    · exact absurd (hinv.request_lt id streamId' strm hold) (by omega)
    · exact hinv.request_unique id streamId' strm hold id' streamId'' strm' hold' heq
  case task_lt => exact hinv.task_lt
  case task_used =>
    intro task htask found h
    rcases findHandler_createStream_cases hhandler h with ⟨hid, rfl⟩ | hold
    · exact List.mem_cons_of_mem _ (hinv.task_used task htask handler (hid ▸ hhandler))
    · exact hinv.task_used task htask found hold
  case task_request =>
    intro task htask strm h
    rcases findStream_createStream_cases hhandler hnone h with ⟨hid, hstreamId, -⟩ | hold
    · -- the identifier of a task is in use, so it is not the new one
      exact absurd (hstreamId ▸ hinv.task_used task htask handler (hid ▸ hhandler)) hnew
    · exact hinv.task_request task htask strm hold

end CreateStream

/-- A task is posted for the stream that its numbers denote. -/
theorem Tracked.offload {w : Thread} (hinv : Tracked w) {handlerId streamId : ℕ} {strm : OpenStream}
    (hstrm : w.findStream handlerId streamId = some strm) :
    Tracked { w with pending := ⟨handlerId, streamId, strm.request⟩ :: w.pending } := by
  obtain ⟨handler, hhandler, hfound⟩ := findStream_eq_some_iff.mp hstrm
  refine ⟨hinv.handler_lt, hinv.open_used, hinv.request_lt, hinv.request_unique, ?_, ?_, ?_⟩
  · rintro task (_ | ⟨_, htask⟩)
    · exact hinv.handler_lt handlerId handler hhandler
    · exact hinv.task_lt task htask
  · rintro task (_ | ⟨_, htask⟩) other hother
    · obtain rfl := Option.some.inj (hhandler.symm.trans hother)
      exact hinv.open_used handlerId handler hhandler streamId strm hfound
    · exact hinv.task_used task htask other hother
  · rintro task (_ | ⟨_, htask⟩) other hother
    · obtain rfl := Option.some.inj (hstrm.symm.trans hother)
      rfl
    · exact hinv.task_request task htask other hother

theorem shrinks_erase (task : Task) (w : Thread) :
    Shrinks w { w with pending := w.pending.erase task } :=
  ⟨rfl, rfl, fun _ h ↦ List.mem_of_mem_erase h, (shrinks_refl w).handler⟩

theorem tracked_step {w w' : Thread} {e : Event} (hstep : step w e = some w') (hinv : Tracked w) :
    Tracked w' := by
  cases e with
  | openConnection =>
    obtain rfl := Option.some.inj hstep
    exact hinv.construct
  | destroyConnection handlerId =>
    obtain rfl := Option.some.inj hstep
    exact hinv.of_shrinks (shrinks_destruct handlerId w)
  | requestArrives handlerId streamId =>
    dsimp only [step] at hstep
    cases hhandler : w.findHandler handlerId with
    | none =>
      rw [hhandler] at hstep
      exact absurd hstep (by simp)
    | some handler =>
      rw [hhandler] at hstep
      dsimp only at hstep
      split_ifs at hstep with hused
      obtain rfl := Option.some.inj hstep
      exact hinv.createStream hhandler hused
  | offload handlerId streamId =>
    obtain ⟨strm, hstrm, rfl⟩ := Option.map_eq_some_iff.mp hstep
    exact hinv.offload hstrm
  | closeStream handlerId streamId =>
    obtain rfl := Option.some.inj hstep
    exact hinv.of_shrinks
      (shrinks_modifyHandler (BaseHandler.shrinks_closeStream streamId) handlerId w)
  | sendResponse task a =>
    dsimp only [step] at hstep
    split_ifs at hstep with htask
    obtain rfl := Option.some.inj hstep
    exact (hinv.of_shrinks (shrinks_erase task w)).of_shrinks (shrinks_sendResponse a _ _ _)

/-- Every run keeps the invariant. -/
theorem tracked_run {events : List Event} {w : Thread} (hrun : run step initial events = some w) :
    Tracked w :=
  invariant_run (fun _ _ _ hinv hstep ↦ tracked_step hstep hinv) tracked_initial hrun

/-! ### Late responses -/

/-- The stream of a request, which is the only one of it, changed as a function says. All other
streams are as before. -/
def ChangesOnly (request : ℕ) (change : OpenStream → Option OpenStream) (before after : Thread) :
    Prop :=
  ∃ handlerId streamId strm, before.findStream handlerId streamId = some strm ∧
    strm.request = request ∧ after.findStream handlerId streamId = change strm ∧
    ∀ handlerId' streamId', (handlerId', streamId') ≠ (handlerId, streamId) →
      after.findStream handlerId' streamId' = before.findStream handlerId' streamId' ∧
      ∀ other, before.findStream handlerId' streamId' = some other → other.request ≠ request

/-- What `send_response` makes of the stream that it finds. -/
def answerStream (a : Answer) (strm : OpenStream) : Option OpenStream :=
  if a.statusCode = 0 then none
  else some { strm with stream := { strm.stream with response := a.writeTo strm.stream } }

/-- A posted `send_response` closed or wrote the stream of its request, or it changed no stream. -/
def ActsFor (task : Task) (a : Answer) (before after : Thread) : Prop :=
  ChangesOnly task.request (answerStream a) before after ∨
    ∀ handlerId streamId, after.findStream handlerId streamId = before.findStream handlerId streamId

/-- What `send_response` leaves at its two numbers. -/
theorem findStream_sendResponse (a : Answer) (handlerId streamId : ℕ) (w : Thread) :
    (w.sendResponse a handlerId streamId).findStream handlerId streamId =
      (w.findStream handlerId streamId).bind (answerStream a) := by
  unfold sendResponse
  cases hhandler : w.findHandler handlerId with
  | none => simp only [findStream, hhandler, Option.bind_none]
  | some handler =>
    dsimp only
    have hstrm : w.findStream handlerId streamId = handler.findStream streamId := by
      rw [findStream, hhandler, Option.bind_some]
    by_cases hstatus : a.statusCode = 0
    · rw [if_pos hstatus, findStream_modifyHandler, hhandler, Option.bind_some,
        BaseHandler.findStream_closeStream]
      cases w.findStream handlerId streamId with
      | none => rfl
      | some strm => simp [answerStream, hstatus]
    · rw [if_neg hstatus]
      by_cases hgone : (handler.findStream streamId).isNone
      · rw [if_pos hgone, hstrm, Option.isNone_iff_eq_none.mp hgone, Option.bind_none]
      · rw [if_neg hgone, findStream_modifyHandler, hhandler, Option.bind_some,
          BaseHandler.findStream_writeResponse, hstrm]
        cases handler.findStream streamId with
        | none => rfl
        | some strm => simp [answerStream, hstatus]

/-- `send_response` leaves every other stream alone. -/
theorem findStream_sendResponse_of_ne {handlerId streamId id streamId' : ℕ}
    (hne : (id, streamId') ≠ (handlerId, streamId)) (a : Answer) (w : Thread) :
    (w.sendResponse a handlerId streamId).findStream id streamId' = w.findStream id streamId' := by
  have hmodify : ∀ f : BaseHandler → BaseHandler,
      (∀ handler, streamId ≠ streamId' → (f handler).findStream streamId' =
        handler.findStream streamId') →
      (w.modifyHandler handlerId f).findStream id streamId' = w.findStream id streamId' := by
    intro f hf
    by_cases hid : handlerId = id
    · subst hid
      have hstreamId : streamId ≠ streamId' := fun heq ↦ hne (by rw [heq])
      rw [findStream_modifyHandler, findStream]
      exact Option.bind_congr fun handler _ ↦ hf handler hstreamId
    · exact findStream_modifyHandler_of_ne hid streamId' f w
  unfold sendResponse
  cases w.findHandler handlerId with
  | none => rfl
  | some handler =>
    dsimp only
    split_ifs
    · exact hmodify _ fun handler hstreamId ↦
        BaseHandler.findStream_closeStream_of_ne hstreamId handler
    · rfl
    · exact hmodify _ fun handler hstreamId ↦
        BaseHandler.findStream_writeResponse_of_ne hstreamId a handler

/-- Late responses never reach the wrong request: in every run, a posted `send_response` closes or
writes the stream that was created for its request, or it changes no stream. -/
theorem sendResponse_actsFor {events : List Event} {w w' : Thread} {task : Task} {a : Answer}
    (hrun : run step initial events = some w) (hstep : step w (.sendResponse task a) = some w') :
    ActsFor task a w w' := by
  have hinv := tracked_run hrun
  dsimp only [step] at hstep
  split_ifs at hstep with htask
  obtain rfl := Option.some.inj hstep
  have hsame : ∀ id streamId, (id, streamId) ≠ (task.handlerId, task.streamId) →
      ({ w with pending := w.pending.erase task }.sendResponse a task.handlerId
        task.streamId).findStream id streamId = w.findStream id streamId :=
    fun id streamId hne ↦ findStream_sendResponse_of_ne hne a _
  have hat := findStream_sendResponse a task.handlerId task.streamId
    { w with pending := w.pending.erase task }
  change _ = (w.findStream task.handlerId task.streamId).bind (answerStream a) at hat
  cases hstrm : w.findStream task.handlerId task.streamId with
  | none =>
    refine Or.inr fun id streamId ↦ ?_
    by_cases hne : (id, streamId) = (task.handlerId, task.streamId)
    · obtain ⟨rfl, rfl⟩ := Prod.mk.inj hne
      rw [hat, hstrm, Option.bind_none]
    · exact hsame id streamId hne
  | some strm =>
    rw [hstrm, Option.bind_some] at hat
    have hrequest := hinv.task_request task htask strm hstrm
    refine Or.inl ⟨task.handlerId, task.streamId, strm, hstrm, hrequest, hat,
      fun id streamId hne ↦ ⟨hsame id streamId hne, fun other hother heq ↦ hne ?_⟩⟩
    obtain ⟨hid, hstreamId⟩ := hinv.request_unique id streamId other hother _ _ strm hstrm
      (heq.trans hrequest.symm)
    rw [hid, hstreamId]

/-- A connection with an offloaded request is destroyed, and another one gets a request with the
same stream identifier before the response comes. -/
theorem sendResponse_actsFor_destroyed :
    ∃ w w', run step initial
        [.openConnection, .requestArrives 0 1, .offload 0 1, .destroyConnection 0,
          .openConnection, .requestArrives 1 1] = some w ∧
      step w (.sendResponse ⟨0, 1, 0⟩ ⟨200, OrderedSet.empty _, [], OrderedSet.empty _⟩) = some w' ∧
      ActsFor ⟨0, 1, 0⟩ ⟨200, OrderedSet.empty _, [], OrderedSet.empty _⟩ w w' := by
  exact ⟨_, _, rfl, rfl, @sendResponse_actsFor [.openConnection, .requestArrives 0 1, .offload 0 1,
    .destroyConnection 0, .openConnection, .requestArrives 1 1] _ _ _ _ rfl rfl⟩

end Thread

end Maock.Worker
