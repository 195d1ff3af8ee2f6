import Maock.Answering.ResponseGroup
import Maock.Foundation.Ledger
import Maock.Foundation.RaggedTable
import Maock.Matching.BestFit
import Maock.Worker.Handlers
import Maock.Worker.RequestHandler

/-!
# The statistics of a worker thread

The handler that `asio_svr_entry` installs for `/`, from the received counter to the sent response,
on one worker thread without request processors. A request is matched, a response is selected, and
the response is throttled, sent, or left to an offload thread with a reference to its counter.
Connections and streams come and go meanwhile, and what other threads post runs in any order.

Every request has an entry in a ledger here, which says what has become of it. The program has no
such ledger. `accounting_of_run` says that in every run the counters have the numbers of the
requests that count for them, that every request counts for at most one counter, which is that of
the service matched and the response selected, and that all requests are accounted for when nothing
is pending or dropped.
-/

set_option autoImplicit false
set_option relaxedAutoImplicit false

namespace Maock.Worker

open Foundation Foundation.OrderedContainer Foundation.Bytes Foundation.TransitionSystem
open Foundation.Ledger Http Matching Answering

variable {Document σ : Type}

/-! ### Counters -/

/-- The two counters of a `ResponseStatistics`. -/
inductive ResponseCounter where
  | responseSent
  | responseThrottled
  deriving DecidableEq

/-- `ResponseStatistics`. -/
structure ResponseStatistics where
  responseSent : ℕ
  responseThrottled : ℕ

namespace ResponseStatistics

def value (cell : ResponseStatistics) : ResponseCounter → ℕ
  | .responseSent => cell.responseSent
  | .responseThrottled => cell.responseThrottled

/-- `++` on one of the counters. -/
def increment (counter : ResponseCounter) (cell : ResponseStatistics) : ResponseStatistics :=
  match counter with
  | .responseSent => { cell with responseSent := cell.responseSent + 1 }
  | .responseThrottled => { cell with responseThrottled := cell.responseThrottled + 1 }

theorem value_increment (counter other : ResponseCounter) (cell : ResponseStatistics) :
    (cell.increment counter).value other = cell.value other + if counter = other then 1 else 0 := by
  cases counter <;> cases other <;> rfl

end ResponseStatistics

/-- The indices `req_index` and `resp_index` of an element of `respStats`. -/
structure Slot where
  reqIndex : ℕ
  respIndex : ℕ
  deriving DecidableEq

/-- The elements of one thread in the vectors of counters. -/
structure Statistics where
  reqReceived : ℕ
  unMatchedResponses : ℕ
  respStats : List (List ResponseStatistics)

/-- The counters that say what became of a request. -/
inductive Counter where
  | unMatched
  | response (counter : ResponseCounter) (slot : Slot)
  deriving DecidableEq

/-- The number of responses of each service. -/
def responseCounts (config : List (SchemaService H2ServerResponseGroup)) : List ℕ :=
  config.map fun service ↦ service.responseGroup.responses.length

namespace Statistics

/-- The counters when the server starts: one element for each response of each service. -/
def initial (config : List (SchemaService H2ServerResponseGroup)) : Statistics where
  reqReceived := 0
  unMatchedResponses := 0
  respStats := RaggedTable.constant ⟨0, 0⟩ (responseCounts config)

/-- `respStats[req_index][resp_index]`. -/
def cell? (slot : Slot) (stats : Statistics) : Option ResponseStatistics :=
  RaggedTable.cell? stats.respStats slot.reqIndex slot.respIndex

/-- The counter exists. -/
def Has (stats : Statistics) : Counter → Prop
  | .unMatched => True
  | .response _ slot => (stats.cell? slot).isSome

/-- What a counter says. A counter that does not exist says 0. -/
def value (stats : Statistics) : Counter → ℕ
  | .unMatched => stats.unMatchedResponses
  | .response counter slot =>
    match stats.cell? slot with
    | some cell => cell.value counter
    | none => 0

/-- `++` on a counter. -/
def increment (stats : Statistics) : Counter → Statistics
  | .unMatched => { stats with unMatchedResponses := stats.unMatchedResponses + 1 }
  | .response counter slot =>
    { stats with
      respStats := RaggedTable.modifyCell slot.reqIndex slot.respIndex
        (ResponseStatistics.increment counter) stats.respStats }

/-- The sum of all counters of responses that were sent or throttled and of unmatched requests. -/
def accounted (stats : Statistics) : ℕ :=
  RaggedTable.total ResponseStatistics.responseSent stats.respStats +
    RaggedTable.total ResponseStatistics.responseThrottled stats.respStats +
    stats.unMatchedResponses

theorem lengths_initial (config : List (SchemaService H2ServerResponseGroup)) :
    (initial config).respStats.map List.length = responseCounts config :=
  RaggedTable.lengths_constant _ _

theorem value_initial (config : List (SchemaService H2ServerResponseGroup)) (counter : Counter) :
    (initial config).value counter = 0 := by
  cases counter with
  | unMatched => rfl
  | response counter slot =>
    dsimp only [value]
    cases hcell : (initial config).cell? slot with
    | none => rfl
    | some cell =>
      obtain rfl : cell = ⟨0, 0⟩ := RaggedTable.cell?_constant hcell
      cases counter <;> rfl

theorem accounted_initial (config : List (SchemaService H2ServerResponseGroup)) :
    (initial config).accounted = 0 := by
  have htotal : ∀ g : ResponseStatistics → ℕ, g ⟨0, 0⟩ = 0 →
      RaggedTable.total g (initial config).respStats = 0 :=
    fun _ hg ↦ RaggedTable.total_constant hg _
  rw [accounted, htotal _ rfl, htotal _ rfl]
  rfl

theorem lengths_increment (stats : Statistics) (counter : Counter) :
    (stats.increment counter).respStats.map List.length = stats.respStats.map List.length := by
  cases counter with
  | unMatched => rfl
  | response counter slot => exact RaggedTable.lengths_modifyCell _ _ _ _

theorem reqReceived_increment (stats : Statistics) (counter : Counter) :
    (stats.increment counter).reqReceived = stats.reqReceived := by
  cases counter <;> rfl

/-- An increment of a counter that exists shows at that counter only. -/
theorem value_increment {stats : Statistics} {counter : Counter} (hhas : stats.Has counter)
    (other : Counter) : (stats.increment counter).value other =
      stats.value other + if counter = other then 1 else 0 := by
  cases counter with
  | unMatched => cases other <;> rfl
  | response counter slot =>
    cases other with
    | unMatched => rfl
    | response other slot' =>
      dsimp only [value]
      by_cases hslot : slot = slot'
      · subst hslot
        obtain ⟨cell, hcell⟩ := Option.isSome_iff_exists.mp hhas
        have hafter : (stats.increment (.response counter slot)).cell? slot =
            some (cell.increment counter) := by
          refine (RaggedTable.cell?_modifyCell_self _ _ _ stats.respStats).trans ?_
          rw [show RaggedTable.cell? stats.respStats slot.reqIndex slot.respIndex = some cell from
            hcell, Option.map_some]
        rw [hcell, hafter]
        simpa using cell.value_increment counter other
      · have hne : (slot.reqIndex, slot.respIndex) ≠ (slot'.reqIndex, slot'.respIndex) := by
          cases slot
          cases slot'
          simpa using hslot
        have hafter : (stats.increment (.response counter slot)).cell? slot' = stats.cell? slot' :=
          RaggedTable.cell?_modifyCell_of_ne hne _ stats.respStats
        rw [hafter]
        simp [hslot]

/-- An increment of a counter that exists increments the sum. -/
theorem accounted_increment {stats : Statistics} {counter : Counter} (hhas : stats.Has counter) :
    (stats.increment counter).accounted = stats.accounted + 1 := by
  cases counter with
  | unMatched => rfl
  | response counter slot =>
    obtain ⟨cell, hcell⟩ := Option.isSome_iff_exists.mp hhas
    have hsent := @RaggedTable.total_modifyCell _ ResponseStatistics.responseSent
      (ResponseStatistics.increment counter) _ _ _ _ hcell
    have hthrottled := @RaggedTable.total_modifyCell _ ResponseStatistics.responseThrottled
      (ResponseStatistics.increment counter) _ _ _ _ hcell
    dsimp only [accounted, increment]
    cases counter with
    | responseSent =>
      dsimp only [ResponseStatistics.increment] at hsent hthrottled ⊢
      omega
    | responseThrottled =>
      dsimp only [ResponseStatistics.increment] at hsent hthrottled ⊢
      omega

end Statistics

/-! ### Requests -/

/-- A request that comes to the handler: the numbers drawn for it, the state of clock and
generators, and what the script of its response does when the handler runs it. -/
structure Arrival (σ : Type) where
  req : AsioServerRequest
  randomNumber : ℕ
  number : ℕ
  source : σ
  script : Script

/-- Why `send_response` sent nothing. -/
inductive DropReason where
  | handlerGone
  | statusZero
  | streamGone
  deriving DecidableEq

/-- What has become of a request. -/
inductive Fate where
  | unMatched
  | throttled (slot : Slot)
  /-- The response is pending: its script has not run, or it has not been sent yet. -/
  | offloaded (slot : Slot)
  /-- `update_response_with_lua` had no `io_service` to post to. -/
  | unposted (slot : Slot)
  | sent (slot : Slot)
  | dropped (slot : Slot) (reason : DropReason)
  deriving DecidableEq

namespace Fate

/-- The counter that a request counts for. -/
def counter : Fate → Option Counter
  | .unMatched => some .unMatched
  | .throttled slot => some (.response .responseThrottled slot)
  | .sent slot => some (.response .responseSent slot)
  | _ => none

/-- The slot of the response selected for a request. -/
def slot : Fate → Option Slot
  | .unMatched => none
  | .throttled slot | .offloaded slot | .unposted slot | .sent slot | .dropped slot _ => some slot

/-- The slot of a pending response. -/
def pendingSlot : Fate → Option Slot
  | .offloaded slot => some slot
  | _ => none

end Fate

/-- The arguments bound for another thread: where to send, the reference to a counter and the work.
The number is that of the request in the ledger. -/
structure Job (work : Type) where
  task : Task
  slot : Slot
  number : ℕ
  work : work

/-- What `update_response_with_lua` is bound to, where `hasIoService` says that `ios` is not null.
-/
structure BoundUpdate where
  update : OffloadedUpdate
  hasIoService : Bool

/-- A worker thread with its counters and with what it has left to other threads. `hasIoService`
says what `set_io_service` stored at the first request, and `outOfRange` that a vector was indexed
behind its end or `rend()` was dereferenced. -/
structure CountingThread (σ : Type) where
  thread : Thread
  statics : HandlerStatics
  hasIoService : Option Bool
  stats : Statistics
  outOfRange : Bool
  offloaded : List (Job BoundUpdate)
  posted : List (Job Answer)
  ledger : List (Entry (Arrival σ) Fate)

/-- Why `send_response` would send nothing, if it would not. -/
def Thread.dropReason (a : Answer) (handlerId streamId : ℕ) (w : Thread) : Option DropReason :=
  match w.findHandler handlerId with
  | none => some .handlerGone
  | some handler =>
    if a.statusCode = 0 then some .statusZero
    else if (handler.findStream streamId).isNone then some .streamGone
    else none

/-- The answer to a request that no service matches. -/
def notFound : Answer where
  statusCode := 404
  headers := assign (assign (OrderedSet.empty _) (ascii "reason", ascii "no match found"))
    (ascii "content-length", decimal (ascii "no matched entry found\r\n").length)
  payload := ascii "no matched entry found\r\n"
  trailers := OrderedSet.empty _

namespace CountingThread

/-- A worker thread when it starts. -/
def initial (config : List (SchemaService H2ServerResponseGroup)) : CountingThread σ where
  thread := Thread.initial
  statics := HandlerStatics.initial
  hasIoService := none
  stats := Statistics.initial config
  outOfRange := false
  offloaded := []
  posted := []
  ledger := []

/-! ### The handler -/

/-- `send_response`, with what becomes of the request. -/
def sendResponse (a : Answer) (task : Task) (slot : Slot) (w : CountingThread σ) :
    CountingThread σ × Fate :=
  let after := { w with thread := w.thread.sendResponse a task.handlerId task.streamId }
  match w.thread.dropReason a task.handlerId task.streamId with
  | some reason => (after, .dropped slot reason)
  | none =>
    ({ after with stats := after.stats.increment (.response .responseSent slot) }, .sent slot)

/-- A throttled response. -/
def throttle (task : Task) (slot : Slot) (w : CountingThread σ) : CountingThread σ × Fate :=
  ({ w with
    thread := w.thread.modifyHandler task.handlerId (BaseHandler.closeStream task.streamId)
    stats := w.stats.increment (.response .responseThrottled slot) }, .throttled slot)

/-- `strand::post` of `update_response_with_lua`. -/
def offload (task : Task) (slot : Slot) (update : OffloadedUpdate) (w : CountingThread σ) :
    CountingThread σ × Fate :=
  ({ w with
    thread := { w.thread with pending := task :: w.thread.pending }
    offloaded := w.offloaded ++
      [⟨task, slot, w.ledger.length, ⟨update, w.hasIoService.getD false⟩⟩] }, .offloaded slot)

/-- The handler behind `get_response_to_return`. -/
def answerMatched (s : Surroundings Document σ) (visit : Visit Document σ) (task : Task)
    (slot : Slot) (w : CountingThread σ) : CountingThread σ × Fate :=
  let (statics, outcome) := visit.handle s w.statics
  let w := { w with statics := statics }
  match outcome with
  | .throttled => w.throttle task slot
  | .offloaded update => w.offload task slot update
  | .answered a => w.sendResponse a task slot

/-- The handler, from the static variables to `reqReceived++`. The first request of the thread
stores `find_io_service(handler_id)`, which is null for a handler that is gone. -/
def receive (handlerId : ℕ) (w : CountingThread σ) : CountingThread σ :=
  { w with
    hasIoService := some (w.hasIoService.getD (w.thread.findHandler handlerId).isSome)
    stats := { w.stats with reqReceived := w.stats.reqReceived + 1 } }

/-- The handler that `asio_svr_entry` installs, for the request of a stream. -/
def handleRequest (s : Surroundings Document σ) (server : H2Server H2ServerResponseGroup)
    (task : Task) (arrival : Arrival σ) (w : CountingThread σ) : CountingThread σ :=
  let w := w.receive task.handlerId
  let (matched, msg) := server.getMatchedRequest s.toMatchLibraries
    (RequestMessage.ofRequest s.toMatchLibraries arrival.req)
  if -1 < matched.index then
    match matched.service with
    | none => { w with outOfRange := true }
    | some service =>
      let slot : Slot := ⟨matched.index.toNat, service.2.selectResponse arrival.randomNumber⟩
      -- what is done with the response indexes `respStats` in any case
      match service.2.responses[slot.respIndex]?, w.stats.cell? slot with
      | some response, some _ =>
        let (w, fate) := w.answerMatched s
          ⟨response, msg, arrival.source, arrival.number, arrival.script⟩ task slot
        { w with ledger := record arrival fate w.ledger }
      | _, _ => { w with outOfRange := true }
  else
    { w with
      thread := w.thread.modifyHandler task.handlerId
        (BaseHandler.writeResponse notFound task.streamId)
      stats := w.stats.increment .unMatched
      ledger := record arrival .unMatched w.ledger }

/-- `update_response_with_lua` on an offload thread, which posts `send_response` with the same
reference to a counter. -/
def endScript (job : Job BoundUpdate) (script : Script) (w : CountingThread σ) : CountingThread σ :=
  if job.work.hasIoService then
    { w with
      posted := w.posted ++ [⟨job.task, job.slot, job.number, job.work.update.run script⟩] }
  else { w with ledger := settle job.number (.unposted job.slot) w.ledger }

/-- A posted `send_response` on the worker thread. -/
def runPosted (job : Job Answer) (w : CountingThread σ) : CountingThread σ :=
  let w := { w with thread := { w.thread with pending := w.thread.pending.erase job.task } }
  let (w, fate) := w.sendResponse job.work job.task job.slot
  { w with ledger := settle job.number fate w.ledger }

/-! ### Events -/

/-- What happens on a worker thread and to what it has left to others. -/
inductive Event (σ : Type) where
  | openConnection
  | destroyConnection (handlerId : ℕ)
  | createStream (handlerId streamId : ℕ)
  | closeStream (handlerId streamId : ℕ)
  /-- The handler of the path `/` is called for the request of an open stream. -/
  | request (handlerId streamId : ℕ) (arrival : Arrival σ)
  /-- An offload thread runs one of the updates left to it. -/
  | scriptEnds (position : ℕ) (script : Script)
  /-- The worker thread runs one of the tasks posted to it. -/
  | sendResponse (position : ℕ)

/-- An event of the connections. -/
def stepThread (e : Thread.Event) (w : CountingThread σ) : Option (CountingThread σ) :=
  (w.thread.step e).map fun thread ↦ { w with thread := thread }

/-- One event. -/
def step (s : Surroundings Document σ) (server : H2Server H2ServerResponseGroup)
    (w : CountingThread σ) : Event σ → Option (CountingThread σ)
  | .openConnection => w.stepThread .openConnection
  | .destroyConnection handlerId => w.stepThread (.destroyConnection handlerId)
  | .createStream handlerId streamId => w.stepThread (.requestArrives handlerId streamId)
  | .closeStream handlerId streamId => w.stepThread (.closeStream handlerId streamId)
  | .request handlerId streamId arrival =>
    (w.thread.findStream handlerId streamId).map fun strm ↦
      w.handleRequest s server ⟨handlerId, streamId, strm.request⟩ arrival
  | .scriptEnds position script =>
    w.offloaded[position]?.map fun job ↦
      { w with offloaded := w.offloaded.eraseIdx position }.endScript job script
  | .sendResponse position =>
    w.posted[position]?.map fun job ↦
      { w with posted := w.posted.eraseIdx position }.runPosted job

/-- The request that an event brings. -/
def Event.arrival? : Event σ → Option (Arrival σ)
  | .request _ _ arrival => some arrival
  | _ => none

end CountingThread

end Maock.Worker
