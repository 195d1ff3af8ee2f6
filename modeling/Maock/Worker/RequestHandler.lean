import Maock.Answering.Script
import Maock.Answering.Throttle
import Maock.Worker.SendResponse

/-!
# The request handler of a worker thread

What the handler that `asio_svr_entry` installs does with a matched request that has no request
processor: it throttles, offloads the Lua script of the response or runs it, and sends. Its static
thread-local variables live from one request to the next.

`answer_offload_iff` compares the two ways to run a script: they give `send_response` the same
arguments exactly when the script does not leave two tables with entries.
-/

set_option autoImplicit false
set_option relaxedAutoImplicit false

namespace Maock.Worker

open Foundation Foundation.OrderedContainer Foundation.Bytes Answering
open Matching (RequestMessage)

variable {Document σ : Type}

/-! ### The handler -/

/-- The static thread-local variables that the answers are made of: `trailer_headers`, and
`scaled_throttle_ratio` of `is_response_throttled`. -/
structure HandlerStatics where
  trailerHeaders : StringMap
  scaledThrottleRatio : Option ℕ

/-- The variables when the thread starts. -/
def HandlerStatics.initial : HandlerStatics where
  trailerHeaders := OrderedSet.empty _
  scaledThrottleRatio := none

/-- A request with the response selected for it, the number drawn when it is throttled or not, and
what the script of the response does. -/
structure Visit (Document σ : Type) where
  response : H2ServerResponse
  msg : RequestMessage Document
  source : σ
  number : ℕ
  script : Script

/-- What an offload thread gets: copies of the request and of the response produced for it. -/
structure OffloadedUpdate where
  statusCode : ℕ
  reqHeaders : OrderedMultimap Bytes bytesLess
  reqPayload : Bytes
  resp : Produced

/-- What the handler did. -/
inductive Outcome where
  | throttled
  | offloaded (update : OffloadedUpdate)
  | answered (a : Answer)

/-- The status that header fields name, or else the status of the response. -/
def finalStatus (statusCode : ℕ) (headers : StringMap) : ℕ :=
  match OrderedMap.lookup headers status with
  | some value => atoiUnsigned value
  | none => statusCode

/-- The arguments of `send_response` behind a script. -/
def scriptAnswer (statusCode : ℕ) (resp : Produced) : Answer where
  statusCode := finalStatus statusCode resp.headers
  headers := OrderedMap.eraseKey status resp.headers
  payload := resp.body
  trailers := resp.trailers

namespace Visit

/-- `produce_headers` and `produce_payload`, beside given trailers. -/
def produce (s : Surroundings Document σ) (visit : Visit Document σ) (trailers : StringMap) :
    Produced :=
  let (headers, state) := (produceHeaders s visit.response.additonalHeaders).run
    (visit.msg, visit.source)
  let (payload, _) := (producePayload s visit.response.payload).run state
  ⟨headers, trailers, payload⟩

/-- The handler, from `is_response_throttled` on. -/
def handle (s : Surroundings Document σ) (visit : Visit Document σ) (statics : HandlerStatics) :
    HandlerStatics × Outcome :=
  let response := visit.response
  let (throttled, ratio) :=
    response.isResponseThrottled visit.number statics.scaledThrottleRatio
  let statics := { statics with scaledThrottleRatio := ratio }
  if throttled then (statics, .throttled)
  else
    let resp := visit.produce s statics.trailerHeaders
    if response.hasLuaState then
      if response.luaOffload then
        (statics, .offloaded
          ⟨response.statusCode, visit.msg.headers, visit.msg.rawPayload, resp⟩)
      else
        let (_, resp) := updateResponseWithLua visit.script response.statusCode visit.msg.headers
          visit.msg.rawPayload resp
        ({ statics with trailerHeaders := resp.trailers },
          .answered (scriptAnswer response.statusCode resp))
    else
      (statics, .answered ⟨response.statusCode, resp.headers, resp.body, statics.trailerHeaders⟩)

end Visit

/-- `update_response_with_lua` on an offload thread: the arguments of the `send_response` that it
posts. The trailers are its own, which are empty. -/
def OffloadedUpdate.run (update : OffloadedUpdate) (script : Script) : Answer :=
  let (_, resp) := updateResponseWithLua script update.statusCode update.reqHeaders
    update.reqPayload update.resp
  { scriptAnswer update.statusCode resp with trailers := OrderedSet.empty _ }

/-- The arguments that `send_response` gets in the end, if the request is answered. -/
def Outcome.answer (script : Script) : Outcome → Option Answer
  | .throttled => none
  | .offloaded update => some (update.run script)
  | .answered a => some a

namespace Visit

/-- The arguments that `send_response` gets for a request, at given static variables. -/
def answer (s : Surroundings Document σ) (visit : Visit Document σ) (statics : HandlerStatics) :
    Option Answer :=
  (visit.handle s statics).2.answer visit.script

/-- The request is throttled. -/
def isThrottled (visit : Visit Document σ) (statics : HandlerStatics) : Bool :=
  (visit.response.isResponseThrottled visit.number statics.scaledThrottleRatio).1

/-- What the script leaves on the stack, if it is a function. -/
def scriptValues (s : Surroundings Document σ) (visit : Visit Document σ) :
    Option (List LuaValue) :=
  visit.script.map fun customizeResponse ↦
    customizeResponse (scriptCall visit.response.statusCode visit.msg.headers visit.msg.rawPayload
      (visit.produce s (OrderedSet.empty _)))

/-- What a script makes of the response produced for a request. -/
def updated (s : Surroundings Document σ) (visit : Visit Document σ) (trailers : StringMap) :
    Produced :=
  match visit.scriptValues s with
  | none => visit.produce s trailers
  | some values => (applyValues values (visit.produce s trailers)).2

theorem updateResponseWithLua_produce (s : Surroundings Document σ) (visit : Visit Document σ)
    (trailers : StringMap) :
    (updateResponseWithLua visit.script visit.response.statusCode visit.msg.headers
      visit.msg.rawPayload (visit.produce s trailers)).2 = visit.updated s trailers := by
  unfold updateResponseWithLua updated scriptValues
  cases visit.script with
  | none => rfl
  | some customizeResponse => rfl

/-- With a script that is a function, the trailers from before are gone. -/
theorem updated_eq_of_some {s : Surroundings Document σ} {visit : Visit Document σ}
    {values : List LuaValue} (hvalues : visit.scriptValues s = some values)
    (trailers trailers' : StringMap) :
    visit.updated s trailers = visit.updated s trailers' := by
  unfold updated
  rw [hvalues]
  rfl

/-- A throttled request is not answered. -/
theorem answer_of_throttled {s : Surroundings Document σ} {visit : Visit Document σ}
    {statics : HandlerStatics} (hthrottled : visit.isThrottled statics = true) :
    visit.answer s statics = none := by
  unfold answer handle
  rw [isThrottled] at hthrottled
  simp only [hthrottled, if_true]
  rfl

/-- Without a script the response goes out as it was produced, with the trailers of the thread. -/
theorem answer_of_not_lua {s : Surroundings Document σ} {visit : Visit Document σ}
    {statics : HandlerStatics} (hthrottled : visit.isThrottled statics = false)
    (hlua : visit.response.hasLuaState = false) :
    visit.answer s statics = some
      { statusCode := visit.response.statusCode
        headers := (visit.produce s statics.trailerHeaders).headers
        payload := (visit.produce s statics.trailerHeaders).body
        trailers := statics.trailerHeaders } := by
  unfold answer handle
  rw [isThrottled] at hthrottled
  simp only [hthrottled, hlua, Bool.false_eq_true, if_false]
  rfl

/-- A script that is run by the handler. -/
theorem answer_of_inline {s : Surroundings Document σ} {visit : Visit Document σ}
    {statics : HandlerStatics} (hthrottled : visit.isThrottled statics = false)
    (hlua : visit.response.hasLuaState = true) (hoffload : visit.response.luaOffload = false) :
    visit.answer s statics =
      some (scriptAnswer visit.response.statusCode (visit.updated s statics.trailerHeaders)) := by
  unfold answer handle
  rw [isThrottled] at hthrottled
  simp only [hthrottled, hlua, hoffload, Bool.false_eq_true, if_false, if_true]
  rw [← updateResponseWithLua_produce]
  rfl

/-- A script that is left to another thread. -/
theorem answer_of_offload {s : Surroundings Document σ} {visit : Visit Document σ}
    {statics : HandlerStatics} (hthrottled : visit.isThrottled statics = false)
    (hlua : visit.response.hasLuaState = true) (hoffload : visit.response.luaOffload = true) :
    visit.answer s statics =
      some { scriptAnswer visit.response.statusCode (visit.updated s statics.trailerHeaders) with
        trailers := OrderedSet.empty _ } := by
  unfold answer handle
  rw [isThrottled] at hthrottled
  simp only [hthrottled, hlua, hoffload, Bool.false_eq_true, if_false, if_true]
  rw [← updateResponseWithLua_produce]
  rfl

/-! ### The two ways to run a script -/

/-- The same request with `lua-offload` set or not. -/
def withOffload (luaOffload : Bool) (visit : Visit Document σ) : Visit Document σ :=
  { visit with
    response := { visit.response with luaOffload := luaOffload } }

/-- `lua-offload` changes nothing for `send_response` exactly when the request is throttled or the
script leaves at most one table with entries. -/
theorem answer_offload_iff (s : Surroundings Document σ) (visit : Visit Document σ)
    (statics : HandlerStatics) {values : List LuaValue} (hlua : visit.response.hasLuaState = true)
    (hvalues : visit.scriptValues s = some values) :
    (visit.withOffload true).answer s statics = (visit.withOffload false).answer s statics ↔
      visit.isThrottled statics = true ∨ values.countP LuaValue.isFilledTable ≤ 1 := by
  cases hthrottled : visit.isThrottled statics with
  | true =>
    have honline : (visit.withOffload true).answer s statics = none :=
      answer_of_throttled hthrottled
    have hinline : (visit.withOffload false).answer s statics = none :=
      answer_of_throttled hthrottled
    simp [honline, hinline]
  | false =>
    have hoffload : (visit.withOffload true).answer s statics = _ :=
      answer_of_offload hthrottled hlua rfl
    have hinline : (visit.withOffload false).answer s statics = _ :=
      answer_of_inline hthrottled hlua rfl
    have hupdated : (visit.updated s statics.trailerHeaders).trailers.elems = [] ↔
        values.countP LuaValue.isFilledTable ≤ 1 := by
      unfold updated
      rw [hvalues]
      exact trailers_applyValues_eq_nil_iff values _
    rw [hoffload, hinline, Option.some_inj, ← hupdated, Answer.mk.injEq]
    refine ⟨fun h ↦ Or.inr (congrArg OrderedSet.elems h.2.2.2).symm, fun h ↦ ⟨rfl, rfl, rfl, ?_⟩⟩
    rcases h with h | h
    · exact absurd h Bool.false_ne_true
    · exact OrderedSet.ext h.symm

/-- Libraries for responses without arguments. -/
def plainSurroundings : Surroundings Unit Unit where
  regexMatch _ _ := false
  emptyDocument := ()
  parse _ := ()
  getValueFromJsonPtr _ _ := []
  regexSearch _ _ := none
  timeStamp _ := ([], ())
  uniform least _ _ := (least, ())

/-- A request without header fields and payload. -/
def bareMessage : RequestMessage Unit where
  headers := OrderedMultimap.empty Bytes bytesLess
  jsonPayload := ()
  jsonPayloadString := some []
  rawPayload := []
  matchResult := []

/-- A request for a bare response with a script that leaves given values. -/
def scriptVisit (values : List LuaValue) : Visit Unit Unit where
  response := { bareResponse 0 with hasLuaState := true }
  msg := bareMessage
  source := ()
  number := 0
  script := some fun _ ↦ values

/-- With one table the two ways agree. -/
theorem answer_offload_oneTable :
    ((scriptVisit [.string [], .table [(ascii "h", ascii "1")]]).withOffload true).answer
        plainSurroundings HandlerStatics.initial =
      ((scriptVisit [.string [], .table [(ascii "h", ascii "1")]]).withOffload false).answer
        plainSurroundings HandlerStatics.initial :=
  (answer_offload_iff plainSurroundings (scriptVisit [.string [], .table [(ascii "h", ascii "1")]])
    HandlerStatics.initial rfl rfl).mpr (Or.inr (by decide))

/-- With two tables the trailers are sent on one way only. -/
theorem answer_offload_twoTables :
    ((scriptVisit [.table [(ascii "t", ascii "1")], .table [(ascii "h", ascii "1")]]).withOffload
        true).answer plainSurroundings HandlerStatics.initial ≠
      ((scriptVisit [.table [(ascii "t", ascii "1")], .table [(ascii "h", ascii "1")]]).withOffload
        false).answer plainSurroundings HandlerStatics.initial := by
  intro h
  have htrailers := congrArg (Option.map fun a ↦ a.trailers.elems.length) h
  exact absurd htrailers (by decide)

end Visit

end Maock.Worker
