import Maock.Http1.Response

/-!
# A response from its first call to its last byte

`asio_server_response` with all that `Http1.AsioServerResponse` leaves out: pushed responses, which
start only when the push promise is sent, generators that the program brings, and the calls that a
response makes on the handler of its stream, in their order.

`ofPlain` embeds the responses of the HTTP/1 handler, and `writeHead_ofPlain`,
`endGenerator_ofPlain`, `writeTrailer_ofPlain` and `callRead_ofPlain` say that they do there what
they do here.
-/

set_option autoImplicit false
set_option relaxedAutoImplicit false

namespace Maock.Response

open Foundation Foundation.OrderedContainer Foundation.Bytes Http
open Http1 (ResponseState expectResponseBody dataFlagEof dataFlagNoEndStream stringGenerator)
open Http1.AsioServerResponse (toInt32)

variable {δ : Type}

/-! ### The surroundings of a response -/

/-- A `generator_cb`: one that the library makes, or a function of the program with the state that
it keeps between its calls. -/
inductive GeneratorCb (δ : Type) where
  | library (generator : Http1.Generator)
  | program (state : δ)
  deriving DecidableEq

/-- What the stream of a response and the program bring: the method of the request, the number that
`start_response` of the handler returns for a status and header fields, and what the generators of
the program do with their room and the flags. -/
structure Environment (δ : Type) where
  method : Bytes
  startCode : ℕ → HeaderMap → ℤ
  generate : δ → ℕ → UInt32 → Bytes × ℤ × UInt32 × δ

/-- The surroundings of a response to `GET` whose handler always starts it. -/
def getEnvironment : Environment Unit where
  method := ascii "GET"
  startCode := fun _ _ ↦ 0
  generate := fun state _ _ ↦ ([], 0, 0, state)

/-- A call of a generator: the bytes it copies, the number it returns, the flags, and the generator
afterwards. -/
def GeneratorCb.call (env : Environment δ) (len : ℕ) (flags : UInt32) :
    GeneratorCb δ → Bytes × ℤ × UInt32 × GeneratorCb δ
  | .library generator =>
    let (copied, n, eof, generator) := generator.call len
    (copied, n, if eof then flags ||| dataFlagEof else flags, .library generator)
  | .program state =>
    let (copied, n, flags, state) := env.generate state len flags
    (copied, n, flags, .program state)

/-- A call on the handler of the stream, with what the handler finds in the response. -/
inductive HandlerCall where
  | startResponse (statusCode : ℕ) (header : HeaderMap)
  | streamError
  | resume
  | submitTrailer (trailers : HeaderMap)

/-- The head of a started response, for the call that starts it. -/
def HandlerCall.start? : HandlerCall → Option (ℕ × HeaderMap)
  | .startResponse statusCode header => some (statusCode, header)
  | .streamError => none
  | .resume => none
  | .submitTrailer _ => none

/-! ### Responses -/

/-- `asio_server_response` with the calls that it has made on the handler. `generator` is `none` for
an empty `generator_cb_`. -/
structure AsioServerResponse (δ : Type) where
  header : HeaderMap
  trailers : HeaderMap
  generator : Option (GeneratorCb δ)
  statusCode : ℕ
  state : ResponseState
  payloadSize : ℕ
  pushed : Bool
  pushPromiseSent : Bool
  calls : List HandlerCall

/-- A `header_map` without fields. -/
def noFields : HeaderMap :=
  OrderedMultimap.empty HeaderValue bytesLess

namespace AsioServerResponse

/-- `asio_server_response()`, with `pushed(f)` called before anything else. -/
def initial (pushed : Bool) : AsioServerResponse δ where
  header := noFields
  trailers := noFields
  generator := some (.library .deferred)
  statusCode := 200
  state := .initial
  payloadSize := 0
  pushed := pushed
  pushPromiseSent := false
  calls := []

/-- A call on the handler. -/
def onHandler (call : HandlerCall) (res : AsioServerResponse δ) : AsioServerResponse δ :=
  { res with calls := res.calls ++ [call] }

/-- `start_response()`. -/
def startResponse (env : Environment δ) (res : AsioServerResponse δ) : AsioServerResponse δ :=
  let res :=
    if expectResponseBody env.method res.statusCode then res else { res with state := .bodyStarted }
  let started := res.onHandler (.startResponse res.statusCode res.header)
  if env.startCode res.statusCode res.header ≠ 0 then started.onHandler .streamError else started

/-- `write_head(status_code, h)`. -/
def writeHead (env : Environment δ) (statusCode : ℕ) (h : HeaderMap) (res : AsioServerResponse δ) :
    AsioServerResponse δ :=
  if res.state ≠ .initial then res
  else
    let res := { res with
      statusCode := statusCode
      header := h
      state := .headerDone }
    if res.pushed ∧ ¬ res.pushPromiseSent then res else res.startResponse env

/-- `end(cb)`. -/
def endGenerator (env : Environment δ) (cb : Option (GeneratorCb δ)) (res : AsioServerResponse δ) :
    AsioServerResponse δ :=
  if res.state = .bodyStarted then res
  else
    let res := { res with generator := cb }
    let res :=
      if res.state = .initial then res.writeHead env res.statusCode noFields
      else res.onHandler .resume
    { res with state := .bodyStarted }

/-- `end(data)`. -/
def endString (env : Environment δ) (data : Bytes) (res : AsioServerResponse δ) :
    AsioServerResponse δ :=
  { res with payloadSize := data.length }.endGenerator env (some (.library (stringGenerator data)))

/-- `send_data_no_eos(data)`. -/
def sendDataNoEos (env : Environment δ) (data : Bytes) (res : AsioServerResponse δ) :
    AsioServerResponse δ :=
  { res with payloadSize := data.length }.endGenerator env (some (.library (stringGenerator data)))

/-- `send_trailer()`, behind which the trailers are moved from. -/
def sendTrailer (res : AsioServerResponse δ) : AsioServerResponse δ :=
  if res.trailers.entries ≠ [] then
    { res.onHandler (.submitTrailer res.trailers) with trailers := noFields }
  else res

/-- `write_trailer(h)`. -/
def writeTrailer (h : HeaderMap) (res : AsioServerResponse δ) : AsioServerResponse δ :=
  let res := { res with trailers := h }
  if res.generator.isNone then res.sendTrailer else res

/-- `push_promise_sent()`. -/
def promiseSent (env : Environment δ) (res : AsioServerResponse δ) : AsioServerResponse δ :=
  if res.pushPromiseSent then res
  else
    let res := { res with pushPromiseSent := true }
    if res.state = .initial then res else res.startResponse env

/-- What a call of `call_read` leaves: the bytes copied, the returned code, the flags, and the
response. -/
structure Reading (δ : Type) where
  copied : Bytes
  retCode : ℤ
  flags : UInt32
  response : AsioServerResponse δ

/-- `call_read(data, len, data_flags)`. -/
def callRead (env : Environment δ) (len : ℕ) (flags : UInt32) (res : AsioServerResponse δ) :
    Reading δ :=
  let reading : Reading δ :=
    match res.generator with
    | some generator =>
      let (copied, n, flags, generator) := generator.call env len flags
      { copied := copied
        retCode := toInt32 n
        flags := flags
        response :=
          { res with
            generator := if flags &&& dataFlagEof ≠ 0 then none else some generator } }
    | none => { copied := [], retCode := 0, flags := flags ||| dataFlagEof, response := res }
  if reading.flags &&& dataFlagEof ≠ 0 ∧ reading.response.trailers.entries ≠ [] then
    { reading with
      flags := reading.flags ||| dataFlagNoEndStream
      response := reading.response.sendTrailer }
  else reading

/-- The calls of `start_response` on the handler. -/
def startCalls (env : Environment δ) (statusCode : ℕ) (header : HeaderMap) : List HandlerCall :=
  .startResponse statusCode header ::
    if env.startCode statusCode header ≠ 0 then [.streamError] else []

/-- The state in which `start_response` leaves a response that was in another one before. -/
def stateAfterStart (env : Environment δ) (statusCode : ℕ) (state : ResponseState) :
    ResponseState :=
  if expectResponseBody env.method statusCode then state else .bodyStarted

theorem startResponse_eq (env : Environment δ) (res : AsioServerResponse δ) :
    res.startResponse env =
      { res with
        state := stateAfterStart env res.statusCode res.state
        calls := res.calls ++ startCalls env res.statusCode res.header } := by
  have hcalls (res : AsioServerResponse δ) :
      (if env.startCode res.statusCode res.header ≠ 0 then
          (res.onHandler (.startResponse res.statusCode res.header)).onHandler .streamError
        else res.onHandler (.startResponse res.statusCode res.header)) =
        { res with calls := res.calls ++ startCalls env res.statusCode res.header } := by
    unfold startCalls onHandler
    split_ifs
    · rw [List.append_assoc]
      rfl
    · rfl
  unfold startResponse stateAfterStart
  rw [hcalls]
  split_ifs <;> rfl

/-- The call of `send_trailer` on the handler, if there are trailers. -/
def trailerCalls (trailers : HeaderMap) : List HandlerCall :=
  if trailers.entries ≠ [] then [.submitTrailer trailers] else []

theorem sendTrailer_eq (res : AsioServerResponse δ) :
    res.sendTrailer =
      { res with
        trailers := noFields
        calls := res.calls ++ trailerCalls res.trailers } := by
  unfold sendTrailer trailerCalls
  split_ifs with htrailers
  · rfl
  · have hnone : res.trailers = noFields := OrderedMultimap.ext (not_not.mp htrailers)
    rw [List.append_nil, ← hnone]

/-! ### The single calls, by the state of the response -/

/-- The calls on the handler that a head brings about. -/
def headCalls (env : Environment δ) (statusCode : ℕ) (h : HeaderMap) (res : AsioServerResponse δ) :
    List HandlerCall :=
  if res.pushed ∧ ¬ res.pushPromiseSent then [] else startCalls env statusCode h

theorem writeHead_of_initial {res : AsioServerResponse δ} (hinitial : res.state = .initial)
    (env : Environment δ) (statusCode : ℕ) (h : HeaderMap) :
    res.writeHead env statusCode h =
      { res with
        statusCode := statusCode
        header := h
        state := if res.pushed ∧ ¬ res.pushPromiseSent then .headerDone
          else stateAfterStart env statusCode .headerDone
        calls := res.calls ++ res.headCalls env statusCode h } := by
  unfold writeHead headCalls
  rw [if_neg (not_not.mpr hinitial)]
  dsimp only
  split_ifs
  · rw [List.append_nil]
  · rw [startResponse_eq]

theorem writeHead_of_ne {res : AsioServerResponse δ} (hstate : res.state ≠ .initial)
    (env : Environment δ) (statusCode : ℕ) (h : HeaderMap) :
    res.writeHead env statusCode h = res :=
  if_pos hstate

theorem endGenerator_of_bodyStarted {res : AsioServerResponse δ} (hstate : res.state = .bodyStarted)
    (env : Environment δ) (cb : Option (GeneratorCb δ)) : res.endGenerator env cb = res :=
  if_pos hstate

theorem endGenerator_of_headerDone {res : AsioServerResponse δ} (hstate : res.state = .headerDone)
    (env : Environment δ) (cb : Option (GeneratorCb δ)) :
    res.endGenerator env cb =
      { res with
        generator := cb
        state := .bodyStarted
        calls := res.calls ++ [.resume] } := by
  unfold endGenerator
  rw [if_neg (by simp [hstate])]
  dsimp only
  rw [if_neg (by simp [hstate])]
  rfl

theorem endGenerator_of_initial {res : AsioServerResponse δ} (hinitial : res.state = .initial)
    (env : Environment δ) (cb : Option (GeneratorCb δ)) :
    res.endGenerator env cb =
      { res with
        header := noFields
        generator := cb
        state := .bodyStarted
        calls := res.calls ++ res.headCalls env res.statusCode noFields } := by
  have hhead := @writeHead_of_initial δ { res with generator := cb } hinitial env res.statusCode
    noFields
  unfold endGenerator
  rw [if_neg (by simp [hinitial])]
  dsimp only
  rw [if_pos hinitial]
  exact congrArg (fun res : AsioServerResponse δ ↦ { res with state := .bodyStarted }) hhead

theorem promiseSent_of_sent {res : AsioServerResponse δ} (hsent : res.pushPromiseSent = true)
    (env : Environment δ) : res.promiseSent env = res :=
  if_pos hsent

theorem promiseSent_of_initial {res : AsioServerResponse δ} (hnot : res.pushPromiseSent = false)
    (hinitial : res.state = .initial) (env : Environment δ) :
    res.promiseSent env = { res with pushPromiseSent := true } := by
  unfold promiseSent
  rw [if_neg (by simp [hnot])]
  exact if_pos hinitial

theorem promiseSent_of_head {res : AsioServerResponse δ} (hnot : res.pushPromiseSent = false)
    (hstate : res.state ≠ .initial) (env : Environment δ) :
    res.promiseSent env =
      { res with
        pushPromiseSent := true
        state := stateAfterStart env res.statusCode res.state
        calls := res.calls ++ startCalls env res.statusCode res.header } := by
  unfold promiseSent
  rw [if_neg (by simp [hnot])]
  exact (if_neg hstate).trans (startResponse_eq env _)

/-! ### Runs -/

/-- A call that a response gets. -/
inductive Op (δ : Type) where
  | writeHead (statusCode : ℕ) (h : HeaderMap)
  | endGenerator (cb : Option (GeneratorCb δ))
  | endString (data : Bytes)
  | sendDataNoEos (data : Bytes)
  | writeTrailer (h : HeaderMap)
  | pushPromiseSent
  | callRead (len : ℕ) (flags : UInt32)

/-- One call. -/
def step (env : Environment δ) (res : AsioServerResponse δ) : Op δ → AsioServerResponse δ
  | .writeHead statusCode h => res.writeHead env statusCode h
  | .endGenerator cb => res.endGenerator env cb
  | .endString data => res.endString env data
  | .sendDataNoEos data => res.sendDataNoEos env data
  | .writeTrailer h => res.writeTrailer h
  | .pushPromiseSent => res.promiseSent env
  | .callRead len flags => (res.callRead env len flags).response

/-- A new response after some calls. -/
def run (env : Environment δ) (pushed : Bool) (ops : List (Op δ)) : AsioServerResponse δ :=
  ops.foldl (step env) (initial pushed)

/-- The heads with which the response was started. -/
def starts (res : AsioServerResponse δ) : List (ℕ × HeaderMap) :=
  res.calls.filterMap HandlerCall.start?

/-! ### Responses that are not pushed -/

/-- A response of the HTTP/1 handler. -/
def ofPlain (res : Http1.AsioServerResponse) (calls : List HandlerCall) : AsioServerResponse δ where
  header := res.header
  trailers := res.trailers
  generator := res.generator.map .library
  statusCode := res.statusCode
  state := res.state
  payloadSize := res.payloadSize
  pushed := false
  pushPromiseSent := false
  calls := calls

theorem writeHead_ofPlain (env : Environment δ) (statusCode : ℕ) (h : HeaderMap)
    (res : Http1.AsioServerResponse) (calls : List HandlerCall) :
    ∃ calls', (ofPlain res calls).writeHead env statusCode h =
      ofPlain (res.writeHead env.method statusCode h) calls' := by
  unfold writeHead Http1.AsioServerResponse.writeHead
  by_cases hinitial : res.state ≠ .initial
  · rw [if_pos hinitial, if_pos (show (ofPlain res calls).state ≠ .initial from hinitial)]
    exact ⟨calls, rfl⟩
  · rw [if_neg hinitial, if_neg (show ¬ (ofPlain res calls).state ≠ .initial from hinitial)]
    refine ⟨calls ++ startCalls env statusCode h, (if_neg (by simp [ofPlain])).trans ?_⟩
    rw [startResponse_eq]
    rfl

theorem endGenerator_ofPlain (env : Environment δ) (generator : Http1.Generator)
    (res : Http1.AsioServerResponse) (calls : List HandlerCall) :
    ∃ calls', (ofPlain res calls).endGenerator env (some (.library generator)) =
      ofPlain (res.endGenerator env.method generator) calls' := by
  unfold endGenerator Http1.AsioServerResponse.endGenerator
  by_cases hstarted : res.state = .bodyStarted
  · rw [if_pos hstarted, if_pos (show (ofPlain res calls).state = .bodyStarted from hstarted)]
    exact ⟨calls, rfl⟩
  · rw [if_neg hstarted, if_neg (show ¬ (ofPlain res calls).state = .bodyStarted from hstarted)]
    by_cases hinitial : res.state = .initial
    · obtain ⟨calls', hhead⟩ := writeHead_ofPlain env res.statusCode noFields
        { res with generator := some generator } calls
      refine ⟨calls', ?_⟩
      dsimp only
      rw [if_pos hinitial, if_pos (show (ofPlain res calls).state = .initial from hinitial)]
      exact congrArg (fun res : AsioServerResponse δ ↦ { res with state := .bodyStarted }) hhead
    · refine ⟨calls ++ [.resume], ?_⟩
      dsimp only
      rw [if_neg hinitial, if_neg (show ¬ (ofPlain res calls).state = .initial from hinitial)]
      rfl

theorem writeTrailer_ofPlain (h : HeaderMap) (res : Http1.AsioServerResponse)
    (calls : List HandlerCall) :
    ∃ calls', (ofPlain res calls : AsioServerResponse δ).writeTrailer h =
      ofPlain (res.writeTrailer h) calls' := by
  obtain ⟨header, trailers, generator, statusCode, state, payloadSize⟩ := res
  cases generator with
  | none => exact ⟨calls ++ trailerCalls h, sendTrailer_eq _⟩
  | some generator => exact ⟨calls, rfl⟩

/-- A call of `call_read` copies, returns and flags the same. -/
theorem callRead_ofPlain (env : Environment δ) (len : ℕ) (flags : UInt32)
    (res : Http1.AsioServerResponse) (calls : List HandlerCall) :
    ∃ calls', (ofPlain res calls).callRead env len flags =
      ⟨(res.callRead len flags).copied, (res.callRead len flags).retCode,
        (res.callRead len flags).flags, ofPlain (res.callRead len flags).response calls'⟩ := by
  obtain ⟨header, trailers, generator, statusCode, state, payloadSize⟩ := res
  cases generator with
  | none =>
    unfold callRead Http1.AsioServerResponse.callRead
    dsimp only [ofPlain, Option.map_none]
    split_ifs with htrailers
    · exact ⟨_, congrArg (Reading.mk _ _ _) (sendTrailer_eq _)⟩
    · exact ⟨calls, rfl⟩
  | some generator =>
    unfold callRead Http1.AsioServerResponse.callRead
    dsimp only [ofPlain, Option.map_some, GeneratorCb.call]
    by_cases hended :
        (if (generator.call len).2.2.1 then flags ||| dataFlagEof else flags) &&& dataFlagEof = 0
    · simp only [hended, ne_eq, not_true_eq_false, false_and, if_false]
      exact ⟨calls, rfl⟩
    · by_cases htrailers : trailers.entries = []
      · simp only [hended, htrailers, ne_eq, not_true_eq_false, not_false_eq_true, and_false,
          if_false, if_true]
        exact ⟨calls, rfl⟩
      · simp only [hended, htrailers, ne_eq, not_false_eq_true, and_self, if_true]
        exact ⟨_, congrArg (Reading.mk _ _ _) (sendTrailer_eq _)⟩

end AsioServerResponse

end Maock.Response
