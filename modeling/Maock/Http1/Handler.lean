import Maock.Http1.Response

/-!
# The HTTP/1 handler

`http1_handler`: the streams of a connection, the set of streams that are ready to be answered, and
`on_write`, which answers a batch of consecutive ready streams into the output buffer.

`on_write` works on a buffer and an offset (`Output`). Every group of pieces of the head (the status
line, a generated content length, each header line, the final line break) is preceded by one growth
check (`incBufferSize`); the payload is drawn by `call_read`, first at the offset and then in a loop
until the generator reports the end. The model faults where the source leaves the buffer or follows
a null pointer, and runs out of fuel where the loop has not ended yet. The offset is an integer: it
is negative where the source's unsigned offset has wrapped below zero.
-/

set_option autoImplicit false
set_option relaxedAutoImplicit false

namespace Maock.Http1

open Foundation Foundation.OrderedContainer Foundation.Bytes Http

/-! ### State -/

/-- `asio_server_stream`. -/
structure Stream where
  request : AsioServerRequest
  response : AsioServerResponse

/-- A stream that `create_stream` has just made. -/
def Stream.initial : Stream where
  request := AsioServerRequest.empty
  response := AsioServerResponse.initial

/-- `http1_handler`. -/
structure Http1Handler where
  streams : OrderedMap Stream natLess
  requestCount : ℕ
  schema : Bytes
  host : Bytes
  currHeaderName : Bytes
  shouldKeepAlive : Bool
  streamIdsToRespond : OrderedSet natLess
  insideCallback : Bool
  writeSignaled : Bool

namespace Http1Handler

/-- A handler when its connection starts. -/
def initial : Http1Handler where
  streams := OrderedSet.empty _
  requestCount := 0
  schema := []
  host := []
  currHeaderName := []
  shouldKeepAlive := true
  streamIdsToRespond := OrderedSet.empty _
  insideCallback := false
  writeSignaled := false

/-- `create_stream(stream_id)`. -/
def createStream (streamId : ℕ) (h : Http1Handler) : Http1Handler :=
  { h with streams := h.streams.insert (streamId, Stream.initial) }

/-- `find_stream(stream_id)`. -/
def findStream (streamId : ℕ) (h : Http1Handler) : Option Stream :=
  OrderedMap.lookup h.streams streamId

/-- `close_stream(stream_id)`. -/
def closeStream (streamId : ℕ) (h : Http1Handler) : Http1Handler :=
  { h with streams := OrderedMap.eraseKey streamId h.streams }

/-- A change of the stream that a pointer to it makes. -/
def modifyStream (streamId : ℕ) (f : Stream → Stream) (h : Http1Handler) : Http1Handler :=
  { h with streams := OrderedMap.modify streamId f h.streams }

/-- `http1_msg_begincb`. -/
def messageBegin (h : Http1Handler) : Http1Handler :=
  { h with requestCount := h.requestCount + 1 }.createStream (h.requestCount + 1)

/-- `signal_write`. The second component tells whether `initiate_write` is posted. -/
def signalWrite (h : Http1Handler) : Http1Handler × Bool :=
  if !h.insideCallback && !h.writeSignaled then ({ h with writeSignaled := true }, true)
  else (h, false)

/-- `start_response`. -/
def startResponse (streamId : ℕ) (h : Http1Handler) : Http1Handler × Bool :=
  { h with streamIdsToRespond := h.streamIdsToRespond.insert streamId }.signalWrite

/-- The loop of `get_consecutive_stream_ids_to_respond` behind the identifier taken last. -/
def takeConsecutive : ℕ → List ℕ → List ℕ
  | _, [] => []
  | last, next :: rest => if next - last = 1 then next :: takeConsecutive next rest else []

/-- `get_consecutive_stream_ids_to_respond`. -/
def getConsecutiveStreamIdsToRespond (h : Http1Handler) : List ℕ × Http1Handler :=
  match h.streamIdsToRespond.elems, h.streams.elems with
  | ready :: rest, smallest :: _ =>
    if ready = smallest.1 then
      let batch := ready :: takeConsecutive ready rest
      (batch, { h with
        streamIdsToRespond := h.streamIdsToRespond.removeIf fun id ↦ batch.contains id })
    else ([], h)
  | _, _ => ([], h)

/-! ### Open streams -/

/-- The identifiers of the open streams. -/
def openIds (h : Http1Handler) : List ℕ :=
  OrderedMap.keys h.streams

theorem openIds_sorted (h : Http1Handler) : h.openIds.Pairwise (· < ·) := by
  simpa [openIds] using OrderedMap.keys_sorted h.streams

theorem isSome_findStream_iff {streamId : ℕ} {h : Http1Handler} :
    (h.findStream streamId).isSome ↔ streamId ∈ h.openIds := by
  simp [findStream, OrderedMap.isSome_lookup_iff, openIds]

theorem mem_openIds_closeStream {streamId id : ℕ} {h : Http1Handler} :
    id ∈ (h.closeStream streamId).openIds ↔ id ∈ h.openIds ∧ id ≠ streamId := by
  simp only [openIds, closeStream, OrderedMap.mem_keys_eraseKey, equivalent_natLess]
  exact and_congr Iff.rfl ⟨Ne.symm, Ne.symm⟩

@[simp] theorem openIds_modifyStream (streamId : ℕ) (f : Stream → Stream) (h : Http1Handler) :
    (h.modifyStream streamId f).openIds = h.openIds :=
  OrderedMap.keys_modify streamId f h.streams

theorem findStream_closeStream (streamId : ℕ) (h : Http1Handler) :
    (h.closeStream streamId).findStream streamId = none :=
  OrderedMap.lookup_eraseKey streamId h.streams

theorem findStream_closeStream_of_ne {streamId id : ℕ} (h : Http1Handler) (hne : streamId ≠ id) :
    (h.closeStream streamId).findStream id = h.findStream id :=
  OrderedMap.lookup_eraseKey_of_not_equivalent (by simpa using hne) h.streams

theorem findStream_modifyStream (streamId : ℕ) (f : Stream → Stream) (h : Http1Handler) :
    (h.modifyStream streamId f).findStream streamId = (h.findStream streamId).map f :=
  OrderedMap.lookup_modify streamId f h.streams

theorem findStream_modifyStream_of_ne {streamId id : ℕ} (hne : streamId ≠ id)
    (f : Stream → Stream) (h : Http1Handler) :
    (h.modifyStream streamId f).findStream id = h.findStream id :=
  OrderedMap.lookup_modify_of_not_equivalent (by simpa using hne) f h.streams

theorem findStream_messageBegin_of_ne {id : ℕ} {h : Http1Handler} (hne : h.requestCount + 1 ≠ id) :
    h.messageBegin.findStream id = h.findStream id :=
  OrderedMap.lookup_insert_of_not_equivalent (by simpa using hne) Stream.initial h.streams

theorem mem_openIds_messageBegin {id : ℕ} {h : Http1Handler} :
    id ∈ h.messageBegin.openIds ↔ id ∈ h.openIds ∨ id = h.requestCount + 1 := by
  simp only [openIds, messageBegin, createStream, OrderedMap.mem_keys_insert, equivalent_natLess]
  constructor
  · rintro (hopen | ⟨hnew, -⟩)
    · exact Or.inl hopen
    · exact Or.inr hnew
  · rintro (hopen | rfl)
    · exact Or.inl hopen
    · by_cases hknown : h.requestCount + 1 ∈ OrderedMap.keys h.streams
      · exact Or.inl hknown
      · exact Or.inr ⟨rfl, fun known hmem heq ↦ hknown (heq ▸ hmem)⟩

@[simp] theorem openIds_signalWrite (h : Http1Handler) : h.signalWrite.1.openIds = h.openIds := by
  unfold signalWrite
  split_ifs <;> rfl

@[simp] theorem streamIdsToRespond_signalWrite (h : Http1Handler) :
    h.signalWrite.1.streamIdsToRespond = h.streamIdsToRespond := by
  unfold signalWrite
  split_ifs <;> rfl

@[simp] theorem requestCount_signalWrite (h : Http1Handler) :
    h.signalWrite.1.requestCount = h.requestCount := by
  unfold signalWrite
  split_ifs <;> rfl

@[simp] theorem findStream_startResponse (streamId id : ℕ) (h : Http1Handler) :
    (h.startResponse streamId).1.findStream id = h.findStream id := by
  unfold startResponse signalWrite
  split_ifs <;> rfl

@[simp] theorem openIds_startResponse (streamId : ℕ) (h : Http1Handler) :
    (h.startResponse streamId).1.openIds = h.openIds :=
  openIds_signalWrite _

@[simp] theorem requestCount_startResponse (streamId : ℕ) (h : Http1Handler) :
    (h.startResponse streamId).1.requestCount = h.requestCount :=
  requestCount_signalWrite _

theorem mem_streamIdsToRespond_startResponse {streamId id : ℕ} {h : Http1Handler} :
    id ∈ (h.startResponse streamId).1.streamIdsToRespond ↔
      id ∈ h.streamIdsToRespond ∨ id = streamId := by
  rw [startResponse, streamIdsToRespond_signalWrite]
  simp only [OrderedSet.mem_insert, equivalent_natLess]
  constructor
  · rintro (hready | ⟨hnew, -⟩)
    · exact Or.inl hready
    · exact Or.inr hnew
  · rintro (hready | rfl)
    · exact Or.inl hready
    · by_cases hknown : id ∈ h.streamIdsToRespond
      · exact Or.inl hknown
      · exact Or.inr ⟨rfl, fun known hmem heq ↦ hknown (heq ▸ hmem)⟩

end Http1Handler

/-! ### The output buffer -/

/-- Where `on_write` does what the language does not define, and where the model stops a loop. -/
inductive WriteFault where
  /-- `find_stream` returned a null pointer, which `on_write` follows. -/
  | nullStream
  /-- A `copy_n` of the head leaves the buffer. -/
  | copyOutOfBounds
  /-- `call_read` is given `buffer.size() - data_len` with `data_len` beyond the buffer. -/
  | readPastEnd
  /-- A generator copies bytes behind the buffer. -/
  | generatorOutOfBounds
  /-- The loop over the payload has not ended yet. -/
  | outOfFuel
  deriving DecidableEq

/-- `buffer` and `data_len`. -/
structure Output where
  buffer : Bytes
  dataLen : ℤ

/-- `inc_step`. -/
def incStep : ℕ := 16 * 1024

/-- `inc_buffer_size(buffer, required_size)`. -/
def incBufferSize (requiredSize : ℕ) (buffer : Bytes) : Bytes :=
  if buffer.length < requiredSize then buffer ++ List.replicate (requiredSize + incStep) 0
  else buffer

/-- `copy_n` of `piece` to an address inside the buffer. -/
def overwrite (buffer : Bytes) (address : ℕ) (piece : Bytes) : Bytes :=
  buffer.take address ++ piece ++ buffer.drop (address + piece.length)

namespace Output

/-- `copy_n(piece, piece.size(), begin(buffer) + data_len)` and the advance of `data_len`. -/
def copyPiece (out : Output) (piece : Bytes) : Except WriteFault Output :=
  if 0 ≤ out.dataLen ∧ out.dataLen + piece.length ≤ out.buffer.length then
    .ok { buffer := overwrite out.buffer out.dataLen.toNat piece
          dataLen := out.dataLen + piece.length }
  else .error .copyOutOfBounds

/-- The growth check for a group of pieces and the copies of the group. -/
def writeGroup (out : Output) (pieces : List Bytes) : Except WriteFault Output :=
  let grown := { out with buffer := incBufferSize (pieces.map List.length).sum out.buffer }
  pieces.foldlM copyPiece grown

/-- `data_len += call_read(address, buffer.size() - data_len, &data_flag)`. -/
def readInto (address : ℕ) (res : AsioServerResponse) (flags : UInt32) (out : Output) :
    Except WriteFault (Output × AsioServerResponse × UInt32) :=
  if 0 ≤ out.dataLen ∧ out.dataLen ≤ out.buffer.length then
    let reading := res.callRead (out.buffer.length - out.dataLen.toNat) flags
    if reading.copied = [] ∨ address + reading.copied.length ≤ out.buffer.length then
      .ok ({ buffer := overwrite out.buffer address reading.copied
             dataLen := out.dataLen + reading.retCode }, reading.response, reading.flags)
    else .error .generatorOutOfBounds
  else .error .readPastEnd

/-- The loop of `on_write` over the payload. -/
def drainBody : ℕ → AsioServerResponse → UInt32 → Output → Except WriteFault Output
  | fuel, res, flags, out =>
    if flags &&& dataFlagEof ≠ 0 then .ok out
    else
      match fuel with
      | 0 => .error .outOfFuel
      | fuel + 1 => do
        let grown := { out with buffer := incBufferSize incStep out.buffer }
        let (out, res, flags) ← grown.readInto (2 * grown.dataLen.toNat) res flags
        drainBody fuel res flags out

/-- The payload part of `on_write`. -/
def writeBody (fuel : ℕ) (res : AsioServerResponse) (out : Output) : Except WriteFault Output := do
  let (out, res, flags) ← out.readInto out.dataLen.toNat res 0
  if flags &&& errDeferredAsFlags = 0 then drainBody fuel res flags out else .ok out

end Output

/-! ### Heads -/

/-- The line break of the protocol. -/
def crlf : Bytes := [13, 10]

/-- The pieces of the status line. -/
def statusLine (shouldKeepAlive : Bool) (res : AsioServerResponse) : List Bytes :=
  [ascii (if shouldKeepAlive then "HTTP/1.1" else "HTTP/1.0"), ascii " ", decimal res.statusCode,
    ascii " ", ascii (getReasonPhrase res.statusCode), crlf]

/-- The content length that `on_write` adds when the response has a payload and no header for it. -/
def generatedContentLength (res : AsioServerResponse) : List (List Bytes) :=
  if res.header.count (ascii "content-length") = 0 ∧ res.payloadSize ≠ 0 then
    [[ascii "content-length", ascii ":", decimal res.payloadSize, crlf]]
  else []

/-- The pieces of one header line. -/
def headerLine (header : Bytes × HeaderValue) : List Bytes :=
  [header.1, ascii ":", header.2.value, crlf]

/-- The groups of pieces of a head, in the order in which `on_write` copies them. -/
def headGroups (shouldKeepAlive : Bool) (res : AsioServerResponse) : List (List Bytes) :=
  statusLine shouldKeepAlive res :: generatedContentLength res ++
    res.header.entries.map headerLine ++ [[crlf]]

/-- The head part of `on_write`. -/
def Output.writeHead (shouldKeepAlive : Bool) (res : AsioServerResponse) (out : Output) :
    Except WriteFault Output :=
  (headGroups shouldKeepAlive res).foldlM Output.writeGroup out

/-! ### Writing -/

/-- One turn of the loop of `on_write`: head and payload of one stream. -/
def respond (fuel : ℕ) (shouldKeepAlive : Bool) (strm : Stream) (out : Output) :
    Except WriteFault Output := do
  let out ← out.writeHead shouldKeepAlive strm.response
  if expectResponseBody strm.request.method strm.response.statusCode then
    out.writeBody fuel strm.response
  else .ok out

/-- Where a call of `on_write` stands: the handler, the buffer, the streams whose responses it has
begun to emit, and the fault that ended it, if any. -/
structure Writing where
  handler : Http1Handler
  out : Output
  emitted : List ℕ
  fault : Option WriteFault

/-- The loop of `on_write` over the batch. -/
def respondInTurn (fuel : ℕ) : List ℕ → Http1Handler → Output → Writing
  | [], h, out => { handler := h, out := out, emitted := [], fault := none }
  | streamId :: rest, h, out =>
    match h.findStream streamId with
    | none => { handler := h, out := out, emitted := [], fault := some .nullStream }
    | some strm =>
      match respond fuel h.shouldKeepAlive strm out with
      | .error fault => { handler := h, out := out, emitted := [streamId], fault := some fault }
      | .ok out =>
        let writing := respondInTurn fuel rest (h.closeStream streamId) out
        { writing with emitted := streamId :: writing.emitted }

/-- `on_write(buffer, len)`: `len` is the offset left in `out`. -/
def Http1Handler.onWrite (fuel : ℕ) (buffer : Bytes) (h : Http1Handler) : Writing :=
  let (batch, h) := { h with insideCallback := true }.getConsecutiveStreamIdsToRespond
  let writing := respondInTurn fuel batch h { buffer := buffer, dataLen := 0 }
  { writing with handler := { writing.handler with insideCallback := false } }

/-! ### Which part faults how -/

/-- A fold over fallible steps fails as one of its steps does. -/
theorem exists_error_of_foldlM {α β ε : Type*} {f : β → α → Except ε β} {xs : List α} {init : β}
    {fault : ε} (h : xs.foldlM f init = .error fault) : ∃ x ∈ xs, ∃ b, f b x = .error fault := by
  induction xs generalizing init with
  | nil => exact absurd h (by simp [pure, Except.pure])
  | cons x rest ih =>
    rw [List.foldlM_cons] at h
    cases hstep : f init x with
    | error other =>
      rw [hstep] at h
      exact ⟨x, List.mem_cons_self, init, hstep.trans h⟩
    | ok next =>
      rw [hstep] at h
      obtain ⟨y, hy, b, hb⟩ := ih h
      exact ⟨y, List.mem_cons_of_mem x hy, b, hb⟩

namespace Output

/-- A head faults at a copy only. -/
theorem writeHead_error {shouldKeepAlive : Bool} {res : AsioServerResponse} {out : Output}
    {fault : WriteFault} (h : out.writeHead shouldKeepAlive res = .error fault) :
    fault = .copyOutOfBounds := by
  obtain ⟨pieces, _, group, hgroup⟩ := exists_error_of_foldlM h
  obtain ⟨piece, _, before, hcopy⟩ := exists_error_of_foldlM hgroup
  simp only [copyPiece] at hcopy
  split_ifs at hcopy
  simpa using hcopy.symm

theorem readInto_error {address : ℕ} {res : AsioServerResponse} {flags : UInt32} {out : Output}
    {fault : WriteFault} (h : out.readInto address res flags = .error fault) :
    fault = .readPastEnd ∨ fault = .generatorOutOfBounds := by
  simp only [readInto] at h
  split_ifs at h
  · exact Or.inr (by simpa using h.symm)
  · exact Or.inl (by simpa using h.symm)

theorem drainBody_error {fuel : ℕ} {res : AsioServerResponse} {flags : UInt32} {out : Output}
    {fault : WriteFault} (h : drainBody fuel res flags out = .error fault) :
    fault = .readPastEnd ∨ fault = .generatorOutOfBounds ∨ fault = .outOfFuel := by
  induction fuel generalizing res flags out with
  | zero =>
    rw [drainBody] at h
    split_ifs at h
    exact Or.inr (Or.inr (by simpa using h.symm))
  | succ fuel ih =>
    rw [drainBody] at h
    split_ifs at h
    cases hread : Output.readInto (2 * out.dataLen.toNat) res flags
        { out with buffer := incBufferSize incStep out.buffer } with
    | error other =>
      simp only [hread] at h
      have heq : other = fault := by simpa [bind, Except.bind] using h
      rcases readInto_error hread with hcase | hcase
      · exact Or.inl (heq ▸ hcase)
      · exact Or.inr (Or.inl (heq ▸ hcase))
    | ok next =>
      simp only [hread] at h
      exact ih h

/-- A payload faults at a read, or its loop has not ended yet. -/
theorem writeBody_error {fuel : ℕ} {res : AsioServerResponse} {out : Output} {fault : WriteFault}
    (h : out.writeBody fuel res = .error fault) :
    fault = .readPastEnd ∨ fault = .generatorOutOfBounds ∨ fault = .outOfFuel := by
  unfold writeBody at h
  cases hread : out.readInto out.dataLen.toNat res 0 with
  | error other =>
    rw [hread] at h
    have heq : other = fault := by simpa [bind, Except.bind] using h
    rcases readInto_error hread with hcase | hcase
    · exact Or.inl (heq ▸ hcase)
    · exact Or.inr (Or.inl (heq ▸ hcase))
  | ok next =>
    rw [hread] at h
    simp only [bind, Except.bind] at h
    split_ifs at h
    exact drainBody_error h

end Output

/-- A turn of the loop follows no null pointer. -/
theorem respond_ne_nullStream {fuel : ℕ} {shouldKeepAlive : Bool} {strm : Stream} {out : Output}
    {fault : WriteFault} (h : respond fuel shouldKeepAlive strm out = .error fault) :
    fault ≠ .nullStream := by
  unfold respond at h
  cases hhead : out.writeHead shouldKeepAlive strm.response with
  | error other =>
    rw [hhead] at h
    have heq : other = fault := by simpa [bind, Except.bind] using h
    rw [← heq, Output.writeHead_error hhead]
    simp
  | ok next =>
    rw [hhead] at h
    simp only [bind, Except.bind] at h
    split_ifs at h
    rcases Output.writeBody_error h with hcase | hcase | hcase <;> simp [hcase]

end Maock.Http1
