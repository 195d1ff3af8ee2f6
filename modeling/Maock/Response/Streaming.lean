import Mathlib.Data.List.Induction
import Maock.Http1.WriteSizes
import Maock.Response.Lifecycle
import Maock.Worker.SendResponse

/-!
# The body of a response, read by read

What successive calls of `call_read` return, flag and submit when the response has a string payload
and maybe trailers, for every sequence of lengths. `afterReads_eq` is the state behind some reads:
either the generator with the bytes that are left, or, as soon as a read has taken the last of
them, no generator and no trailers. From it follow the bytes (`returned_of_fit`) and the flags and
calls of each single read (`streamsRead`).

`call_read` keeps the number of bytes that the generator returns in an `int`. A read that takes
2^31 bytes or more therefore returns another number, and only these reads go wrong.
-/

set_option autoImplicit false
set_option relaxedAutoImplicit false

namespace Maock.Response

open Foundation Foundation.OrderedContainer Foundation.Bytes Http
open Http1 (expectResponseBody dataFlagEof dataFlagNoEndStream stringGenerator)
open Http1.AsioServerResponse (toInt32 toInt32_eq_self_iff toInt32_le)
open Answering (headersOfTexts)
open Worker (Answer toHeaderMap)
open AsioServerResponse

variable {δ : Type}

/-! ### Reads -/

/-- The bytes that a call of `call_read` returns: as many as it says. -/
def AsioServerResponse.Reading.returned (reading : Reading δ) : Bytes :=
  reading.copied.take reading.retCode.toNat

/-- A response after reads with this much room. -/
def afterReads (env : Environment δ) (lens : List ℕ) (res : AsioServerResponse δ) :
    AsioServerResponse δ :=
  lens.foldl (fun res len ↦ (res.callRead env len 0).response) res

/-- What these reads return, one after the other. -/
def returned (env : Environment δ) : List ℕ → AsioServerResponse δ → Bytes
  | [], _ => []
  | len :: lens, res =>
    (res.callRead env len 0).returned ++ returned env lens (res.callRead env len 0).response

theorem afterReads_concat (env : Environment δ) (lens : List ℕ) (len : ℕ)
    (res : AsioServerResponse δ) :
    afterReads env (lens ++ [len]) res =
      ((afterReads env lens res).callRead env len 0).response := by
  rw [afterReads, List.foldl_append]
  rfl

theorem returned_concat (env : Environment δ) (lens : List ℕ) (len : ℕ)
    (res : AsioServerResponse δ) :
    returned env (lens ++ [len]) res =
      returned env lens res ++ ((afterReads env lens res).callRead env len 0).returned := by
  induction lens generalizing res with
  | nil => exact List.append_nil _
  | cons first lens ih =>
    rw [List.cons_append, returned, returned, ih, List.append_assoc]
    rfl

/-- The flags of the read that takes the last byte. -/
def lastFlags (trailers : HeaderMap) : UInt32 :=
  if trailers.entries ≠ [] then dataFlagEof ||| dataFlagNoEndStream else dataFlagEof

namespace AsioServerResponse

/-- A response with this much of its payload left. -/
def withLeft (payload : Bytes) (left : ℕ) (res : AsioServerResponse δ) : AsioServerResponse δ :=
  { res with generator := some (.library (.string payload left)) }

/-- A response with its payload read and its trailers submitted. -/
def ended (res : AsioServerResponse δ) : AsioServerResponse δ :=
  { res with
    generator := none
    trailers := noFields
    calls := res.calls ++ trailerCalls res.trailers }

theorem withLeft_of_generator {res : AsioServerResponse δ} {payload : Bytes} {left : ℕ}
    (hgenerator : res.generator = some (.library (.string payload left))) :
    res.withLeft payload left = res := by
  rw [withLeft, ← hgenerator]

/-- Behind the end a read returns nothing. -/
theorem callRead_ended (env : Environment δ) (len : ℕ) (res : AsioServerResponse δ) :
    res.ended.callRead env len 0 = ⟨[], 0, dataFlagEof, res.ended⟩ :=
  if_neg fun h ↦ h.2 rfl

/-- A read with room for all that is left is the last one. -/
theorem callRead_of_le {len left : ℕ} (hleft : left ≤ len) (env : Environment δ) (payload : Bytes)
    (res : AsioServerResponse δ) :
    (res.withLeft payload left).callRead env len 0 =
      ⟨(payload.drop (payload.length - left)).take left, toInt32 left, lastFlags res.trailers,
        res.ended⟩ := by
  have hmin : min len left = left := Nat.min_eq_right hleft
  have heof : (0 ||| dataFlagEof) &&& dataFlagEof ≠ 0 := by decide
  simp only [callRead, withLeft, GeneratorCb.call, Http1.Generator.call, hmin, Nat.sub_self,
    decide_true, if_true, heof, ne_eq, not_false_eq_true, true_and, lastFlags]
  by_cases htrailers : res.trailers.entries = []
  · have hnone : res.trailers = noFields := OrderedMultimap.ext htrailers
    rw [if_neg (not_not.mpr htrailers), if_neg (not_not.mpr htrailers), ended, hnone]
    exact congrArg (Reading.mk _ _ _) (by rw [← hnone]; simp [trailerCalls, htrailers])
  · rw [if_pos htrailers, if_pos htrailers, sendTrailer_eq]
    rfl

/-- A read with less room fills it and leaves the rest. -/
theorem callRead_of_lt {len left : ℕ} (hlen : len < left) (env : Environment δ) (payload : Bytes)
    (res : AsioServerResponse δ) :
    (res.withLeft payload left).callRead env len 0 =
      ⟨(payload.drop (payload.length - left)).take len, toInt32 len, 0,
        res.withLeft payload (left - len)⟩ := by
  have hmin : min len left = len := Nat.min_eq_left (Nat.le_of_lt hlen)
  have hleft : left - len ≠ 0 := by omega
  have heof : (0 : UInt32) &&& dataFlagEof = 0 := by decide
  simp only [callRead, withLeft, GeneratorCb.call, Http1.Generator.call, hmin, hleft, decide_false,
    Bool.false_eq_true, if_false, heof, ne_eq, not_true_eq_false, false_and]

end AsioServerResponse

/-! ### The state behind some reads -/

/-- The body is done: there was a read, and the reads had room for all of it. -/
def Finished (payload : Bytes) (lens : List ℕ) : Prop :=
  lens ≠ [] ∧ payload.length ≤ lens.sum

instance decidableFinished (payload : Bytes) (lens : List ℕ) : Decidable (Finished payload lens) :=
  inferInstanceAs (Decidable (_ ∧ _))

theorem finished_concat {payload : Bytes} {lens : List ℕ} {len : ℕ} :
    Finished payload (lens ++ [len]) ↔ payload.length - lens.sum ≤ len := by
  simp only [Finished, ne_eq, List.append_eq_nil_iff, List.cons_ne_self, and_false,
    not_false_eq_true, true_and, List.sum_append, List.sum_singleton]
  omega

theorem Finished.concat {payload : Bytes} {lens : List ℕ} (h : Finished payload lens) (len : ℕ) :
    Finished payload (lens ++ [len]) :=
  finished_concat.mpr (by have := h.2; omega)

theorem sum_le_of_not_finished {payload : Bytes} {lens : List ℕ} (h : ¬ Finished payload lens) :
    lens.sum ≤ payload.length := by
  by_cases hnil : lens = []
  · rw [hnil]
    exact Nat.zero_le _
  · exact Nat.le_of_not_le fun hle ↦ h ⟨hnil, hle⟩

/-- Some reads leave the rest of the payload, or nothing. -/
theorem afterReads_eq (env : Environment δ) (payload : Bytes) (lens : List ℕ)
    (res : AsioServerResponse δ) :
    afterReads env lens (res.withLeft payload payload.length) =
      if Finished payload lens then res.ended
      else res.withLeft payload (payload.length - lens.sum) := by
  induction lens using List.reverseRecOn with
  | nil => rw [if_neg fun h ↦ h.1 rfl]; rfl
  | append_singleton lens len ih =>
    rw [afterReads_concat, ih]
    by_cases hfinished : Finished payload lens
    · rw [if_pos hfinished, if_pos (hfinished.concat len), callRead_ended]
    · rw [if_neg hfinished]
      by_cases hleft : payload.length - lens.sum ≤ len
      · rw [if_pos (finished_concat.mpr hleft), callRead_of_le hleft]
      · rw [if_neg (hleft ∘ finished_concat.mp), callRead_of_lt (Nat.not_le.mp hleft),
          Nat.sub_sub, List.sum_append, List.sum_singleton]

section Read

variable (env : Environment δ) (payload : Bytes) (lens : List ℕ) (len : ℕ)
  (res : AsioServerResponse δ)

/-- A read behind others: nothing more, the rest of the payload, or the next piece of it. -/
theorem callRead_afterReads :
    (afterReads env lens (res.withLeft payload payload.length)).callRead env len 0 =
      if Finished payload lens then ⟨[], 0, dataFlagEof, res.ended⟩
      else if Finished payload (lens ++ [len]) then
        ⟨payload.drop lens.sum, toInt32 (payload.length - lens.sum : ℕ), lastFlags res.trailers,
          res.ended⟩
      else
        ⟨(payload.drop lens.sum).take len, toInt32 len, 0,
          res.withLeft payload (payload.length - lens.sum - len)⟩ := by
  rw [afterReads_eq]
  by_cases hfinished : Finished payload lens
  · rw [if_pos hfinished, if_pos hfinished, callRead_ended]
  · have hsum := sum_le_of_not_finished hfinished
    have hdrop : payload.length - (payload.length - lens.sum) = lens.sum := by omega
    rw [if_neg hfinished, if_neg hfinished]
    by_cases hleft : payload.length - lens.sum ≤ len
    · have htake : (payload.drop lens.sum).take (payload.length - lens.sum) =
          payload.drop lens.sum := List.take_of_length_le (by rw [List.length_drop])
      rw [if_pos (finished_concat.mpr hleft), callRead_of_le hleft, hdrop, htake]
    · rw [if_neg (hleft ∘ finished_concat.mp), callRead_of_lt (Nat.not_le.mp hleft), hdrop]

/-- What a read takes is the next piece of the payload, up to its room. -/
theorem copied_callRead_afterReads :
    ((afterReads env lens (res.withLeft payload payload.length)).callRead env len 0).copied =
      (payload.drop lens.sum).take len := by
  rw [callRead_afterReads]
  split_ifs with hfinished hlast
  · rw [List.drop_eq_nil_of_le hfinished.2, List.take_nil]
  · have hleft := finished_concat.mp hlast
    exact (List.take_of_length_le (by rw [List.length_drop]; exact hleft)).symm
  · rfl

theorem retCode_callRead_afterReads :
    ((afterReads env lens (res.withLeft payload payload.length)).callRead env len 0).retCode =
      toInt32 (min len (payload.length - lens.sum) : ℕ) := by
  rw [callRead_afterReads]
  split_ifs with hfinished hlast
  · have hnone : min len (payload.length - lens.sum) = 0 := by
      have := hfinished.2
      omega
    rw [hnone]
    exact ((@toInt32_eq_self_iff 0).mpr (by decide)).symm
  · rw [Nat.min_eq_right (finished_concat.mp hlast)]
  · rw [Nat.min_eq_left (Nat.le_of_not_le (hlast ∘ finished_concat.mpr))]

end Read

/-! ### The bytes returned -/

/-- Every one of these reads takes fewer bytes than an `int` can count. -/
def ReadsFit (payload : Bytes) (lens : List ℕ) : Prop :=
  ∀ before len, before ++ [len] <+: lens → min len (payload.length - before.sum) < 2 ^ 31

theorem ReadsFit.of_prefix {payload : Bytes} {lens more : List ℕ} (h : ReadsFit payload more)
    (hpart : lens <+: more) : ReadsFit payload lens :=
  fun before len hbefore ↦ h before len (hbefore.trans hpart)

section Returned

variable {env : Environment δ} {payload : Bytes} {lens : List ℕ} {res : AsioServerResponse δ}

theorem returned_callRead_afterReads (len : ℕ) :
    ((afterReads env lens (res.withLeft payload payload.length)).callRead env len 0).returned =
      ((payload.drop lens.sum).take len).take
        (toInt32 (min len (payload.length - lens.sum) : ℕ)).toNat := by
  rw [Reading.returned, copied_callRead_afterReads, retCode_callRead_afterReads]

/-- Reads that fit return the payload from its start. -/
theorem returned_of_fit (hfit : ReadsFit payload lens) :
    returned env lens (res.withLeft payload payload.length) = payload.take lens.sum := by
  induction lens using List.reverseRecOn with
  | nil => rfl
  | append_singleton lens len ih =>
    have hcode := toInt32_eq_self_iff.mpr (hfit lens len (List.prefix_refl _))
    have hpiece : ((payload.drop lens.sum).take len).take
        (min len (payload.length - lens.sum)) = (payload.drop lens.sum).take len :=
      List.take_of_length_le (by rw [List.length_take, List.length_drop])
    rw [returned_concat, ih (hfit.of_prefix (List.prefix_append _ _)),
      returned_callRead_afterReads, hcode, Int.toNat_natCast, hpiece, List.sum_append,
      List.sum_singleton, List.take_add]

/-- A read that returns all that it takes fits. -/
theorem fit_of_returned {len : ℕ}
    (hbefore : returned env lens (res.withLeft payload payload.length) = payload.take lens.sum)
    (hafter : returned env (lens ++ [len]) (res.withLeft payload payload.length) =
      payload.take (lens ++ [len]).sum) :
    min len (payload.length - lens.sum) < 2 ^ 31 := by
  rw [returned_concat, hbefore, returned_callRead_afterReads, List.sum_append, List.sum_singleton,
    List.take_add, List.append_cancel_left_eq] at hafter
  have hlength := congrArg List.length hafter
  rw [List.length_take, List.length_take, List.length_drop] at hlength
  have hle := toInt32_le (min len (payload.length - lens.sum))
  by_contra hlarge
  exact hlarge (toInt32_eq_self_iff.mp (by omega))

/-- However the reads go, they return no more than the payload. -/
theorem length_returned_le (lens : List ℕ) :
    (returned env lens (res.withLeft payload payload.length)).length ≤
      min lens.sum payload.length := by
  induction lens using List.reverseRecOn with
  | nil => exact Nat.zero_le _
  | append_singleton lens len ih =>
    rw [returned_concat, returned_callRead_afterReads, List.length_append, List.length_take,
      List.length_take, List.length_drop, List.sum_append, List.sum_singleton]
    omega

end Returned

/-! ### Streaming with trailers -/

/-- What a read behind others has to do: it flags the end from the read on that takes the last
byte, and on that read it keeps the stream open and submits the trailers if there are some. -/
structure StreamsRead (env : Environment δ) (payload : Bytes) (trailers : HeaderMap)
    (res : AsioServerResponse δ) (before : List ℕ) (len : ℕ) : Prop where
  eof : ((afterReads env before res).callRead env len 0).flags &&& dataFlagEof ≠ 0 ↔
    Finished payload (before ++ [len])
  noEndStream :
    ((afterReads env before res).callRead env len 0).flags &&& dataFlagNoEndStream ≠ 0 ↔
      ¬ Finished payload before ∧ Finished payload (before ++ [len]) ∧ trailers.entries ≠ []
  calls : ((afterReads env before res).callRead env len 0).response.calls =
    (afterReads env before res).calls ++
      if ¬ Finished payload before ∧ Finished payload (before ++ [len]) ∧ trailers.entries ≠ [] then
        [.submitTrailer trailers]
      else []
  later : Finished payload before → ((afterReads env before res).callRead env len 0).retCode = 0

/-- What these reads of a response with this payload and these trailers have to do. -/
structure Streams (env : Environment δ) (payload : Bytes) (trailers : HeaderMap)
    (res : AsioServerResponse δ) (lens : List ℕ) : Prop where
  returned : ∀ before, before <+: lens → returned env before res = payload.take before.sum
  reads : ∀ before len, before ++ [len] <+: lens → StreamsRead env payload trailers res before len

theorem lastFlags_eof (trailers : HeaderMap) : lastFlags trailers &&& dataFlagEof ≠ 0 := by
  unfold lastFlags
  split_ifs <;> decide

theorem lastFlags_noEndStream (trailers : HeaderMap) :
    lastFlags trailers &&& dataFlagNoEndStream ≠ 0 ↔ trailers.entries ≠ [] := by
  unfold lastFlags
  split_ifs with htrailers
  · exact iff_of_true (by decide) htrailers
  · exact iff_of_false (by decide) htrailers

section Flags

variable (env : Environment δ) (payload : Bytes) (before : List ℕ) (len : ℕ)
  (res : AsioServerResponse δ)

theorem eof_callRead_afterReads :
    ((afterReads env before (res.withLeft payload payload.length)).callRead env len 0).flags &&&
      dataFlagEof ≠ 0 ↔ Finished payload (before ++ [len]) := by
  have hended : dataFlagEof &&& dataFlagEof ≠ 0 := by decide
  have hgoesOn : ¬ (0 : UInt32) &&& dataFlagEof ≠ 0 := by decide
  rw [callRead_afterReads]
  split_ifs with hbefore hlast
  · exact iff_of_true hended (hbefore.concat len)
  · exact iff_of_true (lastFlags_eof res.trailers) hlast
  · exact iff_of_false hgoesOn hlast

theorem noEndStream_callRead_afterReads :
    ((afterReads env before (res.withLeft payload payload.length)).callRead env len 0).flags &&&
      dataFlagNoEndStream ≠ 0 ↔
        ¬ Finished payload before ∧ Finished payload (before ++ [len]) ∧
          res.trailers.entries ≠ [] := by
  have hclosed : ¬ dataFlagEof &&& dataFlagNoEndStream ≠ 0 := by decide
  have hgoesOn : ¬ (0 : UInt32) &&& dataFlagNoEndStream ≠ 0 := by decide
  rw [callRead_afterReads]
  split_ifs with hbefore hlast
  · exact iff_of_false hclosed fun h ↦ h.1 hbefore
  · exact (lastFlags_noEndStream res.trailers).trans
      ⟨fun h ↦ ⟨hbefore, hlast, h⟩, fun h ↦ h.2.2⟩
  · exact iff_of_false hgoesOn fun h ↦ hlast h.2.1

theorem calls_callRead_afterReads :
    ((afterReads env before
        (res.withLeft payload payload.length)).callRead env len 0).response.calls =
      (afterReads env before (res.withLeft payload payload.length)).calls ++
        if ¬ Finished payload before ∧ Finished payload (before ++ [len]) ∧
          res.trailers.entries ≠ [] then [.submitTrailer res.trailers]
        else [] := by
  rw [callRead_afterReads, afterReads_eq]
  by_cases hbefore : Finished payload before
  · rw [if_pos hbefore, if_pos hbefore, if_neg fun h ↦ h.1 hbefore, List.append_nil]
  · rw [if_neg hbefore, if_neg hbefore]
    by_cases hlast : Finished payload (before ++ [len])
    · -- the trailers are submitted here, if there are some
      rw [if_pos hlast]
      show res.calls ++ trailerCalls res.trailers = res.calls ++ _
      by_cases htrailers : res.trailers.entries ≠ []
      · rw [trailerCalls, if_pos htrailers, if_pos ⟨hbefore, hlast, htrailers⟩]
      · rw [trailerCalls, if_neg htrailers, if_neg fun h ↦ htrailers h.2.2]
    · rw [if_neg hlast, if_neg fun h ↦ hlast h.2.1, List.append_nil]
      rfl

/-- The flags and the calls of a read are right, whatever it takes. -/
theorem streamsRead :
    StreamsRead env payload res.trailers (res.withLeft payload payload.length) before len where
  eof := eof_callRead_afterReads env payload before len res
  noEndStream := noEndStream_callRead_afterReads env payload before len res
  calls := calls_callRead_afterReads env payload before len res
  later := fun hbefore ↦ by rw [callRead_afterReads, if_pos hbefore]

end Flags

/-- The reads stream the payload and the trailers of a response exactly when each of them fits. -/
theorem streams_withLeft_iff (env : Environment δ) (payload : Bytes) (lens : List ℕ)
    (res : AsioServerResponse δ) :
    Streams env payload res.trailers (res.withLeft payload payload.length) lens ↔
      ReadsFit payload lens := by
  constructor
  · intro h before len hpart
    exact fit_of_returned (h.returned before ((List.prefix_append _ _).trans hpart))
      (h.returned (before ++ [len]) hpart)
  · intro hfit
    exact ⟨fun before hpart ↦ returned_of_fit (hfit.of_prefix hpart),
      fun before len _ ↦ streamsRead env payload before len res⟩

/-! ### Responses that are sent -/

namespace AsioServerResponse

/-- What `send_response` does to the response of a stream that it has found. -/
def sendAnswer (env : Environment δ) (a : Answer) (res : AsioServerResponse δ) :
    AsioServerResponse δ :=
  let res := res.writeHead env a.statusCode a.headerMap
  if a.trailers.elems = [] then res.endString env a.payload
  else (res.sendDataNoEos env a.payload).writeTrailer (toHeaderMap a.trailers)

/-- A response of the HTTP/1 handler is sent as `Answer.writeTo` says. -/
theorem sendAnswer_ofPlain (env : Environment δ) (a : Answer) (strm : Http1.Stream)
    (hmethod : env.method = strm.request.method) (calls : List HandlerCall) :
    ∃ calls', (ofPlain strm.response calls).sendAnswer env a = ofPlain (a.writeTo strm) calls' := by
  obtain ⟨firstCalls, hhead⟩ := writeHead_ofPlain env a.statusCode a.headerMap strm.response calls
  unfold sendAnswer Answer.writeTo
  rw [hhead, hmethod]
  set head := strm.response.writeHead strm.request.method a.statusCode a.headerMap
  obtain ⟨bodyCalls, hbody⟩ := endGenerator_ofPlain env (stringGenerator a.payload)
    { head with payloadSize := a.payload.length } firstCalls
  rw [hmethod] at hbody
  dsimp only
  split_ifs
  · exact ⟨bodyCalls, hbody⟩
  · obtain ⟨lastCalls, htrailer⟩ := @writeTrailer_ofPlain δ (toHeaderMap a.trailers)
      (head.sendDataNoEos strm.request.method a.payload) bodyCalls
    exact ⟨lastCalls, (congrArg (writeTrailer (toHeaderMap a.trailers)) hbody).trans htrailer⟩

/-- With a status that allows a body, a head leaves a response that waits for `end`. -/
theorem state_writeHead_initial {env : Environment δ} {statusCode : ℕ}
    (hexpect : expectResponseBody env.method statusCode = true) (pushed : Bool) (h : HeaderMap) :
    ((initial pushed).writeHead env statusCode h).state = .headerDone := by
  rw [writeHead_of_initial rfl]
  dsimp only [stateAfterStart]
  rw [if_pos hexpect, ite_self]

theorem trailers_writeHead_initial (env : Environment δ) (pushed : Bool) (statusCode : ℕ)
    (h : HeaderMap) : ((initial pushed).writeHead env statusCode h).trailers = noFields := by
  rw [writeHead_of_initial rfl]
  rfl

/-- A response that was sent has the whole payload ahead, and the trailers. -/
theorem sendAnswer_initial {env : Environment δ} {a : Answer}
    (hexpect : expectResponseBody env.method a.statusCode = true) (pushed : Bool) :
    ((initial pushed).sendAnswer env a).withLeft a.payload a.payload.length =
        (initial pushed).sendAnswer env a ∧
      ((initial pushed).sendAnswer env a).trailers = toHeaderMap a.trailers := by
  set head := (initial pushed : AsioServerResponse δ).writeHead env a.statusCode a.headerMap
  have hstate : head.state = .headerDone := state_writeHead_initial hexpect pushed a.headerMap
  have hnone : head.trailers = noFields := trailers_writeHead_initial env pushed a.statusCode _
  have hended := @endGenerator_of_headerDone δ { head with payloadSize := a.payload.length } hstate
    env (some (.library (stringGenerator a.payload)))
  unfold sendAnswer endString sendDataNoEos
  dsimp only
  split_ifs with htrailers
  · rw [hended]
    refine ⟨withLeft_of_generator rfl, hnone.trans ?_⟩
    rw [toHeaderMap, htrailers]
    rfl
  · rw [hended]
    exact ⟨withLeft_of_generator rfl, rfl⟩

end AsioServerResponse

/-- **A sent response streams its payload and its trailers** exactly when no read takes more bytes
than an `int` can count, for every sequence of reads. -/
theorem sendAnswer_streams_iff (env : Environment δ) (pushed : Bool) (a : Answer)
    (hexpect : expectResponseBody env.method a.statusCode = true) (lens : List ℕ) :
    Streams env a.payload (toHeaderMap a.trailers) ((initial pushed).sendAnswer env a) lens ↔
      ReadsFit a.payload lens := by
  obtain ⟨hpayload, htrailers⟩ := sendAnswer_initial hexpect pushed
  rw [← hpayload, ← htrailers]
  exact streams_withLeft_iff env a.payload lens _

theorem readsFit_of_length_lt {payload : Bytes} (h : payload.length < 2 ^ 31) (lens : List ℕ) :
    ReadsFit payload lens :=
  fun _ _ _ ↦ by omega

/-- Five bytes and a trailer, read in pieces. -/
def answerWithTrailer : Answer where
  statusCode := 200
  headers := headersOfTexts []
  payload := ascii "hello"
  trailers := headersOfTexts [ascii "grpc-status: 0"]

theorem sendAnswer_streams_answerWithTrailer :
    Streams getEnvironment answerWithTrailer.payload (toHeaderMap answerWithTrailer.trailers)
      ((initial false).sendAnswer getEnvironment answerWithTrailer) [2, 0, 3, 7] :=
  (sendAnswer_streams_iff getEnvironment false answerWithTrailer (by decide) _).mpr
    (readsFit_of_length_lt (by decide) _)

/-- A payload of 2^31 bytes for one read with room for all of it. -/
def hugeAnswer : Answer where
  statusCode := 200
  headers := headersOfTexts []
  payload := List.replicate (2 ^ 31) 97
  trailers := headersOfTexts []

theorem not_sendAnswer_streams_hugeAnswer :
    ¬ Streams getEnvironment hugeAnswer.payload (toHeaderMap hugeAnswer.trailers)
      ((initial false).sendAnswer getEnvironment hugeAnswer) [2 ^ 31] := by
  have hexpect : expectResponseBody getEnvironment.method hugeAnswer.statusCode = true := by decide
  have hlength : hugeAnswer.payload.length = 2 ^ 31 := List.length_replicate
  obtain ⟨hpayload, htrailers⟩ := sendAnswer_initial hexpect false
  rw [← hpayload, ← htrailers, streams_withLeft_iff]
  intro hfit
  have hread := hfit [] (2 ^ 31) (List.prefix_refl _)
  rw [hlength, List.sum_nil] at hread
  omega

end Maock.Response
