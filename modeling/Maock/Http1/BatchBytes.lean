import Maock.Http1.HeadBounds
import Maock.Http1.ResponseBytes

/-!
# The bytes of a batch that fits

What a call of `on_write` leaves when the responses of its batch fit into the buffer
(`SerialisesBatch`): the buffer holds them in the order of their streams, and the streams of the
batch, and no others, are gone. No growth check acts then and every payload is drawn by its first
read, so only the `int` of `call_read` is in the way. `serialisesBatch_iff` says that it is in the
way exactly of payloads from `2 ^ 31` bytes on.
-/

set_option autoImplicit false
set_option relaxedAutoImplicit false

namespace Maock.Http1

open Foundation Foundation.OrderedContainer Foundation.Bytes Foundation.TransitionSystem Http
open AsioServerResponse

/-! ### One response -/

/-- The body that a response is to be emitted with. -/
def Stream.body (strm : Stream) : Bytes :=
  if expectResponseBody strm.request.method strm.response.statusCode then bodyBytes strm.response
  else []

theorem responseBytes_eq (shouldKeepAlive : Bool) (strm : Stream) :
    responseBytes shouldKeepAlive strm =
      headBytes shouldKeepAlive strm.response ++ strm.body :=
  rfl

theorem length_headBytes (shouldKeepAlive : Bool) (res : AsioServerResponse) :
    (headBytes shouldKeepAlive res).length = (headSizes shouldKeepAlive res).sum := by
  unfold headBytes headSizes
  rw [List.length_flatten, List.map_flatten, List.sum_flatten, List.map_map]
  rfl

theorem length_responseBytes (shouldKeepAlive : Bool) (strm : Stream) :
    (responseBytes shouldKeepAlive strm).length =
      (headBytes shouldKeepAlive strm.response).length + strm.body.length := by
  rw [responseBytes_eq, List.length_append]

/-- A response that fits behind what has been written is written there. The offset advances by what
the `int` of `call_read` makes of the length of the body. -/
theorem respond_of_room {shouldKeepAlive : Bool} {strm : Stream} {out : Output}
    (hended : strm.Ended) (hnonneg : 0 ≤ out.dataLen)
    (hroom : out.dataLen + (responseBytes shouldKeepAlive strm).length ≤ out.buffer.length)
    (fuel : ℕ) :
    ∃ next, respond fuel shouldKeepAlive strm out = .ok next ∧
      next.buffer.length = out.buffer.length ∧
      next.dataLen = out.dataLen + (headBytes shouldKeepAlive strm.response).length +
        toInt32 strm.body.length ∧
      (strm.body.length < 2 ^ 31 →
        next.written = out.written ++ responseBytes shouldKeepAlive strm) := by
  rw [length_responseBytes, length_headBytes] at hroom
  obtain ⟨hfits, hgrown⟩ := @headFits_of_sum_le out.buffer.length out.dataLen
    (headSizes shouldKeepAlive strm.response) hnonneg (by omega)
  have hhead := Output.writeHead_eq shouldKeepAlive strm.response out
  rw [if_pos hfits, hgrown] at hhead
  obtain ⟨middle, hmiddle, hbuffer, hdataLen⟩ := hhead
  obtain ⟨hwritten, hle⟩ := Output.written_writeHead (by omega) hmiddle
  rw [respond_of_writeHead hmiddle, responseBytes_eq, length_headBytes, ← hdataLen]
  by_cases hexpect : expectResponseBody strm.request.method strm.response.statusCode = true
  · obtain ⟨payload, hgenerator, -⟩ := hended hexpect
    have hbody : strm.body = payload := by
      rw [Stream.body, if_pos hexpect, bodyBytes_of_stringGenerator hgenerator]
    rw [hbody] at hroom ⊢
    rw [if_pos hexpect]
    refine ⟨_, Output.writeBody_of_le hgenerator (by omega) (by omega) fuel, ?_, rfl,
      fun hshort ↦ ?_⟩
    · exact (length_overwrite (Or.inr (by omega))).trans hbuffer
    · rw [← List.append_assoc, ← hwritten, toInt32_of_lt hshort]
      show (overwrite middle.buffer middle.dataLen.toNat payload).take
        (middle.dataLen + payload.length).toNat = _
      have hsum : (middle.dataLen + payload.length).toNat =
          middle.dataLen.toNat + payload.length := by omega
      rw [hsum, take_overwrite (by omega)]
      rfl
  · have hbody : strm.body = [] := by
      rw [Stream.body, if_neg hexpect]
    rw [hbody, if_neg hexpect]
    refine ⟨middle, rfl, hbuffer, ?_, fun _ ↦ by rw [hwritten, List.append_nil]⟩
    have hzero : toInt32 (0 : ℕ) = 0 := toInt32_eq_self_iff.mpr (by omega)
    rw [List.length_nil, hzero, Int.add_zero]

/-- No head is written behind a negative offset. -/
theorem respond_of_neg {strm : Stream} {out : Output} (hneg : out.dataLen < 0) (fuel : ℕ)
    (shouldKeepAlive : Bool) :
    respond fuel shouldKeepAlive strm out = .error .copyOutOfBounds := by
  have hhead := Output.writeHead_eq shouldKeepAlive strm.response out
  rw [if_neg fun hfits ↦ absurd (le_of_headFits hfits (headSizes_ne_nil _ _)).1 (by omega)] at hhead
  rw [respond, hhead]
  rfl

/-! ### The loop over a batch -/

/-- The streams of a batch are open and their responses were ended with a string. -/
def EndedBatch (batch : List ℕ) (h : Http1Handler) : Prop :=
  ∀ id ∈ batch, ∃ strm, h.findStream id = some strm ∧ strm.Ended

/-- The bodies of a batch are shorter than `2 ^ 31` bytes. -/
def ShortBodies (batch : List ℕ) (h : Http1Handler) : Prop :=
  ∀ id ∈ batch, ∀ strm, h.findStream id = some strm → strm.body.length < 2 ^ 31

instance (batch : List ℕ) (h : Http1Handler) : Decidable (ShortBodies batch h) :=
  inferInstanceAs (Decidable (∀ id ∈ batch, ∀ strm, h.findStream id = some strm →
    strm.body.length < 2 ^ 31))

/-- The bytes of the responses of a batch, in its order. -/
def batchBytes (batch : List ℕ) (h : Http1Handler) : Bytes :=
  (batch.map h.responseOn).flatten

section Cons

variable {streamId : ℕ} {rest : List ℕ} {h : Http1Handler} {strm : Stream}

/-- The stream in front and the batch behind it, once that stream is closed. -/
theorem endedBatch_cons (hnotMem : streamId ∉ rest) (h : Http1Handler) :
    EndedBatch (streamId :: rest) h ↔
      (∃ strm, h.findStream streamId = some strm ∧ strm.Ended) ∧
        EndedBatch rest (h.closeStream streamId) := by
  unfold EndedBatch
  rw [List.forall_mem_cons]
  refine and_congr_right fun _ ↦ forall₂_congr fun id hid ↦ ?_
  have hne : streamId ≠ id := fun heq ↦ hnotMem (heq ▸ hid)
  rw [Http1Handler.findStream_closeStream_of_ne h hne]

theorem shortBodies_cons (hnotMem : streamId ∉ rest) (hfound : h.findStream streamId = some strm) :
    ShortBodies (streamId :: rest) h ↔
      strm.body.length < 2 ^ 31 ∧ ShortBodies rest (h.closeStream streamId) := by
  unfold ShortBodies
  rw [List.forall_mem_cons, hfound]
  refine and_congr ⟨fun hall ↦ hall strm rfl, fun hshort other hother ↦ ?_⟩
    (forall₂_congr fun id hid ↦ ?_)
  · rwa [← Option.some_inj.mp hother]
  · have hne : streamId ≠ id := fun heq ↦ hnotMem (heq ▸ hid)
    rw [Http1Handler.findStream_closeStream_of_ne h hne]

theorem batchBytes_cons (hnotMem : streamId ∉ rest) (hfound : h.findStream streamId = some strm) :
    batchBytes (streamId :: rest) h =
      responseBytes h.shouldKeepAlive strm ++ batchBytes rest (h.closeStream streamId) := by
  unfold batchBytes
  rw [List.map_cons, List.flatten_cons, h.map_responseOn_closeStream hnotMem,
    Http1Handler.responseOn, hfound]
  rfl

end Cons

/-- A batch that fits and whose bodies are short is written behind what has been written. -/
theorem respondInTurn_of_short {batch : List ℕ} {h : Http1Handler} {out : Output}
    (hdistinct : batch.Nodup) (hended : EndedBatch batch h) (hshort : ShortBodies batch h)
    (hnonneg : 0 ≤ out.dataLen)
    (hroom : out.dataLen + (batchBytes batch h).length ≤ out.buffer.length) (fuel : ℕ) :
    (respondInTurn fuel batch h out).fault = none ∧
      (respondInTurn fuel batch h out).out.written = out.written ++ batchBytes batch h ∧
      (respondInTurn fuel batch h out).out.dataLen =
        out.dataLen + (batchBytes batch h).length := by
  induction batch generalizing h out with
  | nil => exact ⟨rfl, (List.append_nil _).symm, (Int.add_zero _).symm⟩
  | cons streamId rest ih =>
    obtain ⟨hnotMem, hdistinctRest⟩ := List.nodup_cons.mp hdistinct
    obtain ⟨⟨strm, hfound, hstrm⟩, hrest⟩ := (endedBatch_cons hnotMem h).mp hended
    obtain ⟨hbody, hshortRest⟩ := (shortBodies_cons hnotMem hfound).mp hshort
    rw [batchBytes_cons hnotMem hfound, List.length_append] at hroom ⊢
    obtain ⟨next, hrespond, hbuffer, hdataLen, hwritten⟩ :=
      @respond_of_room h.shouldKeepAlive strm out hstrm hnonneg (by omega) fuel
    have hlength := length_responseBytes h.shouldKeepAlive strm
    rw [toInt32_of_lt hbody] at hdataLen
    obtain ⟨hfault, hbytes, hlast⟩ :=
      @ih (h.closeStream streamId) next hdistinctRest hrest hshortRest (by omega) (by omega)
    simp only [respondInTurn, hfound, hrespond]
    refine ⟨hfault, ?_, by omega⟩
    rw [hbytes, hwritten hbody, List.append_assoc]

/-- A batch that fits leaves the offset behind its bytes only if its bodies are short. -/
theorem dataLen_respondInTurn_le {fuel : ℕ} {batch : List ℕ} {h : Http1Handler} {out : Output}
    (hdistinct : batch.Nodup) (hended : EndedBatch batch h)
    (hroom : out.dataLen + (batchBytes batch h).length ≤ out.buffer.length)
    (hfault : (respondInTurn fuel batch h out).fault = none) :
    (respondInTurn fuel batch h out).out.dataLen ≤ out.dataLen + (batchBytes batch h).length ∧
      ((respondInTurn fuel batch h out).out.dataLen =
        out.dataLen + (batchBytes batch h).length → ShortBodies batch h) := by
  induction batch generalizing h out with
  | nil => exact ⟨Int.le_of_eq (Int.add_zero _).symm, fun _ id hid ↦ absurd hid List.not_mem_nil⟩
  | cons streamId rest ih =>
    obtain ⟨hnotMem, hdistinctRest⟩ := List.nodup_cons.mp hdistinct
    obtain ⟨⟨strm, hfound, hstrm⟩, hrest⟩ := (endedBatch_cons hnotMem h).mp hended
    have hnonneg : 0 ≤ out.dataLen := by
      by_contra hneg
      rw [fault_respondInTurn_of_error hfound (respond_of_neg (by omega) fuel _)] at hfault
      exact absurd hfault (by simp)
    rw [batchBytes_cons hnotMem hfound, List.length_append] at hroom ⊢
    obtain ⟨next, hrespond, hbuffer, hdataLen, -⟩ :=
      @respond_of_room h.shouldKeepAlive strm out hstrm hnonneg (by omega) fuel
    have hlength := length_responseBytes h.shouldKeepAlive strm
    have hcode := toInt32_le strm.body.length
    rw [fault_respondInTurn_of_ok hfound hrespond] at hfault
    obtain ⟨hle, hrestShort⟩ :=
      @ih (h.closeStream streamId) next hdistinctRest hrest (by omega) hfault
    simp only [respondInTurn, hfound, hrespond]
    refine ⟨by omega, fun hlast ↦ (shortBodies_cons hnotMem hfound).mpr ⟨?_, hrestShort ?_⟩⟩
    · exact toInt32_eq_self_iff.mp (by omega)
    · omega

/-- A batch that is answered is closed, and the other streams are as before. -/
theorem findStream_respondInTurn {fuel : ℕ} {batch : List ℕ} {h : Http1Handler} {out : Output}
    (hfault : (respondInTurn fuel batch h out).fault = none) (id : ℕ) :
    (respondInTurn fuel batch h out).handler.findStream id =
      if id ∈ batch then none else h.findStream id := by
  induction batch generalizing h out with
  | nil => rfl
  | cons streamId rest ih =>
    cases hfound : h.findStream streamId with
    | none =>
      simp only [respondInTurn, hfound] at hfault
      exact absurd hfault (by simp)
    | some strm =>
      cases hrespond : respond fuel h.shouldKeepAlive strm out with
      | error fault =>
        rw [fault_respondInTurn_of_error hfound hrespond] at hfault
        exact absurd hfault (by simp)
      | ok next =>
        rw [fault_respondInTurn_of_ok hfound hrespond] at hfault
        simp only [respondInTurn, hfound, hrespond, ih hfault, List.mem_cons]
        by_cases hown : id = streamId
        · subst hown
          rw [Http1Handler.findStream_closeStream, if_pos (Or.inl rfl), ite_self]
        · rw [Http1Handler.findStream_closeStream_of_ne h (Ne.symm hown)]
          simp only [hown, false_or]

/-! ### Calls of `on_write` -/

namespace Http1Handler

/-- The batch that a call of `on_write` takes. -/
def batch (h : Http1Handler) : List ℕ :=
  h.getConsecutiveStreamIdsToRespond.1

theorem isChain_takeConsecutive (last : ℕ) (ready : List ℕ) :
    (last :: takeConsecutive last ready).IsChain fun id next ↦ next - id = 1 := by
  induction ready generalizing last with
  | nil => exact List.IsChain.singleton last
  | cons next rest ih =>
    simp only [takeConsecutive]
    split_ifs with hgap
    · exact List.IsChain.cons_cons hgap (ih next)
    · exact List.IsChain.singleton last

/-- A batch consists of consecutive identifiers. -/
theorem isChain_batch (h : Http1Handler) : h.batch.IsChain fun id next ↦ next = id + 1 := by
  unfold batch getConsecutiveStreamIdsToRespond
  split
  case h_2 => exact List.IsChain.nil
  case h_1 ready rest _ _ _ _ =>
    split_ifs
    · exact (isChain_takeConsecutive ready rest).imp fun id next hgap ↦ by omega
    · exact List.IsChain.nil

/-- **The serialisation of a batch** of consecutive ready streams: the call returns, the buffer
holds the bytes of the batch up to the length returned, and the streams of the batch are gone, from
the ready ones too, while all others are as before. -/
structure SerialisesBatch (h : Http1Handler) (writing : Writing) : Prop where
  returns : writing.fault = none
  isReady : ∀ id ∈ h.batch, id ∈ h.streamIdsToRespond
  consecutive : h.batch.IsChain fun id next ↦ next = id + 1
  written : writing.out.written = batchBytes h.batch h
  dataLen : writing.out.dataLen = (batchBytes h.batch h).length
  streams : ∀ id, writing.handler.findStream id = if id ∈ h.batch then none else h.findStream id
  ready : ∀ id, id ∈ writing.handler.streamIdsToRespond ↔
    id ∈ h.streamIdsToRespond ∧ id ∉ h.batch

/-- A call of `on_write` that returns closes the batch and leaves the other streams. -/
theorem findStream_onWrite {h : Http1Handler} {fuel : ℕ} {buffer : Bytes}
    (hfault : (h.onWrite fuel buffer).fault = none) (id : ℕ) :
    (h.onWrite fuel buffer).handler.findStream id =
      if id ∈ h.batch then none else h.findStream id := by
  rw [onWrite_eq] at hfault ⊢
  exact findStream_respondInTurn hfault id

/-- A call of `on_write` that finds room for its batch serialises it exactly when the bodies of the
batch are short. -/
theorem serialisesBatch_iff {h : Http1Handler} (hended : EndedBatch h.streamIdsToRespond.elems h)
    {buffer : Bytes} (hfits : (batchBytes h.batch h).length ≤ buffer.length) (fuel : ℕ) :
    h.SerialisesBatch (h.onWrite fuel buffer) ↔ ShortBodies h.batch h := by
  have hready : ∀ id ∈ h.streamIdsToRespond, id ∈ h.openIds := by
    intro id hid
    obtain ⟨strm, hfound, -⟩ := hended id hid
    exact isSome_findStream_iff.mp (Option.isSome_iff_exists.mpr ⟨strm, hfound⟩)
  have hdistinct : h.batch.Nodup := h.sorted_getConsecutiveStreamIdsToRespond.imp Nat.ne_of_lt
  have hsubset : ∀ id ∈ h.batch, id ∈ h.streamIdsToRespond :=
    (getConsecutiveStreamIdsToRespond_spec hready).2
  have hendedBatch : EndedBatch h.batch h.takeBatch := fun id hid ↦ hended id (hsubset id hid)
  have hroom : (0 : ℤ) + (batchBytes h.batch h.takeBatch).length ≤ buffer.length := by
    rw [Int.zero_add]
    exact_mod_cast hfits
  constructor
  · intro hserialises
    obtain ⟨hfault, -, -, -, hdataLen, -, -⟩ := hserialises
    rw [onWrite_eq] at hfault hdataLen
    refine (dataLen_respondInTurn_le hdistinct hendedBatch hroom hfault).2 ?_
    rw [Int.zero_add]
    exact hdataLen
  · intro hshort
    obtain ⟨hfault, hwritten, hdataLen⟩ := @respondInTurn_of_short h.batch h.takeBatch
      { buffer := buffer, dataLen := 0 } hdistinct hendedBatch hshort (Int.le_refl 0) hroom fuel
    have hreturns : (h.onWrite fuel buffer).fault = none := by
      rw [onWrite_eq]
      exact hfault
    refine ⟨hreturns, hsubset, h.isChain_batch, ?_, ?_, findStream_onWrite hreturns,
      fun id ↦ mem_streamIdsToRespond_onWrite⟩
    · rw [onWrite_eq]
      exact hwritten
    · rw [onWrite_eq]
      exact hdataLen.trans (Int.zero_add _)

end Http1Handler

end Maock.Http1
