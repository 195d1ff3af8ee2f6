import Maock.Http1.ResponseOrder
import Maock.Http1.WriteSizes

/-!
# The bounds of head serialisation

When `on_write` stays inside the buffer. The growth check of the source compares the size of the
buffer with the size of the next group alone and leaves out what has been written before, so the
bounds depend on the sizes of everything in front of a group.

`RoomForHeads` says it for a batch of responses, given as the sizes of their groups and payloads.
`respondInTurn_inBounds` and `onWrite_inBounds_iff` say that this is the exact condition under
which no copy leaves the buffer, neither one of `on_write` itself nor one of a generator that it
calls, and no payload is read with an offset behind the buffer.
-/

set_option autoImplicit false
set_option relaxedAutoImplicit false

namespace Maock.Http1

open Foundation Foundation.OrderedContainer Foundation.Fuel Foundation.Bytes Http

/-! ### Ready responses -/

/-- A response that was ended with a string and of which nothing has been drawn yet. -/
def Stream.Ended (strm : Stream) : Prop :=
  expectResponseBody strm.request.method strm.response.statusCode = true →
    ∃ payload, strm.response.generator = some (stringGenerator payload) ∧
      strm.response.payloadSize = payload.length

/-- `write_head` followed by `end` makes such a response. -/
theorem ended_endString (request : AsioServerRequest) (statusCode : ℕ) (header : HeaderMap)
    (payload : Bytes) :
    Stream.Ended ⟨request, (AsioServerResponse.initial.writeHead request.method statusCode
      header).endString request.method payload⟩ := by
  intro hexpect
  refine ⟨payload, ?_⟩
  have hcode : (AsioServerResponse.initial.writeHead request.method statusCode header).state ≠
      .bodyStarted := by
    intro hstate
    simp only [AsioServerResponse.endString, AsioServerResponse.endGenerator, hstate,
      if_true] at hexpect
    simp only [AsioServerResponse.writeHead, AsioServerResponse.initial, ne_eq, not_true_eq_false,
      if_false] at hexpect hstate
    rw [if_pos hexpect] at hstate
    exact absurd hstate (by decide)
  simp only [AsioServerResponse.endString, AsioServerResponse.endGenerator]
  rw [if_neg hcode]
  simp only [AsioServerResponse.writeHead, AsioServerResponse.initial, ne_eq, not_true_eq_false,
    if_false]
  split_ifs <;> exact ⟨rfl, rfl⟩

/-! ### The exact condition -/

/-- The sizes of a response: of the groups of its head, and of its payload when it has one. -/
structure ResponseSizes where
  groups : List ℕ
  payload : Option ℕ
  deriving DecidableEq

/-- The sizes of the response of a stream. -/
def Stream.sizes (shouldKeepAlive : Bool) (strm : Stream) : ResponseSizes where
  groups := headSizes shouldKeepAlive strm.response
  payload :=
    if expectResponseBody strm.request.method strm.response.statusCode then
      some strm.response.payloadSize
    else none

/-- There is room for the heads of a batch: each head fits behind what comes before it, and each
payload before it is drawn into the buffer, up to one that stops the batch because the loop finds no
room for it. -/
def RoomForHeads : ℕ → ℤ → List ResponseSizes → Prop
  | _, _, [] => True
  | size, dataLen, response :: rest =>
    HeadFits size dataLen response.groups ∧
      match response.payload with
      | none => RoomForHeads (grownSize size response.groups) (dataLen + response.groups.sum) rest
      | some left =>
        match bodyOutcome (grownSize size response.groups)
          (dataLen + response.groups.sum).toNat left with
        | .drained size dataLen => RoomForHeads size dataLen rest
        | .stalls => True
        | .corrupts | .pastEnd => False

theorem RoomForHeads.headFits {size : ℕ} {dataLen : ℤ} {response : ResponseSizes}
    {rest : List ResponseSizes} (h : RoomForHeads size dataLen (response :: rest)) :
    HeadFits size dataLen response.groups :=
  h.1

/-- A fault at a copy, of `on_write` or of a generator, or at a read with an offset behind the
buffer. -/
def OutOfBounds (fault : Option WriteFault) : Prop :=
  fault = some .copyOutOfBounds ∨ fault = some .generatorOutOfBounds ∨ fault = some .readPastEnd

/-- The head of a response takes some room. -/
theorem headSizes_sum_pos (shouldKeepAlive : Bool) (res : AsioServerResponse) :
    0 < (headSizes shouldKeepAlive res).sum := by
  have hstatus : 0 < groupSize (statusLine shouldKeepAlive res) := by
    simp only [groupSize, statusLine, List.map_cons, List.sum_cons]
    exact Nat.lt_of_lt_of_le (by decide) (Nat.le_trans (Nat.le_add_right (ascii " ").length _)
      (Nat.le_add_left _ _))
  have hcons : headSizes shouldKeepAlive res = groupSize (statusLine shouldKeepAlive res) ::
      (generatedContentLength res ++ res.header.entries.map headerLine ++ [[crlf]]).map
        groupSize := rfl
  rw [hcons, List.sum_cons]
  omega

theorem le_of_headFits {size : ℕ} {dataLen : ℤ} {groups : List ℕ} (h : HeadFits size dataLen groups)
    (hgroups : groups ≠ []) : 0 ≤ dataLen ∧ dataLen + groups.sum ≤ grownSize size groups := by
  have hlength : 0 < groups.length := List.length_pos_iff.mpr hgroups
  have hlast := h (groups.length - 1) (by omega)
  rwa [Nat.sub_add_cancel hlength, List.take_length] at hlast

theorem headSizes_ne_nil (shouldKeepAlive : Bool) (res : AsioServerResponse) :
    headSizes shouldKeepAlive res ≠ [] := by
  simp [headSizes, headGroups]

/-- A turn of the loop behind the head. -/
theorem respond_of_writeHead {shouldKeepAlive : Bool} {strm : Stream} {out written : Output}
    (hhead : out.writeHead shouldKeepAlive strm.response = .ok written) (fuel : ℕ) :
    respond fuel shouldKeepAlive strm out =
      if expectResponseBody strm.request.method strm.response.statusCode then
        written.writeBody fuel strm.response
      else .ok written := by
  rw [respond, hhead]
  rfl

theorem fault_respondInTurn_of_ok {fuel streamId : ℕ} {rest : List ℕ} {h : Http1Handler}
    {strm : Stream} {out written : Output} (hfound : h.findStream streamId = some strm)
    (hrespond : respond fuel h.shouldKeepAlive strm out = .ok written) :
    (respondInTurn fuel (streamId :: rest) h out).fault =
      (respondInTurn fuel rest (h.closeStream streamId) written).fault := by
  simp only [respondInTurn, hfound, hrespond]

theorem fault_respondInTurn_of_error {fuel streamId : ℕ} {rest : List ℕ} {h : Http1Handler}
    {strm : Stream} {out : Output} {fault : WriteFault}
    (hfound : h.findStream streamId = some strm)
    (hrespond : respond fuel h.shouldKeepAlive strm out = .error fault) :
    (respondInTurn fuel (streamId :: rest) h out).fault = some fault := by
  simp only [respondInTurn, hfound, hrespond]

/-- What a body comes to, by the room that it leaves for the heads behind it. -/
theorem BodyOutcome.Describes.room_cases {run : ℕ → Except WriteFault Output}
    {outcome : BodyOutcome} {rest : List ResponseSizes} {room : Prop}
    (hroom : room ↔ match outcome with
      | .drained size dataLen => RoomForHeads size dataLen rest
      | .stalls => True
      | .corrupts | .pastEnd => False) (h : outcome.Describes run) :
    (¬ room ∧ ∃ fault, OutOfBounds (some fault) ∧ Settles .outOfFuel run (.error fault)) ∨
      (room ∧ ∀ fuel, ∃ fault, ¬ OutOfBounds (some fault) ∧ run fuel = .error fault) ∨
      ∃ written : Output, (room ↔ RoomForHeads written.buffer.length written.dataLen rest) ∧
        Settles .outOfFuel run (.ok written) := by
  rw [hroom]
  cases outcome with
  | drained size dataLen =>
    obtain ⟨final, rfl, rfl, hsettles⟩ := h
    exact Or.inr (Or.inr ⟨final, Iff.rfl, hsettles⟩)
  | stalls =>
    exact Or.inr (Or.inl ⟨trivial, fun fuel ↦ ⟨.outOfFuel, by simp [OutOfBounds], h fuel⟩⟩)
  | corrupts => exact Or.inl ⟨id, .generatorOutOfBounds, Or.inr (Or.inl rfl), h⟩
  | pastEnd => exact Or.inl ⟨id, .readPastEnd, Or.inr (Or.inr rfl), h⟩

/-- What a turn of the loop comes to: the head leaves the buffer, or there is no body, or the turn
comes to what its body comes to. -/
theorem respond_cases {shouldKeepAlive : Bool} {strm : Stream} (hended : strm.Ended)
    (out : Output) :
    (¬ HeadFits out.buffer.length out.dataLen (strm.sizes shouldKeepAlive).groups ∧
        ∀ fuel, respond fuel shouldKeepAlive strm out = .error .copyOutOfBounds) ∨
      HeadFits out.buffer.length out.dataLen (strm.sizes shouldKeepAlive).groups ∧
        (((strm.sizes shouldKeepAlive).payload = none ∧ ∃ written : Output,
            written.buffer.length =
              grownSize out.buffer.length (strm.sizes shouldKeepAlive).groups ∧
            written.dataLen = out.dataLen + (strm.sizes shouldKeepAlive).groups.sum ∧
            ∀ fuel, respond fuel shouldKeepAlive strm out = .ok written) ∨
          ∃ left, (strm.sizes shouldKeepAlive).payload = some left ∧
            (bodyOutcome (grownSize out.buffer.length (strm.sizes shouldKeepAlive).groups)
              (out.dataLen + (strm.sizes shouldKeepAlive).groups.sum).toNat left).Describes
              fun fuel ↦ respond fuel shouldKeepAlive strm out) := by
  have hhead := Output.writeHead_eq shouldKeepAlive strm.response out
  have hgroups : (strm.sizes shouldKeepAlive).groups = headSizes shouldKeepAlive strm.response :=
    rfl
  rw [hgroups]
  split_ifs at hhead with hfits
  · obtain ⟨written, hwritten, hbuffer, hdataLen⟩ := hhead
    obtain ⟨hnonneg, hle⟩ := le_of_headFits hfits (headSizes_ne_nil _ _)
    have hpos := headSizes_sum_pos shouldKeepAlive strm.response
    have hrespond := fun fuel ↦ respond_of_writeHead hwritten fuel
    refine Or.inr ⟨hfits, ?_⟩
    by_cases hexpect : expectResponseBody strm.request.method strm.response.statusCode = true
    · obtain ⟨payload, hgenerator, hsize⟩ := hended hexpect
      have hbody := @Output.writeBody_of_outcome strm.response written payload
        (out.dataLen + (headSizes shouldKeepAlive strm.response).sum).toNat hgenerator (by omega)
        (by omega) (by omega)
      rw [hbuffer, ← hsize] at hbody
      simp only [hrespond, hexpect, if_true]
      exact Or.inr ⟨strm.response.payloadSize, if_pos hexpect, hbody⟩
    · refine Or.inl ⟨if_neg hexpect, written, hbuffer, hdataLen, fun fuel ↦ ?_⟩
      rw [hrespond, if_neg hexpect]
  · refine Or.inl ⟨hfits, fun fuel ↦ ?_⟩
    rw [respond, hhead]
    rfl

/-- What a turn of the loop comes to, by the room for the heads behind it. -/
theorem respond_of_sizes {shouldKeepAlive : Bool} {strm : Stream} (hended : strm.Ended)
    (out : Output) {rest : List ResponseSizes} :
    (¬ RoomForHeads out.buffer.length out.dataLen (strm.sizes shouldKeepAlive :: rest) ∧
        ∃ fault, OutOfBounds (some fault) ∧
          Settles .outOfFuel (fun fuel ↦ respond fuel shouldKeepAlive strm out) (.error fault)) ∨
      (RoomForHeads out.buffer.length out.dataLen (strm.sizes shouldKeepAlive :: rest) ∧
        ∀ fuel, ∃ fault, ¬ OutOfBounds (some fault) ∧
          respond fuel shouldKeepAlive strm out = .error fault) ∨
      ∃ written : Output,
        (RoomForHeads out.buffer.length out.dataLen (strm.sizes shouldKeepAlive :: rest) ↔
          RoomForHeads written.buffer.length written.dataLen rest) ∧
        Settles .outOfFuel (fun fuel ↦ respond fuel shouldKeepAlive strm out) (.ok written) := by
  rcases @respond_cases shouldKeepAlive strm hended out with
    ⟨hfits, herror⟩ | ⟨hfits, ⟨hnone, written, hbuffer, hdataLen, hok⟩ | ⟨left, hsome, hbody⟩⟩
  · exact Or.inl ⟨fun hroom ↦ hfits hroom.1, .copyOutOfBounds, Or.inl rfl,
      Settles.of_forall herror⟩
  · refine Or.inr (Or.inr ⟨written, ?_, Settles.of_forall hok⟩)
    simp only [RoomForHeads, hnone, hfits, true_and, hbuffer, hdataLen]
  · refine BodyOutcome.Describes.room_cases ?_ hbody
    simp only [RoomForHeads, hsome, hfits, true_and]

/-- Closing a stream leaves the others of a batch. -/
theorem forall₂_findStream_closeStream {streamId : ℕ} {rest : List ℕ} {streams : List Stream}
    {h : Http1Handler} (hbelow : ∀ id ∈ rest, streamId < id)
    (hrest : List.Forall₂ (fun id strm ↦ h.findStream id = some strm ∧ strm.Ended) rest streams) :
    List.Forall₂ (fun id strm ↦ (h.closeStream streamId).findStream id = some strm ∧ strm.Ended)
      rest streams := by
  rw [List.forall₂_iff_get] at hrest ⊢
  refine ⟨hrest.1, fun n hn hn' ↦ ?_⟩
  rw [Http1Handler.findStream_closeStream_of_ne h
    (Nat.ne_of_lt (hbelow (rest.get ⟨n, hn⟩) (List.get_mem rest ⟨n, hn⟩)))]
  exact hrest.2 n hn hn'

/-- The loop over a batch stays in bounds when there is room for the heads; otherwise it leaves
them, given enough turns. -/
theorem respondInTurn_inBounds {batch : List ℕ} {streams : List Stream} {h : Http1Handler}
    {out : Output} (hsorted : batch.Pairwise (· < ·))
    (hstreams : List.Forall₂ (fun id strm ↦ h.findStream id = some strm ∧ strm.Ended) batch
      streams) :
    (RoomForHeads out.buffer.length out.dataLen (streams.map (Stream.sizes h.shouldKeepAlive)) →
        ∀ fuel, ¬ OutOfBounds (respondInTurn fuel batch h out).fault) ∧
      (¬ RoomForHeads out.buffer.length out.dataLen
          (streams.map (Stream.sizes h.shouldKeepAlive)) →
        ∃ enough, ∀ fuel, enough ≤ fuel → OutOfBounds (respondInTurn fuel batch h out).fault) := by
  induction batch generalizing streams h out with
  | nil =>
    obtain rfl := List.forall₂_nil_left_iff.mp hstreams
    exact ⟨fun _ fuel hfault ↦ by simp [respondInTurn, OutOfBounds] at hfault,
      fun hroom ↦ absurd trivial hroom⟩
  | cons streamId rest ih =>
    obtain ⟨strm, strms, ⟨hfound, hended⟩, hrest, rfl⟩ := List.forall₂_cons_left_iff.mp hstreams
    obtain ⟨hbelow, hsortedRest⟩ := List.pairwise_cons.mp hsorted
    have hrestClosed := forall₂_findStream_closeStream hbelow hrest
    rcases @respond_of_sizes h.shouldKeepAlive strm hended out
        (strms.map (Stream.sizes h.shouldKeepAlive)) with
      ⟨hnoRoom, fault, hfault, hsettles⟩ | ⟨hroom, hfaults⟩ | ⟨written, hiff, hsettles⟩
    · refine ⟨fun hroom ↦ absurd hroom hnoRoom, fun _ ↦ ?_⟩
      obtain ⟨enough, henough⟩ := hsettles.eventually
      refine ⟨enough, fun fuel hfuel ↦ ?_⟩
      rw [fault_respondInTurn_of_error hfound (henough fuel hfuel)]
      exact hfault
    · refine ⟨fun _ fuel ↦ ?_, fun hnoRoom ↦ absurd hroom hnoRoom⟩
      obtain ⟨fault, hfault, hrespond⟩ := hfaults fuel
      rw [fault_respondInTurn_of_error hfound hrespond]
      exact hfault
    · obtain ⟨hin, hout⟩ := @ih strms (h.closeStream streamId) written hsortedRest hrestClosed
      refine ⟨fun hroom fuel ↦ ?_, fun hnoRoom ↦ ?_⟩
      · rcases hsettles.eq_or_eq fuel with hrespond | hrespond
        · rw [fault_respondInTurn_of_error hfound hrespond]
          simp [OutOfBounds]
        · rw [fault_respondInTurn_of_ok hfound hrespond]
          exact hin (hiff.mp hroom) fuel
      · obtain ⟨enough, henough⟩ := hout (fun hroom ↦ hnoRoom (hiff.mpr hroom))
        obtain ⟨enoughFirst, hfirst⟩ := hsettles.eventually
        refine ⟨max enough enoughFirst, fun fuel hfuel ↦ ?_⟩
        rw [fault_respondInTurn_of_ok hfound (hfirst fuel (by omega))]
        exact henough fuel (by omega)

/-! ### Calls of `on_write` -/

/-- A batch as the responses of a handler that are ready to be written. -/
def ReadyBatch (h : Http1Handler) (streams : List Stream) : Prop :=
  List.Forall₂ (fun id strm ↦ h.findStream id = some strm ∧ strm.Ended)
    h.getConsecutiveStreamIdsToRespond.1 streams

/-- A call of `on_write` stays in bounds when there is room for the heads of its batch; otherwise it
leaves them, given enough turns. -/
theorem onWrite_inBounds {h : Http1Handler} {streams : List Stream}
    (hstreams : ReadyBatch h streams)
    (buffer : Bytes) :
    (RoomForHeads buffer.length 0 (streams.map (Stream.sizes h.shouldKeepAlive)) →
        ∀ fuel, ¬ OutOfBounds (h.onWrite fuel buffer).fault) ∧
      (¬ RoomForHeads buffer.length 0 (streams.map (Stream.sizes h.shouldKeepAlive)) →
        ∃ enough, ∀ fuel, enough ≤ fuel → OutOfBounds (h.onWrite fuel buffer).fault) := by
  simp only [Http1Handler.onWrite_eq]
  exact @respondInTurn_inBounds _ streams h.takeBatch { buffer := buffer, dataLen := 0 }
    h.sorted_getConsecutiveStreamIdsToRespond hstreams

/-- The bounds of head serialisation. Assumes that the batch consists of responses ended with a
string. Nothing is copied out of the buffer and no payload is read with an offset behind it exactly
when there is room for the heads. -/
theorem onWrite_inBounds_iff (h : Http1Handler) (streams : List Stream)
    (hstreams : ReadyBatch h streams) (buffer : Bytes) :
    (∀ fuel, ¬ OutOfBounds (h.onWrite fuel buffer).fault) ↔
      RoomForHeads buffer.length 0 (streams.map (Stream.sizes h.shouldKeepAlive)) := by
  obtain ⟨hin, hout⟩ := onWrite_inBounds hstreams buffer
  refine ⟨fun hnever ↦ ?_, hin⟩
  by_contra hroom
  obtain ⟨enough, henough⟩ := hout hroom
  exact hnever enough (henough enough (Nat.le_refl enough))

/-- A handler with one request, ready to be answered with this status and these header fields. -/
def readyHandler (statusCode : ℕ) (header : HeaderMap) (payload : Bytes) : Http1Handler :=
  ((Http1Handler.initial.messageBegin.modifyStream 1 fun strm ↦
    { strm with response := (AsioServerResponse.initial.writeHead [] statusCode
      header).endString [] payload }).startResponse 1).1

theorem readyBatch_readyHandler (statusCode : ℕ) (header : HeaderMap) (payload : Bytes) :
    ReadyBatch (readyHandler statusCode header payload)
      [⟨AsioServerRequest.empty, (AsioServerResponse.initial.writeHead [] statusCode
        header).endString [] payload⟩] :=
  List.Forall₂.cons ⟨rfl, ended_endString AsioServerRequest.empty statusCode header payload⟩
    List.Forall₂.nil

/-- With 64 KiB there is room for a response without header fields. -/
theorem onWrite_inBounds_noHeader :
    ¬ ∃ fuel, OutOfBounds ((readyHandler 200 (OrderedMultimap.empty HeaderValue bytesLess)
      []).onWrite fuel (List.replicate (64 * 1024) 0)).fault := by
  refine not_exists.mpr
    ((onWrite_inBounds_iff _ _ (readyBatch_readyHandler 200 _ []) _).mpr ?_)
  rw [List.length_replicate]
  exact ⟨by decide +kernel, trivial⟩

/-- Five header fields with values of 16,000 bytes. -/
def longHeader : HeaderMap where
  entries := List.replicate 5 (ascii "x", ⟨List.replicate 16000 97, false⟩)
  sorted := List.pairwise_replicate.mpr (Or.inr (by decide))

/-- The fifth header line begins 64,033 bytes into the buffer of 64 KiB and is 16,004 bytes long. -/
theorem outOfBounds_longHeader :
    ∃ enough, ∀ fuel, enough ≤ fuel → OutOfBounds ((readyHandler 200 longHeader []).onWrite fuel
      (List.replicate (64 * 1024) 0)).fault := by
  refine (onWrite_inBounds (readyBatch_readyHandler 200 longHeader []) _).2 fun hroom ↦ ?_
  have hsizes : headSizes true ((AsioServerResponse.initial.writeHead [] 200
      longHeader).endString [] []) = [17, 16004, 16004, 16004, 16004, 16004, 2] := by
    have hline : groupSize (headerLine (ascii "x", ⟨List.replicate 16000 97, false⟩)) = 16004 := by
      simp only [groupSize, headerLine, List.map_cons, List.map_nil, List.length_replicate]
      rfl
    have hgroups : headGroups true ((AsioServerResponse.initial.writeHead [] 200
        longHeader).endString [] []) = statusLine true ((AsioServerResponse.initial.writeHead [] 200
        longHeader).endString [] []) ::
          List.replicate 5 (headerLine (ascii "x", ⟨List.replicate 16000 97, false⟩)) ++ [[crlf]] :=
      rfl
    rw [headSizes, hgroups, List.map_append, List.map_cons, List.map_replicate, hline]
    rfl
  rw [List.length_replicate, List.map_cons] at hroom
  have hfits : HeadFits (64 * 1024) 0 (headSizes true ((AsioServerResponse.initial.writeHead [] 200
      longHeader).endString [] [])) := hroom.headFits
  rw [hsizes] at hfits
  exact absurd hfits (by decide)

end Maock.Http1
