import Maock.Http1.BatchBytes

/-!
# The bytes emitted for one response of a batch

`on_write` hands its buffer over only when it returns, and then up to the offset that it has come
to. `EmitsFor` is what it emits for one stream of its batch: the bytes between the offsets in front
of and behind the turn of this stream, in the buffer that is handed over.

Whether a call returns depends on the whole batch: `RoomForBatch` says on the sizes of its responses
and of the buffer that each head finds room and each payload is drawn, and `returns_onWrite_iff`
that the call returns exactly then. What it emits for a stream is the response of this stream
(`emitsFor_iff`), as long as the bodies of the batch are shorter than `2 ^ 31` bytes and the buffer
is at least as large as the step that it grows by. It starts so and never shrinks
(`length_le_onWrite`).
-/

set_option autoImplicit false
set_option relaxedAutoImplicit false

namespace Maock.Http1

open Foundation Foundation.OrderedContainer Foundation.Fuel Foundation.Bytes Http

/-! ### What a call that returns has written -/

/-- A response whose writing returns is written behind what has been written, with a body or not.
-/
theorem respond_of_ended {fuel : ℕ} {shouldKeepAlive : Bool} {strm : Stream} {out out' : Output}
    (hout : out.Sound) (hended : strm.Ended) (hshort : strm.body.length < 2 ^ 31)
    (h : respond fuel shouldKeepAlive strm out = .ok out') :
    out'.written = out.written ++ responseBytes shouldKeepAlive strm ∧ out'.Sound := by
  by_cases hexpect : expectResponseBody strm.request.method strm.response.statusCode = true
  · obtain ⟨payload, hgenerator, -⟩ := hended hexpect
    have hbody : strm.body = payload := by
      rw [Stream.body, if_pos hexpect, bodyBytes_of_stringGenerator hgenerator]
    exact hout.respond ⟨payload, hgenerator, hbody ▸ hshort⟩ h
  · cases hhead : out.writeHead shouldKeepAlive strm.response with
    | error fault =>
      rw [respond, hhead] at h
      exact absurd h (by simp [bind, Except.bind])
    | ok next =>
      rw [respond_of_writeHead hhead, if_neg hexpect] at h
      obtain rfl := Except.ok.inj h
      obtain ⟨hwritten, hsound⟩ := hout.writeHead hhead
      refine ⟨?_, hsound⟩
      rw [hwritten, responseBytes, if_neg hexpect, List.append_nil]

/-- A batch whose writing returns is written behind what has been written. -/
theorem written_respondInTurn {fuel : ℕ} {batch : List ℕ} {h : Http1Handler} {out : Output}
    (hdistinct : batch.Nodup) (hout : out.Sound) (hended : EndedBatch batch h)
    (hshort : ShortBodies batch h) (hfault : (respondInTurn fuel batch h out).fault = none) :
    (respondInTurn fuel batch h out).out.written = out.written ++ batchBytes batch h ∧
      (respondInTurn fuel batch h out).out.Sound := by
  induction batch generalizing h out with
  | nil => exact ⟨(List.append_nil _).symm, hout⟩
  | cons streamId rest ih =>
    obtain ⟨hnotMem, hdistinctRest⟩ := List.nodup_cons.mp hdistinct
    obtain ⟨⟨strm, hfound, hstrm⟩, hrest⟩ := (endedBatch_cons hnotMem h).mp hended
    obtain ⟨hbody, hshortRest⟩ := (shortBodies_cons hnotMem hfound).mp hshort
    cases hrespond : respond fuel h.shouldKeepAlive strm out with
    | error fault =>
      rw [fault_respondInTurn_of_error hfound hrespond] at hfault
      exact absurd hfault (by simp)
    | ok next =>
      obtain ⟨hwritten, hnext⟩ := respond_of_ended hout hstrm hbody hrespond
      rw [fault_respondInTurn_of_ok hfound hrespond] at hfault
      obtain ⟨hbytes, hsound⟩ := ih hdistinctRest hnext hrest hshortRest hfault
      simp only [respondInTurn, hfound, hrespond]
      refine ⟨?_, hsound⟩
      rw [hbytes, hwritten, batchBytes_cons hnotMem hfound, List.append_assoc]

theorem sound_start {buffer : Bytes} (hsize : incStep ≤ buffer.length) :
    Output.Sound { buffer := buffer, dataLen := 0 } :=
  ⟨Int.le_refl 0, Int.natCast_nonneg _, hsize⟩

/-- A call of `on_write` that returns hands the bytes of its batch over. -/
theorem written_onWrite {fuel : ℕ} {buffer : Bytes} {h : Http1Handler}
    (hsize : incStep ≤ buffer.length) (hended : EndedBatch h.batch h)
    (hshort : ShortBodies h.batch h) (hfault : (h.onWrite fuel buffer).fault = none) :
    (h.onWrite fuel buffer).out.written = batchBytes h.batch h ∧
      incStep ≤ (h.onWrite fuel buffer).out.buffer.length := by
  have hdistinct : h.batch.Nodup := h.sorted_getConsecutiveStreamIdsToRespond.imp Nat.ne_of_lt
  rw [Http1Handler.onWrite_eq] at hfault ⊢
  obtain ⟨hwritten, hafter⟩ := @written_respondInTurn fuel h.batch h.takeBatch
    { buffer := buffer, dataLen := 0 } hdistinct (sound_start hsize) hended hshort hfault
  exact ⟨hwritten, hafter.incStep_le⟩

/-! ### When a call returns -/

/-- There is room for a batch: each head fits behind what comes before it, and each payload is drawn
into the buffer. -/
def RoomForBatch : ℕ → ℤ → List ResponseSizes → Prop
  | _, _, [] => True
  | size, dataLen, response :: rest =>
    HeadFits size dataLen response.groups ∧
      match response.payload with
      | none => RoomForBatch (grownSize size response.groups) (dataLen + response.groups.sum) rest
      | some left =>
        match bodyOutcome (grownSize size response.groups)
          (dataLen + response.groups.sum).toNat left with
        | .drained size dataLen => RoomForBatch size dataLen rest
        | .stalls | .corrupts | .pastEnd => False

instance decidableRoomForBatch : (size : ℕ) → (dataLen : ℤ) → (responses : List ResponseSizes) →
    Decidable (RoomForBatch size dataLen responses)
  | _, _, [] => isTrue trivial
  | size, dataLen, ⟨groups, none⟩ :: rest =>
    have := decidableRoomForBatch (grownSize size groups) (dataLen + groups.sum) rest
    inferInstanceAs (Decidable (HeadFits size dataLen groups ∧
      RoomForBatch (grownSize size groups) (dataLen + groups.sum) rest))
  | size, dataLen, ⟨groups, some left⟩ :: rest =>
    have : Decidable
        (match bodyOutcome (grownSize size groups) (dataLen + groups.sum).toNat left with
        | .drained size dataLen => RoomForBatch size dataLen rest
        | .stalls | .corrupts | .pastEnd => False) :=
      match bodyOutcome (grownSize size groups) (dataLen + groups.sum).toNat left with
      | .drained size dataLen => decidableRoomForBatch size dataLen rest
      | .stalls | .corrupts | .pastEnd => isFalse id
    inferInstanceAs (Decidable (HeadFits size dataLen groups ∧ _))

/-- The sizes of the responses of a batch. -/
def batchSizes (batch : List ℕ) (h : Http1Handler) : List ResponseSizes :=
  batch.filterMap fun id ↦ (h.findStream id).map (Stream.sizes h.shouldKeepAlive)

theorem batchSizes_cons {streamId : ℕ} {rest : List ℕ} {h : Http1Handler} {strm : Stream}
    (hnotMem : streamId ∉ rest) (hfound : h.findStream streamId = some strm) :
    batchSizes (streamId :: rest) h =
      strm.sizes h.shouldKeepAlive :: batchSizes rest (h.closeStream streamId) := by
  have hsame : rest.filterMap (fun id ↦ (h.findStream id).map (Stream.sizes h.shouldKeepAlive)) =
      batchSizes rest (h.closeStream streamId) := by
    refine List.filterMap_congr fun id hid ↦ ?_
    have hne : streamId ≠ id := fun heq ↦ hnotMem (heq ▸ hid)
    rw [Http1Handler.findStream_closeStream_of_ne h hne]
    rfl
  rw [← hsame]
  unfold batchSizes
  rw [List.filterMap_cons_some (by rw [hfound]; rfl)]

/-- What a turn of the loop comes to, by the room for the batch behind it. -/
theorem respond_of_room_cases {shouldKeepAlive : Bool} {strm : Stream} (hended : strm.Ended)
    (out : Output) {rest : List ResponseSizes} :
    (¬ RoomForBatch out.buffer.length out.dataLen (strm.sizes shouldKeepAlive :: rest) ∧
        ∀ fuel, ∃ fault, respond fuel shouldKeepAlive strm out = .error fault) ∨
      ∃ written : Output,
        (RoomForBatch out.buffer.length out.dataLen (strm.sizes shouldKeepAlive :: rest) ↔
          RoomForBatch written.buffer.length written.dataLen rest) ∧
        Settles .outOfFuel (fun fuel ↦ respond fuel shouldKeepAlive strm out) (.ok written) := by
  rcases @respond_cases shouldKeepAlive strm hended out with
    ⟨hfits, herror⟩ | ⟨hfits, ⟨hnone, written, hbuffer, hdataLen, hok⟩ | ⟨left, hsome, hbody⟩⟩
  · exact Or.inl ⟨fun hroom ↦ hfits hroom.1, fun fuel ↦ ⟨_, herror fuel⟩⟩
  · refine Or.inr ⟨written, ?_, Settles.of_forall hok⟩
    simp only [RoomForBatch, hnone, hfits, true_and, hbuffer, hdataLen]
  · simp only [RoomForBatch, hsome, hfits, true_and]
    cases houtcome : bodyOutcome (grownSize out.buffer.length (strm.sizes shouldKeepAlive).groups)
      (out.dataLen + (strm.sizes shouldKeepAlive).groups.sum).toNat left with
    | drained size dataLen =>
      rw [houtcome] at hbody
      obtain ⟨final, rfl, rfl, hsettles⟩ := hbody
      exact Or.inr ⟨final, Iff.rfl, hsettles⟩
    | stalls =>
      rw [houtcome] at hbody
      exact Or.inl ⟨id, fun fuel ↦ ⟨_, hbody fuel⟩⟩
    | corrupts =>
      rw [houtcome] at hbody
      exact Or.inl ⟨id, fun fuel ↦ (Settles.eq_or_eq hbody fuel).elim (⟨_, ·⟩) (⟨_, ·⟩)⟩
    | pastEnd =>
      rw [houtcome] at hbody
      exact Or.inl ⟨id, fun fuel ↦ (Settles.eq_or_eq hbody fuel).elim (⟨_, ·⟩) (⟨_, ·⟩)⟩

/-- The loop over a batch comes to its end when there is room for the batch, given enough turns, and
only then. -/
theorem returns_respondInTurn {batch : List ℕ} {h : Http1Handler} {out : Output}
    (hdistinct : batch.Nodup) (hended : EndedBatch batch h) :
    (RoomForBatch out.buffer.length out.dataLen (batchSizes batch h) →
        ∃ enough, ∀ fuel, enough ≤ fuel → (respondInTurn fuel batch h out).fault = none) ∧
      ∀ fuel, (respondInTurn fuel batch h out).fault = none →
        RoomForBatch out.buffer.length out.dataLen (batchSizes batch h) := by
  induction batch generalizing h out with
  | nil => exact ⟨fun _ ↦ ⟨0, fun _ _ ↦ rfl⟩, fun _ _ ↦ trivial⟩
  | cons streamId rest ih =>
    obtain ⟨hnotMem, hdistinctRest⟩ := List.nodup_cons.mp hdistinct
    obtain ⟨⟨strm, hfound, hstrm⟩, hrest⟩ := (endedBatch_cons hnotMem h).mp hended
    rw [batchSizes_cons hnotMem hfound]
    rcases @respond_of_room_cases h.shouldKeepAlive strm hstrm out
        (batchSizes rest (h.closeStream streamId)) with
      ⟨hnoRoom, herror⟩ | ⟨written, hiff, hsettles⟩
    · refine ⟨fun hroom ↦ absurd hroom hnoRoom, fun fuel hfault ↦ ?_⟩
      obtain ⟨fault, hrespond⟩ := herror fuel
      rw [fault_respondInTurn_of_error hfound hrespond] at hfault
      exact absurd hfault (by simp)
    · obtain ⟨hreturns, honly⟩ := @ih (h.closeStream streamId) written hdistinctRest hrest
      rw [hiff]
      refine ⟨fun hroom ↦ ?_, fun fuel hfault ↦ ?_⟩
      · obtain ⟨enough, henough⟩ := hreturns hroom
        obtain ⟨enoughFirst, hfirst⟩ := hsettles.eventually
        refine ⟨max enough enoughFirst, fun fuel hfuel ↦ ?_⟩
        rw [fault_respondInTurn_of_ok hfound (hfirst fuel (by omega))]
        exact henough fuel (by omega)
      · rcases hsettles.eq_or_eq fuel with hrespond | hrespond
        · rw [fault_respondInTurn_of_error hfound hrespond] at hfault
          exact absurd hfault (by simp)
        · rw [fault_respondInTurn_of_ok hfound hrespond] at hfault
          exact honly fuel hfault

/-- **When `on_write` returns**: given enough turns, exactly when there is room for its batch. -/
theorem returns_onWrite_iff {h : Http1Handler} (hended : EndedBatch h.batch h) (buffer : Bytes) :
    (∃ fuel, (h.onWrite fuel buffer).fault = none) ↔
      RoomForBatch buffer.length 0 (batchSizes h.batch h) := by
  have hdistinct : h.batch.Nodup := h.sorted_getConsecutiveStreamIdsToRespond.imp Nat.ne_of_lt
  obtain ⟨hreturns, honly⟩ := @returns_respondInTurn h.batch h.takeBatch
    { buffer := buffer, dataLen := 0 } hdistinct hended
  simp only [Http1Handler.onWrite_eq]
  refine ⟨fun ⟨fuel, hfault⟩ ↦ honly fuel hfault, fun hroom ↦ ?_⟩
  obtain ⟨enough, henough⟩ := hreturns hroom
  exact ⟨enough, henough enough (Nat.le_refl enough)⟩

/-- A payload of 64 KiB keeps a response without a payload in front of it from being emitted. -/
example : ¬ RoomForBatch (64 * 1024) 0 [⟨[17, 2], none⟩, ⟨[17, 22, 2], some 65536⟩] := by
  decide +kernel

/-! ### The buffer -/

/-- A read of a payload leaves the size of the buffer. -/
theorem Output.length_readInto {address : ℕ} {res res' : AsioServerResponse} {flags flags' : UInt32}
    {out out' : Output} (h : out.readInto address res flags = .ok (out', res', flags')) :
    out'.buffer.length = out.buffer.length := by
  simp only [Output.readInto] at h
  split_ifs at h with hoffset hroom
  obtain ⟨rfl, -⟩ := Prod.mk.inj (Except.ok.inj h)
  exact length_overwrite hroom

theorem length_le_incBufferSize (requiredSize : ℕ) (buffer : Bytes) :
    buffer.length ≤ (incBufferSize requiredSize buffer).length := by
  unfold incBufferSize
  split_ifs
  · rw [List.length_append]
    exact Nat.le_add_right _ _
  · exact Nat.le_refl _

/-- The loop over a payload does not shrink the buffer. -/
theorem Output.length_le_drainBody {fuel : ℕ} {res : AsioServerResponse} {flags : UInt32}
    {out out' : Output} (h : drainBody fuel res flags out = .ok out') :
    out.buffer.length ≤ out'.buffer.length := by
  induction fuel generalizing res flags out with
  | zero =>
    rw [drainBody] at h
    split_ifs at h
    exact Nat.le_of_eq (congrArg (fun out : Output ↦ out.buffer.length) (Except.ok.inj h))
  | succ fuel ih =>
    rw [drainBody] at h
    split_ifs at h
    · exact Nat.le_of_eq (congrArg (fun out : Output ↦ out.buffer.length) (Except.ok.inj h))
    · cases hread : Output.readInto (2 * out.dataLen.toNat) res flags
          { out with buffer := incBufferSize incStep out.buffer } with
      | error fault =>
        simp only [hread] at h
        exact absurd h (by simp [bind, Except.bind])
      | ok next =>
        obtain ⟨read, res', flags'⟩ := next
        simp only [hread] at h
        have hlength : read.buffer.length = (incBufferSize incStep out.buffer).length :=
          length_readInto hread
        exact Nat.le_trans ((length_le_incBufferSize incStep out.buffer).trans hlength.ge) (ih h)

/-- A turn of the loop of `on_write` does not shrink the buffer. -/
theorem length_le_respond {fuel : ℕ} {shouldKeepAlive : Bool} {strm : Stream} {out out' : Output}
    (h : respond fuel shouldKeepAlive strm out = .ok out') :
    out.buffer.length ≤ out'.buffer.length := by
  have hhead := Output.writeHead_eq shouldKeepAlive strm.response out
  split_ifs at hhead with hfits
  · obtain ⟨headed, hheaded, hbuffer, -⟩ := hhead
    have hgrown : out.buffer.length ≤ headed.buffer.length :=
      hbuffer ▸ Output.le_grownSize _ _
    rw [respond_of_writeHead hheaded] at h
    split_ifs at h
    · unfold Output.writeBody at h
      cases hread : headed.readInto headed.dataLen.toNat strm.response 0 with
      | error fault =>
        rw [hread] at h
        exact absurd h (by simp [bind, Except.bind])
      | ok next =>
        obtain ⟨read, res', flags'⟩ := next
        have hlength := Output.length_readInto hread
        simp only [hread, bind, Except.bind] at h
        split_ifs at h
        · exact hgrown.trans (hlength.ge.trans (Output.length_le_drainBody h))
        · rw [← Except.ok.inj h]
          exact hgrown.trans hlength.ge
    · exact hgrown.trans
        (Nat.le_of_eq (congrArg (fun out : Output ↦ out.buffer.length) (Except.ok.inj h)))
  · rw [respond, hhead] at h
    exact absurd h (by simp [bind, Except.bind])

theorem length_le_respondInTurn (fuel : ℕ) (batch : List ℕ) (h : Http1Handler) (out : Output) :
    out.buffer.length ≤ (respondInTurn fuel batch h out).out.buffer.length := by
  induction batch generalizing h out with
  | nil => exact Nat.le_refl _
  | cons streamId rest ih =>
    unfold respondInTurn
    cases hfound : h.findStream streamId with
    | none => exact Nat.le_refl _
    | some strm =>
      dsimp only
      cases hrespond : respond fuel h.shouldKeepAlive strm out with
      | error fault => exact Nat.le_refl _
      | ok next => exact (length_le_respond hrespond).trans (ih (h.closeStream streamId) next)

/-- A call of `on_write` does not shrink the buffer. -/
theorem length_le_onWrite (fuel : ℕ) (buffer : Bytes) (h : Http1Handler) :
    buffer.length ≤ (h.onWrite fuel buffer).out.buffer.length := by
  rw [Http1Handler.onWrite_eq]
  exact length_le_respondInTurn fuel h.batch h.takeBatch { buffer := buffer, dataLen := 0 }

/-! ### The bytes of one stream -/

/-- The loop comes to the end of a batch only behind its first streams. -/
theorem fault_eq_none_of_append {fuel : ℕ} {front back : List ℕ} {h : Http1Handler} {out : Output}
    (hfault : (respondInTurn fuel (front ++ back) h out).fault = none) :
    (respondInTurn fuel front h out).fault = none := by
  induction front generalizing h out with
  | nil => rfl
  | cons streamId rest ih =>
    rw [List.cons_append] at hfault
    cases hfound : h.findStream streamId with
    | none =>
      simp only [respondInTurn, hfound] at hfault
      exact absurd hfault (by simp)
    | some strm =>
      cases hrespond : respond fuel h.shouldKeepAlive strm out with
      | error fault =>
        rw [fault_respondInTurn_of_error hfound hrespond] at hfault
        exact absurd hfault (by simp)
      | ok next =>
        rw [fault_respondInTurn_of_ok hfound hrespond] at hfault ⊢
        exact ih hfault

theorem batchBytes_append (front back : List ℕ) (h : Http1Handler) :
    batchBytes (front ++ back) h = batchBytes front h ++ batchBytes back h := by
  unfold batchBytes
  rw [List.map_append, List.flatten_append]

theorem batchBytes_singleton (streamId : ℕ) (h : Http1Handler) :
    batchBytes [streamId] h = h.responseOn streamId :=
  List.append_nil _

namespace Http1Handler

/-- The offset that `on_write` comes to with the first streams of its batch. -/
def offsetBehind (fuel : ℕ) (buffer : Bytes) (front : List ℕ) (h : Http1Handler) : ℕ :=
  (respondInTurn fuel front h.takeBatch { buffer := buffer, dataLen := 0 }).out.dataLen.toNat

/-- **What `on_write` emits for a stream of its batch.** The call returns, and in what it hands over
these are the bytes from the offset in front of the stream's turn up to the offset behind it. -/
def EmitsFor (streamId : ℕ) (bytes buffer : Bytes) (h : Http1Handler) : Prop :=
  ∃ fuel front back, h.batch = front ++ streamId :: back ∧
    (h.onWrite fuel buffer).fault = none ∧
    bytes = ((h.onWrite fuel buffer).out.written.take
      (h.offsetBehind fuel buffer (front ++ [streamId]))).drop (h.offsetBehind fuel buffer front)

/-- The offset behind the first streams of a batch is the number of their bytes. -/
theorem offsetBehind_eq {fuel : ℕ} {buffer : Bytes} {front back : List ℕ} {h : Http1Handler}
    (hsize : incStep ≤ buffer.length) (hbatch : h.batch = front ++ back)
    (hended : EndedBatch h.batch h) (hshort : ShortBodies h.batch h)
    (hfault : (h.onWrite fuel buffer).fault = none) :
    h.offsetBehind fuel buffer front = (batchBytes front h).length := by
  have hdistinct : h.batch.Nodup := h.sorted_getConsecutiveStreamIdsToRespond.imp Nat.ne_of_lt
  have hmem : ∀ id ∈ front, id ∈ h.batch :=
    fun id hid ↦ hbatch ▸ List.mem_append_left back hid
  have hsplit : (respondInTurn fuel (front ++ back) h.takeBatch
      { buffer := buffer, dataLen := 0 }).fault = none := by
    rw [onWrite_eq] at hfault
    rw [← hbatch]
    exact hfault
  obtain ⟨hwritten, hsound⟩ := @written_respondInTurn fuel front h.takeBatch
    { buffer := buffer, dataLen := 0 } (List.nodup_append.mp (hbatch ▸ hdistinct)).1
    (sound_start hsize) (fun id hid ↦ hended id (hmem id hid))
    (fun id hid ↦ hshort id (hmem id hid)) (fault_eq_none_of_append hsplit)
  have hlength := congrArg List.length hwritten
  have hle := hsound.le
  rw [Output.written, List.length_take, Nat.min_eq_left (by omega)] at hlength
  exact hlength

/-- Something is emitted for a stream of the batch exactly when there is room for the batch. -/
theorem exists_emitsFor_iff {streamId : ℕ} {buffer : Bytes} {h : Http1Handler}
    (hmem : streamId ∈ h.batch) (hended : EndedBatch h.batch h) :
    (∃ bytes, h.EmitsFor streamId bytes buffer) ↔
      RoomForBatch buffer.length 0 (batchSizes h.batch h) := by
  rw [← returns_onWrite_iff hended buffer]
  constructor
  · rintro ⟨bytes, fuel, front, back, -, hfault, -⟩
    exact ⟨fuel, hfault⟩
  · rintro ⟨fuel, hfault⟩
    obtain ⟨front, back, hbatch⟩ := List.append_of_mem hmem
    exact ⟨_, fuel, front, back, hbatch, hfault, rfl⟩

/-- What is emitted for a stream is its response. -/
theorem EmitsFor.eq_responseOn {streamId : ℕ} {bytes buffer : Bytes} {h : Http1Handler}
    (hemits : h.EmitsFor streamId bytes buffer) (hsize : incStep ≤ buffer.length)
    (hended : EndedBatch h.batch h) (hshort : ShortBodies h.batch h) :
    bytes = h.responseOn streamId := by
  obtain ⟨fuel, front, back, hbatch, hfault, rfl⟩ := hemits
  have hbatch' : h.batch = (front ++ [streamId]) ++ back := by
    rw [hbatch, List.append_assoc, List.singleton_append]
  rw [(written_onWrite hsize hended hshort hfault).1,
    offsetBehind_eq hsize hbatch hended hshort hfault,
    offsetBehind_eq hsize hbatch' hended hshort hfault, hbatch',
    batchBytes_append (front ++ [streamId]) back, List.take_left, batchBytes_append,
    List.drop_left, batchBytes_singleton]

/-- A call that returns emits the response of the stream for it. -/
theorem emitsFor_iff {streamId : ℕ} {bytes buffer : Bytes} {h : Http1Handler}
    (hsize : incStep ≤ buffer.length) (hmem : streamId ∈ h.batch)
    (hended : EndedBatch h.batch h) (hshort : ShortBodies h.batch h) :
    h.EmitsFor streamId bytes buffer ↔
      RoomForBatch buffer.length 0 (batchSizes h.batch h) ∧ bytes = h.responseOn streamId := by
  rw [← exists_emitsFor_iff hmem hended]
  refine ⟨fun hemits ↦ ⟨⟨bytes, hemits⟩, hemits.eq_responseOn hsize hended hshort⟩, ?_⟩
  rintro ⟨⟨emitted, hemits⟩, rfl⟩
  rwa [← hemits.eq_responseOn hsize hended hshort]

end Http1Handler

end Maock.Http1
