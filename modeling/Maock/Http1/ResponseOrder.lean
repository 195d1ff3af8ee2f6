import Maock.Foundation.TransitionSystem
import Maock.Http1.Handler

/-!
# Responses leave in request order

The runs of one HTTP/1 handler: requests arrive, every stream has one outcome (a response is started
or the stream is closed without one), and `on_write` is called, in any order. `Serving` keeps beside
the handler which streams were started and which responses were emitted.

A batch of `on_write` is a run of consecutive ready streams that begins at the smallest open stream
(`BatchReady`), so every open stream outside the batch is greater than all of it.
`respondInTurn_spec` says what the loop emits of such a batch, whatever fault ends it, and `InOrder`
is the invariant that a step keeps. The result is `responses_inOrder`.
-/

set_option autoImplicit false
set_option relaxedAutoImplicit false

namespace Maock.Http1

open Foundation Foundation.OrderedContainer Foundation.Bytes Foundation.TransitionSystem Http

/-! ### Batches -/

/-- A batch as `on_write` takes it: strictly increasing identifiers of open streams, with every
other open stream above all of them. -/
structure BatchReady (batch : List ℕ) (h : Http1Handler) : Prop where
  sorted : batch.Pairwise (· < ·)
  isOpen : ∀ id ∈ batch, id ∈ h.openIds
  least : ∀ id ∈ h.openIds, id ∈ batch ∨ ∀ taken ∈ batch, taken < id

namespace Http1Handler

theorem takeConsecutive_sublist (last : ℕ) (ready : List ℕ) :
    (takeConsecutive last ready).Sublist ready := by
  induction ready generalizing last with
  | nil => exact List.Sublist.slnil
  | cons next rest ih =>
    simp only [takeConsecutive]
    split_ifs
    · exact (ih next).cons_cons next
    · exact List.nil_sublist _

/-- The identifiers taken have no gap: a number from the first on is one of them or lies above
them. -/
theorem mem_or_lt_of_takeConsecutive {first id : ℕ} {rest : List ℕ}
    (hsorted : (first :: rest).Pairwise (· < ·)) (hid : first ≤ id) :
    id ∈ first :: takeConsecutive first rest ∨
      ∀ taken ∈ first :: takeConsecutive first rest, taken < id := by
  by_cases heq : id = first
  · exact Or.inl (heq ▸ List.mem_cons_self)
  · have hlt : first < id := by omega
    induction rest generalizing first with
    | nil => exact Or.inr fun taken htaken ↦ (List.mem_singleton.mp htaken) ▸ hlt
    | cons next rest ih =>
      have hnext : first < next := (List.pairwise_cons.mp hsorted).1 next List.mem_cons_self
      have htail := (List.pairwise_cons.mp hsorted).2
      simp only [takeConsecutive]
      by_cases hgap : next - first = 1
      · rw [if_pos hgap]
        by_cases hidNext : id = next
        · exact Or.inl (by simp [hidNext])
        · rcases ih htail (by omega) hidNext (by omega) with hmem | habove
          · exact Or.inl (List.mem_cons_of_mem first hmem)
          · refine Or.inr fun taken htaken ↦ ?_
            rcases List.mem_cons.mp htaken with rfl | htaken
            · exact hlt
            · exact habove taken htaken
      · rw [if_neg hgap]
        exact Or.inr fun taken htaken ↦ (List.mem_singleton.mp htaken) ▸ hlt

/-- The batch does not depend on the callback guard. -/
theorem getConsecutiveStreamIdsToRespond_insideCallback (h : Http1Handler) (inside : Bool) :
    ({ h with insideCallback := inside } : Http1Handler).getConsecutiveStreamIdsToRespond.1 =
      h.getConsecutiveStreamIdsToRespond.1 := by
  unfold getConsecutiveStreamIdsToRespond
  dsimp only
  split
  case h_2 => rfl
  case h_1 => split_ifs <;> rfl

/-- A batch strictly increases. -/
theorem sorted_getConsecutiveStreamIdsToRespond (h : Http1Handler) :
    h.getConsecutiveStreamIdsToRespond.1.Pairwise (· < ·) := by
  unfold getConsecutiveStreamIdsToRespond
  split
  case h_2 => exact List.Pairwise.nil
  case h_1 ready rest smallest others hids hstreams =>
    have hsorted : (ready :: rest).Pairwise (· < ·) := by
      simpa [hids] using h.streamIdsToRespond.sorted
    split_ifs
    · exact hsorted.sublist ((takeConsecutive_sublist ready rest).cons_cons ready)
    · exact List.Pairwise.nil

/-- Taking a batch removes it from the ready streams and changes nothing else. -/
theorem getConsecutiveStreamIdsToRespond_snd (h : Http1Handler) :
    h.getConsecutiveStreamIdsToRespond.2 = { h with
      streamIdsToRespond := h.streamIdsToRespond.removeIf fun id ↦
        h.getConsecutiveStreamIdsToRespond.1.contains id } := by
  have hnothing : h = { h with
      streamIdsToRespond := h.streamIdsToRespond.removeIf fun id ↦ [].contains id } := by
    have hsame : (h.streamIdsToRespond.removeIf fun id ↦ [].contains id) = h.streamIdsToRespond :=
      OrderedSet.ext (List.filter_eq_self.mpr fun _ _ ↦ rfl)
    rw [hsame]
  unfold getConsecutiveStreamIdsToRespond
  split
  case h_2 => exact hnothing
  case h_1 =>
    split_ifs
    · rfl
    · exact hnothing

/-- What `get_consecutive_stream_ids_to_respond` takes from a handler whose ready streams are open
is a batch that is ready. -/
theorem getConsecutiveStreamIdsToRespond_spec {h : Http1Handler}
    (hready : ∀ id ∈ h.streamIdsToRespond, id ∈ h.openIds) :
    BatchReady h.getConsecutiveStreamIdsToRespond.1 h ∧
      ∀ id ∈ h.getConsecutiveStreamIdsToRespond.1, id ∈ h.streamIdsToRespond := by
  have hnothing : BatchReady [] h ∧ ∀ id ∈ ([] : List ℕ), id ∈ h.streamIdsToRespond :=
    ⟨⟨List.Pairwise.nil, by simp, fun _ _ ↦ Or.inr (by simp)⟩, by simp⟩
  unfold getConsecutiveStreamIdsToRespond
  split
  case h_2 => exact hnothing
  case h_1 ready rest smallest others hids hstreams =>
    by_cases hfirst : ready = smallest.1
    · rw [if_pos hfirst]
      have hsortedIds : (ready :: rest).Pairwise (· < ·) := by
        simpa [hids] using h.streamIdsToRespond.sorted
      have hsub : (ready :: takeConsecutive ready rest).Sublist (ready :: rest) :=
        (takeConsecutive_sublist ready rest).cons_cons ready
      have hmem : ∀ id ∈ ready :: takeConsecutive ready rest, id ∈ h.streamIdsToRespond := by
        intro id hid
        rw [OrderedSet.mem_def, hids]
        exact hsub.subset hid
      refine ⟨⟨hsortedIds.sublist hsub, fun id hid ↦ hready id (hmem id hid), ?_⟩, hmem⟩
      intro id hid
      have hopenSorted := h.openIds_sorted
      have hopen : h.openIds = smallest.1 :: others.map Prod.fst := by
        rw [openIds, OrderedMap.keys, hstreams, List.map_cons]
      rw [hopen] at hid hopenSorted
      refine mem_or_lt_of_takeConsecutive hsortedIds ?_
      rcases List.mem_cons.mp hid with hid | hid
      · omega
      · have := (List.pairwise_cons.mp hopenSorted).1 id hid
        omega
    · rw [if_neg hfirst]
      exact hnothing

/-- The handler once `on_write` has taken its batch. -/
def takeBatch (h : Http1Handler) : Http1Handler :=
  { h with
    streamIdsToRespond := h.streamIdsToRespond.removeIf fun id ↦
      h.getConsecutiveStreamIdsToRespond.1.contains id
    insideCallback := true }

theorem mem_streamIdsToRespond_takeBatch {id : ℕ} {h : Http1Handler} :
    id ∈ h.takeBatch.streamIdsToRespond ↔
      id ∈ h.streamIdsToRespond ∧ id ∉ h.getConsecutiveStreamIdsToRespond.1 := by
  unfold takeBatch
  simp [OrderedSet.mem_removeIf]

/-- A call of `on_write` answers its batch in turn. -/
theorem onWrite_eq (fuel : ℕ) (buffer : Bytes) (h : Http1Handler) :
    h.onWrite fuel buffer =
      let writing := respondInTurn fuel h.getConsecutiveStreamIdsToRespond.1 h.takeBatch
        { buffer := buffer, dataLen := 0 }
      { writing with handler := { writing.handler with insideCallback := false } } := by
  let guarded : Http1Handler := { h with insideCallback := true }
  have hsame : guarded.getConsecutiveStreamIdsToRespond.1 = h.getConsecutiveStreamIdsToRespond.1 :=
    getConsecutiveStreamIdsToRespond_insideCallback h true
  have hleft := getConsecutiveStreamIdsToRespond_snd guarded
  rw [hsame] at hleft
  unfold onWrite
  rw [show ({ h with insideCallback := true } : Http1Handler) = guarded from rfl]
  rcases hget : guarded.getConsecutiveStreamIdsToRespond with ⟨batch, rest⟩
  rw [hget] at hsame hleft
  dsimp only at hsame hleft ⊢
  rw [hsame, hleft]
  rfl

end Http1Handler

/-- What the loop of `on_write` does with a batch that is ready, whatever ends it. It never follows
a null pointer, and emits the batch from its beginning on; the streams it closes are among those it
emits, no open stream lies below an emitted one, and without a fault the whole batch is emitted and
closed. -/
structure EmitsInOrder (batch : List ℕ) (h : Http1Handler) (writing : Writing) : Prop where
  notNull : writing.fault ≠ some .nullStream
  emitted_prefix : writing.emitted <+: batch
  ready_same : writing.handler.streamIdsToRespond = h.streamIdsToRespond
  requestCount_same : writing.handler.requestCount = h.requestCount
  open_subset : ∀ id ∈ writing.handler.openIds, id ∈ h.openIds
  open_outside : ∀ id ∈ h.openIds, id ∉ batch → id ∈ writing.handler.openIds
  emitted_le : ∀ emitted ∈ writing.emitted, ∀ id ∈ writing.handler.openIds, emitted ≤ id
  emitted_lt : writing.fault = none → ∀ emitted ∈ writing.emitted,
    ∀ id ∈ writing.handler.openIds, emitted < id

section Batch

variable {streamId : ℕ} {rest : List ℕ} {h : Http1Handler}

/-- The first stream of a batch is the oldest one. -/
theorem BatchReady.head_le (hbatch : BatchReady (streamId :: rest) h) :
    ∀ id ∈ h.openIds, streamId ≤ id := by
  obtain ⟨hbelow, -⟩ := List.pairwise_cons.mp hbatch.sorted
  intro id hid
  rcases hbatch.least id hid with hmem | habove
  · rcases List.mem_cons.mp hmem with rfl | hmem
    · exact Nat.le_refl _
    · exact Nat.le_of_lt (hbelow id hmem)
  · exact Nat.le_of_lt (habove streamId List.mem_cons_self)

/-- Behind its first stream the rest of a batch is ready. -/
theorem BatchReady.closeStream (hbatch : BatchReady (streamId :: rest) h) :
    BatchReady rest (h.closeStream streamId) := by
  obtain ⟨hbelow, hsortedRest⟩ := List.pairwise_cons.mp hbatch.sorted
  refine ⟨hsortedRest, fun id hid ↦ ?_, fun id hid ↦ ?_⟩
  · exact Http1Handler.mem_openIds_closeStream.mpr
      ⟨hbatch.isOpen id (List.mem_cons_of_mem streamId hid), Nat.ne_of_gt (hbelow id hid)⟩
  · obtain ⟨hopen, hne⟩ := Http1Handler.mem_openIds_closeStream.mp hid
    rcases hbatch.least id hopen with hmem | habove
    · exact Or.inl ((List.mem_cons.mp hmem).resolve_left hne)
    · exact Or.inr fun taken htaken ↦ habove taken (List.mem_cons_of_mem streamId htaken)

/-- The oldest stream in front of what is emitted in order. -/
theorem EmitsInOrder.cons {writing : Writing} (hspec : EmitsInOrder rest (h.closeStream streamId)
    writing) (hleast : ∀ id ∈ h.openIds, streamId ≤ id) :
    EmitsInOrder (streamId :: rest) h { writing with emitted := streamId :: writing.emitted } := by
  have hstreamLt : ∀ id ∈ writing.handler.openIds, streamId < id := by
    intro id hid
    obtain ⟨hopen, hne⟩ := Http1Handler.mem_openIds_closeStream.mp (hspec.open_subset id hid)
    exact Nat.lt_of_le_of_ne (hleast id hopen) hne.symm
  refine ⟨hspec.notNull, List.cons_prefix_cons.mpr ⟨rfl, hspec.emitted_prefix⟩,
    hspec.ready_same, hspec.requestCount_same, fun id hid ↦ ?_, fun id hid hnot ↦ ?_,
    fun emitted hemitted id hid ↦ ?_, fun hfault emitted hemitted id hid ↦ ?_⟩
  · exact (Http1Handler.mem_openIds_closeStream.mp (hspec.open_subset id hid)).1
  · rw [List.mem_cons, not_or] at hnot
    exact hspec.open_outside id
      (Http1Handler.mem_openIds_closeStream.mpr ⟨hid, hnot.1⟩) hnot.2
  · rcases List.mem_cons.mp hemitted with rfl | hemitted
    · exact Nat.le_of_lt (hstreamLt id hid)
    · exact hspec.emitted_le emitted hemitted id hid
  · rcases List.mem_cons.mp hemitted with rfl | hemitted
    · exact hstreamLt id hid
    · exact hspec.emitted_lt hfault emitted hemitted id hid

end Batch

/-- The loop emits a batch that is ready in order. -/
theorem respondInTurn_spec (fuel : ℕ) {batch : List ℕ} {h : Http1Handler} (out : Output)
    (hbatch : BatchReady batch h) : EmitsInOrder batch h (respondInTurn fuel batch h out) := by
  induction batch generalizing h out with
  | nil =>
    exact ⟨by simp [respondInTurn], List.prefix_refl _, rfl, rfl, fun _ hid ↦ hid,
      fun _ hid _ ↦ hid, by simp [respondInTurn], by simp [respondInTurn]⟩
  | cons streamId rest ih =>
    obtain ⟨strm, hfound⟩ := Option.isSome_iff_exists.mp
      (Http1Handler.isSome_findStream_iff.mpr (hbatch.isOpen streamId List.mem_cons_self))
    simp only [respondInTurn, hfound]
    cases hrespond : respond fuel h.shouldKeepAlive strm out with
    | error fault =>
      have hfault : fault ≠ .nullStream := respond_ne_nullStream hrespond
      exact ⟨by simpa using hfault, ⟨rest, rfl⟩, rfl, rfl, fun _ hid ↦ hid, fun _ hid _ ↦ hid,
        fun emitted hemitted ↦ (List.mem_singleton.mp hemitted) ▸ hbatch.head_le, by simp⟩
    | ok out => exact (ih out hbatch.closeStream).cons hbatch.head_le

/-! ### Runs of a handler -/

/-- What may happen to a handler that serves requests. -/
inductive HandlerEvent where
  /-- A request arrives. -/
  | messageBegin
  /-- A stream's outcome is this response. -/
  | startResponse (streamId : ℕ) (response : AsioServerResponse)
  /-- A stream's outcome is to be closed without a response. -/
  | closeStream (streamId : ℕ)
  /-- `on_write` is called with a buffer, and its loops run for at most `fuel` turns. -/
  | onWrite (fuel : ℕ) (buffer : Bytes)

/-- A handler with the streams whose responses were started and, in order, those whose responses
`on_write` has emitted; `halted` when a call of `on_write` has not returned. -/
structure Serving where
  handler : Http1Handler
  started : List ℕ
  emitted : List ℕ
  halted : Bool

namespace Serving

/-- A handler before its first request. -/
def initial : Serving where
  handler := Http1Handler.initial
  started := []
  emitted := []
  halted := false

/-- A stream that has no outcome yet. -/
def Undecided (streamId : ℕ) (s : Serving) : Prop :=
  streamId ∈ s.handler.openIds ∧ streamId ∉ s.handler.streamIdsToRespond.elems

instance decidableUndecided (streamId : ℕ) (s : Serving) : Decidable (s.Undecided streamId) :=
  inferInstanceAs (Decidable (_ ∧ _))

/-- One event. Fewer than `2 ^ 31` requests are served, a stream has one outcome, and nothing
happens any more once a call of `on_write` has not returned. -/
def step (s : Serving) (event : HandlerEvent) : Option Serving :=
  if s.halted then none
  else
    match event with
    | .messageBegin =>
      if s.handler.requestCount + 1 < 2 ^ 31 then some { s with handler := s.handler.messageBegin }
      else none
    | .startResponse streamId response =>
      if s.Undecided streamId then
        let h := s.handler.modifyStream streamId fun strm ↦ { strm with response := response }
        some { s with
          handler := (h.startResponse streamId).1
          started := streamId :: s.started }
      else none
    | .closeStream streamId =>
      if s.Undecided streamId then some { s with handler := s.handler.closeStream streamId }
      else none
    | .onWrite fuel buffer =>
      let writing := s.handler.onWrite fuel buffer
      some { s with
        handler := writing.handler
        emitted := s.emitted ++ writing.emitted
        halted := writing.fault.isSome }

/-- The invariant of the runs. While the handler is not halted every emitted identifier is below
every open one, which keeps the next batch above what was emitted before. -/
structure InOrder (s : Serving) : Prop where
  ready_open : ∀ id ∈ s.handler.streamIdsToRespond, id ∈ s.handler.openIds
  ready_started : ∀ id ∈ s.handler.streamIdsToRespond, id ∈ s.started
  emitted_sorted : s.emitted.Pairwise (· < ·)
  emitted_started : ∀ id ∈ s.emitted, id ∈ s.started
  emitted_le_count : ∀ id ∈ s.emitted, id ≤ s.handler.requestCount
  open_le_count : ∀ id ∈ s.handler.openIds, id ≤ s.handler.requestCount
  emitted_le : ∀ emitted ∈ s.emitted, ∀ id ∈ s.handler.openIds, emitted ≤ id
  emitted_lt : s.halted = false → ∀ emitted ∈ s.emitted, ∀ id ∈ s.handler.openIds, emitted < id

theorem inOrder_initial : InOrder initial :=
  ⟨fun id hid ↦ absurd hid (OrderedSet.not_mem_empty id), fun id hid ↦
    absurd hid (OrderedSet.not_mem_empty id), List.Pairwise.nil, by simp [initial],
    by simp [initial], fun _ hid ↦ absurd hid List.not_mem_nil, by simp [initial],
    by simp [initial]⟩

/-- What a call of `on_write` emits in a handler whose ready streams are open. -/
theorem onWrite_spec {h : Http1Handler} (hready : ∀ id ∈ h.streamIdsToRespond, id ∈ h.openIds)
    (fuel : ℕ) (buffer : Bytes) :
    ∃ batch, BatchReady batch h ∧ (∀ id ∈ batch, id ∈ h.streamIdsToRespond) ∧
      EmitsInOrder batch
        { h with streamIdsToRespond := h.streamIdsToRespond.removeIf fun id ↦ batch.contains id }
        (h.onWrite fuel buffer) := by
  obtain ⟨hbatch, hsubset⟩ := Http1Handler.getConsecutiveStreamIdsToRespond_spec hready
  refine ⟨h.getConsecutiveStreamIdsToRespond.1, hbatch, hsubset, ?_⟩
  have htaken : BatchReady h.getConsecutiveStreamIdsToRespond.1 h.takeBatch :=
    ⟨hbatch.sorted, hbatch.isOpen, hbatch.least⟩
  have hspec := respondInTurn_spec fuel { buffer := buffer, dataLen := 0 } htaken
  rw [Http1Handler.onWrite_eq]
  exact ⟨hspec.notNull, hspec.emitted_prefix, hspec.ready_same, hspec.requestCount_same,
    hspec.open_subset, hspec.open_outside, hspec.emitted_le, hspec.emitted_lt⟩

/-- The invariant survives a new message: its stream lies above every identifier in use. -/
theorem InOrder.messageBegin {s : Serving} (hinv : InOrder s) (hrunning : s.halted = false) :
    InOrder { s with handler := s.handler.messageBegin } := by
  have hnew : ∀ id ∈ s.handler.messageBegin.openIds,
      id ∈ s.handler.openIds ∨ id = s.handler.requestCount + 1 := fun id hid ↦
    Http1Handler.mem_openIds_messageBegin.mp hid
  refine ⟨fun id hid ↦ Http1Handler.mem_openIds_messageBegin.mpr
      (Or.inl (hinv.ready_open id hid)), hinv.ready_started, hinv.emitted_sorted,
    hinv.emitted_started, fun id hid ↦ Nat.le_succ_of_le (hinv.emitted_le_count id hid),
    fun id hid ↦ ?_, fun emitted hmem id hid ↦ ?_, fun _ emitted hmem id hid ↦ ?_⟩
  · rcases hnew id hid with hopen | rfl
    · exact Nat.le_succ_of_le (hinv.open_le_count id hopen)
    · exact Nat.le_refl _
  · rcases hnew id hid with hopen | rfl
    · exact hinv.emitted_le emitted hmem id hopen
    · exact Nat.le_succ_of_le (hinv.emitted_le_count emitted hmem)
  · rcases hnew id hid with hopen | rfl
    · exact hinv.emitted_lt hrunning emitted hmem id hopen
    · exact Nat.lt_succ_of_le (hinv.emitted_le_count emitted hmem)

/-- The invariant survives the start of a response on a stream without an outcome. -/
theorem InOrder.startResponse {s : Serving} (hinv : InOrder s) (hrunning : s.halted = false)
    {streamId : ℕ} (hundecided : s.Undecided streamId) (response : AsioServerResponse) :
    InOrder { s with
      handler := ((s.handler.modifyStream streamId fun strm ↦
        { strm with response := response }).startResponse streamId).1
      started := streamId :: s.started } := by
  have hopen : ∀ id, id ∈ ((s.handler.modifyStream streamId fun strm ↦
      { strm with response := response }).startResponse streamId).1.openIds ↔
        id ∈ s.handler.openIds := by simp
  have hcount : ((s.handler.modifyStream streamId fun strm ↦
      { strm with response := response }).startResponse streamId).1.requestCount =
        s.handler.requestCount := by
    rw [Http1Handler.requestCount_startResponse]
    rfl
  refine ⟨fun id hid ↦ ?_, fun id hid ↦ ?_, hinv.emitted_sorted,
    fun id hid ↦ List.mem_cons_of_mem streamId (hinv.emitted_started id hid),
    fun id hid ↦ hcount ▸ hinv.emitted_le_count id hid,
    fun id hid ↦ hcount ▸ hinv.open_le_count id ((hopen id).mp hid),
    fun emitted hmem id hid ↦ hinv.emitted_le emitted hmem id ((hopen id).mp hid),
    fun _ emitted hmem id hid ↦ hinv.emitted_lt hrunning emitted hmem id ((hopen id).mp hid)⟩
  · refine (hopen id).mpr ?_
    rcases Http1Handler.mem_streamIdsToRespond_startResponse.mp hid with hid | rfl
    · exact hinv.ready_open id hid
    · exact hundecided.1
  · rcases Http1Handler.mem_streamIdsToRespond_startResponse.mp hid with hid | rfl
    · exact List.mem_cons_of_mem streamId (hinv.ready_started id hid)
    · exact List.mem_cons_self

/-- The invariant survives that a stream without an outcome is closed. -/
theorem InOrder.closeStream {s : Serving} (hinv : InOrder s) (hrunning : s.halted = false)
    {streamId : ℕ} (hundecided : s.Undecided streamId) :
    InOrder { s with handler := s.handler.closeStream streamId } := by
  have hopen : ∀ id ∈ (s.handler.closeStream streamId).openIds, id ∈ s.handler.openIds :=
    fun id hid ↦ (Http1Handler.mem_openIds_closeStream.mp hid).1
  refine ⟨fun id hid ↦ ?_, hinv.ready_started, hinv.emitted_sorted, hinv.emitted_started,
    hinv.emitted_le_count, fun id hid ↦ hinv.open_le_count id (hopen id hid),
    fun emitted hmem id hid ↦ hinv.emitted_le emitted hmem id (hopen id hid),
    fun _ emitted hmem id hid ↦ hinv.emitted_lt hrunning emitted hmem id (hopen id hid)⟩
  refine Http1Handler.mem_openIds_closeStream.mpr ⟨hinv.ready_open id hid, fun heq ↦ ?_⟩
  exact hundecided.2 (heq ▸ hid)

/-- The invariant survives a call of `on_write`. -/
theorem InOrder.onWrite {s : Serving} (hinv : InOrder s) (hrunning : s.halted = false) (fuel : ℕ)
    (buffer : Bytes) :
    InOrder { s with
      handler := (s.handler.onWrite fuel buffer).handler
      emitted := s.emitted ++ (s.handler.onWrite fuel buffer).emitted
      halted := (s.handler.onWrite fuel buffer).fault.isSome } := by
  obtain ⟨batch, hbatch, hsubset, hemits⟩ := onWrite_spec hinv.ready_open fuel buffer
  have hemitted : ∀ id ∈ (s.handler.onWrite fuel buffer).emitted, id ∈ batch :=
    hemits.emitted_prefix.subset
  have hready : ∀ id ∈ (s.handler.onWrite fuel buffer).handler.streamIdsToRespond,
      id ∈ s.handler.streamIdsToRespond ∧ id ∉ batch := by
    intro id hid
    rw [hemits.ready_same] at hid
    obtain ⟨hmem, hnot⟩ := OrderedSet.mem_removeIf.mp hid
    exact ⟨hmem, by simpa using hnot⟩
  refine ⟨fun id hid ↦ ?_, fun id hid ↦ hinv.ready_started id (hready id hid).1, ?_,
    fun id hid ↦ ?_, fun id hid ↦ ?_, fun id hid ↦ ?_, fun emitted hmem id hid ↦ ?_,
    fun hfault emitted hmem id hid ↦ ?_⟩
  · exact hemits.open_outside id (hinv.ready_open id (hready id hid).1) (hready id hid).2
  · refine List.pairwise_append.mpr ⟨hinv.emitted_sorted,
      hbatch.sorted.sublist hemits.emitted_prefix.sublist, fun old hold new hnew ↦ ?_⟩
    exact hinv.emitted_lt hrunning old hold new (hbatch.isOpen new (hemitted new hnew))
  · rcases List.mem_append.mp hid with hid | hid
    · exact hinv.emitted_started id hid
    · exact hinv.ready_started id (hsubset id (hemitted id hid))
  · rw [hemits.requestCount_same]
    rcases List.mem_append.mp hid with hid | hid
    · exact hinv.emitted_le_count id hid
    · exact hinv.open_le_count id (hbatch.isOpen id (hemitted id hid))
  · rw [hemits.requestCount_same]
    exact hinv.open_le_count id (hemits.open_subset id hid)
  · rcases List.mem_append.mp hmem with hmem | hmem
    · exact hinv.emitted_le emitted hmem id (hemits.open_subset id hid)
    · exact hemits.emitted_le emitted hmem id hid
  · rcases List.mem_append.mp hmem with hmem | hmem
    · exact hinv.emitted_lt hrunning emitted hmem id (hemits.open_subset id hid)
    · exact hemits.emitted_lt (by simpa using hfault) emitted hmem id hid

/-- One step keeps the invariant. -/
theorem inOrder_step (s : Serving) (event : HandlerEvent) (next : Serving) (hinv : InOrder s)
    (hstep : s.step event = some next) : InOrder next := by
  unfold step at hstep
  by_cases hhalted : s.halted = true
  · simp [hhalted] at hstep
  rw [if_neg hhalted] at hstep
  have hrunning : s.halted = false := by simpa using hhalted
  cases event with
  | messageBegin =>
    simp only [Option.ite_none_right_eq_some, Option.some_inj] at hstep
    obtain ⟨_, rfl⟩ := hstep
    exact hinv.messageBegin hrunning
  | startResponse streamId response =>
    simp only [Option.ite_none_right_eq_some, Option.some_inj] at hstep
    obtain ⟨hundecided, rfl⟩ := hstep
    exact hinv.startResponse hrunning hundecided response
  | closeStream streamId =>
    simp only [Option.ite_none_right_eq_some, Option.some_inj] at hstep
    obtain ⟨hundecided, rfl⟩ := hstep
    exact hinv.closeStream hrunning hundecided
  | onWrite fuel buffer =>
    rw [Option.some_inj] at hstep
    exact hstep ▸ hinv.onWrite hrunning fuel buffer

/-- Responses leave in request order. After any events: ready streams are open; the streams whose
responses were emitted are strictly increasing, were started and lie below no smaller open stream;
and `on_write` follows no null pointer. -/
theorem responses_inOrder (events : List HandlerEvent) (s : Serving)
    (hrun : run step initial events = some s) :
    (∀ id ∈ s.handler.streamIdsToRespond, id ∈ s.handler.openIds) ∧
      s.emitted.Pairwise (· < ·) ∧ (∀ id ∈ s.emitted, id ∈ s.started) ∧
      (∀ emitted ∈ s.emitted, ∀ id ∈ s.handler.openIds, ¬ id < emitted) ∧
      ∀ fuel buffer, (s.handler.onWrite fuel buffer).fault ≠ some .nullStream := by
  have hinv : InOrder s := invariant_run inOrder_step inOrder_initial hrun
  refine ⟨hinv.ready_open, hinv.emitted_sorted, hinv.emitted_started, ?_, fun fuel buffer ↦ ?_⟩
  · intro emitted hmem id hid
    exact Nat.not_lt.mpr (hinv.emitted_le emitted hmem id hid)
  · obtain ⟨_, _, _, hemits⟩ := onWrite_spec hinv.ready_open fuel buffer
    exact hemits.notNull

/-- Two pipelined requests, the second of which is answered first; `on_write` is called after each
answer. -/
def outOfTurn : List HandlerEvent :=
  let response := AsioServerResponse.initial.endString (ascii "GET") []
  let buffer := List.replicate 64 0
  [.messageBegin, .messageBegin, .startResponse 2 response, .onWrite 1 buffer,
    .startResponse 1 response, .onWrite 1 buffer]

theorem responses_inOrder_outOfTurn :
    ∃ s, run step initial outOfTurn = some s ∧ s.emitted = [1, 2] ∧
      s.emitted.Pairwise (· < ·) := by
  have hemitted : (run step initial outOfTurn).map Serving.emitted = some [1, 2] := by
    decide +kernel
  obtain ⟨s, hrun, hs⟩ := Option.map_eq_some_iff.mp hemitted
  exact ⟨s, hrun, hs, (responses_inOrder outOfTurn s hrun).2.1⟩

end Serving

end Maock.Http1
