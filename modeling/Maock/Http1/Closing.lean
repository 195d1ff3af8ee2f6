import Maock.Http1.Connection

/-!
# When an HTTP/1 connection is closed

`do_write` closes a connection when it has nothing to write and the request read last does not keep
the connection alive. It has nothing to write exactly when the oldest open stream is not ready
(`Http1Handler.OldestReady`), which includes that its response is with a script on another thread.

`consistent_step` says that every event keeps the invariant `Consistent` as long as the `do_write`
of the event does not find a response pending in this situation, and `not_pending_of_stopped` says
the same of runs. `stopped_doWrite_of_not_oldestReady` is the other direction for one call.
-/

set_option autoImplicit false
set_option relaxedAutoImplicit false

namespace Maock.Http1

open Foundation Foundation.OrderedContainer Foundation.Bytes Foundation.TransitionSystem Http

namespace Connection

/-! ### Writing keeps the invariant -/

/-- The invariant does not speak of the buffer, the tasks posted and where writing stands. -/
theorem Consistent.frame {c : Connection} (hinv : Consistent c) (outbuf : Bytes)
    (writing : Bool) (posted : ℕ) (halted : Bool) : Consistent { c with
      outbuf := outbuf, writing := writing, posted := posted, halted := halted } :=
  ⟨hinv.ready_open, hinv.ready_dispatched, hinv.dispatched_le, hinv.receiving_fresh,
    hinv.offloaded_nodup, hinv.offloaded_dispatched, hinv.offloaded_unready, hinv.answered⟩

/-- The connection behind a call of `on_write`. -/
theorem Consistent.onWrite {c : Connection} (hinv : Consistent c) (fuel : ℕ) (buffer : Bytes) :
    Consistent { c with handler := (c.handler.onWrite fuel buffer).handler } := by
  obtain ⟨batch, hbatch, hsubset, hemits⟩ := Serving.onWrite_spec hinv.ready_open fuel buffer
  have hready : ∀ id ∈ (c.handler.onWrite fuel buffer).handler.streamIdsToRespond,
      id ∈ c.handler.streamIdsToRespond ∧ id ∉ batch := by
    intro id hid
    rw [hemits.ready_same] at hid
    obtain ⟨hmem, hnot⟩ := OrderedSet.mem_removeIf.mp hid
    exact ⟨hmem, by simpa using hnot⟩
  refine ⟨fun id hid ↦ ?_, fun id hid ↦ hinv.ready_dispatched id (hready id hid).1,
    fun id hid ↦ ?_, fun hreceiving ↦ ?_, hinv.offloaded_nodup, hinv.offloaded_dispatched,
    fun id hid hmem ↦ hinv.offloaded_unready id hid (hready id hmem).1, fun hstopped ↦ ?_⟩
  · exact hemits.open_outside id (hinv.ready_open id (hready id hid).1) (hready id hid).2
  · rw [hemits.requestCount_same]
    exact hinv.dispatched_le id hid
  · rw [hemits.requestCount_same]
    exact hinv.receiving_fresh hreceiving
  · rintro ⟨id, hid, hopen⟩
    exact hinv.answered hstopped ⟨id, hid, hemits.open_subset id hopen⟩

/-- A connection that has no dispatched stream open is stopped. -/
theorem Consistent.stop {c : Connection} (hinv : Consistent c) (hanswered : ¬ c.Pending) :
    Consistent c.stop :=
  ⟨hinv.ready_open, hinv.ready_dispatched, hinv.dispatched_le, hinv.receiving_fresh,
    hinv.offloaded_nodup, hinv.offloaded_dispatched, hinv.offloaded_unready, fun _ ↦ hanswered⟩

/-- When `do_write` closes the connection although a response is pending, the oldest open stream is
not ready, or there is a body of `2 ^ 31` bytes. This says that it does not. -/
def Answers (c : Connection) : Prop :=
  c.writing = false → c.handler.shouldStop = true → c.Pending →
    c.handler.OldestReady ∧ c.handler.SmallBodies

instance (c : Connection) : Decidable c.Answers :=
  inferInstanceAs (Decidable (c.writing = false → c.handler.shouldStop = true → c.Pending →
    c.handler.OldestReady ∧ c.handler.SmallBodies))

/-- `do_write` keeps the invariant when it does not close the connection under a pending
response. -/
theorem Consistent.doWrite {c : Connection} (hinv : Consistent c) (hanswers : c.Answers)
    (fuel : ℕ) : Consistent (c.doWrite fuel) := by
  unfold Connection.doWrite
  by_cases hidle : (c.stopped || c.writing) = true
  · rw [if_pos hidle]
    exact hinv
  rw [if_neg hidle]
  obtain ⟨-, hwriting⟩ : c.stopped = false ∧ c.writing = false := by simpa using hidle
  have hwritten := hinv.onWrite fuel c.outbuf
  dsimp only
  split_ifs with hfault hempty hstop
  · exact hwritten.frame _ c.writing c.posted true
  · -- nothing was written: the oldest open stream was not ready
    refine Consistent.stop (hwritten.frame _ c.writing c.posted c.halted) ?_
    rintro ⟨id, hid, hopen⟩
    obtain ⟨_, _, _, hemits⟩ := Serving.onWrite_spec hinv.ready_open fuel c.outbuf
    have hkeepAlive : c.handler.shouldStop = true := by
      unfold Http1Handler.shouldStop at hstop ⊢
      rwa [Http1Handler.shouldKeepAlive_onWrite] at hstop
    obtain ⟨holdest, hsmall⟩ := hanswers hwriting hkeepAlive ⟨id, hid, hemits.open_subset id hopen⟩
    have hpos := Http1Handler.dataLen_onWrite_pos hinv.ready_open hsmall holdest
      (Option.not_isSome_iff_eq_none.mp hfault)
    exact absurd hempty (Int.ne_of_gt hpos)
  · exact hwritten.frame _ c.writing c.posted c.halted
  · exact hwritten.frame _ true c.posted c.halted

/-- Behind `do_write`, a connection that is to be closed and does not write is closed. -/
theorem stopped_doWrite {c : Connection} {fuel : ℕ} (hhalted : (c.doWrite fuel).halted = false)
    (hwriting : (c.doWrite fuel).writing = false)
    (hstop : (c.doWrite fuel).handler.shouldStop = true) : (c.doWrite fuel).stopped = true := by
  unfold doWrite at hhalted hwriting hstop ⊢
  by_cases hidle : (c.stopped || c.writing) = true
  · rw [if_pos hidle] at hwriting ⊢
    rwa [hwriting, Bool.or_false] at hidle
  rw [if_neg hidle] at hhalted hwriting hstop ⊢
  dsimp only at hhalted hwriting hstop ⊢
  split_ifs at hhalted hwriting hstop ⊢ with hfault hempty hkeep
  · rfl
  · exact absurd hstop hkeep

/-- The second check of the read handler adds nothing to that of `do_write`. -/
theorem afterRead_eq_doWrite (fuel : ℕ) (c : Connection) : c.afterRead fuel = c.doWrite fuel := by
  unfold afterRead
  dsimp only
  split_ifs with hstop
  · obtain ⟨⟨hhalted, hwriting⟩, hkeep⟩ : ((c.doWrite fuel).halted = false ∧
        (c.doWrite fuel).writing = false) ∧ (c.doWrite fuel).handler.shouldStop = true := by
      simpa using hstop
    have hstopped := stopped_doWrite hhalted hwriting hkeep
    show { c.doWrite fuel with stopped := true } = c.doWrite fuel
    rw [← hstopped]
  · rfl

/-! ### Events keep the invariant -/

/-- A script is no longer under way. -/
theorem Consistent.scriptBack {c : Connection} (hinv : Consistent c) (streamId : ℕ) :
    Consistent { c with offloaded := c.offloaded.erase streamId } :=
  ⟨hinv.ready_open, hinv.ready_dispatched, hinv.dispatched_le, hinv.receiving_fresh,
    hinv.offloaded_nodup.erase streamId,
    fun id hid ↦ hinv.offloaded_dispatched id (List.mem_of_mem_erase hid),
    fun id hid ↦ hinv.offloaded_unready id (List.mem_of_mem_erase hid), hinv.answered⟩

/-- The posted `send_response` of a script keeps the invariant. -/
theorem Consistent.finishScript {c : Connection} (hinv : Consistent c) {streamId : ℕ}
    (hoffloaded : streamId ∈ c.offloaded) (response : Option AsioServerResponse) :
    Consistent (c.finishScript streamId response) := by
  have hback := hinv.scriptBack streamId
  unfold Connection.finishScript sendResponse
  cases response with
  | none => exact hback.closeStream (hinv.offloaded_unready streamId hoffloaded)
  | some response =>
    dsimp only
    split_ifs with hopen
    · exact hback.start (Http1Handler.isSome_findStream_iff.mp hopen)
        (hinv.offloaded_dispatched streamId hoffloaded) hinv.offloaded_nodup.not_mem_erase response
    · exact hback

/-- What comes before `do_write` keeps the invariant. -/
theorem Consistent.beforeWrite {config : TlsConfig} {c before : Connection} (hinv : Consistent c)
    {event : Event} (hbefore : c.beforeWrite config event = some before) : Consistent before := by
  unfold Connection.beforeWrite at hbefore
  cases event with
  | readCompletion received fuel =>
    dsimp only at hbefore
    split_ifs at hbefore with hstopped
    exact (hinv.onRead (Bool.eq_false_iff.mpr hstopped) hbefore).1
  | writeCompletion fuel =>
    dsimp only at hbefore
    split_ifs at hbefore
    rw [← Option.some_inj.mp hbefore]
    exact hinv.frame c.outbuf false c.posted c.halted
  | initiateWrite fuel =>
    dsimp only at hbefore
    split_ifs at hbefore
    rw [← Option.some_inj.mp hbefore]
    have hsignaled : Consistent
        { c with handler := { c.handler with writeSignaled := false } } :=
      hinv.of_sameStreams ⟨rfl, rfl, rfl⟩
    exact hsignaled.frame c.outbuf c.writing (c.posted - 1) c.halted
  | scriptCompletion streamId response => exact absurd hbefore (by simp)

/-- The condition of an event: fewer than `2 ^ 31` requests have begun, and the `do_write` of the
event does not close the connection under a pending response. -/
def AnswersOn (config : TlsConfig) (c : Connection) (event : Event) : Prop :=
  ∀ before, c.beforeWrite config event = some before →
    before.handler.requestCount < 2 ^ 31 ∧ before.Answers

instance (config : TlsConfig) (c : Connection) (event : Event) :
    Decidable (c.AnswersOn config event) :=
  inferInstanceAs (Decidable (∀ before, c.beforeWrite config event = some before →
    before.handler.requestCount < 2 ^ 31 ∧ before.Answers))

/-- What an event comes to: `do_write` behind what comes before it, or the posted `send_response` of
a script. -/
theorem step_cases {config : TlsConfig} {c next : Connection} {event : Event}
    (hstep : c.step config event = some next) :
    (∃ before fuel, c.beforeWrite config event = some before ∧ next = before.doWrite fuel) ∨
      ∃ streamId response, event = .scriptCompletion streamId response ∧ streamId ∈ c.offloaded ∧
        next = c.finishScript streamId response := by
  have hwrite : ∀ fuel, (c.beforeWrite config event).map (Connection.doWrite fuel) = some next →
      ∃ before fuel, c.beforeWrite config event = some before ∧ next = before.doWrite fuel := by
    intro fuel hnext
    obtain ⟨before, hbefore, rfl⟩ := Option.map_eq_some_iff.mp hnext
    exact ⟨before, fuel, hbefore, rfl⟩
  unfold step at hstep
  split_ifs at hstep
  cases event with
  | readCompletion received fuel =>
    dsimp only at hstep
    rw [show afterRead fuel = Connection.doWrite fuel from funext (afterRead_eq_doWrite fuel)]
      at hstep
    exact Or.inl (hwrite fuel hstep)
  | writeCompletion fuel => exact Or.inl (hwrite fuel hstep)
  | initiateWrite fuel => exact Or.inl (hwrite fuel hstep)
  | scriptCompletion streamId response =>
    dsimp only at hstep
    split_ifs at hstep with hoffloaded
    exact Or.inr ⟨streamId, response, rfl, hoffloaded, (Option.some_inj.mp hstep).symm⟩

/-- One event that meets the condition keeps the invariant. -/
theorem consistent_step {config : TlsConfig} (c : Connection) (event : Event) (next : Connection)
    (hinv : Consistent c) (hanswers : c.AnswersOn config event)
    (hstep : c.step config event = some next) : Consistent next := by
  rcases step_cases hstep with
    ⟨before, fuel, hbefore, rfl⟩ | ⟨streamId, response, rfl, hoffloaded, rfl⟩
  · exact (hinv.beforeWrite hbefore).doWrite (hanswers before hbefore).2 fuel
  · exact hinv.finishScript hoffloaded response

/-! ### Runs -/

/-- Where no answer is ready for the oldest open stream, a connection that is to be closed is closed
by `do_write`, whatever is pending. -/
theorem stopped_doWrite_of_not_oldestReady {c : Connection} (hinv : Consistent c)
    (hrunning : c.stopped = false) (hwriting : c.writing = false)
    (hstop : c.handler.shouldStop = true) (hpending : c.Pending)
    (holdest : ¬ c.handler.OldestReady) (fuel : ℕ) :
    (c.doWrite fuel).stopped = true ∧ (c.doWrite fuel).Pending := by
  obtain ⟨hfault, hempty, hopen, hkeepAlive⟩ :=
    Http1Handler.onWrite_of_not_oldestReady hinv.ready_open holdest fuel c.outbuf
  have hstop' : (c.handler.onWrite fuel c.outbuf).handler.shouldStop = true := by
    unfold Http1Handler.shouldStop at hstop ⊢
    rwa [hkeepAlive]
  unfold doWrite
  simp only [hrunning, hwriting, hfault, hempty, hstop', Bool.or_self, Bool.false_eq_true,
    Option.isSome_none, if_false, if_true]
  obtain ⟨id, hid, hidOpen⟩ := hpending
  refine ⟨rfl, id, hid, ?_⟩
  show id ∈ (c.handler.onWrite fuel c.outbuf).handler.openIds
  rwa [hopen]

/-- **A connection is not closed under a pending response** in the runs whose calls of `do_write`
all find the oldest open stream ready, with a small body, when the connection is to be closed and a
response is pending. -/
theorem not_pending_of_stopped {config : TlsConfig} {events : List Event} {c : Connection}
    (hmeets : RunMeets (step config) (AnswersOn config) initial events)
    (hrun : run (step config) initial events = some c) : c.stopped = true → ¬ c.Pending :=
  (invariant_run_of_meets consistent_step consistent_initial hmeets hrun).answered

/-- The callbacks of `GET /`. -/
def getRoot (shouldKeepAlive : Bool) (outcome : Outcome) : List Received :=
  [⟨.messageBegin, outcome⟩, ⟨.url (ascii "GET") (ascii "/"), outcome⟩,
    ⟨.messageComplete shouldKeepAlive, outcome⟩]

/-- A request whose script comes back with the status 0, and a throttled one with
`Connection: close`. -/
def closedStreams : List Event :=
  [.readCompletion (getRoot true .offload) 1, .scriptCompletion 1 none,
    .readCompletion (getRoot false .close) 1]

theorem not_pending_of_stopped_closedStreams :
    ∃ c, run (step ⟨[], []⟩) initial closedStreams = some c ∧
      c.stopped = true ∧ ¬ c.Pending := by
  have hstopped : (run (step ⟨[], []⟩) initial closedStreams).map Connection.stopped =
      some true := by decide +kernel
  have hmeets : RunMeets (step ⟨[], []⟩) (AnswersOn ⟨[], []⟩) initial closedStreams := by
    decide +kernel
  obtain ⟨c, hrun, hc⟩ := Option.map_eq_some_iff.mp hstopped
  exact ⟨c, hrun, hc, not_pending_of_stopped hmeets hrun hc⟩

/-- A request with `Connection: close` that is left to a script: the connection is closed behind the
read, before the script comes back. -/
theorem pending_of_stopped_offloadedScript :
    ∃ c, run (step ⟨[], []⟩) initial [.readCompletion (getRoot false .offload) 1] = some c ∧
      c.stopped = true ∧ c.Pending := by
  have hstate : (run (step ⟨[], []⟩) initial [.readCompletion (getRoot false .offload) 1]).map
      (fun c ↦ (c.stopped, decide c.Pending)) = some (true, true) := by decide +kernel
  obtain ⟨c, hrun, hc⟩ := Option.map_eq_some_iff.mp hstate
  obtain ⟨hstopped, hpending⟩ := Prod.mk.inj hc
  exact ⟨c, hrun, hstopped, of_decide_eq_true hpending⟩

end Connection

end Maock.Http1
