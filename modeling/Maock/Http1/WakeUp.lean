import Maock.Http1.Closing

/-!
# When a ready response is written

Three triggers make an HTTP/1 connection write: the end of a read, the completion of a write, and an
`initiate_write` that a started response posts. Between events a ready response at the head of the
line is due (`Awake`): a write is outstanding or an `initiate_write` is posted.

A stream that a posted `send_response` closes with the status 0 triggers nothing, although the
stream behind it may be ready. `oldestReady_finishScript_none_iff` says when it is, and
`awake_of_run` that in all runs in which this does not happen no wake-up is lost.
-/

set_option autoImplicit false
set_option relaxedAutoImplicit false

namespace Maock.Http1

open Foundation Foundation.OrderedContainer Foundation.Bytes Foundation.TransitionSystem Http

/-- The oldest of the open streams but one is ready to be answered. -/
def Http1Handler.UnblocksReady (streamId : ℕ) (h : Http1Handler) : Prop :=
  ∃ oldest ∈ h.streamIdsToRespond, oldest ≠ streamId ∧
    ∀ id ∈ h.openIds, id ≠ streamId → oldest ≤ id

instance (streamId : ℕ) (h : Http1Handler) : Decidable (h.UnblocksReady streamId) :=
  inferInstanceAs (Decidable (∃ oldest ∈ h.streamIdsToRespond.elems, oldest ≠ streamId ∧
    ∀ id ∈ h.openIds, id ≠ streamId → oldest ≤ id))

/-- Closing a stream that is not ready brings a ready stream to the head of the line exactly when
the oldest of the other streams is ready. -/
theorem Http1Handler.oldestReady_closeStream_iff {streamId : ℕ} {h : Http1Handler}
    (hunready : streamId ∉ h.streamIdsToRespond) :
    (h.closeStream streamId).OldestReady ↔ h.UnblocksReady streamId := by
  unfold OldestReady UnblocksReady
  constructor
  · rintro ⟨oldest, hready, hleast⟩
    exact ⟨oldest, hready, fun heq ↦ hunready (heq ▸ hready),
      fun id hid hne ↦ hleast id (mem_openIds_closeStream.mpr ⟨hid, hne⟩)⟩
  · rintro ⟨oldest, hready, -, hleast⟩
    refine ⟨oldest, hready, fun id hid ↦ ?_⟩
    obtain ⟨hopen, hne⟩ := mem_openIds_closeStream.mp hid
    exact hleast id hopen hne

theorem Http1Handler.startResponse_of_inside {h : Http1Handler} (hinside : h.insideCallback = true)
    (streamId : ℕ) : h.startResponse streamId =
      ({ h with streamIdsToRespond := h.streamIdsToRespond.insert streamId }, false) := by
  unfold startResponse signalWrite
  rw [if_neg]
  simp [hinside]

namespace Connection

/-! ### The invariant -/

/-- No ready response at the head of the line waits for a trigger. -/
def Awake (c : Connection) : Prop :=
  c.writing = false → c.posted = 0 → ¬ c.handler.OldestReady

instance (c : Connection) : Decidable c.Awake :=
  inferInstanceAs (Decidable (c.writing = false → c.posted = 0 → ¬ c.handler.OldestReady))

/-- What a connection that is not stopped keeps between events: a write that is signaled is posted,
and no callback is running. -/
structure Scheduled (c : Connection) : Prop where
  consistent : Consistent c
  signaled : c.handler.writeSignaled = true → 0 < c.posted
  outside : c.handler.insideCallback = false

theorem scheduled_initial : Scheduled initial :=
  ⟨consistent_initial, fun h ↦ absurd h Bool.false_ne_true, rfl⟩

theorem awake_initial : Awake initial := by
  rintro - - ⟨oldest, hready, -⟩
  exact OrderedSet.not_mem_empty oldest hready

/-! ### Reads post nothing -/

/-- The second connection has the posted tasks of the first, and its callback guard. -/
structure SamePosting (c c' : Connection) : Prop where
  posted : c'.posted = c.posted
  writeSignaled : c'.handler.writeSignaled = c.handler.writeSignaled
  insideCallback : c'.handler.insideCallback = c.handler.insideCallback

theorem SamePosting.trans {c c' c'' : Connection} (h : SamePosting c c')
    (h' : SamePosting c' c'') : SamePosting c c'' :=
  ⟨h'.posted.trans h.posted, h'.writeSignaled.trans h.writeSignaled,
    h'.insideCallback.trans h.insideCallback⟩

/-- Within a callback a started response posts nothing. -/
theorem samePosting_start {c : Connection} (hinside : c.handler.insideCallback = true)
    (streamId : ℕ) (response : AsioServerResponse) : SamePosting c (c.start streamId response) := by
  unfold start
  rw [Http1Handler.startResponse_of_inside (by exact hinside)]
  exact ⟨rfl, rfl, rfl⟩

theorem samePosting_dispatch {c : Connection} (hinside : c.handler.insideCallback = true)
    (outcome : Outcome) : SamePosting c (c.dispatch outcome) := by
  cases outcome with
  | respond response =>
    have hdispatched : SamePosting c
        { c with dispatched := c.handler.requestCount :: c.dispatched } := ⟨rfl, rfl, rfl⟩
    exact hdispatched.trans (samePosting_start (by exact hinside) c.handler.requestCount response)
  | offload => exact ⟨rfl, rfl, rfl⟩
  | close => exact ⟨rfl, rfl, rfl⟩

/-- A callback within a message touches neither the guard nor the signal. -/
theorem posting_onCallback (config : TlsConfig) (h : Http1Handler) {callback : Callback}
    (hinner : callback.isInner = true) :
    (h.onCallback config callback).1.writeSignaled = h.writeSignaled ∧
      (h.onCallback config callback).1.insideCallback = h.insideCallback := by
  cases callback with
  | messageBegin => exact absurd hinner Bool.false_ne_true
  | messageComplete shouldKeepAlive => exact absurd hinner Bool.false_ne_true
  | url method data =>
    show (h.onUrl method data).writeSignaled = _ ∧ (h.onUrl method data).insideCallback = _
    unfold Http1Handler.onUrl
    cases h.findStream h.requestCount <;> exact ⟨rfl, rfl⟩
  | headerField data => exact ⟨rfl, rfl⟩
  | headerValue data => exact ⟨rfl, rfl⟩
  | body data => exact ⟨rfl, rfl⟩

/-- One callback of llhttp posts nothing. -/
theorem samePosting_receive {config : TlsConfig} {c next : Connection} {received : Received}
    (hinside : c.handler.insideCallback = true) (hstep : c.receive config received = some next) :
    SamePosting c next := by
  have hinner : ∀ callback : Callback, callback.isInner = true →
      (if c.receiving then some { c with handler := (c.handler.onCallback config callback).1 }
        else none) = some next → SamePosting c next := by
    intro callback hcallback hnext
    split_ifs at hnext
    rw [← Option.some_inj.mp hnext]
    obtain ⟨hsignaled, hguard⟩ := posting_onCallback config c.handler hcallback
    exact ⟨rfl, hsignaled, hguard⟩
  obtain ⟨callback, outcome⟩ := received
  unfold receive at hstep
  cases callback with
  | messageBegin =>
    dsimp only at hstep
    split_ifs at hstep
    rw [← Option.some_inj.mp hstep]
    exact ⟨rfl, rfl, rfl⟩
  | messageComplete shouldKeepAlive =>
    dsimp only at hstep
    split_ifs at hstep
    · rw [← Option.some_inj.mp hstep]
      have hcomplete : SamePosting c { c with
          handler := (c.handler.messageComplete config shouldKeepAlive).1
          receiving := false } := ⟨rfl, rfl, rfl⟩
      exact hcomplete.trans (samePosting_dispatch (by exact hinside) outcome)
    · rw [← Option.some_inj.mp hstep]
      exact ⟨rfl, rfl, rfl⟩
  | url method data => exact hinner (.url method data) rfl hstep
  | headerField data => exact hinner (.headerField data) rfl hstep
  | headerValue data => exact hinner (.headerValue data) rfl hstep
  | body data => exact hinner (.body data) rfl hstep

theorem samePosting_receiveAll {config : TlsConfig} {received : List Received}
    {c next : Connection} (hinside : c.handler.insideCallback = true)
    (hstep : c.receiveAll config received = some next) : SamePosting c next := by
  induction received generalizing c with
  | nil =>
    rw [← Option.some_inj.mp hstep]
    exact ⟨rfl, rfl, rfl⟩
  | cons first rest ih =>
    unfold receiveAll at hstep
    rw [List.foldlM_cons] at hstep
    obtain ⟨middle, hfirst, hrest⟩ := Option.bind_eq_some_iff.mp hstep
    have hsame := samePosting_receive hinside hfirst
    exact hsame.trans (ih (hsame.insideCallback.trans hinside) hrest)

/-- `on_read` keeps what holds between events. -/
theorem Scheduled.onRead {config : TlsConfig} {received : List Received} {c next : Connection}
    (hinv : Scheduled c) (hrunning : c.stopped = false)
    (hstep : c.onRead config received = some next) : Scheduled next := by
  refine ⟨(hinv.consistent.onRead hrunning hstep).1, ?_, ?_⟩
  · obtain ⟨after, hreceived, rfl⟩ := Option.map_eq_some_iff.mp hstep
    obtain ⟨hposted, hsignaled, -⟩ := @samePosting_receiveAll config received (c.guard true) after
      rfl hreceived
    intro hsignal
    show 0 < after.posted
    rw [hposted]
    exact hinv.signaled (hsignaled.symm.trans hsignal)
  · obtain ⟨after, -, rfl⟩ := Option.map_eq_some_iff.mp hstep
    rfl

/-! ### Writing -/

/-- `do_write` keeps the invariant of the streams, whatever is pending, when it does not close the
connection. -/
theorem Consistent.doWrite_of_running {c : Connection} (hinv : Consistent c) {fuel : ℕ}
    (hrunning : (c.doWrite fuel).stopped = false) : Consistent (c.doWrite fuel) := by
  unfold Connection.doWrite at hrunning ⊢
  by_cases hidle : (c.stopped || c.writing) = true
  · rw [if_pos hidle]
    exact hinv
  rw [if_neg hidle] at hrunning ⊢
  have hwritten := hinv.onWrite fuel c.outbuf
  dsimp only at hrunning ⊢
  split_ifs at hrunning ⊢
  · exact hwritten.frame _ c.writing c.posted true
  · exact absurd hrunning (by simp [Connection.stop])
  · exact hwritten.frame _ c.writing c.posted c.halted
  · exact hwritten.frame _ true c.posted c.halted

/-- `do_write` posts nothing and runs no callback beyond its end. -/
theorem Scheduled.doWrite {c : Connection} (hinv : Scheduled c) {fuel : ℕ}
    (hrunning : (c.doWrite fuel).stopped = false) : Scheduled (c.doWrite fuel) := by
  refine ⟨hinv.consistent.doWrite_of_running hrunning, ?_, ?_⟩
  · have hsignaled := Http1Handler.writeSignaled_onWrite fuel c.outbuf c.handler
    unfold Connection.doWrite
    by_cases hidle : (c.stopped || c.writing) = true
    · rw [if_pos hidle]
      exact hinv.signaled
    rw [if_neg hidle]
    dsimp only
    split_ifs <;> exact fun h ↦ hinv.signaled (hsignaled.symm.trans h)
  · unfold Connection.doWrite
    by_cases hidle : (c.stopped || c.writing) = true
    · rw [if_pos hidle]
      exact hinv.outside
    rw [if_neg hidle]
    dsimp only
    split_ifs <;> exact Http1Handler.insideCallback_onWrite fuel c.outbuf c.handler

/-- Behind `do_write` no ready response at the head of the line waits, unless a body of `2 ^ 31`
bytes has taken the output away. -/
theorem awake_doWrite {c : Connection} (hinv : Scheduled c) {fuel : ℕ}
    (hsmall : c.writing = false → c.handler.OldestReady → c.handler.SmallBodies)
    (hrunning : (c.doWrite fuel).stopped = false) (hreturned : (c.doWrite fuel).halted = false) :
    (c.doWrite fuel).Awake := by
  unfold doWrite at hrunning hreturned ⊢
  by_cases hidle : (c.stopped || c.writing) = true
  · rw [if_pos hidle] at hrunning ⊢
    rw [hrunning, Bool.false_or] at hidle
    exact fun hwriting ↦ absurd (hidle.symm.trans hwriting) (by simp)
  rw [if_neg hidle] at hrunning hreturned ⊢
  obtain ⟨-, hwriting⟩ : c.stopped = false ∧ c.writing = false := by simpa using hidle
  dsimp only at hrunning hreturned ⊢
  split_ifs at hrunning hreturned ⊢ with hfault hempty
  · exact absurd hrunning (by simp [Connection.stop])
  · -- nothing was written: the oldest open stream was not ready, and nothing has changed
    have holdest : ¬ c.handler.OldestReady := fun holdest ↦ absurd hempty <|
      Int.ne_of_gt <| Http1Handler.dataLen_onWrite_pos hinv.consistent.ready_open
        (hsmall hwriting holdest) holdest (Option.not_isSome_iff_eq_none.mp hfault)
    have hunchanged := Http1Handler.onWrite_eq_of_not_oldestReady hinv.consistent.ready_open holdest
      fuel c.outbuf
    intro _ _
    show ¬ (c.handler.onWrite fuel c.outbuf).handler.OldestReady
    rw [hunchanged]
    exact holdest
  · exact fun h ↦ absurd h (by simp)

/-! ### Events -/

/-- The condition of an event: a call of `do_write` finds no body of `2 ^ 31` bytes to write, and a
posted `send_response` with the status 0 does not bring a ready stream to the head of the line of an
idle connection. -/
def WakesOn (config : TlsConfig) (c : Connection) : Event → Prop
  | .scriptCompletion streamId none =>
    c.writing = false → c.posted = 0 → ¬ c.handler.UnblocksReady streamId
  | .scriptCompletion _ (some _) => True
  | event => ∀ before, c.beforeWrite config event = some before →
    before.handler.requestCount < 2 ^ 31 ∧
      (before.writing = false → before.handler.OldestReady → before.handler.SmallBodies)

instance (config : TlsConfig) (c : Connection) : DecidablePred (c.WakesOn config)
  | .scriptCompletion streamId none =>
    inferInstanceAs (Decidable (c.writing = false → c.posted = 0 →
      ¬ c.handler.UnblocksReady streamId))
  | .scriptCompletion _ (some _) => isTrue trivial
  | .readCompletion received fuel =>
    inferInstanceAs (Decidable (∀ before,
      c.beforeWrite config (.readCompletion received fuel) = some before →
        before.handler.requestCount < 2 ^ 31 ∧
          (before.writing = false → before.handler.OldestReady → before.handler.SmallBodies)))
  | .writeCompletion fuel =>
    inferInstanceAs (Decidable (∀ before,
      c.beforeWrite config (.writeCompletion fuel) = some before →
        before.handler.requestCount < 2 ^ 31 ∧
          (before.writing = false → before.handler.OldestReady → before.handler.SmallBodies)))
  | .initiateWrite fuel =>
    inferInstanceAs (Decidable (∀ before,
      c.beforeWrite config (.initiateWrite fuel) = some before →
        before.handler.requestCount < 2 ^ 31 ∧
          (before.writing = false → before.handler.OldestReady → before.handler.SmallBodies)))

/-- A connection that is not stopped was not stopped before. -/
theorem running_of_running_doWrite {c : Connection} {fuel : ℕ}
    (hrunning : (c.doWrite fuel).stopped = false) : c.stopped = false := by
  unfold doWrite at hrunning
  by_contra hstopped
  rw [Bool.not_eq_false] at hstopped
  rw [hstopped, Bool.true_or, if_pos rfl] at hrunning
  exact absurd (hstopped.symm.trans hrunning) (by simp)

/-- What comes before `do_write` keeps what holds between events. -/
theorem Scheduled.beforeWrite {config : TlsConfig} {c before : Connection} (hinv : Scheduled c)
    {event : Event} (hbefore : c.beforeWrite config event = some before) : Scheduled before := by
  cases event with
  | readCompletion received fuel =>
    dsimp only [Connection.beforeWrite] at hbefore
    split_ifs at hbefore with hstopped
    exact hinv.onRead (Bool.eq_false_iff.mpr hstopped) hbefore
  | writeCompletion fuel =>
    have hconsistent := hinv.consistent.beforeWrite hbefore
    dsimp only [Connection.beforeWrite] at hbefore
    split_ifs at hbefore
    obtain rfl := Option.some_inj.mp hbefore
    exact ⟨hconsistent, hinv.signaled, hinv.outside⟩
  | initiateWrite fuel =>
    have hconsistent := hinv.consistent.beforeWrite hbefore
    dsimp only [Connection.beforeWrite] at hbefore
    split_ifs at hbefore
    obtain rfl := Option.some_inj.mp hbefore
    exact ⟨hconsistent, fun h ↦ absurd h Bool.false_ne_true, hinv.outside⟩
  | scriptCompletion streamId response => exact absurd hbefore (by simp [Connection.beforeWrite])

/-- Nothing but a read needs a connection that is not stopped. -/
theorem stopped_beforeWrite {config : TlsConfig} {c before : Connection} {event : Event}
    (hbefore : c.beforeWrite config event = some before) (hinv : c.stopped = false → Consistent c) :
    before.stopped = c.stopped := by
  cases event with
  | readCompletion received fuel =>
    dsimp only [Connection.beforeWrite] at hbefore
    split_ifs at hbefore with hstopped
    have hrunning := Bool.eq_false_iff.mpr hstopped
    rw [hrunning, ((hinv hrunning).onRead hrunning hbefore).2]
  | writeCompletion fuel =>
    dsimp only [Connection.beforeWrite] at hbefore
    split_ifs at hbefore
    rw [← Option.some_inj.mp hbefore]
  | initiateWrite fuel =>
    dsimp only [Connection.beforeWrite] at hbefore
    split_ifs at hbefore
    rw [← Option.some_inj.mp hbefore]
  | scriptCompletion streamId response => exact absurd hbefore (by simp [Connection.beforeWrite])

/-- A response that is started outside of callbacks is posted, or was signaled before. -/
theorem Scheduled.start {c : Connection} (hinv : Scheduled c) {streamId : ℕ}
    (hopen : streamId ∈ c.handler.openIds) (hdispatched : streamId ∈ c.dispatched)
    (hdecided : streamId ∉ c.offloaded) (response : AsioServerResponse) :
    Scheduled (c.start streamId response) ∧ 0 < (c.start streamId response).posted := by
  have hposted : 0 < (c.start streamId response).posted ∧
      (c.start streamId response).handler.insideCallback = false := by
    unfold Connection.start Http1Handler.startResponse Http1Handler.signalWrite
    by_cases hsignaled : c.handler.writeSignaled = true
    · rw [if_neg (by simp [Http1Handler.modifyStream, hsignaled])]
      exact ⟨hinv.signaled hsignaled, hinv.outside⟩
    · rw [if_pos (by simpa [Http1Handler.modifyStream, hinv.outside] using hsignaled)]
      exact ⟨Nat.succ_pos _, hinv.outside⟩
  have hconsistent := hinv.consistent.start hopen hdispatched hdecided response
  exact ⟨⟨hconsistent, fun _ ↦ hposted.1, hposted.2⟩, hposted.1⟩

/-- A script that comes back with a response makes a write due. -/
theorem awake_finishScript_some {c : Connection} (hinv : Scheduled c) (hawake : c.Awake)
    {streamId : ℕ} (hoffloaded : streamId ∈ c.offloaded) (response : AsioServerResponse) :
    Scheduled (c.finishScript streamId (some response)) ∧
      (c.finishScript streamId (some response)).Awake := by
  have hback : Scheduled { c with offloaded := c.offloaded.erase streamId } :=
    ⟨hinv.consistent.scriptBack streamId, hinv.signaled, hinv.outside⟩
  unfold finishScript sendResponse
  dsimp only
  split_ifs with hopen
  · obtain ⟨hscheduled, hposted⟩ := hback.start (Http1Handler.isSome_findStream_iff.mp hopen)
      (hinv.consistent.offloaded_dispatched streamId hoffloaded)
      hinv.consistent.offloaded_nodup.not_mem_erase response
    exact ⟨hscheduled, fun _ hzero ↦ absurd hposted (hzero ▸ Nat.lt_irrefl 0)⟩
  · exact ⟨hback, hawake⟩

/-- A script that comes back with the status 0 brings a ready stream to the head of the line exactly
when the oldest of the other streams is ready. -/
theorem oldestReady_finishScript_none_iff {c : Connection} (hinv : Scheduled c) {streamId : ℕ}
    (hoffloaded : streamId ∈ c.offloaded) :
    (c.finishScript streamId none).handler.OldestReady ↔ c.handler.UnblocksReady streamId :=
  Http1Handler.oldestReady_closeStream_iff
    (hinv.consistent.offloaded_unready streamId hoffloaded)

theorem scheduled_finishScript_none {c : Connection} (hinv : Scheduled c) {streamId : ℕ}
    (hoffloaded : streamId ∈ c.offloaded) : Scheduled (c.finishScript streamId none) :=
  ⟨hinv.consistent.finishScript hoffloaded none, hinv.signaled, hinv.outside⟩

/-- What holds between the events of a run, as long as the connection is not stopped and no call of
`on_write` is under way. -/
def Reached (c : Connection) : Prop :=
  c.stopped = false → c.halted = false → Scheduled c ∧ c.Awake

/-- Events that call `do_write` lose no wake-up. -/
theorem reached_doWrite {config : TlsConfig} {c before : Connection} {event : Event} {fuel : ℕ}
    (hinv : Reached c) (hhalted : c.halted = false)
    (hsmall : before.writing = false → before.handler.OldestReady → before.handler.SmallBodies)
    (hbefore : c.beforeWrite config event = some before) : Reached (before.doWrite fuel) := by
  intro hrunning hreturned
  have hstopped := stopped_beforeWrite hbefore fun h ↦ (hinv h hhalted).1.consistent
  have hscheduled := (hinv (hstopped.symm.trans (running_of_running_doWrite hrunning))
    hhalted).1.beforeWrite hbefore
  exact ⟨hscheduled.doWrite hrunning, awake_doWrite hscheduled hsmall hrunning hreturned⟩

/-- One event that meets the condition loses no wake-up. -/
theorem reached_step {config : TlsConfig} (c : Connection) (event : Event) (next : Connection)
    (hinv : Reached c) (hwakes : c.WakesOn config event)
    (hstep : c.step config event = some next) : Reached next := by
  unfold step at hstep
  split_ifs at hstep with hhalted
  rw [Bool.not_eq_true] at hhalted
  cases event with
  | readCompletion received fuel =>
    obtain ⟨before, hbefore, rfl⟩ := Option.map_eq_some_iff.mp hstep
    rw [afterRead_eq_doWrite]
    exact reached_doWrite hinv hhalted (hwakes before hbefore).2 hbefore
  | writeCompletion fuel =>
    obtain ⟨before, hbefore, rfl⟩ := Option.map_eq_some_iff.mp hstep
    exact reached_doWrite hinv hhalted (hwakes before hbefore).2 hbefore
  | initiateWrite fuel =>
    obtain ⟨before, hbefore, rfl⟩ := Option.map_eq_some_iff.mp hstep
    exact reached_doWrite hinv hhalted (hwakes before hbefore).2 hbefore
  | scriptCompletion streamId response =>
    dsimp only at hstep
    split_ifs at hstep with hoffloaded
    obtain rfl := Option.some_inj.mp hstep
    intro hrunning _
    cases response with
    | none =>
      obtain ⟨hscheduled, -⟩ := hinv hrunning hhalted
      refine ⟨scheduled_finishScript_none hscheduled hoffloaded, fun hwriting hposted ↦ ?_⟩
      rw [oldestReady_finishScript_none_iff hscheduled hoffloaded]
      exact hwakes hwriting hposted
    | some response =>
      have hstopped : c.stopped = false := by
        unfold finishScript sendResponse at hrunning
        dsimp only at hrunning
        split_ifs at hrunning <;> exact hrunning
      obtain ⟨hscheduled, hawake⟩ := hinv hstopped hhalted
      exact awake_finishScript_some hscheduled hawake hoffloaded response

/-! ### Runs -/

/-- **No wake-up of a ready response is lost** in the runs in which no status 0 brings a ready
stream to the head of the line of an idle connection, and in which no body of `2 ^ 31` bytes is
written. -/
theorem awake_of_run {config : TlsConfig} {events : List Event} {c : Connection}
    (hmeets : RunMeets (step config) (WakesOn config) initial events)
    (hrun : run (step config) initial events = some c) :
    c.stopped = false → c.halted = false → c.Awake :=
  fun hrunning hreturned ↦ (invariant_run_of_meets reached_step
    (fun _ _ ↦ ⟨scheduled_initial, awake_initial⟩) hmeets hrun hrunning hreturned).2

/-- Three pipelined requests: two are left to scripts and the third one is answered at once. The
first script comes back with the status 0, and the second one with a response. -/
def closedAndAnswered : List Event :=
  let response := AsioServerResponse.initial.endString (ascii "GET") []
  [.readCompletion
    (getRoot true .offload ++ getRoot true .offload ++ getRoot true (.respond response)) 1,
    .scriptCompletion 1 none, .scriptCompletion 2 (some response)]

/-- The responses to the second and the third request are ready at its end, and a call of
`initiate_write` is posted. -/
theorem awake_closedStream :
    ∃ c, run (step ⟨[], []⟩) initial closedAndAnswered = some c ∧ c.stopped = false ∧
      c.handler.getConsecutiveStreamIdsToRespond.1 = [2, 3] ∧ c.posted = 1 ∧ c.Awake := by
  have hstate : (run (step ⟨[], []⟩) initial closedAndAnswered).map (fun c ↦
      (c.stopped, c.halted, c.handler.getConsecutiveStreamIdsToRespond.1, c.posted)) =
        some (false, false, [2, 3], 1) := by
    decide +kernel
  have hmeets : RunMeets (step ⟨[], []⟩) (WakesOn ⟨[], []⟩) initial closedAndAnswered := by
    decide +kernel
  obtain ⟨c, hrun, hc⟩ := Option.map_eq_some_iff.mp hstate
  simp only [Prod.mk.injEq] at hc
  obtain ⟨hstopped, hhalted, hbatch, hposted⟩ := hc
  exact ⟨c, hrun, hstopped, hbatch, hposted, awake_of_run hmeets hrun hstopped hhalted⟩

/-- Two pipelined requests: the first is left to a script, the second is answered at once. The
script comes back with the status 0, and nothing makes the connection write the second response. -/
theorem not_awake_closedInFront :
    ∃ c, run (step ⟨[], []⟩) initial
        [.readCompletion (getRoot true .offload ++
          getRoot true (.respond (AsioServerResponse.initial.endString (ascii "GET") []))) 1,
          .scriptCompletion 1 none] = some c ∧
      c.stopped = false ∧ c.halted = false ∧ ¬ c.Awake := by
  have hstate : (run (step ⟨[], []⟩) initial [.readCompletion (getRoot true .offload ++
      getRoot true (.respond (AsioServerResponse.initial.endString (ascii "GET") []))) 1,
      .scriptCompletion 1 none]).map (fun c ↦ (c.stopped, c.halted, decide c.Awake)) =
        some (false, false, false) := by
    decide +kernel
  obtain ⟨c, hrun, hc⟩ := Option.map_eq_some_iff.mp hstate
  obtain ⟨hstopped, hhalted, hawake⟩ : c.stopped = false ∧ c.halted = false ∧
      decide c.Awake = false := by simpa using hc
  exact ⟨c, hrun, hstopped, hhalted, of_decide_eq_false hawake⟩

end Connection

end Maock.Http1
