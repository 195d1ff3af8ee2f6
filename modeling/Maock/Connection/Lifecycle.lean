import Maock.Connection.ServerConnection

/-!
# The life of a connection

What holds of `asio_server_connection` in every state of every run. `Guarded` is the invariant that
carries it: as long as the connection is not stopped, exactly one wait of the deadline timer or one
call of `handle_deadline` is under way. `Sound` adds the read that is outstanding between events,
and `Sound.step` says that every event keeps it, but for a start of a stopped connection, which
loses the connection (`Lost`).

`lifecycle_sound` collects what holds in every state and what still happens to a stopped connection
(`Quiet`). `everyState_not_faulted_iff` says when a connection is started that is gone.
-/

set_option autoImplicit false
set_option relaxedAutoImplicit false

namespace Maock.Connection.AsioServerConnection

open Foundation Foundation.TransitionSystem

variable {σ ι τ : Type*} {H : BaseHandler σ ι τ} {T : Timeouts} {tls : Bool}

/-! ### The invariant -/

/-- What is common to the states of a run before and behind the use of an object that is not there,
also in the midst of an event: a running connection has one wait pending or ended, a stopped one has
none pending, and none ended either when it has been stopped before its start; the connection is in
one phase; a write is outstanding exactly while `writing_` is set, unless it has failed; and the
deadline belongs to the latest operation. -/
structure Guarded (T : Timeouts) (tls : Bool) (c : AsioServerConnection σ) : Prop where
  faultless : c.faulted = false
  watched : c.stopped = false → c.deadline.watches = 1
  unwatched : c.stopped = true → c.deadline.waiting = 0 ∧ c.deadline.due ≤ 1
  abandoned : c.stopped = true → 0 < c.handshaking.toNat + c.starting.toNat →
    c.deadline.watches = 0
  phase_le : c.handshaking.toNat + c.starting.toNat + c.handler.isSome.toNat ≤ 1
  phase_eq : c.stopped = false →
    c.handshaking.toNat + c.starting.toNat + c.handler.isSome.toNat = 1
  writes_le : c.writes ≤ 1
  writing_of_writes : 0 < c.writes → c.writing = true
  writes_of_writing : c.stopped = false → c.writing = true → c.writes = 1
  posted_eq : c.posted = c.writeSignaled.toNat
  hasWritefun_eq : c.hasWritefun = (c.handler.isSome && !c.stopped)
  fresh : c.handler = none → c.writing = false ∧ c.writes = 0 ∧ c.posted = 0 ∧ c.begun = []
  expiry : c.stopped = false → c.deadline.expiresAt = some (limit T tls c.begun)
  clock : (c.now :: c.begun).Pairwise (· ≥ ·)

/-- A read is outstanding as soon as the connection has a handler, until it stops. -/
structure Reading (c : AsioServerConnection σ) : Prop where
  reads_le : c.reads ≤ 1
  reads_eq : c.stopped = false → c.handler.isSome = true → c.reads = 1
  reads_fresh : c.handler = none → c.reads = 0

theorem guarded_initial (T : Timeouts) (tls : Bool) :
    Guarded T tls (initial T tls : AsioServerConnection σ) := by
  refine ⟨rfl, fun _ ↦ rfl, fun h ↦ absurd h Bool.false_ne_true,
    fun h ↦ absurd h Bool.false_ne_true, ?_, fun _ ↦ ?_, Nat.zero_le 1,
    fun h ↦ absurd h (Nat.lt_irrefl 0), fun _ h ↦ absurd h Bool.false_ne_true, rfl, rfl,
    fun _ ↦ ⟨rfl, rfl, rfl, rfl⟩, fun _ ↦ rfl, List.pairwise_singleton _ _⟩
  · cases tls <;> exact Nat.le_refl 1
  · cases tls <;> rfl

theorem reading_initial (T : Timeouts) (tls : Bool) :
    Reading (initial T tls : AsioServerConnection σ) :=
  ⟨Nat.zero_le 1, fun _ h ↦ absurd h Bool.false_ne_true, fun _ ↦ rfl⟩

/-- A connection with a handler is neither in its handshake nor about to start. -/
theorem Guarded.started {c : AsioServerConnection σ} (hinv : Guarded T tls c)
    (hsome : c.handler.isSome = true) : c.handshaking.toNat + c.starting.toNat = 0 := by
  have hphase := hinv.phase_le
  rw [hsome, Bool.toNat_true] at hphase
  omega

theorem Guarded.stop {c : AsioServerConnection σ} (hinv : Guarded T tls c)
    (hsome : c.handler.isSome = true) : Guarded T tls c.stop := by
  cases hstopped : c.stopped with
  | true =>
    rw [stop_of_stopped hstopped]
    exact hinv
  | false =>
    rw [stop_of_running hstopped]
    have hwatched := hinv.watched hstopped
    refine ⟨hinv.faultless, fun h ↦ absurd h.symm Bool.false_ne_true, fun _ ↦ ⟨rfl, ?_⟩,
      fun _ h ↦ absurd h (by rw [hinv.started hsome]; exact Nat.lt_irrefl 0), hinv.phase_le,
      fun h ↦ absurd h.symm Bool.false_ne_true, hinv.writes_le,
      hinv.writing_of_writes, fun h ↦ absurd h.symm Bool.false_ne_true, hinv.posted_eq, ?_,
      hinv.fresh, fun h ↦ absurd h.symm Bool.false_ne_true, hinv.clock⟩
    · simp only [DeadlineTimer.watches, DeadlineTimer.cancel] at hwatched ⊢
      omega
    · simp

/-- A call of the handler. -/
theorem Guarded.setHandler {c : AsioServerConnection σ} (hinv : Guarded T tls c)
    (hsome : c.handler.isSome = true) (handler : σ) :
    Guarded T tls { c with handler := some handler } := by
  have hphase := hinv.phase_le
  have hphaseEq := hinv.phase_eq
  have hwritefun := hinv.hasWritefun_eq
  rw [hsome] at hphase hphaseEq hwritefun
  exact ⟨hinv.faultless, hinv.watched, hinv.unwatched, hinv.abandoned, hphase, hphaseEq,
    hinv.writes_le, hinv.writing_of_writes, hinv.writes_of_writing, hinv.posted_eq, hwritefun,
    fun h ↦ absurd h (Option.some_ne_none handler), hinv.expiry, hinv.clock⟩

/-- A read or a write is started, and the deadline set. -/
theorem pairwise_begun {now : ℕ} {begun : List ℕ} (h : (now :: begun).Pairwise (· ≥ ·)) :
    (now :: now :: begun).Pairwise (· ≥ ·) := by
  refine List.pairwise_cons.mpr ⟨fun time htime ↦ ?_, h⟩
  rcases List.mem_cons.mp htime with rfl | htime
  · exact Nat.le_refl _
  · exact (List.pairwise_cons.mp h).1 time htime

theorem Guarded.asyncWrite {c : AsioServerConnection σ} (hinv : Guarded T tls c)
    (hsome : c.handler.isSome = true) (hrunning : c.stopped = false)
    (hwriting : c.writing = false) : Guarded T tls (c.asyncWrite T) := by
  have hwrites : c.writes = 0 := by
    by_contra hne
    exact absurd (hwriting.symm.trans (hinv.writing_of_writes (Nat.pos_of_ne_zero hne)))
      Bool.false_ne_true
  refine ⟨hinv.faultless, fun h ↦ ?_, fun h ↦ absurd (hrunning.symm.trans h) Bool.false_ne_true,
    fun h ↦ absurd (hrunning.symm.trans h) Bool.false_ne_true, hinv.phase_le, hinv.phase_eq, ?_,
    fun _ ↦ rfl, fun _ _ ↦ ?_, hinv.posted_eq,
    hinv.hasWritefun_eq, fun h ↦ ?_, fun _ ↦ rfl, pairwise_begun hinv.clock⟩
  · exact (DeadlineTimer.watches_setExpiry _ _).trans (hinv.watched h)
  · exact Nat.le_of_eq (congrArg (· + 1) hwrites)
  · exact congrArg (· + 1) hwrites
  · rw [show c.handler = none from h] at hsome
    exact absurd hsome Bool.false_ne_true

theorem Guarded.doRead {c : AsioServerConnection σ} (hinv : Guarded T tls c)
    (hsome : c.handler.isSome = true) : Guarded T tls (c.doRead T) := by
  unfold AsioServerConnection.doRead
  split_ifs with hstopped
  · exact hinv
  · refine ⟨hinv.faultless, fun h ↦ ?_, fun h ↦ absurd h hstopped, fun h ↦ absurd h hstopped,
      hinv.phase_le, hinv.phase_eq,
      hinv.writes_le, hinv.writing_of_writes, hinv.writes_of_writing, hinv.posted_eq,
      hinv.hasWritefun_eq, fun h ↦ ?_, fun _ ↦ rfl, pairwise_begun hinv.clock⟩
    · exact (DeadlineTimer.watches_setExpiry _ _).trans (hinv.watched h)
    · rw [show c.handler = none from h] at hsome
      exact absurd hsome Bool.false_ne_true

/-- `do_write` keeps the invariant where there is a handler. -/
theorem Guarded.doWrite {c : AsioServerConnection σ} (hinv : Guarded T tls c)
    (hsome : c.handler.isSome = true) : Guarded T tls (c.doWrite H T) := by
  obtain ⟨-, heq⟩ | ⟨⟨hrunning, hwriting⟩, ⟨hnone, -⟩ | ⟨-, handler, heq | heq | heq⟩⟩ :=
    doWrite_cases H T c
  · rw [heq]
    exact hinv
  · rw [hnone] at hsome
    exact absurd hsome Bool.false_ne_true
  · rw [heq]
    exact (hinv.setHandler hsome handler).stop rfl
  · rw [heq]
    exact hinv.setHandler hsome handler
  · rw [heq]
    exact (hinv.setHandler hsome handler).asyncWrite rfl hrunning hwriting

/-- `do_write` neither starts nor ends a read, and takes no handler away. -/
theorem frame_doWrite (c : AsioServerConnection σ) :
    (c.doWrite H T).reads = c.reads ∧ (c.doWrite H T).handler.isSome = c.handler.isSome ∧
      (c.stopped = true → (c.doWrite H T).stopped = true) := by
  obtain ⟨-, heq⟩ | ⟨⟨hrunning, hwriting⟩, ⟨hnone, heq⟩ | ⟨hsome, handler, heq | heq | heq⟩⟩ :=
    doWrite_cases H T c
  · rw [heq]
    exact ⟨rfl, rfl, id⟩
  · rw [heq]
    exact ⟨rfl, rfl, id⟩
  · rw [heq, reads_stop, handler_stop, stopped_stop]
    exact ⟨rfl, hsome.symm, fun _ ↦ rfl⟩
  · rw [heq]
    exact ⟨rfl, hsome.symm, id⟩
  · rw [heq]
    exact ⟨rfl, hsome.symm, id⟩

/-! ### Every event keeps the invariant -/

/-- The invariant of the runs. -/
structure Sound (T : Timeouts) (tls : Bool) (c : AsioServerConnection σ) : Prop
    extends Guarded T tls c, Reading c

theorem sound_initial (T : Timeouts) (tls : Bool) :
    Sound T tls (initial T tls : AsioServerConnection σ) :=
  ⟨guarded_initial T tls, reading_initial T tls⟩

theorem Guarded.setReads {c : AsioServerConnection σ} (hinv : Guarded T tls c) (reads : ℕ) :
    Guarded T tls { c with reads := reads } :=
  ⟨hinv.faultless, hinv.watched, hinv.unwatched, hinv.abandoned, hinv.phase_le, hinv.phase_eq,
    hinv.writes_le, hinv.writing_of_writes, hinv.writes_of_writing, hinv.posted_eq,
    hinv.hasWritefun_eq, hinv.fresh, hinv.expiry, hinv.clock⟩

/-- A connection that stops needs no read. -/
theorem Guarded.sound_stop {c : AsioServerConnection σ} (hinv : Guarded T tls c)
    (hsome : c.handler.isSome = true) (hreads : c.reads ≤ 1) : Sound T tls c.stop := by
  refine ⟨hinv.stop hsome, ?_, fun h ↦ absurd ((stopped_stop c).symm.trans h) (by simp), fun h ↦ ?_⟩
  · rw [reads_stop]
    exact hreads
  · rw [← handler_stop, h] at hsome
    exact absurd hsome Bool.false_ne_true

/-- A connection without a read is in order again behind `do_read`. -/
theorem Guarded.sound_doRead {c : AsioServerConnection σ} (hinv : Guarded T tls c)
    (hsome : c.handler.isSome = true) (hreads : c.reads = 0) : Sound T tls (c.doRead T) := by
  have hguarded := hinv.doRead hsome
  unfold AsioServerConnection.doRead at hguarded ⊢
  split_ifs at hguarded ⊢ with hstopped
  · exact ⟨hguarded, hreads.trans_le (Nat.zero_le 1),
      fun h ↦ absurd (h.symm.trans hstopped) Bool.false_ne_true, fun _ ↦ hreads⟩
  · refine ⟨hguarded, Nat.le_of_eq (congrArg (· + 1) hreads), fun _ _ ↦ congrArg (· + 1) hreads,
      fun h ↦ ?_⟩
    rw [show c.handler = none from h] at hsome
    exact absurd hsome Bool.false_ne_true

/-- `do_write` keeps the invariant where there is a handler. -/
theorem Sound.doWrite {c : AsioServerConnection σ} (hinv : Sound T tls c)
    (hsome : c.handler.isSome = true) : Sound T tls (c.doWrite H T) := by
  obtain ⟨hreads, hhandler, hstopped⟩ := frame_doWrite (H := H) (T := T) c
  refine ⟨hinv.toGuarded.doWrite hsome, hreads ▸ hinv.reads_le, fun hrunning _ ↦ ?_, fun h ↦ ?_⟩
  · refine hreads.trans (hinv.reads_eq ?_ hsome)
    by_contra h
    exact absurd (hrunning.symm.trans (hstopped (by simpa using h))) Bool.false_ne_true
  · rw [← hhandler, h] at hsome
    exact absurd hsome Bool.false_ne_true

/-- What a read has delivered is handled, and the next read started unless the connection stops. -/
theorem Guarded.onReceived {c : AsioServerConnection σ} (hinv : Guarded T tls c)
    (hsome : c.handler.isSome = true) (hreads : c.reads = 0) (received : ι) :
    Sound T tls (c.onReceived H T received) := by
  obtain ⟨handler, hhandler⟩ := Option.isSome_iff_exists.mp hsome
  unfold AsioServerConnection.onReceived
  rw [hhandler]
  dsimp only
  have hread := hinv.setHandler hsome (H.onRead received handler).1
  split_ifs with hsucceeded hstop
  · obtain ⟨hreadsAfter, hhandlerAfter, -⟩ :=
      frame_doWrite (H := H) (T := T) { c with handler := some (H.onRead received handler).1 }
    exact (hread.doWrite rfl).sound_stop hhandlerAfter
      (hreadsAfter.trans_le (hreads.trans_le (Nat.zero_le 1)))
  · obtain ⟨hreadsAfter, hhandlerAfter, -⟩ :=
      frame_doWrite (H := H) (T := T) { c with handler := some (H.onRead received handler).1 }
    exact (hread.doWrite rfl).sound_doRead hhandlerAfter (hreadsAfter.trans hreads)
  · exact hread.sound_stop rfl (hreads.trans_le (Nat.zero_le 1))

/-- The handshake ends. -/
theorem Sound.handshake {c : AsioServerConnection σ} (hinv : Sound T tls c)
    (hshaking : c.handshaking = true) (succeeded : Bool) :
    Sound T tls (if succeeded then { c with handshaking := false, starting := true }
      else { c with handshaking := false }.stop) := by
  have hphase := hinv.phase_le
  rw [hshaking, Bool.toNat_true] at hphase
  have hnone : c.handler = none := by
    cases hhandler : c.handler with
    | none => rfl
    | some handler =>
      rw [hhandler, Option.isSome_some, Bool.toNat_true] at hphase
      omega
  have hstarting : c.starting = false := by
    cases hstart : c.starting with
    | false => rfl
    | true =>
      rw [hstart, Bool.toNat_true] at hphase
      omega
  obtain ⟨hwriting, hwrites, hposted, hbegun⟩ := hinv.fresh hnone
  split_ifs with hsucceeded
  · refine ⟨⟨hinv.faultless, hinv.watched, hinv.unwatched, fun h _ ↦ hinv.abandoned h ?_, ?_, ?_,
      hinv.writes_le, hinv.writing_of_writes, hinv.writes_of_writing, hinv.posted_eq,
      hinv.hasWritefun_eq, hinv.fresh, hinv.expiry, hinv.clock⟩, hinv.toReading.1,
      hinv.toReading.2, hinv.toReading.3⟩
    · rw [hshaking]
      exact Nat.lt_of_lt_of_le Nat.zero_lt_one (Nat.le_add_right 1 _)
    · simp [hnone]
    · simp [hnone]
  · obtain hstopped | hstopped := Bool.eq_false_or_eq_true c.stopped
    · rw [@stop_of_stopped _ { c with handshaking := false } hstopped]
      refine ⟨⟨hinv.faultless, hinv.watched, hinv.unwatched, fun _ h ↦ ?_, ?_,
        fun h ↦ absurd (hstopped.symm.trans h).symm Bool.false_ne_true, hinv.writes_le,
        hinv.writing_of_writes, hinv.writes_of_writing, hinv.posted_eq, hinv.hasWritefun_eq,
        hinv.fresh, hinv.expiry, hinv.clock⟩, hinv.toReading.1, hinv.toReading.2, hinv.toReading.3⟩
      · simp [hstarting] at h
      · simp [hnone, hstarting]
    · have hwatched := hinv.watched hstopped
      rw [@stop_of_running _ { c with handshaking := false } hstopped]
      refine ⟨⟨hinv.faultless, fun h ↦ absurd h.symm Bool.false_ne_true, fun _ ↦ ⟨rfl, ?_⟩,
        fun _ h ↦ ?_, ?_, fun h ↦ absurd h.symm Bool.false_ne_true, hinv.writes_le,
        hinv.writing_of_writes, fun h ↦ absurd h.symm Bool.false_ne_true, hinv.posted_eq, ?_,
        hinv.fresh, fun h ↦ absurd h.symm Bool.false_ne_true, hinv.clock⟩, hinv.toReading.1,
        fun h ↦ absurd h.symm Bool.false_ne_true, hinv.toReading.3⟩
      · simp only [DeadlineTimer.watches, DeadlineTimer.cancel] at hwatched ⊢
        omega
      · simp [hstarting] at h
      · simp [hnone, hstarting]
      · simp

/-- The start of a running connection: it has a handler now, and reads or has stopped. -/
theorem Sound.start {c : AsioServerConnection σ} (hinv : Sound T tls c)
    (hstarting : c.starting = true) (hrunning : c.stopped = false) :
    Sound T tls ({ c with starting := false }.startInOwnThread H T) := by
  have hphase := hinv.phase_le
  rw [hstarting, Bool.toNat_true] at hphase
  have hnone : c.handler = none := by
    cases hhandler : c.handler with
    | none => rfl
    | some handler =>
      rw [hhandler, Option.isSome_some, Bool.toNat_true] at hphase
      omega
  have hshaking : c.handshaking = false := by
    cases hshake : c.handshaking with
    | false => rfl
    | true =>
      rw [hshake, Bool.toNat_true] at hphase
      omega
  obtain ⟨hwriting, hwrites, hposted, hbegun⟩ := hinv.fresh hnone
  have hreads : c.reads = 0 := hinv.reads_fresh hnone
  have hwatched := hinv.watched hrunning
  unfold startInOwnThread
  rw [if_neg]
  · dsimp only
    have hguarded : Guarded T tls
        { c with starting := false, handler := some H.start.1, hasWritefun := true } :=
      ⟨hinv.faultless, hinv.watched, hinv.unwatched,
        fun h ↦ absurd (hrunning.symm.trans h) Bool.false_ne_true, by simp [hshaking],
        fun _ ↦ by simp [hshaking], hinv.writes_le, hinv.writing_of_writes, hinv.writes_of_writing,
        hinv.posted_eq, by simp [hrunning], fun h ↦ absurd h (Option.some_ne_none _), hinv.expiry,
        hinv.clock⟩
    split_ifs with hsucceeded
    · exact hguarded.sound_doRead rfl hreads
    · exact hguarded.sound_stop rfl (hreads.trans_le (Nat.zero_le 1))
  · simp only [references, outstanding]
    omega

/-- The handler of a wait that has ended runs. -/
theorem Sound.handleDeadline {c : AsioServerConnection σ} (hinv : Sound T tls c)
    (hdue : 0 < c.deadline.due) : Sound T tls
      { c with deadline := { c.deadline with due := c.deadline.due - 1 } }.handleDeadline := by
  unfold AsioServerConnection.handleDeadline
  cases hstopped : c.stopped with
  | true =>
    obtain ⟨hwaiting, hle⟩ := hinv.unwatched hstopped
    rw [if_pos rfl]
    refine ⟨⟨hinv.faultless, fun h ↦ absurd h.symm Bool.false_ne_true, fun _ ↦ ⟨hwaiting, ?_⟩,
      fun _ h ↦ ?_, hinv.phase_le, fun h ↦ absurd h.symm Bool.false_ne_true, hinv.writes_le,
      hinv.writing_of_writes, fun h ↦ absurd h.symm Bool.false_ne_true, hinv.posted_eq, ?_,
      hinv.fresh, fun h ↦ absurd h.symm Bool.false_ne_true, hinv.clock⟩, hinv.toReading.1,
      fun h ↦ absurd h.symm Bool.false_ne_true, hinv.toReading.3⟩
    · exact Nat.le_trans (Nat.sub_le _ 1) hle
    · have habandoned := hinv.abandoned hstopped h
      simp only [DeadlineTimer.watches] at habandoned ⊢
      omega
    · rw [← hstopped]
      exact hinv.hasWritefun_eq
  | false =>
    have hwatched := hinv.watched hstopped
    simp only [DeadlineTimer.watches] at hwatched
    rw [if_neg Bool.false_ne_true]
    split_ifs with hexpired
    · refine ⟨⟨hinv.faultless, fun h ↦ absurd h.symm Bool.false_ne_true, fun _ ↦ ⟨rfl, ?_⟩,
        fun _ _ ↦ ?_, hinv.phase_le, fun h ↦ absurd h.symm Bool.false_ne_true, hinv.writes_le,
        hinv.writing_of_writes, fun h ↦ absurd h.symm Bool.false_ne_true, hinv.posted_eq, ?_,
        hinv.fresh, fun h ↦ absurd h.symm Bool.false_ne_true, hinv.clock⟩, hinv.toReading.1,
        fun h ↦ absurd h.symm Bool.false_ne_true, hinv.toReading.3⟩
      · simp only [stop, DeadlineTimer.setExpiry, DeadlineTimer.cancel, Bool.false_eq_true,
          if_false]
        omega
      · simp only [stop, DeadlineTimer.setExpiry, DeadlineTimer.cancel, DeadlineTimer.watches,
          Bool.false_eq_true, if_false]
        omega
      · simp [stop]
    · refine ⟨⟨hinv.faultless, fun _ ↦ ?_, fun h ↦ absurd h Bool.false_ne_true,
        fun h ↦ absurd h Bool.false_ne_true, hinv.phase_le, fun _ ↦ hinv.phase_eq hstopped,
        hinv.writes_le, hinv.writing_of_writes, fun _ ↦ hinv.writes_of_writing hstopped,
        hinv.posted_eq, ?_, hinv.fresh, fun _ ↦ hinv.expiry hstopped, hinv.clock⟩,
        hinv.toReading.1, fun _ ↦ hinv.toReading.2 hstopped, hinv.toReading.3⟩
      · simp only [DeadlineTimer.asyncWait, DeadlineTimer.watches]
        omega
      · rw [← hstopped]
        exact hinv.hasWritefun_eq

/-- A completed write, or a failed one of a stopped connection. -/
theorem Sound.setWrites {c : AsioServerConnection σ} (hinv : Sound T tls c) {writes : ℕ}
    (hle : writes ≤ c.writes) {writing : Bool} (hwriting : 0 < writes → writing = true)
    (hwrites : c.stopped = false → writing = true → writes = 1)
    (hsome : c.handler.isSome = true) :
    Sound T tls { c with writes := writes, writing := writing } := by
  refine ⟨⟨hinv.faultless, hinv.watched, hinv.unwatched, hinv.abandoned, hinv.phase_le,
    hinv.phase_eq, Nat.le_trans hle hinv.writes_le, hwriting, hwrites, hinv.posted_eq,
    hinv.hasWritefun_eq, fun h ↦ ?_, hinv.expiry, hinv.clock⟩, hinv.toReading.1, hinv.toReading.2,
    hinv.toReading.3⟩
  rw [show c.handler = none from h] at hsome
  exact absurd hsome Bool.false_ne_true

/-- A posted `initiate_write` is taken up, or `signal_write` called. -/
theorem Sound.setPosted {c : AsioServerConnection σ} (hinv : Sound T tls c)
    (hsome : c.handler.isSome = true) (signaled : Bool) :
    Sound T tls { c with posted := signaled.toNat, writeSignaled := signaled } := by
  refine ⟨⟨hinv.faultless, hinv.watched, hinv.unwatched, hinv.abandoned, hinv.phase_le,
    hinv.phase_eq, hinv.writes_le, hinv.writing_of_writes, hinv.writes_of_writing, rfl,
    hinv.hasWritefun_eq, fun h ↦ ?_, hinv.expiry, hinv.clock⟩, hinv.toReading.1, hinv.toReading.2,
    hinv.toReading.3⟩
  rw [show c.handler = none from h] at hsome
  exact absurd hsome Bool.false_ne_true

theorem Sound.signalWrite {c : AsioServerConnection σ} (hinv : Sound T tls c)
    (hsome : c.handler.isSome = true) : Sound T tls c.signalWrite := by
  unfold AsioServerConnection.signalWrite
  split_ifs with hsignaled
  · exact hinv
  · have hposted := hinv.posted_eq
    rw [Bool.eq_false_iff.mpr hsignaled, Bool.toNat_false] at hposted
    rw [hposted]
    exact hinv.setPosted hsome true

/-- A write completes. -/
theorem Sound.writeCompletion {c : AsioServerConnection σ} (hinv : Sound T tls c)
    (hwrites : 0 < c.writes) (succeeded : Bool) :
    Sound T tls (if succeeded then
        { c with writes := c.writes - 1, writing := false }.doWrite H T
      else { c with writes := c.writes - 1 }.stop) := by
  have hle := hinv.writes_le
  have hnone : c.writes - 1 = 0 := by omega
  have hsome : c.handler.isSome = true := by
    by_contra h
    obtain ⟨-, hzero, -⟩ := hinv.fresh (by simpa using h)
    omega
  split_ifs with hsucceeded
  · refine Sound.doWrite ?_ hsome
    exact hinv.setWrites (Nat.sub_le _ 1) (fun h ↦ absurd h (by omega))
      (fun _ h ↦ absurd h Bool.false_ne_true) hsome
  · have hcommute : { c with writes := c.writes - 1 }.stop = { c.stop with writes := c.writes - 1 }
        := by
      unfold stop
      split_ifs <;> rfl
    have hstop := hinv.toGuarded.sound_stop hsome hinv.reads_le
    have heq : c.stop.writes = c.writes := by
      unfold stop
      split_ifs <;> rfl
    rw [hcommute]
    refine hstop.setWrites (heq ▸ Nat.sub_le _ 1) (fun h ↦ absurd h (by omega)) (fun h ↦ ?_) ?_
    · exact absurd ((stopped_stop c).symm.trans h).symm Bool.false_ne_true
    · rw [handler_stop]
      exact hsome

/-- A wait ends. -/
theorem Sound.expire {c : AsioServerConnection σ} (hinv : Sound T tls c)
    (hwaiting : 0 < c.deadline.waiting) : Sound T tls { c with deadline :=
      { c.deadline with waiting := c.deadline.waiting - 1, due := c.deadline.due + 1 } } := by
  have hrunning : c.stopped = false := by
    by_contra h
    have := (hinv.unwatched (by simpa using h)).1
    omega
  have hwatched := hinv.watched hrunning
  refine ⟨⟨hinv.faultless, fun _ ↦ ?_, fun h ↦ absurd (hrunning.symm.trans h) Bool.false_ne_true,
    fun h ↦ absurd (hrunning.symm.trans h) Bool.false_ne_true, hinv.phase_le, hinv.phase_eq,
    hinv.writes_le, hinv.writing_of_writes, hinv.writes_of_writing, hinv.posted_eq,
    hinv.hasWritefun_eq, hinv.fresh, hinv.expiry, hinv.clock⟩, hinv.toReading.1,
    hinv.toReading.2, hinv.toReading.3⟩
  simp only [DeadlineTimer.watches] at hwatched ⊢
  omega

/-- A task calls the handler. -/
theorem Sound.setHandler {c : AsioServerConnection σ} (hinv : Sound T tls c)
    (hsome : c.handler.isSome = true) (handler : σ) :
    Sound T tls { c with handler := some handler } :=
  ⟨hinv.toGuarded.setHandler hsome handler, hinv.reads_le, fun h _ ↦ hinv.reads_eq h hsome,
    fun h ↦ absurd h (Option.some_ne_none handler)⟩

/-- Time passes. -/
theorem Sound.tick {c : AsioServerConnection σ} (hinv : Sound T tls c) :
    Sound T tls { c with now := c.now + 1 } := by
  obtain ⟨hle, hpairwise⟩ := List.pairwise_cons.mp hinv.clock
  exact ⟨⟨hinv.faultless, hinv.watched, hinv.unwatched, hinv.abandoned, hinv.phase_le,
    hinv.phase_eq, hinv.writes_le, hinv.writing_of_writes, hinv.writes_of_writing, hinv.posted_eq,
    hinv.hasWritefun_eq, hinv.fresh, hinv.expiry,
    List.pairwise_cons.mpr ⟨fun time htime ↦ Nat.le_succ_of_le (hle time htime), hpairwise⟩⟩,
    hinv.toReading.1, hinv.toReading.2, hinv.toReading.3⟩

/-- `start_in_own_thread` runs on a connection that has been stopped. -/
def StartsStopped (c : AsioServerConnection σ) (event : Event ι τ) : Prop :=
  event = .start ∧ c.stopped = true

instance (c : AsioServerConnection σ) : DecidablePred (c.StartsStopped : Event ι τ → Prop)
  | .start => decidable_of_iff (c.stopped = true) ⟨fun h ↦ ⟨rfl, h⟩, fun h ↦ h.2⟩
  | .handshake _ | .readCompletion _ | .writeCompletion _ | .expire | .handleDeadline
  | .initiateWrite | .task _ | .tick => isFalse fun h ↦ absurd h.1 (by simp)

/-- Nothing holds a connection that is stopped before its start. -/
theorem Sound.references_eq {c : AsioServerConnection σ} (hinv : Sound T tls c)
    (hstarting : c.starting = true) (hstopped : c.stopped = true) :
    c.references = 0 ∧ c.handler = none := by
  have hphase := hinv.phase_le
  rw [hstarting, Bool.toNat_true] at hphase
  have hnone : c.handler = none := by
    cases hhandler : c.handler with
    | none => rfl
    | some handler =>
      rw [hhandler, Option.isSome_some, Bool.toNat_true] at hphase
      omega
  obtain ⟨-, hwrites, -, -⟩ := hinv.fresh hnone
  have hreads := hinv.reads_fresh hnone
  have hwatches := hinv.abandoned hstopped (by rw [hstarting, Bool.toNat_true]; omega)
  have hwritefun : c.hasWritefun = false := by
    rw [hinv.hasWritefun_eq, hnone]
    rfl
  refine ⟨?_, hnone⟩
  simp only [references, outstanding, hreads, hwrites, hwatches, hwritefun, Bool.toNat_false]
  omega

/-- The state behind the use of a connection that is gone. -/
structure Lost (c : AsioServerConnection σ) : Prop where
  faulted : c.faulted = true
  stopped : c.stopped = true
  handler_eq : c.handler = none
  reads_eq : c.reads = 0
  references_eq : c.references = 0
  writes_eq : c.writes = 0
  posted_eq : c.posted = 0
  watches_eq : c.deadline.watches = 0

/-- An event other than the start of a stopped connection keeps the invariant; that one loses the
connection. -/
theorem Sound.step {c next : AsioServerConnection σ} {event : Event ι τ} (hinv : Sound T tls c)
    (hstep : c.step H T event = some next) :
    (¬ c.StartsStopped event ∧ Sound T tls next) ∨ (c.StartsStopped event ∧ Lost next) := by
  unfold AsioServerConnection.step at hstep
  rw [if_neg (by simp [hinv.faultless])] at hstep
  cases event with
  | handshake succeeded =>
    refine Or.inl ⟨fun h ↦ absurd h.1 (by simp), ?_⟩
    dsimp only at hstep
    obtain ⟨hshaking, hnext⟩ := Option.ite_none_right_eq_some.mp hstep
    rw [← Option.some_inj.mp hnext]
    exact hinv.handshake hshaking succeeded
  | start =>
    dsimp only at hstep
    split_ifs at hstep with hstarting
    rw [← Option.some_inj.mp hstep]
    obtain hstopped | hrunning := Bool.eq_false_or_eq_true c.stopped
    · obtain ⟨hreferences, hnone⟩ := hinv.references_eq hstarting hstopped
      obtain ⟨-, hwrites, hposted, -⟩ := hinv.fresh hnone
      refine Or.inr ⟨⟨rfl, hstopped⟩, ?_⟩
      have hlost : { c with starting := false }.startInOwnThread H T =
          { c with starting := false }.fault := if_pos hreferences
      rw [hlost]
      exact ⟨rfl, hstopped, hnone, hinv.reads_fresh hnone, hreferences, hwrites, hposted,
        hinv.abandoned hstopped (by rw [hstarting, Bool.toNat_true]; omega)⟩
    · exact Or.inl ⟨fun h ↦ absurd (hrunning.symm.trans h.2) Bool.false_ne_true,
        hinv.start hstarting hrunning⟩
  | readCompletion received =>
    refine Or.inl ⟨fun h ↦ absurd h.1 (by simp), ?_⟩
    dsimp only at hstep
    split_ifs at hstep with hreads
    have hsome : c.handler.isSome = true := by
      by_contra h
      have := hinv.reads_fresh (by simpa using h)
      omega
    have hle := hinv.reads_le
    have hguarded := hinv.toGuarded.setReads (c.reads - 1)
    cases received with
    | none =>
      rw [← Option.some_inj.mp hstep]
      exact hguarded.sound_stop hsome (Nat.le_trans (Nat.sub_le _ 1) hle)
    | some received =>
      rw [← Option.some_inj.mp hstep]
      exact hguarded.onReceived hsome (show c.reads - 1 = 0 by omega) received
  | writeCompletion succeeded =>
    refine Or.inl ⟨fun h ↦ absurd h.1 (by simp), ?_⟩
    dsimp only at hstep
    obtain ⟨hwrites, hnext⟩ := Option.ite_none_right_eq_some.mp hstep
    rw [← Option.some_inj.mp hnext]
    exact hinv.writeCompletion hwrites succeeded
  | expire =>
    refine Or.inl ⟨fun h ↦ absurd h.1 (by simp), ?_⟩
    dsimp only at hstep
    split_ifs at hstep with hexpired
    rw [← Option.some_inj.mp hstep]
    exact hinv.expire hexpired.1
  | handleDeadline =>
    refine Or.inl ⟨fun h ↦ absurd h.1 (by simp), ?_⟩
    dsimp only at hstep
    split_ifs at hstep with hdue
    rw [← Option.some_inj.mp hstep]
    exact hinv.handleDeadline hdue
  | initiateWrite =>
    refine Or.inl ⟨fun h ↦ absurd h.1 (by simp), ?_⟩
    dsimp only at hstep
    obtain ⟨hposted, hnext⟩ := Option.ite_none_right_eq_some.mp hstep
    have hsome : c.handler.isSome = true := by
      by_contra h
      obtain ⟨-, -, hzero, -⟩ := hinv.fresh (by simpa using h)
      omega
    have hone : c.posted - 1 = 0 := by
      have hle := hinv.posted_eq ▸ Bool.toNat_le c.writeSignaled
      omega
    have htaken := hinv.setPosted hsome false
    rw [Bool.toNat_false, ← hone] at htaken
    rw [← Option.some_inj.mp hnext]
    split_ifs with hwritefun
    · exact htaken.doWrite hsome
    · exact htaken
  | task call =>
    refine Or.inl ⟨fun h ↦ absurd h.1 (by simp), ?_⟩
    dsimp only at hstep
    cases hhandler : c.handler with
    | none =>
      rw [hhandler] at hstep
      exact absurd hstep (by simp)
    | some handler =>
      rw [hhandler] at hstep
      have hcalled := hinv.setHandler (by rw [hhandler]; rfl) (H.call call handler).1
      dsimp only at hstep
      split_ifs at hstep with hreleased hsignals
      · rw [← Option.some_inj.mp hstep]
        exact hinv
      · rw [← Option.some_inj.mp hstep]
        exact hcalled.signalWrite rfl
      · rw [← Option.some_inj.mp hstep]
        exact hcalled
  | tick =>
    refine Or.inl ⟨fun h ↦ absurd h.1 (by simp), ?_⟩
    rw [← Option.some_inj.mp hstep]
    exact hinv.tick

/-- Nothing happens any more once the connection is lost. -/
theorem Lost.step_eq {c : AsioServerConnection σ} (hlost : Lost c) (event : Event ι τ) :
    c.step H T event = none :=
  if_pos hlost.faulted

theorem sound_or_lost_step (c : AsioServerConnection σ) (event : Event ι τ)
    (next : AsioServerConnection σ) (hinv : Sound T tls c ∨ Lost c)
    (hstep : c.step H T event = some next) : Sound T tls next ∨ Lost next := by
  rcases hinv with hinv | hlost
  · obtain ⟨-, hnext⟩ | ⟨-, hnext⟩ := hinv.step hstep
    · exact Or.inl hnext
    · exact Or.inr hnext
  · exact absurd (hlost.step_eq event |>.symm.trans hstep) (by simp)

/-- The states of a run are in order, but for the last one, where the connection may be lost. -/
theorem sound_or_lost {c : AsioServerConnection σ} {events : List (Event ι τ)}
    (hrun : run (step H T) (initial T tls) events = some c) : Sound T tls c ∨ Lost c :=
  invariant_run sound_or_lost_step (Or.inl (sound_initial T tls)) hrun

/-! ### Every state -/

/-- What holds in every state: there is at most one read, one write and one posted
`initiate_write`, and none without a handler; while the connection runs it reads, once it has a
handler, `writing_` tells whether it writes, and one wait or call of `handle_deadline` is under way;
when it has stopped, no wait is pending; and nothing holds it once it has stopped and all
completions have come. -/
structure Lifecycle (c : AsioServerConnection σ) : Prop where
  reads_le : c.reads ≤ 1
  writes_le : c.writes ≤ 1
  posted_le : c.posted ≤ 1
  outstanding_le : c.outstanding ≤ 3
  handled : 0 < c.reads + c.writes + c.posted → c.handler.isSome = true
  reading : c.stopped = false → c.handler.isSome = true → c.reads = 1
  writing_iff : c.stopped = false → (c.writing = true ↔ c.writes = 1)
  watched : c.stopped = false → c.deadline.watches = 1
  unwatched : c.stopped = true → c.deadline.waiting = 0 ∧ c.deadline.due ≤ 1
  released_iff : c.references = 0 ↔ c.stopped = true ∧ c.outstanding = 0

theorem Sound.handled {c : AsioServerConnection σ} (hinv : Sound T tls c)
    (hpositive : 0 < c.reads + c.writes + c.posted) : c.handler.isSome = true := by
  by_contra h
  have hnone : c.handler = none := by simpa using h
  obtain ⟨-, hwrites, hposted, -⟩ := hinv.fresh hnone
  have hreads := hinv.reads_fresh hnone
  omega

theorem Sound.watches_le {c : AsioServerConnection σ} (hinv : Sound T tls c) :
    c.deadline.watches ≤ 1 := by
  obtain hstopped | hrunning := Bool.eq_false_or_eq_true c.stopped
  · obtain ⟨hwaiting, hdue⟩ := hinv.unwatched hstopped
    simp only [DeadlineTimer.watches]
    omega
  · exact Nat.le_of_eq (hinv.watched hrunning)

theorem Sound.outstanding_le {c : AsioServerConnection σ} (hinv : Sound T tls c) :
    c.outstanding ≤ 3 := by
  have hphase := hinv.phase_le
  have hreads := hinv.reads_le
  have hwrites := hinv.writes_le
  have hwatches := hinv.watches_le
  have hshaking := Bool.toNat_le c.handshaking
  by_cases hsome : c.handler.isSome = true
  · rw [hsome, Bool.toNat_true] at hphase
    simp only [outstanding]
    omega
  · have hnone : c.handler = none := by simpa using hsome
    obtain ⟨-, hwrites, -, -⟩ := hinv.fresh hnone
    have hreads := hinv.reads_fresh hnone
    simp only [outstanding]
    omega

theorem Sound.lifecycle {c : AsioServerConnection σ} (hinv : Sound T tls c) : Lifecycle c := by
  refine ⟨hinv.reads_le, hinv.writes_le, hinv.posted_eq ▸ Bool.toNat_le _, hinv.outstanding_le,
    hinv.handled, hinv.reads_eq, fun hrunning ↦ ⟨hinv.writes_of_writing hrunning, fun h ↦ ?_⟩,
    hinv.watched, hinv.unwatched, ?_⟩
  · exact hinv.writing_of_writes (by omega)
  · have hwritefun := hinv.hasWritefun_eq
    simp only [references]
    obtain hstopped | hrunning := Bool.eq_false_or_eq_true c.stopped
    · rw [hstopped, Bool.not_true, Bool.and_false] at hwritefun
      rw [hwritefun, hstopped, Bool.toNat_false, Nat.add_zero]
      exact ⟨fun h ↦ ⟨rfl, h⟩, fun h ↦ h.2⟩
    · have hwatched := hinv.watched hrunning
      refine ⟨fun h ↦ absurd h ?_, fun h ↦ absurd (hrunning.symm.trans h.1) Bool.false_ne_true⟩
      simp only [outstanding]
      omega

theorem Lost.lifecycle {c : AsioServerConnection σ} (hlost : Lost c) : Lifecycle c := by
  have hreads := hlost.reads_eq
  have hwrites := hlost.writes_eq
  have hposted := hlost.posted_eq
  have hwatches := hlost.watches_eq
  have hreferences := hlost.references_eq
  have houtstanding : c.outstanding = 0 := by
    simp only [references] at hreferences
    omega
  have hstopped : ¬ c.stopped = false := fun h ↦
    absurd (h.symm.trans hlost.stopped) Bool.false_ne_true
  simp only [DeadlineTimer.watches] at hwatches
  exact ⟨by omega, by omega, by omega, by omega, fun h ↦ by omega, fun h ↦ absurd h hstopped,
    fun h ↦ absurd h hstopped, fun h ↦ absurd h hstopped, fun _ ↦ ⟨by omega, by omega⟩,
    fun _ ↦ ⟨hlost.stopped, houtstanding⟩, fun _ ↦ hreferences⟩

/-! ### Behind `stop` -/

/-- What is left to happen to a stopped connection: it stays stopped, no read or write is started,
and each completion that comes was outstanding. -/
structure Quiet (c : AsioServerConnection σ) (later : List (Event ι τ))
    (final : AsioServerConnection σ) : Prop where
  stopped : final.stopped = true
  begun_eq : final.begun = c.begun
  outstanding_eq : final.outstanding + later.countP Event.isCompletion = c.outstanding

/-- `do_write` does nothing on a stopped connection. -/
theorem doWrite_of_stopped {c : AsioServerConnection σ} (hstopped : c.stopped = true) :
    c.doWrite H T = c :=
  if_pos (by simp [hstopped])

theorem doRead_of_stopped {c : AsioServerConnection σ} (hstopped : c.stopped = true) :
    c.doRead T = c :=
  if_pos hstopped

/-- What a read delivers to a stopped connection changes the handler at most. -/
theorem onReceived_of_stopped {c : AsioServerConnection σ} (hstopped : c.stopped = true)
    (hsome : c.handler.isSome = true) (received : ι) :
    ∃ handler, c.onReceived H T received = { c with handler := some handler } := by
  obtain ⟨handler, hhandler⟩ := Option.isSome_iff_exists.mp hsome
  refine ⟨(H.onRead received handler).1, ?_⟩
  unfold onReceived
  rw [hhandler]
  dsimp only
  have hread : { c with handler := some (H.onRead received handler).1 }.stopped = true := hstopped
  rw [doWrite_of_stopped hread, stop_of_stopped hread, doRead_of_stopped hread]
  split_ifs <;> rfl

/-- One event on a stopped connection. -/
theorem Sound.quiet_step {c next : AsioServerConnection σ} {event : Event ι τ}
    (hinv : Sound T tls c) (hstopped : c.stopped = true)
    (hstep : c.step H T event = some next) : Quiet c [event] next := by
  unfold AsioServerConnection.step at hstep
  rw [if_neg (by simp [hinv.faultless])] at hstep
  cases event with
  | handshake succeeded =>
    obtain ⟨hshaking, hnext⟩ := Option.ite_none_right_eq_some.mp hstep
    rw [← Option.some_inj.mp hnext, @stop_of_stopped _ { c with handshaking := false } hstopped]
    split_ifs
    · refine ⟨hstopped, rfl, ?_⟩
      simp [outstanding, hshaking, Event.isCompletion]
      omega
    · refine ⟨hstopped, rfl, ?_⟩
      simp [outstanding, hshaking, Event.isCompletion]
      omega
  | start =>
    obtain ⟨hstarting, hnext⟩ := Option.ite_none_right_eq_some.mp hstep
    have hlost : { c with starting := false }.startInOwnThread H T =
        { c with starting := false }.fault := if_pos (hinv.references_eq hstarting hstopped).1
    rw [← Option.some_inj.mp hnext, hlost]
    exact ⟨hstopped, rfl, rfl⟩
  | readCompletion received =>
    obtain ⟨hreads, hnext⟩ := Option.ite_none_right_eq_some.mp hstep
    have hle := hinv.reads_le
    cases received with
    | none =>
      rw [← Option.some_inj.mp hnext, @stop_of_stopped _ { c with reads := c.reads - 1 } hstopped]
      refine ⟨hstopped, rfl, ?_⟩
      simp [outstanding, Event.isCompletion]
      omega
    | some received =>
      obtain ⟨handler, hreceived⟩ := @onReceived_of_stopped _ _ _ H T
        { c with reads := c.reads - 1 } hstopped (hinv.handled (by omega)) received
      rw [← Option.some_inj.mp hnext, hreceived]
      refine ⟨hstopped, rfl, ?_⟩
      simp [outstanding, Event.isCompletion]
      omega
  | writeCompletion succeeded =>
    obtain ⟨hwrites, hnext⟩ := Option.ite_none_right_eq_some.mp hstep
    rw [← Option.some_inj.mp hnext, @stop_of_stopped _ { c with writes := c.writes - 1 } hstopped,
      @doWrite_of_stopped _ _ _ H T { c with writes := c.writes - 1, writing := false } hstopped]
    split_ifs
    · refine ⟨hstopped, rfl, ?_⟩
      simp [outstanding, Event.isCompletion]
      omega
    · refine ⟨hstopped, rfl, ?_⟩
      simp [outstanding, Event.isCompletion]
      omega
  | expire =>
    obtain ⟨⟨hwaiting, -⟩, -⟩ := Option.ite_none_right_eq_some.mp hstep
    have := (hinv.unwatched hstopped).1
    omega
  | handleDeadline =>
    obtain ⟨hdue, hnext⟩ := Option.ite_none_right_eq_some.mp hstep
    rw [← Option.some_inj.mp hnext, AsioServerConnection.handleDeadline, if_pos hstopped]
    refine ⟨hstopped, rfl, ?_⟩
    simp [outstanding, DeadlineTimer.watches, Event.isCompletion]
    omega
  | initiateWrite =>
    obtain ⟨hposted, hnext⟩ := Option.ite_none_right_eq_some.mp hstep
    have hwritefun : c.hasWritefun = false := by
      rw [hinv.hasWritefun_eq, hstopped, Bool.not_true, Bool.and_false]
    rw [← Option.some_inj.mp hnext, if_neg (by simp [hwritefun])]
    exact ⟨hstopped, rfl, rfl⟩
  | task call =>
    cases hhandler : c.handler with
    | none =>
      rw [hhandler] at hstep
      exact absurd hstep (by simp)
    | some handler =>
      rw [hhandler] at hstep
      dsimp only at hstep
      split_ifs at hstep with hreleased hsignals
      · rw [← Option.some_inj.mp hstep]
        exact ⟨hstopped, rfl, rfl⟩
      · rw [← Option.some_inj.mp hstep]
        unfold AsioServerConnection.signalWrite
        split_ifs <;> exact ⟨hstopped, rfl, rfl⟩
      · rw [← Option.some_inj.mp hstep]
        exact ⟨hstopped, rfl, rfl⟩
  | tick =>
    rw [← Option.some_inj.mp hstep]
    exact ⟨hstopped, rfl, rfl⟩

/-- All events on a stopped connection. -/
theorem quiet_run {c final : AsioServerConnection σ} {later : List (Event ι τ)}
    (hinv : Sound T tls c ∨ Lost c) (hstopped : c.stopped = true)
    (hrun : run (step H T) c later = some final) : Quiet c later final := by
  induction later generalizing c with
  | nil =>
    rw [run_nil, Option.some_inj] at hrun
    rw [← hrun]
    exact ⟨hstopped, rfl, rfl⟩
  | cons event rest ih =>
    obtain ⟨next, hnext, hrest⟩ := run_cons_eq_some.mp hrun
    rcases hinv with hinv | hlost
    · have hquiet := hinv.quiet_step hstopped hnext
      have hafter := ih (sound_or_lost_step c event next (Or.inl hinv) hnext) hquiet.stopped hrest
      have hfirst := hquiet.outstanding_eq
      have hthen := hafter.outstanding_eq
      rw [List.countP_singleton] at hfirst
      refine ⟨hafter.stopped, hafter.begun_eq.trans hquiet.begun_eq, ?_⟩
      rw [List.countP_cons]
      omega
    · exact absurd (hlost.step_eq event |>.symm.trans hnext) (by simp)

/-- **The life of a connection**, over any handler: what holds in every state of every run, and what
is left to happen once the connection is stopped. -/
theorem lifecycle_sound {c : AsioServerConnection σ} {events : List (Event ι τ)}
    (hrun : run (step H T) (initial T tls) events = some c) :
    Lifecycle c ∧ (c.stopped = true → ∀ (later : List (Event ι τ)) (final : AsioServerConnection σ),
      run (step H T) c later = some final → Quiet c later final) := by
  have hinv := sound_or_lost hrun
  refine ⟨?_, fun hstopped later final hlater ↦ quiet_run hinv hstopped hlater⟩
  rcases hinv with hinv | hlost
  · exact hinv.lifecycle
  · exact hlost.lifecycle

/-- A handler that counts what it reads and writes as many bytes, for a run on it. -/
def counting : BaseHandler ℕ ℕ ℕ where
  start := (0, true)
  onRead received n := (n + received, true)
  onWrite n := (0, some n)
  shouldStop _ := false
  call added n := (n + added, true)

theorem lifecycle_sound_counting :
    ∃ c : AsioServerConnection ℕ, c.stopped = true ∧ c.outstanding = 2 ∧ Lifecycle c :=
  ⟨_, rfl, rfl, (@lifecycle_sound ℕ ℕ ℕ counting ⟨5, 9⟩ true _
    [.handshake true, .start, .handleDeadline, .readCompletion (some 3), .task 2,
      .writeCompletion true, .readCompletion none] rfl).1⟩

/-! ### Release -/

/-- **The start of a connection that is gone.** In a run no `start_in_own_thread` works on a
connection that nothing holds, and nothing follows an empty `handler_`, if and only if each
`start_in_own_thread` runs on a connection that has not been stopped. -/
theorem everyState_not_faulted_iff {final : AsioServerConnection σ} {events : List (Event ι τ)}
    (hrun : run (step H T) (initial T tls) events = some final) :
    EveryState (step H T) (fun c ↦ c.faulted = false) (initial T tls) events ↔
      RunMeets (step H T) (fun c event ↦ ¬ c.StartsStopped event) (initial T tls) events := by
  refine everyState_iff_runMeets sound_or_lost_step (fun c event next hinv hc hnext ↦ ?_)
    (Or.inl (sound_initial T tls)) rfl hrun
  rcases hinv with hinv | hlost
  · obtain ⟨hmeets, hsound⟩ | ⟨hlate, hlost⟩ := hinv.step hnext
    · exact iff_of_true hsound.faultless hmeets
    · exact iff_of_false (fun h ↦ absurd (h.symm.trans hlost.faulted) Bool.false_ne_true)
        fun h ↦ h hlate
  · exact absurd (hc.symm.trans hlost.faulted) Bool.false_ne_true

theorem everyState_not_faulted_counting :
    ¬ EveryState (step counting ⟨1, 9⟩) (fun c ↦ c.faulted = false)
      (initial ⟨1, 9⟩ true) [.tick, .handshake true, .expire, .handleDeadline, .start] := by
  rw [everyState_not_faulted_iff rfl]
  decide

end Maock.Connection.AsioServerConnection
