import Maock.Connection.Lifecycle

/-!
# The deadline of a connection

The first deadline of a connection is set when it is accepted; each start of a read or a write sets
it anew (`limit`). What follows from the wait that is always under way: `handle_deadline` stops a
running connection exactly when it has been idle for the timeout (`stopped_handleDeadline_iff`), and
when the handlers of waits run as soon as they can, no running connection is idle for longer
(`now_le_limit`). `deadline_watch` is both. `lost_of_late_start` is the run in which the first
deadline stops a connection that is about to start.
-/

set_option autoImplicit false
set_option relaxedAutoImplicit false

namespace Maock.Connection.AsioServerConnection

open Foundation Foundation.TransitionSystem

variable {σ ι τ : Type*} {H : BaseHandler σ ι τ} {T : Timeouts} {tls : Bool}

/-! ### Idle connections -/

/-- A read timeout has passed since every start of a read or a write, or the first deadline has come
without any. -/
def Idle (T : Timeouts) (tls : Bool) (c : AsioServerConnection σ) : Prop :=
  (c.begun = [] → T.first tls ≤ c.now) ∧ ∀ time ∈ c.begun, time + T.read ≤ c.now

theorem Guarded.limit_le_iff {c : AsioServerConnection σ} (hinv : Guarded T tls c) :
    limit T tls c.begun ≤ c.now ↔ c.Idle T tls := by
  have hclock := hinv.clock
  unfold Idle
  cases hbegun : c.begun with
  | nil => simp [limit]
  | cons latest earlier =>
    rw [hbegun] at hclock
    have hearlier := (List.pairwise_cons.mp (List.pairwise_cons.mp hclock).2).1
    constructor
    · refine fun hlimit ↦ ⟨fun h ↦ absurd h (List.cons_ne_nil _ _), fun time htime ↦ ?_⟩
      have hlatest : latest + T.read ≤ c.now := hlimit
      rcases List.mem_cons.mp htime with rfl | htime
      · exact hlatest
      · have := hearlier time htime
        omega
    · exact fun hidle ↦ hidle.2 latest List.mem_cons_self

theorem Guarded.expired_iff {c : AsioServerConnection σ} (hinv : Guarded T tls c)
    (hrunning : c.stopped = false) : c.deadline.expired c.now = true ↔ c.Idle T tls := by
  rw [← hinv.limit_le_iff, DeadlineTimer.expired, hinv.expiry hrunning]
  simp

/-- `handle_deadline` stops a running connection if and only if it is idle. -/
theorem Sound.stopped_handleDeadline_iff {c next : AsioServerConnection σ} (hinv : Sound T tls c)
    (hrunning : c.stopped = false)
    (hstep : c.step H T (.handleDeadline : Event ι τ) = some next) :
    next.stopped = true ↔ c.Idle T tls := by
  rw [← hinv.toGuarded.expired_iff hrunning]
  unfold AsioServerConnection.step at hstep
  rw [if_neg (by simp [hinv.faultless])] at hstep
  obtain ⟨-, hnext⟩ := Option.ite_none_right_eq_some.mp hstep
  rw [← Option.some_inj.mp hnext, AsioServerConnection.handleDeadline, if_neg (by simp [hrunning])]
  have hsame : DeadlineTimer.expired c.now { c.deadline with due := c.deadline.due - 1 } =
      c.deadline.expired c.now := rfl
  dsimp only
  rw [hsame]
  split_ifs with hexpired
  · exact iff_of_true (stopped_stop _) hexpired
  · exact iff_of_false (by simp [hrunning]) hexpired

/-! ### Operations and the clock -/

/-- What operations do to the clock: time does not pass, what is started is started now, and a
stopped connection stays so. -/
structure Prompt (c next : AsioServerConnection σ) : Prop where
  now_eq : next.now = c.now
  begun_eq : next.begun = c.begun ∨ ∃ earlier, next.begun = c.now :: earlier
  stopped : c.stopped = true → next.stopped = true

theorem Prompt.refl (c : AsioServerConnection σ) : Prompt c c :=
  ⟨rfl, Or.inl rfl, id⟩

theorem Prompt.trans {c middle next : AsioServerConnection σ} (h : Prompt c middle)
    (h' : Prompt middle next) : Prompt c next := by
  refine ⟨h'.now_eq.trans h.now_eq, ?_, fun hstopped ↦ h'.stopped (h.stopped hstopped)⟩
  obtain heq | ⟨earlier, heq⟩ := h'.begun_eq
  · rw [heq]
    exact h.begun_eq
  · exact Or.inr ⟨earlier, heq.trans (by rw [h.now_eq])⟩

theorem prompt_stop (c : AsioServerConnection σ) : Prompt c c.stop := by
  refine ⟨?_, Or.inl (begun_stop c), fun _ ↦ stopped_stop c⟩
  unfold stop
  split_ifs <;> rfl

theorem prompt_doRead (T : Timeouts) (c : AsioServerConnection σ) : Prompt c (c.doRead T) := by
  unfold doRead
  split_ifs
  · exact .refl c
  · exact ⟨rfl, Or.inr ⟨c.begun, rfl⟩, id⟩

theorem prompt_doWrite (H : BaseHandler σ ι τ) (T : Timeouts) (c : AsioServerConnection σ) :
    Prompt c (c.doWrite H T) := by
  obtain ⟨-, heq⟩ | ⟨-, ⟨-, heq⟩ | ⟨-, handler, heq | heq | heq⟩⟩ := doWrite_cases H T c
  · rw [heq]
    exact .refl c
  · rw [heq]
    exact ⟨rfl, Or.inl rfl, id⟩
  · have hcalled : Prompt c { c with handler := some handler } := ⟨rfl, Or.inl rfl, id⟩
    rw [heq]
    exact hcalled.trans (prompt_stop _)
  · rw [heq]
    exact ⟨rfl, Or.inl rfl, id⟩
  · rw [heq]
    exact ⟨rfl, Or.inr ⟨c.begun, rfl⟩, id⟩

theorem prompt_onReceived (received : ι) (c : AsioServerConnection σ) :
    Prompt c (c.onReceived H T received) := by
  unfold onReceived
  cases c.handler with
  | none => exact ⟨rfl, Or.inl rfl, id⟩
  | some handler =>
    dsimp only
    have hread : Prompt c { c with handler := some (H.onRead received handler).1 } :=
      ⟨rfl, Or.inl rfl, id⟩
    split_ifs
    · exact (hread.trans (prompt_doWrite H T _)).trans (prompt_stop _)
    · exact (hread.trans (prompt_doWrite H T _)).trans (prompt_doRead T _)
    · exact hread.trans (prompt_stop _)

theorem prompt_startInOwnThread (c : AsioServerConnection σ) :
    Prompt c (c.startInOwnThread H T) := by
  unfold startInOwnThread
  have hstart : Prompt c { c with handler := some H.start.1, hasWritefun := true } :=
    ⟨rfl, Or.inl rfl, id⟩
  dsimp only
  split_ifs
  · exact ⟨rfl, Or.inl rfl, id⟩
  · exact hstart.trans (prompt_doRead T _)
  · exact hstart.trans (prompt_stop _)

theorem prompt_handleDeadline (c : AsioServerConnection σ) : Prompt c c.handleDeadline := by
  unfold handleDeadline
  split_ifs with hstopped
  · exact .refl c
  · exact (prompt_stop c).trans ⟨rfl, Or.inl rfl, id⟩
  · exact ⟨rfl, Or.inl rfl, id⟩

/-- Only a tick lets time pass. -/
theorem prompt_step {c next : AsioServerConnection σ} {event : Event ι τ}
    (hevent : event ≠ .tick) (hstep : c.step H T event = some next) : Prompt c next := by
  unfold step at hstep
  by_cases hfault : c.faulted = true
  · rw [if_pos hfault] at hstep
    exact absurd hstep (by simp)
  rw [if_neg hfault] at hstep
  cases event with
  | handshake succeeded =>
    obtain ⟨-, hnext⟩ := Option.ite_none_right_eq_some.mp hstep
    have hended : Prompt c { c with handshaking := false } := ⟨rfl, Or.inl rfl, id⟩
    rw [← Option.some_inj.mp hnext]
    split_ifs
    · exact ⟨rfl, Or.inl rfl, id⟩
    · exact hended.trans (prompt_stop _)
  | start =>
    obtain ⟨-, hnext⟩ := Option.ite_none_right_eq_some.mp hstep
    have htaken : Prompt c { c with starting := false } := ⟨rfl, Or.inl rfl, id⟩
    rw [← Option.some_inj.mp hnext]
    exact htaken.trans (prompt_startInOwnThread _)
  | readCompletion received =>
    obtain ⟨-, hnext⟩ := Option.ite_none_right_eq_some.mp hstep
    have hended : Prompt c { c with reads := c.reads - 1 } := ⟨rfl, Or.inl rfl, id⟩
    cases received with
    | none =>
      rw [← Option.some_inj.mp hnext]
      exact hended.trans (prompt_stop _)
    | some received =>
      rw [← Option.some_inj.mp hnext]
      exact hended.trans (prompt_onReceived received _)
  | writeCompletion succeeded =>
    obtain ⟨-, hnext⟩ := Option.ite_none_right_eq_some.mp hstep
    have hended : Prompt c { c with writes := c.writes - 1 } := ⟨rfl, Or.inl rfl, id⟩
    have hcompleted : Prompt c { c with writes := c.writes - 1, writing := false } :=
      ⟨rfl, Or.inl rfl, id⟩
    rw [← Option.some_inj.mp hnext]
    split_ifs
    · exact hcompleted.trans (prompt_doWrite H T _)
    · exact hended.trans (prompt_stop _)
  | expire =>
    obtain ⟨-, hnext⟩ := Option.ite_none_right_eq_some.mp hstep
    rw [← Option.some_inj.mp hnext]
    exact ⟨rfl, Or.inl rfl, id⟩
  | handleDeadline =>
    obtain ⟨-, hnext⟩ := Option.ite_none_right_eq_some.mp hstep
    have htaken : Prompt c
        { c with deadline := { c.deadline with due := c.deadline.due - 1 } } :=
      ⟨rfl, Or.inl rfl, id⟩
    rw [← Option.some_inj.mp hnext]
    exact htaken.trans (prompt_handleDeadline _)
  | initiateWrite =>
    obtain ⟨-, hnext⟩ := Option.ite_none_right_eq_some.mp hstep
    have htaken : Prompt c { c with posted := c.posted - 1, writeSignaled := false } :=
      ⟨rfl, Or.inl rfl, id⟩
    rw [← Option.some_inj.mp hnext]
    split_ifs
    · exact htaken.trans (prompt_doWrite H T _)
    · exact ⟨rfl, Or.inl rfl, id⟩
  | task call =>
    cases hhandler : c.handler with
    | none =>
      rw [hhandler] at hstep
      exact absurd hstep (by simp)
    | some handler =>
      rw [hhandler] at hstep
      dsimp only at hstep
      split_ifs at hstep with hreleased hsignals
      · rw [← Option.some_inj.mp hstep]
        exact ⟨rfl, Or.inl rfl, id⟩
      · rw [← Option.some_inj.mp hstep]
        unfold signalWrite
        split_ifs <;> exact ⟨rfl, Or.inl rfl, id⟩
      · rw [← Option.some_inj.mp hstep]
        exact ⟨rfl, Or.inl rfl, id⟩
  | tick => exact absurd rfl hevent

/-! ### Handlers that run in time -/

/-- The handler of a wait can run, or could if the wait ended as it should. -/
def WaitDue (c : AsioServerConnection σ) : Prop :=
  0 < c.deadline.due ∨ 0 < c.deadline.waiting ∧ c.deadline.expired c.now = true

instance (c : AsioServerConnection σ) : Decidable c.WaitDue :=
  inferInstanceAs (Decidable (_ ∨ _))

/-- No time passes while the handler of a wait is due. -/
def InTime (c : AsioServerConnection σ) (event : Event ι τ) : Prop :=
  event = .tick → ¬ c.WaitDue

instance (c : AsioServerConnection σ) : DecidablePred (c.InTime : Event ι τ → Prop)
  | .tick => decidable_of_iff (¬ c.WaitDue) ⟨fun h _ ↦ h, fun h ↦ h rfl⟩
  | .handshake _ | .start | .readCompletion _ | .writeCompletion _ | .expire | .handleDeadline
  | .initiateWrite | .task _ => isTrue fun h ↦ absurd h (by simp)

/-- The limit of a running connection has not passed. -/
def WithinLimit (T : Timeouts) (tls : Bool) (c : AsioServerConnection σ) : Prop :=
  c.stopped = false → c.now ≤ limit T tls c.begun

theorem withinLimit_of_prompt {c next : AsioServerConnection σ} (hc : c.WithinLimit T tls)
    (hprompt : Prompt c next) : next.WithinLimit T tls := by
  intro hrunning
  have hbefore : c.stopped = false := by
    by_contra h
    exact absurd (hrunning.symm.trans (hprompt.stopped (by simpa using h))) Bool.false_ne_true
  rw [hprompt.now_eq]
  obtain heq | ⟨earlier, heq⟩ := hprompt.begun_eq
  · rw [heq]
    exact hc hbefore
  · rw [heq]
    exact Nat.le_add_right c.now T.read

theorem Sound.withinLimit_step {c next : AsioServerConnection σ} {event : Event ι τ}
    (hinv : Sound T tls c) (hc : c.WithinLimit T tls) (htime : c.InTime event)
    (hstep : c.step H T event = some next) : next.WithinLimit T tls := by
  by_cases hevent : event = .tick
  · have hdue := htime hevent
    subst hevent
    unfold AsioServerConnection.step at hstep
    rw [if_neg (by simp [hinv.faultless])] at hstep
    rw [← Option.some_inj.mp hstep]
    intro hrunning
    have hbefore : c.stopped = false := hrunning
    have hwatched := hinv.watched hbefore
    have hexpiry := hinv.expiry hbefore
    show c.now + 1 ≤ limit T tls c.begun
    by_contra hlate
    -- the one wait is pending, and its time has come
    refine hdue ?_
    by_cases hzero : 0 < c.deadline.due
    · exact Or.inl hzero
    · refine Or.inr ⟨?_, ?_⟩
      · simp only [DeadlineTimer.watches] at hwatched
        omega
      · rw [DeadlineTimer.expired, hexpiry]
        have hle := hc hbefore
        simp only [Option.any_some, decide_eq_true_eq]
        omega
  · exact withinLimit_of_prompt hc (prompt_step hevent hstep)

/-- When the handlers of waits run in time, no running connection is beyond its limit. -/
theorem withinLimit_run {c : AsioServerConnection σ} {events : List (Event ι τ)}
    (htime : RunMeets (step H T) InTime (initial T tls) events)
    (hrun : run (step H T) (initial T tls) events = some c) : c.WithinLimit T tls := by
  have hkeeps : ∀ (state : AsioServerConnection σ) (event : Event ι τ) next,
      (Sound T tls state ∨ Lost state) ∧ state.WithinLimit T tls → state.InTime event →
      state.step H T event = some next → (Sound T tls next ∨ Lost next) ∧
        next.WithinLimit T tls := by
    rintro state event next ⟨hinv, hwithin⟩ hmeets hstep
    refine ⟨sound_or_lost_step state event next hinv hstep, ?_⟩
    rcases hinv with hinv | hlost
    · exact hinv.withinLimit_step hwithin hmeets hstep
    · exact absurd ((hlost.step_eq event).symm.trans hstep) (by simp)
  exact (invariant_run_of_meets hkeeps ⟨Or.inl (sound_initial T tls), fun _ ↦ Nat.zero_le _⟩ htime
    hrun).2

/-- **The deadline watch.** In every run a call of `handle_deadline` stops a running connection if
and only if it is idle; and in every run in which the handlers of waits run in time, the limit of a
running connection has not passed. -/
theorem deadline_watch {c : AsioServerConnection σ} {events : List (Event ι τ)}
    (hrun : run (step H T) (initial T tls) events = some c) :
    (∀ next, c.stopped = false → c.step H T (.handleDeadline : Event ι τ) = some next →
      (next.stopped = true ↔ c.Idle T tls)) ∧
    (RunMeets (step H T) InTime (initial T tls) events → c.stopped = false →
      c.now ≤ limit T tls c.begun) := by
  refine ⟨fun next hrunning hstep ↦ ?_, fun htime ↦ withinLimit_run htime hrun⟩
  rcases sound_or_lost hrun with hinv | hlost
  · exact hinv.stopped_handleDeadline_iff hrunning hstep
  · exact absurd ((hlost.step_eq _).symm.trans hstep) (by simp)

theorem deadline_watch_counting :
    ∃ c : AsioServerConnection ℕ, c.begun = [1, 1, 0] ∧ c.stopped = false ∧
      c.now ≤ limit ⟨5, 9⟩ false c.begun := by
  exact ⟨_, rfl, rfl, (@deadline_watch ℕ ℕ ℕ counting ⟨5, 9⟩ false _
    [.start, .handleDeadline, .tick, .readCompletion (some 3)] rfl).2 (by decide) rfl⟩

/-! ### A deadline before the start -/

theorem run_ticks {c : AsioServerConnection σ} (hfaultless : c.faulted = false) (n : ℕ) :
    run (step H T) c (List.replicate n (.tick : Event ι τ)) = some { c with now := c.now + n } := by
  induction n generalizing c with
  | zero => rfl
  | succ n ih =>
    have htick : c.step H T (.tick : Event ι τ) = some { c with now := c.now + 1 } :=
      if_neg (by simp [hfaultless])
    rw [List.replicate_succ, run_cons_eq_some]
    refine ⟨_, htick, (ih (c := { c with now := c.now + 1 }) hfaultless).trans ?_⟩
    rw [Nat.add_assoc, Nat.add_comm 1 n]

/-- **A start can come too late.** Whatever the handler and the timeouts, with TLS or without, some
run starts a connection that is gone. -/
theorem lost_of_late_start (H : BaseHandler σ ι τ) (T : Timeouts) (tls : Bool) :
    ∃ (events : List (Event ι τ)) (c : AsioServerConnection σ),
      run (step H T) (initial T tls) events = some c ∧ c.faulted = true := by
  have hticks : run (step H T) (initial T tls : AsioServerConnection σ)
      (List.replicate (T.first tls) (.tick : Event ι τ)) =
        some { initial T tls with now := 0 + T.first tls } := run_ticks rfl _
  have hexpired (waiting due : ℕ) :
      DeadlineTimer.expired (T.first tls) ⟨some (T.first tls), waiting, due⟩ = true := by
    simp [DeadlineTimer.expired]
  cases tls with
  | false =>
    refine ⟨List.replicate (T.first false) .tick ++ [.expire, .handleDeadline, .start], ?_⟩
    rw [run_append, hticks]
    simp [run, step, initial, hexpired, AsioServerConnection.handleDeadline, startInOwnThread, stop,
      references, outstanding, DeadlineTimer.watches, DeadlineTimer.setExpiry,
      DeadlineTimer.cancel, fault]
  | true =>
    refine ⟨List.replicate (T.first true) .tick ++
      [.handshake true, .expire, .handleDeadline, .start], ?_⟩
    rw [run_append, hticks]
    simp [run, step, initial, hexpired, AsioServerConnection.handleDeadline, startInOwnThread, stop,
      references, outstanding, DeadlineTimer.watches, DeadlineTimer.setExpiry,
      DeadlineTimer.cancel, fault]

end Maock.Connection.AsioServerConnection
