import Maock.Connection.Lifecycle
import Maock.Http2.Output

/-!
# The output of an HTTP/2 connection with its deadline

`Output` has the connection of an `http2_handler` with a deadline that may stop it at any time. Here
the handler is one of those of `Connection.Lifecycle`, where the connection has its deadline timer,
handshake and start. `reaches_view` says that this connection refines that one: whatever the timer
does, the session, the buffer and the history of the writes are those of a run there
(`simulates_step` is the step of the simulation), so that the order of the output carries over.
-/

set_option autoImplicit false
set_option relaxedAutoImplicit false

namespace Maock.Http2

open Foundation Foundation.Bytes Foundation.TransitionSystem
open Maock.Connection (BaseHandler AsioServerConnection Timeouts)

variable {σ τ : Type*}

/-- What `http2_handler` keeps for its output, with the buffer that the connection passes to
`on_write`, the byte ranges and chunks of the history, and whether a `copy_n` has left the
buffer. -/
structure OutputHandler (σ : Type*) where
  session : σ
  buflen : Option ℕ
  outbuf : Bytes
  started : List Bytes
  taken : List Bytes
  overrun : Bool

/-- `http2_handler` as a handler of a connection, for a session that it can create. The connection
passes to `async_write` what `on_write` has left in the buffer. -/
def baseHandler (S : Session σ τ) (size : ℕ) (session : σ) :
    BaseHandler (OutputHandler σ) Bytes τ where
  start := (⟨session, none, List.replicate size 0, [], [], false⟩, true)
  onRead bytes h :=
    let (session, succeeded) := S.memRecv bytes h.session
    ({ h with session := session }, succeeded)
  onWrite h :=
    match S.onWrite h.session h.buflen h.outbuf with
    | none => ({ h with overrun := true }, none)
    | some f =>
      ({ session := f.session
         buflen := f.buflen
         outbuf := f.buffer
         started := if f.len = 0 then h.started else h.started ++ [f.buffer.take f.len]
         taken := h.taken ++ f.taken
         overrun := h.overrun }, some f.len)
  shouldStop h := S.idle h.session
  call task h :=
    let (session, succeeded) := S.call task h.session
    ({ h with session := session }, succeeded)

namespace TimedOutput

/-- The connection without its timer. -/
def view (c : AsioServerConnection (OutputHandler σ)) (h : OutputHandler σ) : Connection σ where
  session := h.session
  buflen := h.buflen
  writeSignaled := c.writeSignaled
  outbuf := h.outbuf
  writing := c.writing
  stopped := c.stopped
  reading := decide (0 < c.reads)
  posted := c.posted
  outstanding := c.writes
  started := h.started
  taken := h.taken
  overrun := h.overrun

/-- A connection that has a handler is seen so. -/
def Shows (c : AsioServerConnection (OutputHandler σ)) (abstract : Connection σ) : Prop :=
  ∃ h, c.handler = some h ∧ view c h = abstract

section Operations

variable {S : Session σ τ} {size : ℕ} {session : σ} {T : Timeouts} {tls : Bool}

theorem shows_stop {c : AsioServerConnection (OutputHandler σ)} {abstract : Connection σ}
    (hshows : Shows c abstract) : Shows c.stop abstract.stop := by
  obtain ⟨h, hhandler, rfl⟩ := hshows
  obtain hstopped | hrunning := Bool.eq_false_or_eq_true c.stopped
  · rw [AsioServerConnection.stop_of_stopped hstopped]
    refine ⟨h, hhandler, ?_⟩
    simp [view, Connection.stop, hstopped]
  · rw [AsioServerConnection.stop_of_running hrunning]
    exact ⟨h, hhandler, rfl⟩

/-- `do_write`, where no `copy_n` leaves the buffer. -/
theorem shows_doWrite {c : AsioServerConnection (OutputHandler σ)} {abstract : Connection σ}
    (hS : S.Lawful size) (hordered : Connection.Ordered S size abstract)
    (hshows : Shows c abstract) :
    Shows (c.doWrite (baseHandler S size session) T) (abstract.doWrite S) := by
  obtain ⟨h, hhandler, rfl⟩ := hshows
  unfold AsioServerConnection.doWrite Connection.doWrite
  have hidle : ((view c h).stopped || (view c h).writing) = (c.stopped || c.writing) := rfl
  rw [hidle]
  split_ifs with hskip
  · exact ⟨h, hhandler, rfl⟩
  obtain ⟨f, hf, -⟩ := S.onWrite_spec hS hordered.length_outbuf hordered.parks
  have hwritten : S.onWrite h.session h.buflen h.outbuf = some f := hf
  have hview : S.onWrite (view c h).session (view c h).buflen (view c h).outbuf = some f := hf
  rw [hview, hhandler]
  simp only [baseHandler, hwritten]
  cases hlen : f.len with
  | zero =>
    simp only [if_true]
    split_ifs
    · exact shows_stop ⟨_, rfl, rfl⟩
    · exact ⟨_, rfl, rfl⟩
  | succ n =>
    simp only [Nat.succ_ne_zero, if_false]
    exact ⟨_, rfl, rfl⟩

/-- The end of the completion of a read: the connection stops or reads on. -/
theorem shows_afterWrite {c : AsioServerConnection (OutputHandler σ)} {abstract : Connection σ}
    (hreads : c.reads = 0) (hshows : Shows c abstract) :
    Shows (if !c.writing && c.handlerShouldStop (baseHandler S size session) then c.stop
        else c.doRead T)
      (if !abstract.writing && S.idle abstract.session then abstract.stop
        else { abstract with reading := !abstract.stopped }) := by
  have hstop := shows_stop hshows
  obtain ⟨h, hhandler, rfl⟩ := hshows
  have hidle : c.handlerShouldStop (baseHandler S size session) = S.idle h.session := by
    rw [AsioServerConnection.handlerShouldStop, hhandler]
    rfl
  have hsame : (!(view c h).writing && S.idle (view c h).session) =
      (!c.writing && S.idle h.session) := rfl
  rw [hidle, hsame]
  split_ifs
  · exact hstop
  · unfold AsioServerConnection.doRead
    split_ifs with hstopped
    · refine ⟨h, hhandler, ?_⟩
      simp [view, hstopped, hreads]
    · refine ⟨h, hhandler, ?_⟩
      simp [view, hstopped]

/-- The completion of a read that has delivered bytes, as the only read. -/
theorem shows_onReceived {c : AsioServerConnection (OutputHandler σ)} {abstract : Connection σ}
    (hS : S.Lawful size) (hkeeps : Connection.Keeps S size abstract) (hreads : c.reads = 0)
    (hshows : Shows c abstract) (bytes : Bytes) :
    Shows (c.onReceived (baseHandler S size session) T bytes)
      (abstract.onReadCompletion S (some bytes)) := by
  obtain ⟨h, hhandler, rfl⟩ := hshows
  unfold AsioServerConnection.onReceived Connection.onReadCompletion
  rw [hhandler]
  have hreceived := hkeeps.withSession (hS.data_memRecv bytes h.session)
  have hread : Shows { c with handler := some { h with session := (S.memRecv bytes h.session).1 } }
      { view c h with session := (S.memRecv bytes h.session).1 } := ⟨_, rfl, rfl⟩
  by_cases hok : (S.memRecv bytes h.session).2 = true
  · have hwritten := @shows_doWrite _ _ S size session T _ _ hS hreceived.ordered hread
    have hreadsAfter := (@AsioServerConnection.frame_doWrite _ _ _ (baseHandler S size session) T
      { c with handler := some { h with session := (S.memRecv bytes h.session).1 } }).1
    have hafter := @shows_afterWrite _ _ S size session T _ _ (hreadsAfter.trans hreads) hwritten
    have hread' : (S.memRecv bytes (view c h).session).2 = true := hok
    simp only [baseHandler, hok, if_true] at hafter ⊢
    rw [if_pos hread']
    exact hafter
  · have hread' : ¬ (S.memRecv bytes (view c h).session).2 = true := hok
    simp only [baseHandler, hok]
    rw [if_neg hread']
    exact shows_stop hread

/-! ### The simulation -/

/-- The two connections belong together: the one here is in order, and the other shows it, or has
not begun as this one has not. -/
structure Simulates (S : Session σ τ) (size : ℕ) (session : σ) (T : Timeouts) (tls : Bool)
    (c : AsioServerConnection (OutputHandler σ)) (abstract : Connection σ) : Prop where
  sound : c.Sound T tls ∨ c.Lost
  keeps : Connection.Keeps S size abstract
  shows : Shows c abstract ∨ c.handler = none ∧ abstract = Connection.initial session size

/-- A completed write leaves the bytes in order. -/
theorem ordered_completed {abstract : Connection σ} (hkeeps : Connection.Keeps S size abstract) :
    Connection.Ordered S size
      { abstract with outstanding := abstract.outstanding - 1, writing := false } := by
  have hle := hkeeps.ordered.outstanding_le
  have hnone : abstract.outstanding - 1 = 0 := by omega
  exact ⟨hkeeps.ordered.length_outbuf, hkeeps.ordered.parks, hkeeps.ordered.stream,
    hnone.trans_le (Nat.zero_le 1), fun h ↦ absurd h (by simp [hnone]), hkeeps.ordered.not_overrun⟩

/-- An event that leaves what is shown. -/
theorem reaches_same {c next : AsioServerConnection (OutputHandler σ)} {abstract : Connection σ}
    (hshows : Shows c abstract) (hhandler : next.handler = c.handler)
    (hview : ∀ h, view next h = view c h) :
    ∃ abstract', Reaches (Connection.step S) abstract abstract' ∧ Shows next abstract' := by
  obtain ⟨h, hsome, rfl⟩ := hshows
  exact ⟨_, reaches_refl _, h, hhandler.trans hsome, hview h⟩

theorem shows_signalWrite {c : AsioServerConnection (OutputHandler σ)} {abstract : Connection σ}
    (hshows : Shows c abstract) : Shows c.signalWrite abstract.signalWrite := by
  obtain ⟨h, hhandler, rfl⟩ := hshows
  have hsame : (view c h).writeSignaled = c.writeSignaled := rfl
  unfold AsioServerConnection.signalWrite Connection.signalWrite
  rw [hsame]
  split_ifs
  · exact ⟨h, hhandler, rfl⟩
  · exact ⟨h, hhandler, rfl⟩

/-- A task that calls the session. -/
theorem shows_task (c : AsioServerConnection (OutputHandler σ)) (h : OutputHandler σ) (call : τ) :
    Shows (if ((baseHandler S size session).call call h).2 = true then
        { c with handler := some ((baseHandler S size session).call call h).1 }.signalWrite
      else { c with handler := some ((baseHandler S size session).call call h).1 })
      ((view c h).onTask S call) := by
  have hcalled : Shows { c with handler := some ((baseHandler S size session).call call h).1 }
      { view c h with session := (S.call call h.session).1 } := ⟨_, rfl, rfl⟩
  by_cases hsucceeded : (S.call call h.session).2 = true
  · have habstract : (view c h).onTask S call =
        { view c h with session := (S.call call h.session).1 }.signalWrite := if_pos hsucceeded
    rw [habstract, if_pos (show ((baseHandler S size session).call call h).2 = true from
      hsucceeded)]
    exact shows_signalWrite hcalled
  · have habstract : (view c h).onTask S call =
        { view c h with session := (S.call call h.session).1 } := if_neg hsucceeded
    rw [habstract, if_neg (show ¬ ((baseHandler S size session).call call h).2 = true from
      hsucceeded)]
    exact hcalled

/-- An event on a connection that has no handler gives it one, with which it reads, or none. -/
theorem begins_step {c next : AsioServerConnection (OutputHandler σ)}
    {event : Maock.Connection.Event Bytes τ} (hsound : c.Sound T tls) (hnone : c.handler = none)
    (hstep : c.step (baseHandler S size session) T event = some next) :
    next.handler = none ∨ Shows next (Connection.initial session size) := by
  obtain ⟨hwriting, hwrites, hposted, -⟩ := hsound.fresh hnone
  have hreads := hsound.reads_fresh hnone
  unfold AsioServerConnection.step at hstep
  rw [if_neg (by simp [hsound.faultless])] at hstep
  cases event with
  | handshake succeeded =>
    obtain ⟨-, hnext⟩ := Option.ite_none_right_eq_some.mp hstep
    rw [← Option.some_inj.mp hnext]
    split_ifs
    · exact Or.inl hnone
    · rw [AsioServerConnection.handler_stop]
      exact Or.inl hnone
  | start =>
    obtain ⟨hstarting, hnext⟩ := Option.ite_none_right_eq_some.mp hstep
    rw [← Option.some_inj.mp hnext]
    obtain hstopped | hrunning := Bool.eq_false_or_eq_true c.stopped
    · have hlost : { c with starting := false }.startInOwnThread (baseHandler S size session) T =
          { c with starting := false }.fault := if_pos (hsound.references_eq hstarting hstopped).1
      rw [hlost]
      exact Or.inl hnone
    · have hwatched := hsound.watched hrunning
      have hheld : { c with starting := false }.references ≠ 0 := by
        simp only [AsioServerConnection.references, AsioServerConnection.outstanding]
        omega
      rw [@AsioServerConnection.startInOwnThread_of_held _ _ _ (baseHandler S size session) T
        { c with starting := false } hheld rfl, AsioServerConnection.doRead,
        if_neg (by simp [hrunning])]
      refine Or.inr ⟨_, rfl, ?_⟩
      have hsignaled : c.writeSignaled = false := by
        have heq := hsound.posted_eq
        rw [hposted] at heq
        simpa using heq.symm
      simp [view, baseHandler, Connection.initial, hrunning, hwriting, hwrites, hposted, hsignaled]
  | readCompletion received =>
    obtain ⟨hpositive, -⟩ := Option.ite_none_right_eq_some.mp hstep
    omega
  | writeCompletion succeeded =>
    obtain ⟨hpositive, -⟩ := Option.ite_none_right_eq_some.mp hstep
    omega
  | expire =>
    obtain ⟨-, hnext⟩ := Option.ite_none_right_eq_some.mp hstep
    rw [← Option.some_inj.mp hnext]
    exact Or.inl hnone
  | handleDeadline =>
    obtain ⟨-, hnext⟩ := Option.ite_none_right_eq_some.mp hstep
    rw [← Option.some_inj.mp hnext]
    unfold AsioServerConnection.handleDeadline
    split_ifs
    · exact Or.inl hnone
    · refine Or.inl ?_
      dsimp only
      rw [AsioServerConnection.handler_stop]
      exact hnone
    · exact Or.inl hnone
  | initiateWrite =>
    obtain ⟨hpositive, -⟩ := Option.ite_none_right_eq_some.mp hstep
    omega
  | task call =>
    rw [hnone] at hstep
    exact absurd hstep (by simp)
  | tick =>
    rw [← Option.some_inj.mp hstep]
    exact Or.inl hnone

/-- An event on a connection that is shown is an event there, or none. -/
theorem shows_step (hS : S.Lawful size) {c next : AsioServerConnection (OutputHandler σ)}
    {event : Maock.Connection.Event Bytes τ} {abstract : Connection σ} (hsound : c.Sound T tls)
    (hkeeps : Connection.Keeps S size abstract) (hshows : Shows c abstract)
    (hstep : c.step (baseHandler S size session) T event = some next) :
    ∃ abstract', Reaches (Connection.step S) abstract abstract' ∧ Shows next abstract' := by
  obtain ⟨h, hhandler, hview⟩ := id hshows
  have hstarted := hsound.toGuarded.started (by rw [hhandler]; rfl)
  have hoverrun : ¬ abstract.overrun = true := by simp [hkeeps.ordered.not_overrun]
  unfold AsioServerConnection.step at hstep
  rw [if_neg (by simp [hsound.faultless])] at hstep
  cases event with
  | handshake succeeded =>
    obtain ⟨hshaking, -⟩ := Option.ite_none_right_eq_some.mp hstep
    rw [hshaking, Bool.toNat_true] at hstarted
    omega
  | start =>
    obtain ⟨hstarting, -⟩ := Option.ite_none_right_eq_some.mp hstep
    rw [hstarting, Bool.toNat_true] at hstarted
    omega
  | readCompletion received =>
    obtain ⟨hreads, hnext⟩ := Option.ite_none_right_eq_some.mp hstep
    have hle := hsound.reads_le
    have hreading : abstract.reading = true := by
      rw [← hview]
      exact decide_eq_true hreads
    have htaken : Shows { c with reads := c.reads - 1 } { abstract with reading := false } := by
      refine ⟨h, hhandler, ?_⟩
      rw [← hview]
      simp [view, show c.reads - 1 = 0 by omega]
    have habstract : abstract.step S (.readCompletion received) =
        some ({ abstract with reading := false }.onReadCompletion S received) := by
      rw [Connection.step, if_neg hoverrun]
      exact if_pos hreading
    refine ⟨_, reaches_of_step habstract, ?_⟩
    cases received with
    | none =>
      rw [← Option.some_inj.mp hnext]
      exact shows_stop htaken
    | some bytes =>
      rw [← Option.some_inj.mp hnext]
      exact shows_onReceived hS (hkeeps.frame _ _ false) (show c.reads - 1 = 0 by omega) htaken
        bytes
  | writeCompletion succeeded =>
    obtain ⟨hwrites, hnext⟩ := Option.ite_none_right_eq_some.mp hstep
    have houtstanding : 0 < abstract.outstanding := by
      rw [← hview]
      exact hwrites
    have habstract : abstract.step S (.writeCompletion succeeded) = some
        ({ abstract with outstanding := abstract.outstanding - 1 }.onWriteCompletion S succeeded)
        := by
      rw [Connection.step, if_neg hoverrun]
      exact if_pos houtstanding
    refine ⟨_, reaches_of_step habstract, ?_⟩
    have hordered := ordered_completed hkeeps
    rw [← Option.some_inj.mp hnext]
    rw [← hview] at hordered ⊢
    unfold Connection.onWriteCompletion
    split_ifs
    · exact shows_doWrite hS hordered ⟨h, hhandler, rfl⟩
    · exact shows_stop ⟨h, hhandler, rfl⟩
  | expire =>
    obtain ⟨-, hnext⟩ := Option.ite_none_right_eq_some.mp hstep
    rw [← Option.some_inj.mp hnext]
    exact reaches_same hshows rfl fun _ ↦ rfl
  | handleDeadline =>
    obtain ⟨-, hnext⟩ := Option.ite_none_right_eq_some.mp hstep
    rw [← Option.some_inj.mp hnext]
    unfold AsioServerConnection.handleDeadline
    split_ifs with hstopped hexpired
    · exact reaches_same hshows rfl fun _ ↦ rfl
    · have habstract : abstract.step S .deadline = some abstract.stop := if_neg hoverrun
      refine ⟨_, reaches_of_step habstract, ?_⟩
      obtain ⟨h', hhandler', hview'⟩ := shows_stop (c := { c with deadline :=
        { c.deadline with due := c.deadline.due - 1 } }) ⟨h, hhandler, hview⟩
      exact ⟨h', hhandler', hview'⟩
    · exact reaches_same hshows rfl fun _ ↦ rfl
  | initiateWrite =>
    obtain ⟨hposted, hnext⟩ := Option.ite_none_right_eq_some.mp hstep
    have hposted' : 0 < abstract.posted := by
      rw [← hview]
      exact hposted
    have habstract : abstract.step S .initiateWrite = some
        ({ abstract with posted := abstract.posted - 1, writeSignaled := false }.doWrite S) := by
      rw [Connection.step, if_neg hoverrun]
      exact if_pos hposted'
    have htaken : Shows { c with posted := c.posted - 1, writeSignaled := false }
        { abstract with posted := abstract.posted - 1, writeSignaled := false } :=
      ⟨h, hhandler, by rw [← hview]; rfl⟩
    refine ⟨_, reaches_of_step habstract, ?_⟩
    rw [← Option.some_inj.mp hnext]
    split_ifs with hwritefun
    · exact shows_doWrite hS (hkeeps.frame false _ _).ordered htaken
    · have hstopped : c.stopped = true := by
        have heq := hsound.hasWritefun_eq
        rw [hhandler, Bool.eq_false_iff.mpr hwritefun] at heq
        simpa using heq
      have hskip : ({ abstract with posted := abstract.posted - 1, writeSignaled := false } :
          Connection σ).doWrite S =
            { abstract with posted := abstract.posted - 1, writeSignaled := false } := by
        rw [← hview]
        exact if_pos (by simp [view, hstopped])
      rw [hskip]
      exact htaken
  | task call =>
    have habstract : abstract.step S (.task call) = some (abstract.onTask S call) := if_neg hoverrun
    rw [hhandler] at hstep
    dsimp only at hstep
    obtain hreleased | hheld := Bool.eq_false_or_eq_true c.handlerReleased
    · rw [if_pos hreleased] at hstep
      rw [← Option.some_inj.mp hstep]
      exact reaches_same hshows rfl fun _ ↦ rfl
    · rw [if_neg (by simp [hheld])] at hstep
      refine ⟨_, reaches_of_step habstract, ?_⟩
      rw [← Option.some_inj.mp hstep, ← hview]
      exact @shows_task _ _ S size session c h call
  | tick =>
    rw [← Option.some_inj.mp hstep]
    exact reaches_same hshows rfl fun _ ↦ rfl

/-- One event keeps the two connections together. -/
theorem simulates_step (hS : S.Lawful size) (c : AsioServerConnection (OutputHandler σ))
    (event : Maock.Connection.Event Bytes τ) (next : AsioServerConnection (OutputHandler σ))
    (abstract : Connection σ) (hsim : Simulates S size session T tls c abstract)
    (hstep : c.step (baseHandler S size session) T event = some next) :
    ∃ abstract', Reaches (Connection.step S) abstract abstract' ∧
      Simulates S size session T tls next abstract' := by
  have hafter := AsioServerConnection.sound_or_lost_step c event next hsim.sound hstep
  rcases hsim.sound with hsound | hlost
  · obtain hshows | ⟨hnone, hinitial⟩ := hsim.shows
    · obtain ⟨abstract', hreaches, hnext⟩ := shows_step hS hsound hsim.keeps hshows hstep
      obtain ⟨events, hevents⟩ := hreaches
      have hkeeps := invariant_run (Connection.keeps_step hS) hsim.keeps hevents
      exact ⟨abstract', ⟨events, hevents⟩, hafter, hkeeps, Or.inl hnext⟩
    · refine ⟨abstract, reaches_refl _, hafter, hsim.keeps, ?_⟩
      obtain hnext | hnext := begins_step hsound hnone hstep
      · exact Or.inr ⟨hnext, hinitial⟩
      · rw [hinitial]
        exact Or.inl hnext
  · exact absurd ((hlost.step_eq event).symm.trans hstep) (by simp)

/-- **The deadline does not disturb the output.** Whatever the timer, the handshake and the start of
a connection do, what its handler and its history show is a state of a run of the connection that a
deadline may stop at any time. -/
theorem reaches_view (hS : S.Lawful size) {c : AsioServerConnection (OutputHandler σ)}
    {events : List (Maock.Connection.Event Bytes τ)} {h : OutputHandler σ}
    (hrun : run (AsioServerConnection.step (baseHandler S size session) T)
      (AsioServerConnection.initial T tls) events = some c)
    (hhandler : c.handler = some h) :
    Reaches (Connection.step S) (Connection.initial session size) (view c h) := by
  have hinit : Simulates S size session T tls (AsioServerConnection.initial T tls)
      (Connection.initial session size) :=
    ⟨Or.inl (AsioServerConnection.sound_initial T tls), Connection.keeps_run hS (run_nil _),
      Or.inr ⟨rfl, rfl⟩⟩
  obtain ⟨abstract, hreaches, hsim⟩ := simulation_run (simulates_step hS) hinit hrun
  obtain ⟨h', hhandler', rfl⟩ | ⟨hnone, -⟩ := hsim.shows
  · rw [Option.some_inj.mp (hhandler.symm.trans hhandler')]
    exact hreaches
  · exact absurd (hnone.symm.trans hhandler) (by simp)

end Operations

/-- Three chunks of two bytes and a buffer of five, and a read timeout that passes in part while the
first write is outstanding. -/
def parkedThenTimed : List (Maock.Connection.Event Bytes Bytes) :=
  [.start, .task [1, 2], .task [3, 4], .task [5, 6], .handleDeadline, .initiateWrite, .tick,
    .readCompletion (some [7]), .handleDeadline, .writeCompletion true]

theorem reaches_view_parkedThenTimed :
    ∃ c h, h.started = [[1, 2, 3, 4], [5, 6, 7]] ∧
      Reaches (Connection.step (Connection.queueSession 5)) (Connection.initial ([], []) 5)
        (view c h) := by
  have hstate : ((run
      (AsioServerConnection.step (baseHandler (Connection.queueSession 5) 5 ([], [])) ⟨3, 4⟩)
      (AsioServerConnection.initial ⟨3, 4⟩ false) parkedThenTimed).bind fun c ↦
        c.handler.map OutputHandler.started) = some [[1, 2, 3, 4], [5, 6, 7]] := by
    decide +kernel
  obtain ⟨c, hrun, hc⟩ := Option.bind_eq_some_iff.mp hstate
  obtain ⟨h, hhandler, hstarted⟩ := Option.map_eq_some_iff.mp hc
  exact ⟨c, h, hstarted, reaches_view (Connection.lawful_queueSession 5) hrun hhandler⟩

end TimedOutput

end Maock.Http2
