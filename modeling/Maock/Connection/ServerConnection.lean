import Mathlib.Order.Basic
import Maock.Foundation.TransitionSystem

/-!
# A connection over any handler

`asio_server_connection` from the accept to its release. The handler is what the class calls of its
`base_handler` (`BaseHandler`). The events are what the `io_service` runs: the end of a TLS
handshake, the posted `start_in_own_thread`, the completions of reads, writes and waits, posted
`initiate_write` calls and tasks that call the handler; and time, which passes in ticks counted from
the accept.

A new expiry time of the deadline timer cancels its wait. The handler of that wait is
`handle_deadline` all the same, which ignores how the wait has ended and waits again.

The completions, the write function and the posted `initiate_write` hold what they use by
`shared_from_this`, tasks look their handler up by its id, which finds nothing once the handler is
released. What uses an object without holding it is `start_in_own_thread`; and `do_write` and the
completion of a read follow `handler_`. These are where the program can use an object that is not
there (`fault`).
-/

set_option autoImplicit false
set_option relaxedAutoImplicit false

namespace Maock.Connection

open Foundation Foundation.TransitionSystem

variable {σ ι τ : Type*}

/-! ### Handlers and timers -/

/-- What a connection calls of its `base_handler`: `start`, `on_read` for what a read delivers,
`on_write`, which yields the number of bytes to write, and `should_stop`. `call` is a task on the
`io_service` that calls the handler, and tells whether this ends in `signal_write`. A call that
fails yields `false`, and `none` for `on_write`. -/
structure BaseHandler (σ ι τ : Type*) where
  start : σ × Bool
  onRead : ι → σ → σ × Bool
  onWrite : σ → σ × Option ℕ
  shouldStop : σ → Bool
  call : τ → σ → σ × Bool

/-- `deadline_timer`: when it expires, if ever, how many waits are pending, and how many waits have
ended whose handlers have not run. -/
structure DeadlineTimer where
  expiresAt : Option ℕ
  waiting : ℕ
  due : ℕ
  deriving DecidableEq

namespace DeadlineTimer

/-- `cancel`. -/
def cancel (t : DeadlineTimer) : DeadlineTimer :=
  { t with waiting := 0, due := t.due + t.waiting }

/-- `expires_at` and `expires_from_now`, which cancel the pending waits. -/
def setExpiry (expiresAt : Option ℕ) (t : DeadlineTimer) : DeadlineTimer :=
  { t.cancel with expiresAt := expiresAt }

/-- `async_wait`. -/
def asyncWait (t : DeadlineTimer) : DeadlineTimer :=
  { t with waiting := t.waiting + 1 }

/-- The expiry time has come. -/
def expired (now : ℕ) (t : DeadlineTimer) : Bool :=
  t.expiresAt.any fun time ↦ decide (time ≤ now)

/-- The waits pending or ended. -/
def watches (t : DeadlineTimer) : ℕ :=
  t.waiting + t.due

theorem watches_cancel (t : DeadlineTimer) : t.cancel.watches = t.watches := by
  simp only [watches, cancel]
  omega

theorem watches_setExpiry (expiresAt : Option ℕ) (t : DeadlineTimer) :
    (t.setExpiry expiresAt).watches = t.watches :=
  watches_cancel t

end DeadlineTimer

/-- `tls_handshake_timeout_` and `read_timeout_`. -/
structure Timeouts where
  handshake : ℕ
  read : ℕ

/-- The deadline that is set when the connection is accepted: `start_tls_handshake_deadline` or
`start_read_deadline`. -/
def Timeouts.first (T : Timeouts) (tls : Bool) : ℕ :=
  if tls then T.handshake else T.read

/-! ### State -/

/-- `asio_server_connection`, with the write function and the flag of its handler. Beside the
members the state has the clock, the tasks under way (a handshake, the posted start, reads, writes
and posted `initiate_write` calls), the times at which reads and writes have been started, the
latest first, and whether the program has used an object that is not there. -/
structure AsioServerConnection (σ : Type*) where
  handler : Option σ
  hasWritefun : Bool
  writeSignaled : Bool
  writing : Bool
  stopped : Bool
  deadline : DeadlineTimer
  now : ℕ
  handshaking : Bool
  starting : Bool
  reads : ℕ
  writes : ℕ
  posted : ℕ
  begun : List ℕ
  faulted : Bool

inductive Event (ι τ : Type*) where
  /-- The TLS handshake has ended. -/
  | handshake (succeeded : Bool)
  /-- The posted `start_in_own_thread` runs. -/
  | start
  /-- A read has completed, with what it delivers or an error. -/
  | readCompletion (received : Option ι)
  /-- A write has completed. -/
  | writeCompletion (succeeded : Bool)
  /-- A pending wait ends, as the timer has expired. -/
  | expire
  /-- The handler of a wait that has ended runs. -/
  | handleDeadline
  /-- A posted `initiate_write` runs. -/
  | initiateWrite
  /-- A task looks the handler up by its id and calls it. -/
  | task (call : τ)
  /-- Time passes. -/
  | tick

/-- The event is a completion that the connection is waiting for. -/
def Event.isCompletion : Event ι τ → Bool
  | .handshake _ | .readCompletion _ | .writeCompletion _ | .handleDeadline => true
  | .start | .expire | .initiateWrite | .task _ | .tick => false

namespace AsioServerConnection

/-- A connection just accepted, with its first deadline: a TLS handshake has been started, or
`start` has been called. -/
def initial (T : Timeouts) (tls : Bool) : AsioServerConnection σ where
  handler := none
  hasWritefun := false
  writeSignaled := false
  writing := false
  stopped := false
  deadline := ⟨some (T.first tls), 1, 0⟩
  now := 0
  handshaking := tls
  starting := !tls
  reads := 0
  writes := 0
  posted := 0
  begun := []
  faulted := false

/-- The completions that are still to come. Each holds a `shared_ptr` to the connection. -/
def outstanding (c : AsioServerConnection σ) : ℕ :=
  c.handshaking.toNat + c.reads + c.writes + c.deadline.watches

/-- The `shared_ptr`s to the connection. The write function of its handler holds one too, the posted
`start_in_own_thread` none. -/
def references (c : AsioServerConnection σ) : ℕ :=
  c.outstanding + c.hasWritefun.toNat

/-- The handler is released, and `find_handler` does not find it any more: nothing holds the
connection, which holds it, and no posted `initiate_write` does. -/
def handlerReleased (c : AsioServerConnection σ) : Bool :=
  decide (c.references = 0 ∧ c.posted = 0)

/-! ### Operations -/

/-- `stop`. -/
def stop (c : AsioServerConnection σ) : AsioServerConnection σ :=
  if c.stopped then c
  else { c with stopped := true, deadline := c.deadline.cancel, hasWritefun := false }

/-- `do_read`. -/
def doRead (T : Timeouts) (c : AsioServerConnection σ) : AsioServerConnection σ :=
  if c.stopped then c
  else { c with
    deadline := c.deadline.setExpiry (some (c.now + T.read))
    reads := c.reads + 1
    begun := c.now :: c.begun }

/-- The write of `do_write`. -/
def asyncWrite (T : Timeouts) (c : AsioServerConnection σ) : AsioServerConnection σ :=
  { c with
    writing := true
    deadline := c.deadline.setExpiry (some (c.now + T.read))
    writes := c.writes + 1
    begun := c.now :: c.begun }

/-- The program has used an object that is not there: a connection that nothing holds, or the
handler behind an empty `handler_`. -/
def fault (c : AsioServerConnection σ) : AsioServerConnection σ :=
  { c with faulted := true }

/-- `do_write`. -/
def doWrite (H : BaseHandler σ ι τ) (T : Timeouts) (c : AsioServerConnection σ) :
    AsioServerConnection σ :=
  if c.stopped || c.writing then c
  else
    match c.handler with
    | none => c.fault
    | some handler =>
      let (handler, written) := H.onWrite handler
      let c := { c with handler := some handler }
      match written with
      | none => c.stop
      | some 0 => if H.shouldStop handler then c.stop else c
      | some (_ + 1) => c.asyncWrite T

/-- `handler_->should_stop()`. -/
def handlerShouldStop (H : BaseHandler σ ι τ) (c : AsioServerConnection σ) : Bool :=
  c.handler.any H.shouldStop

/-- The completion of a read that has delivered something. -/
def onReceived (H : BaseHandler σ ι τ) (T : Timeouts) (received : ι) (c : AsioServerConnection σ) :
    AsioServerConnection σ :=
  match c.handler with
  | none => c.fault
  | some handler =>
    let (handler, succeeded) := H.onRead received handler
    let c := { c with handler := some handler }
    if succeeded then
      let c := c.doWrite H T
      if !c.writing && c.handlerShouldStop H then c.stop else c.doRead T
    else c.stop

/-- `start_in_own_thread`. It uses `this` without holding the connection. -/
def startInOwnThread (H : BaseHandler σ ι τ) (T : Timeouts) (c : AsioServerConnection σ) :
    AsioServerConnection σ :=
  if c.references = 0 then c.fault
  else
    let (handler, succeeded) := H.start
    let c := { c with handler := some handler, hasWritefun := true }
    if succeeded then c.doRead T else c.stop

/-- `handle_deadline`. -/
def handleDeadline (c : AsioServerConnection σ) : AsioServerConnection σ :=
  if c.stopped then c
  else if c.deadline.expired c.now then
    let c := c.stop
    { c with deadline := c.deadline.setExpiry none }
  else { c with deadline := c.deadline.asyncWait }

/-- `signal_write`, outside of the callbacks. -/
def signalWrite (c : AsioServerConnection σ) : AsioServerConnection σ :=
  if c.writeSignaled then c else { c with writeSignaled := true, posted := c.posted + 1 }

/-- One event. Nothing happens any more once an object has been used that is not there. -/
def step (H : BaseHandler σ ι τ) (T : Timeouts) (c : AsioServerConnection σ)
    (event : Event ι τ) : Option (AsioServerConnection σ) :=
  if c.faulted then none
  else
    match event with
    | .handshake succeeded =>
      if c.handshaking then
        let c := { c with handshaking := false }
        some (if succeeded then { c with starting := true } else c.stop)
      else none
    | .start =>
      if c.starting then some ({ c with starting := false }.startInOwnThread H T) else none
    | .readCompletion received =>
      if 0 < c.reads then
        let c := { c with reads := c.reads - 1 }
        match received with
        | none => some c.stop
        | some received => some (c.onReceived H T received)
      else none
    | .writeCompletion succeeded =>
      if 0 < c.writes then
        let c := { c with writes := c.writes - 1 }
        some (if succeeded then { c with writing := false }.doWrite H T else c.stop)
      else none
    | .expire =>
      if 0 < c.deadline.waiting ∧ c.deadline.expired c.now = true then
        some { c with deadline :=
          { c.deadline with waiting := c.deadline.waiting - 1, due := c.deadline.due + 1 } }
      else none
    | .handleDeadline =>
      if 0 < c.deadline.due then
        some { c with deadline := { c.deadline with due := c.deadline.due - 1 } }.handleDeadline
      else none
    | .initiateWrite =>
      if 0 < c.posted then
        let c := { c with posted := c.posted - 1, writeSignaled := false }
        some (if c.hasWritefun then c.doWrite H T else c)
      else none
    | .task call =>
      match c.handler with
      | none => none
      | some handler =>
        if c.handlerReleased then some c
        else
          let (handler, signals) := H.call call handler
          let c := { c with handler := some handler }
          some (if signals then c.signalWrite else c)
    | .tick => some { c with now := c.now + 1 }

/-! ### What an operation does -/

/-- The time at which the deadline is set to expire: a read timeout behind the latest start of a
read or a write, if there has been one. -/
def limit (T : Timeouts) (tls : Bool) (begun : List ℕ) : ℕ :=
  match begun with
  | [] => T.first tls
  | time :: _ => time + T.read

variable {H : BaseHandler σ ι τ} {T : Timeouts} {tls : Bool}

theorem stop_of_stopped {c : AsioServerConnection σ} (hstopped : c.stopped = true) : c.stop = c :=
  if_pos hstopped

theorem stop_of_running {c : AsioServerConnection σ} (hrunning : c.stopped = false) :
    c.stop = { c with stopped := true, deadline := c.deadline.cancel, hasWritefun := false } :=
  if_neg (by simp [hrunning])

@[simp] theorem stopped_stop (c : AsioServerConnection σ) : c.stop.stopped = true := by
  unfold stop
  split_ifs with h
  · exact h
  · rfl

@[simp] theorem handler_stop (c : AsioServerConnection σ) : c.stop.handler = c.handler := by
  unfold stop
  split_ifs <;> rfl

@[simp] theorem reads_stop (c : AsioServerConnection σ) : c.stop.reads = c.reads := by
  unfold stop
  split_ifs <;> rfl

@[simp] theorem begun_stop (c : AsioServerConnection σ) : c.stop.begun = c.begun := by
  unfold stop
  split_ifs <;> rfl

/-- A start that finds the connection and whose handler starts. -/
theorem startInOwnThread_of_held {c : AsioServerConnection σ} (hheld : c.references ≠ 0)
    (hsucceeded : H.start.2 = true) : c.startInOwnThread H T =
      { c with handler := some H.start.1, hasWritefun := true }.doRead T := by
  unfold startInOwnThread
  rw [if_neg hheld]
  exact if_pos hsucceeded

/-- What `do_write` can do: nothing; use a handler that is not there; or call the handler, and then
stop, leave it at that or start a write. -/
theorem doWrite_cases (H : BaseHandler σ ι τ) (T : Timeouts) (c : AsioServerConnection σ) :
    ((c.stopped = true ∨ c.writing = true) ∧ c.doWrite H T = c) ∨
      (c.stopped = false ∧ c.writing = false) ∧
        ((c.handler = none ∧ c.doWrite H T = c.fault) ∨
          c.handler.isSome = true ∧ ∃ handler,
            c.doWrite H T = { c with handler := some handler }.stop ∨
            c.doWrite H T = { c with handler := some handler } ∨
            c.doWrite H T = { c with handler := some handler }.asyncWrite T) := by
  by_cases hidle : c.stopped = true ∨ c.writing = true
  · exact Or.inl ⟨hidle, if_pos (by simpa using hidle)⟩
  · have hfree : c.stopped = false ∧ c.writing = false := by simpa using hidle
    refine Or.inr ⟨hfree, ?_⟩
    unfold doWrite
    rw [if_neg (by simpa using hidle)]
    cases hhandler : c.handler with
    | none => exact Or.inl ⟨rfl, rfl⟩
    | some handler =>
      refine Or.inr ⟨rfl, (H.onWrite handler).1, ?_⟩
      dsimp only
      split
      · exact Or.inl rfl
      · split_ifs
        · exact Or.inl rfl
        · exact Or.inr (Or.inl rfl)
      · exact Or.inr (Or.inr rfl)

/-! ### What holds of the handler -/

/-- The handler, when there is one, has this property. -/
def HandlerMeets (P : σ → Prop) (c : AsioServerConnection σ) : Prop :=
  ∀ h, c.handler = some h → P h

section HandlerMeets

variable {P : σ → Prop} {c : AsioServerConnection σ}

theorem HandlerMeets.stop (hmeets : HandlerMeets P c) : HandlerMeets P c.stop := by
  unfold HandlerMeets
  rw [handler_stop]
  exact hmeets

theorem HandlerMeets.doRead (hmeets : HandlerMeets P c) : HandlerMeets P (c.doRead T) := by
  unfold AsioServerConnection.doRead
  split_ifs
  · exact hmeets
  · exact hmeets

theorem HandlerMeets.doWrite (hwrite : ∀ h, P h → P (H.onWrite h).1) (hmeets : HandlerMeets P c) :
    HandlerMeets P (c.doWrite H T) := by
  unfold AsioServerConnection.doWrite
  split_ifs
  · exact hmeets
  · cases hhandler : c.handler with
    | none => exact fun h hsome ↦ absurd (hhandler.symm.trans hsome) (by simp)
    | some handler =>
      have hwritten : HandlerMeets P { c with handler := some (H.onWrite handler).1 } :=
        fun h hsome ↦ Option.some_inj.mp hsome ▸ hwrite handler (hmeets handler hhandler)
      dsimp only
      split
      · exact hwritten.stop
      · split_ifs
        · exact hwritten.stop
        · exact hwritten
      · exact hwritten

/-- What every call on a handler keeps, one event keeps. -/
theorem handlerMeets_step (hstart : P H.start.1)
    (hread : ∀ received h, P h → P (H.onRead received h).1) (hwrite : ∀ h, P h → P (H.onWrite h).1)
    (hcall : ∀ call h, P h → P (H.call call h).1) (c : AsioServerConnection σ) (event : Event ι τ)
    (next : AsioServerConnection σ) (hmeets : HandlerMeets P c)
    (hstep : c.step H T event = some next) : HandlerMeets P next := by
  obtain ⟨-, hstep⟩ := Option.ite_none_left_eq_some.mp hstep
  cases event with
  | handshake succeeded =>
    obtain ⟨-, hnext⟩ := Option.ite_none_right_eq_some.mp hstep
    rw [← Option.some_inj.mp hnext]
    split_ifs
    · exact hmeets
    · exact HandlerMeets.stop hmeets
  | start =>
    obtain ⟨-, hnext⟩ := Option.ite_none_right_eq_some.mp hstep
    rw [← Option.some_inj.mp hnext]
    have hstarted : HandlerMeets P
        { c with starting := false, handler := some H.start.1, hasWritefun := true } :=
      fun h hsome ↦ Option.some_inj.mp hsome ▸ hstart
    unfold startInOwnThread
    dsimp only
    split_ifs
    · exact hmeets
    · exact hstarted.doRead
    · exact hstarted.stop
  | readCompletion received =>
    obtain ⟨-, hnext⟩ := Option.ite_none_right_eq_some.mp hstep
    cases received with
    | none =>
      rw [← Option.some_inj.mp hnext]
      exact HandlerMeets.stop hmeets
    | some received =>
      rw [← Option.some_inj.mp hnext]
      unfold onReceived
      cases hhandler : c.handler with
      | none => exact fun h (hsome : none = some h) ↦ absurd hsome (by simp)
      | some handler =>
        have hreceived : HandlerMeets P { c with
            reads := c.reads - 1, handler := some (H.onRead received handler).1 } :=
          fun h hsome ↦ Option.some_inj.mp hsome ▸ hread received handler (hmeets handler hhandler)
        dsimp only
        split_ifs
        · exact (hreceived.doWrite hwrite).stop
        · exact (hreceived.doWrite hwrite).doRead
        · exact hreceived.stop
  | writeCompletion succeeded =>
    obtain ⟨-, hnext⟩ := Option.ite_none_right_eq_some.mp hstep
    rw [← Option.some_inj.mp hnext]
    split_ifs
    · exact HandlerMeets.doWrite hwrite hmeets
    · exact HandlerMeets.stop hmeets
  | expire =>
    obtain ⟨-, hnext⟩ := Option.ite_none_right_eq_some.mp hstep
    rw [← Option.some_inj.mp hnext]
    exact hmeets
  | handleDeadline =>
    obtain ⟨-, hnext⟩ := Option.ite_none_right_eq_some.mp hstep
    rw [← Option.some_inj.mp hnext]
    unfold AsioServerConnection.handleDeadline
    split_ifs
    · exact hmeets
    · exact HandlerMeets.stop hmeets
    · exact hmeets
  | initiateWrite =>
    obtain ⟨-, hnext⟩ := Option.ite_none_right_eq_some.mp hstep
    rw [← Option.some_inj.mp hnext]
    split_ifs
    · exact HandlerMeets.doWrite hwrite hmeets
    · exact hmeets
  | task call =>
    cases hhandler : c.handler with
    | none =>
      rw [hhandler] at hstep
      exact absurd hstep (by simp)
    | some handler =>
      rw [hhandler] at hstep
      dsimp only at hstep
      have hcalled : HandlerMeets P { c with handler := some (H.call call handler).1 } :=
        fun h hsome ↦ Option.some_inj.mp hsome ▸ hcall call handler (hmeets handler hhandler)
      unfold AsioServerConnection.signalWrite at hstep
      split_ifs at hstep with hreleased
      · rw [← Option.some_inj.mp hstep]
        exact hmeets
      · rw [← Option.some_inj.mp hstep]
        exact hcalled
      · rw [← Option.some_inj.mp hstep]
        exact hcalled
      · rw [← Option.some_inj.mp hstep]
        exact hcalled
  | tick =>
    rw [← Option.some_inj.mp hstep]
    exact hmeets

/-- What holds of a new handler, and what every call on a handler keeps, holds of the handler in
every run of its connection. -/
theorem handlerMeets_run (hstart : P H.start.1)
    (hread : ∀ received h, P h → P (H.onRead received h).1) (hwrite : ∀ h, P h → P (H.onWrite h).1)
    (hcall : ∀ call h, P h → P (H.call call h).1) {events : List (Event ι τ)}
    (hrun : run (step H T) (initial T tls) events = some c) : HandlerMeets P c :=
  invariant_run (handlerMeets_step hstart hread hwrite hcall)
    (fun h hsome ↦ absurd hsome (by simp [initial])) hrun

end HandlerMeets

end AsioServerConnection

end Maock.Connection
