import Mathlib.Algebra.Order.Ring.Int
import Mathlib.Data.List.Basic
import Maock.Foundation.TransitionSystem

/-!
# Listening for connections

`server` accepts connections on every endpoint that `bind_and_listen` could bind. The handler of an
accept starts the next one. When the process is out of file descriptors, `reset_acceptor` is to do
this later, by a timer that it looks up under the address of the acceptor.

`bind_and_listen` enters the timers under the addresses of its local variable, and the acceptors
live in `acceptors_`. So no timer is found (`Dormant`), and `everyState_listens_iff` says when
some acceptor is left without a pending accept and without a timer: when an accept on an open
acceptor ends with `no_descriptors`.
-/

set_option autoImplicit false
set_option relaxedAutoImplicit false

namespace Maock.Listening

open Foundation

/-! ### State -/

/-- Where an acceptor lives: in the local variable of `bind_and_listen`, at a place of the stack, or
in `acceptors_`. -/
inductive Address where
  | stack (slot : ℕ)
  | element (index : ℕ)
  deriving DecidableEq

/-- `tcp::acceptor`, with the number of its pending `async_accept`. -/
structure Acceptor where
  isOpen : Bool
  accepting : ℕ
  deriving DecidableEq

/-- `deadline_timer`: its expiry time in milliseconds, and the acceptors that its pending waits
start to accept again. -/
structure DeadlineTimer where
  expiry : ℤ
  waiting : List ℕ
  deriving DecidableEq

/-- The part of `server` that listens, with the clock. A setting of a timer cancels its waits, whose
handlers are then due. -/
structure Server where
  hasTlsContext : Bool
  acceptors : List Acceptor
  delayedAcceptTimer : List (Address × DeadlineTimer)
  cancelledWaits : List ℕ
  now : ℤ
  deriving DecidableEq

/-! ### Start -/

/-- The call that failed for an endpoint. -/
inductive EndpointError where
  | open
  | bind
  | listen
  deriving DecidableEq

/-- A resolved endpoint: what comes of the calls for it, where the local variable of its turn of the
loop lives, and the time when its timer is set. -/
structure Endpoint where
  error : Option EndpointError
  slot : ℕ
  time : ℤ
  deriving DecidableEq

/-- `insert` into the map of timers, which keeps a timer that is there. -/
def insertTimer (key : Address) (timer : DeadlineTimer)
    (timers : List (Address × DeadlineTimer)) : List (Address × DeadlineTimer) :=
  if timers.any fun entry ↦ decide (entry.1 = key) then timers else timers ++ [(key, timer)]

/-- The end of a turn of the loop: the local acceptor is moved into `acceptors_`, and a timer is
entered under the address of the local variable. -/
def Server.push (endpoint : Endpoint) (s : Server) : Server where
  hasTlsContext := s.hasTlsContext
  acceptors := s.acceptors ++ [⟨true, 0⟩]
  delayedAcceptTimer :=
    insertTimer (.stack endpoint.slot) ⟨endpoint.time - 100, []⟩ s.delayedAcceptTimer
  cancelledWaits := s.cancelledWaits
  now := endpoint.time

/-- The loop of `bind_and_listen` over the resolved endpoints, from an error code on. -/
def bindAndListen : List Endpoint → Option EndpointError → Server → Option EndpointError × Server
  | [], ec, s => if s.acceptors = [] then (ec, s) else (none, s)
  | endpoint :: rest, _, s =>
    match endpoint.error with
    | some error => bindAndListen rest (some error) s
    | none => bindAndListen rest none (s.push endpoint)

/-- `start_accept` of an acceptor. -/
def Acceptor.startAccept (acceptor : Acceptor) : Acceptor :=
  if acceptor.isOpen then { acceptor with accepting := acceptor.accepting + 1 } else acceptor

/-- A pending accept ends. -/
def Acceptor.endAccept (acceptor : Acceptor) : Acceptor :=
  { acceptor with accepting := acceptor.accepting - 1 }

/-- A server that does not listen yet. -/
def Server.initial (hasTlsContext : Bool) : Server where
  hasTlsContext := hasTlsContext
  acceptors := []
  delayedAcceptTimer := []
  cancelledWaits := []
  now := 0

/-- `listen_and_serve`, up to the run of the services. -/
def listenAndServe (hasTlsContext : Bool) (endpoints : List Endpoint) :
    Except EndpointError Server :=
  match bindAndListen endpoints none (.initial hasTlsContext) with
  | (some error, _) => .error error
  | (none, s) => .ok { s with acceptors := s.acceptors.map Acceptor.startAccept }

/-! ### Events -/

/-- The result of an accept. -/
inductive AcceptOutcome where
  | success
  | noDescriptors
  | error
  deriving DecidableEq

inductive Event where
  /-- The accept of an acceptor ends. -/
  | accepted (index : ℕ) (outcome : AcceptOutcome)
  /-- The first wait of an expired timer ends. -/
  | timerFired (key : Address)
  /-- The handler of a cancelled wait runs. -/
  | waitCancelled
  /-- Milliseconds pass. -/
  | elapse (ms : ℕ)
  /-- `stop()`. -/
  | stop
  deriving DecidableEq

/-- The acceptor behind an accept: it is accepting again when it is open, unless the process was out
of file descriptors. -/
def Acceptor.afterAccept (outcome : AcceptOutcome) (acceptor : Acceptor) : Acceptor where
  isOpen := acceptor.isOpen
  accepting := if outcome ≠ .noDescriptors ∧ acceptor.isOpen = true then 1 else 0

namespace Server

/-- `start_accept` of the acceptor at an index. -/
def startAccept (index : ℕ) (s : Server) : Server :=
  { s with acceptors := s.acceptors.modify index Acceptor.startAccept }

/-- `timer->second = …` for an entry of the map. -/
def setTimer (key : Address) (timer : DeadlineTimer) (s : Server) : Server :=
  { s with
    delayedAcceptTimer := s.delayedAcceptTimer.map fun entry ↦
      if entry.1 = key then (key, timer) else entry }

/-- `reset_acceptor(acceptor, start_accept)` for the acceptor at an index. A new expiry time cancels
the waits of the timer. -/
def resetAcceptor (index : ℕ) (s : Server) : Server :=
  match s.delayedAcceptTimer.lookup (.element index) with
  | none => s
  | some timer =>
    if timer.expiry - s.now < 0 then
      { s.setTimer (.element index) ⟨s.now + 100, [index]⟩ with
        cancelledWaits := s.cancelledWaits ++ timer.waiting }
    else s

/-- The handler of an accept, of either `start_accept`. The one for plain connections looks itself
whether the acceptor is open. -/
def onAccept (index : ℕ) (outcome : AcceptOutcome) (s : Server) : Server :=
  if outcome = .noDescriptors then s.resetAcceptor index
  else if s.hasTlsContext then s.startAccept index
  else if s.acceptors[index]?.any Acceptor.isOpen then s.startAccept index
  else s

/-- What happens to the server at an event, if it can happen. -/
def step (s : Server) : Event → Option Server
  | .accepted index outcome =>
    if s.acceptors[index]?.any fun acceptor ↦ decide (0 < acceptor.accepting) then
      some ({ s with
        acceptors := s.acceptors.modify index Acceptor.endAccept }.onAccept index outcome)
    else none
  | .timerFired key =>
    match s.delayedAcceptTimer.lookup key with
    | some ⟨expiry, index :: waiting⟩ =>
      if expiry ≤ s.now then some ((s.setTimer key ⟨expiry, waiting⟩).startAccept index) else none
    | some ⟨_, []⟩ | none => none
  | .waitCancelled =>
    match s.cancelledWaits with
    | index :: waits => some ({ s with cancelledWaits := waits }.startAccept index)
    | [] => none
  | .elapse ms => some { s with now := s.now + ms }
  | .stop => some
    { s with
      acceptors := s.acceptors.map fun acceptor ↦ { acceptor with isOpen := false } }

/-! ### Listening -/

/-- Every open acceptor has a pending accept, or a timer that is armed for it. -/
def Listens (s : Server) : Prop :=
  ∀ index acceptor, s.acceptors[index]? = some acceptor → acceptor.isOpen = true →
    0 < acceptor.accepting ∨ ∃ entry ∈ s.delayedAcceptTimer, index ∈ entry.2.waiting

/-- An accept on an open acceptor ends with `no_descriptors`. -/
def Exhausts (s : Server) (event : Event) : Prop :=
  ∃ index, event = .accepted index .noDescriptors ∧
    s.acceptors[index]?.any Acceptor.isOpen = true

instance (s : Server) : DecidablePred s.Exhausts
  | .accepted index .noDescriptors =>
    decidable_of_iff (s.acceptors[index]?.any Acceptor.isOpen = true)
      ⟨fun h ↦ ⟨index, rfl, h⟩, fun ⟨_, hevent, h⟩ ↦ (Event.accepted.inj hevent).1 ▸ h⟩
  | .accepted _ .success | .accepted _ .error | .timerFired _ | .waitCancelled | .elapse _
  | .stop => isFalse fun ⟨_, hevent, _⟩ ↦ by simp at hevent

/-! ### No timer is found -/

/-- The timers are entered under addresses of the stack and none of them is waited for, and no
acceptor has more than one pending accept. -/
structure Dormant (s : Server) : Prop where
  stack : ∀ entry ∈ s.delayedAcceptTimer, ∃ slot, entry.1 = .stack slot
  idle : ∀ entry ∈ s.delayedAcceptTimer, entry.2.waiting = []
  noneCancelled : s.cancelledWaits = []
  single : ∀ acceptor ∈ s.acceptors, acceptor.accepting ≤ 1

theorem Dormant.lookup_element {s : Server} (h : s.Dormant) (index : ℕ) :
    s.delayedAcceptTimer.lookup (.element index) = none := by
  rw [List.lookup_eq_none_iff]
  intro entry hentry
  obtain ⟨slot, hslot⟩ := h.stack entry hentry
  rw [hslot]
  rfl

/-- `reset_acceptor` does nothing. -/
theorem Dormant.resetAcceptor_eq {s : Server} (h : s.Dormant) (index : ℕ) :
    s.resetAcceptor index = s := by
  unfold resetAcceptor
  rw [h.lookup_element index]

/-- With no armed timer, the server listens when every open acceptor has its accept. -/
theorem Dormant.listens_iff {s : Server} (h : s.Dormant) :
    s.Listens ↔ ∀ (index : ℕ) (acceptor : Acceptor), s.acceptors[index]? = some acceptor →
      acceptor.isOpen = true → 0 < acceptor.accepting := by
  refine forall₄_congr fun index acceptor _ _ ↦ or_iff_left ?_
  rintro ⟨entry, hentry, hwaiting⟩
  rw [h.idle entry hentry] at hwaiting
  exact List.not_mem_nil hwaiting

theorem modify_eq_set_of_getElem? {α : Type*} {l : List α} {index : ℕ} {a : α}
    (h : l[index]? = some a) (f : α → α) : l.modify index f = l.set index (f a) := by
  rw [List.modify_eq_set_getElem?, h]
  rfl

/-- The handler of an accept. -/
theorem Dormant.onAccept_eq {s : Server} (h : s.Dormant) {index : ℕ} {acceptor : Acceptor}
    (hacceptor : s.acceptors[index]? = some acceptor) (hnone : acceptor.accepting = 0)
    (outcome : AcceptOutcome) :
    s.onAccept index outcome =
      { s with acceptors := s.acceptors.set index (acceptor.afterAccept outcome) } := by
  have hsame : s.acceptors.set index acceptor = s.acceptors := by
    have hset := modify_eq_set_of_getElem? hacceptor id
    rw [List.modify_id] at hset
    exact hset.symm
  have hopen : s.acceptors[index]?.any Acceptor.isOpen = acceptor.isOpen := by
    rw [hacceptor, Option.any_some]
  have hkept : acceptor.isOpen = false ∨ outcome = .noDescriptors →
      acceptor.afterAccept outcome = acceptor := by
    intro hcase
    unfold Acceptor.afterAccept
    rw [if_neg (by rcases hcase with hcase | hcase <;> simp [hcase]), ← hnone]
  unfold onAccept
  by_cases houtcome : outcome = .noDescriptors
  · rw [if_pos houtcome, h.resetAcceptor_eq, hkept (Or.inr houtcome), hsame]
  · have hstart : s.startAccept index =
        { s with acceptors := s.acceptors.set index (acceptor.afterAccept outcome) } := by
      unfold startAccept
      rw [modify_eq_set_of_getElem? hacceptor]
      unfold Acceptor.startAccept
      split_ifs with hacceptorOpen
      · unfold Acceptor.afterAccept
        rw [if_pos ⟨houtcome, hacceptorOpen⟩, hnone, hacceptorOpen]
      · rw [hkept (Or.inl (Bool.eq_false_iff.mpr hacceptorOpen))]
    rw [if_neg houtcome, hopen]
    split_ifs with htls hacceptorOpen
    · exact hstart
    · exact hstart
    · rw [hkept (Or.inl (Bool.eq_false_iff.mpr hacceptorOpen)), hsame]

/-- The end of a pending accept leaves the timers asleep. -/
theorem Dormant.endAccept {s : Server} (h : s.Dormant) {index : ℕ} {acceptor : Acceptor}
    (hacceptor : s.acceptors[index]? = some acceptor) :
    ({ s with acceptors := s.acceptors.set index acceptor.endAccept } : Server).Dormant := by
  refine ⟨h.stack, h.idle, h.noneCancelled, fun other hother ↦ ?_⟩
  rcases List.mem_or_eq_of_mem_set hother with hother | rfl
  · exact h.single other hother
  · exact Nat.le_trans (Nat.sub_le _ _) (h.single acceptor (List.mem_of_getElem? hacceptor))

/-- What a step can do. -/
theorem Dormant.step_cases {s next : Server} {event : Event} (h : s.Dormant)
    (hstep : s.step event = some next) :
    (∃ index outcome acceptor, event = .accepted index outcome ∧
      s.acceptors[index]? = some acceptor ∧ 0 < acceptor.accepting ∧
      next = { s with acceptors := s.acceptors.set index (acceptor.afterAccept outcome) }) ∨
    (∃ ms : ℕ, event = .elapse ms ∧ next = { s with now := s.now + ms }) ∨
    (event = .stop ∧ next =
      { s with
        acceptors := s.acceptors.map fun acceptor ↦ { acceptor with isOpen := false } }) := by
  cases event with
  | accepted index outcome =>
    rw [step] at hstep
    cases hacceptor : s.acceptors[index]? with
    | none =>
      rw [hacceptor] at hstep
      exact absurd hstep (by simp)
    | some acceptor =>
      have hsingle := h.single acceptor (List.mem_of_getElem? hacceptor)
      rw [hacceptor, Option.any_some, modify_eq_set_of_getElem? hacceptor] at hstep
      split_ifs at hstep with hpending
      have hhere : (s.acceptors.set index acceptor.endAccept)[index]? = some acceptor.endAccept :=
        List.getElem?_set_self (List.getElem?_eq_some_iff.mp hacceptor).1
      -- the accept that has ended is not pending any more
      have hnone : acceptor.endAccept.accepting = 0 := Nat.sub_eq_zero_of_le hsingle
      have hafter := (h.endAccept hacceptor).onAccept_eq hhere hnone outcome
      refine Or.inl ⟨index, outcome, acceptor, rfl, hacceptor, of_decide_eq_true hpending, ?_⟩
      rw [← Option.some.inj hstep, hafter, List.set_set]
      rfl
  | timerFired key =>
    rw [step] at hstep
    cases hfound : s.delayedAcceptTimer.lookup key with
    | none =>
      rw [hfound] at hstep
      exact absurd hstep (by simp)
    | some timer =>
      have hidle : timer.waiting = [] := by
        obtain ⟨before, after, hsplit, -⟩ := List.lookup_eq_some_iff.mp hfound
        exact h.idle (key, timer) (by rw [hsplit]; simp)
      rw [hfound, show timer = ⟨timer.expiry, []⟩ by rw [← hidle]] at hstep
      exact absurd hstep (by simp)
  | waitCancelled =>
    rw [step, h.noneCancelled] at hstep
    exact absurd hstep (by simp)
  | elapse ms => exact Or.inr (Or.inl ⟨ms, rfl, (Option.some.inj hstep).symm⟩)
  | stop => exact Or.inr (Or.inr ⟨rfl, (Option.some.inj hstep).symm⟩)

/-- Every step leaves the timers asleep. -/
theorem Dormant.step {s next : Server} {event : Event} (h : s.Dormant)
    (hstep : s.step event = some next) : next.Dormant := by
  rcases h.step_cases hstep with ⟨index, outcome, acceptor, -, -, -, rfl⟩ |
    ⟨ms, -, rfl⟩ | ⟨-, rfl⟩
  · refine ⟨h.stack, h.idle, h.noneCancelled, fun other hother ↦ ?_⟩
    rcases List.mem_or_eq_of_mem_set hother with hother | rfl
    · exact h.single other hother
    · unfold Acceptor.afterAccept
      split_ifs
      · exact Nat.le_refl 1
      · exact Nat.zero_le 1
  · exact ⟨h.stack, h.idle, h.noneCancelled, h.single⟩
  · refine ⟨h.stack, h.idle, h.noneCancelled, fun other hother ↦ ?_⟩
    obtain ⟨acceptor, hacceptor, rfl⟩ := List.mem_map.mp hother
    exact h.single acceptor hacceptor

/-- A step keeps the server listening exactly when no open acceptor runs out of descriptors. -/
theorem Dormant.listens_step_iff {s next : Server} {event : Event} (h : s.Dormant)
    (hlistens : s.Listens) (hstep : s.step event = some next) :
    next.Listens ↔ ¬ s.Exhausts event := by
  have hafter := h.step hstep
  rw [h.listens_iff] at hlistens
  rw [hafter.listens_iff]
  rcases h.step_cases hstep with ⟨index, outcome, acceptor, rfl, hacceptor, -, rfl⟩ |
    ⟨ms, rfl, rfl⟩ | ⟨rfl, rfl⟩
  · have hexhausts : s.Exhausts (.accepted index outcome) ↔
        outcome = .noDescriptors ∧ acceptor.isOpen = true := by
      constructor
      · rintro ⟨other, hevent, hopen⟩
        obtain ⟨rfl, rfl⟩ := Event.accepted.inj hevent
        rw [hacceptor, Option.any_some] at hopen
        exact ⟨rfl, hopen⟩
      · rintro ⟨rfl, hopen⟩
        exact ⟨index, rfl, by rw [hacceptor, Option.any_some, hopen]⟩
    have hhere : (s.acceptors.set index (acceptor.afterAccept outcome))[index]? =
        some (acceptor.afterAccept outcome) :=
      List.getElem?_set_self (List.getElem?_eq_some_iff.mp hacceptor).1
    rw [hexhausts]
    constructor
    · rintro hall ⟨rfl, hopen⟩
      exact absurd (hall index _ hhere hopen) (by simp [Acceptor.afterAccept])
    · intro hnot other found hfound hopen
      by_cases hother : index = other
      · subst hother
        obtain rfl := Option.some.inj (hhere.symm.trans hfound)
        unfold Acceptor.afterAccept
        rw [if_pos ⟨fun houtcome ↦ hnot ⟨houtcome, hopen⟩, hopen⟩]
        exact Nat.one_pos
      · rw [List.getElem?_set_ne hother] at hfound
        exact hlistens other found hfound hopen
  · exact iff_of_true hlistens fun ⟨_, hevent, _⟩ ↦ by simp at hevent
  · refine iff_of_true (fun index found hfound hopen ↦ ?_) fun ⟨_, hevent, _⟩ ↦ by simp at hevent
    rw [List.getElem?_map, Option.map_eq_some_iff] at hfound
    obtain ⟨acceptor, -, rfl⟩ := hfound
    exact absurd hopen (by simp)

/-! ### Runs -/

theorem mem_insertTimer {key : Address} {timer : DeadlineTimer}
    {timers : List (Address × DeadlineTimer)} {entry : Address × DeadlineTimer}
    (h : entry ∈ insertTimer key timer timers) : entry ∈ timers ∨ entry = (key, timer) := by
  unfold insertTimer at h
  split_ifs at h
  · exact Or.inl h
  · exact (List.mem_append.mp h).imp_right List.mem_singleton.mp

/-- What `bind_and_listen` leaves: sleeping timers, and open acceptors without an accept. -/
theorem dormant_bindAndListen {endpoints : List Endpoint} {ec result : Option EndpointError}
    {s bound : Server} (h : s.Dormant) (hidle : ∀ acceptor ∈ s.acceptors, acceptor = ⟨true, 0⟩)
    (hbound : bindAndListen endpoints ec s = (result, bound)) :
    bound.Dormant ∧ ∀ acceptor ∈ bound.acceptors, acceptor = ⟨true, 0⟩ := by
  induction endpoints generalizing ec s with
  | nil =>
    rw [bindAndListen] at hbound
    split_ifs at hbound <;> exact (Prod.mk.inj hbound).2 ▸ ⟨h, hidle⟩
  | cons endpoint rest ih =>
    rw [bindAndListen] at hbound
    cases herror : endpoint.error with
    | some error =>
      rw [herror] at hbound
      exact ih h hidle hbound
    | none =>
      rw [herror] at hbound
      have hpushed : ∀ acceptor ∈ (s.push endpoint).acceptors, acceptor = ⟨true, 0⟩ :=
        fun acceptor hacceptor ↦ (List.mem_append.mp hacceptor).elim (hidle acceptor)
          List.mem_singleton.mp
      have hdormant : (s.push endpoint).Dormant := by
        refine ⟨fun entry hentry ↦ ?_, fun entry hentry ↦ ?_, h.noneCancelled,
          fun acceptor hacceptor ↦ ?_⟩
        · rcases mem_insertTimer hentry with hentry | rfl
          · exact h.stack entry hentry
          · exact ⟨endpoint.slot, rfl⟩
        · rcases mem_insertTimer hentry with hentry | rfl
          · exact h.idle entry hentry
          · rfl
        · rw [hpushed acceptor hacceptor]
          exact Nat.zero_le 1
      exact ih hdormant hpushed hbound

/-- A server that has started listens, and its timers sleep. -/
theorem dormant_listenAndServe {hasTlsContext : Bool} {endpoints : List Endpoint} {s : Server}
    (h : listenAndServe hasTlsContext endpoints = .ok s) : s.Dormant ∧ s.Listens := by
  have hinitial : (Server.initial hasTlsContext).Dormant :=
    ⟨fun _ h ↦ absurd h List.not_mem_nil, fun _ h ↦ absurd h List.not_mem_nil, rfl,
      fun _ h ↦ absurd h List.not_mem_nil⟩
  unfold listenAndServe at h
  generalize hbound : bindAndListen endpoints none (.initial hasTlsContext) = bound at h
  obtain ⟨result, bound⟩ := bound
  obtain ⟨hdormant, hidle⟩ := dormant_bindAndListen hinitial
    (fun _ h ↦ absurd h List.not_mem_nil) hbound
  cases result with
  | some error => exact absurd h (by simp)
  | none =>
    obtain rfl := Except.ok.inj h
    have hstarted : ∀ acceptor ∈ bound.acceptors.map Acceptor.startAccept,
        acceptor = ⟨true, 1⟩ := by
      intro acceptor hacceptor
      obtain ⟨before, hbefore, rfl⟩ := List.mem_map.mp hacceptor
      rw [hidle before hbefore]
      rfl
    refine ⟨⟨hdormant.stack, hdormant.idle, hdormant.noneCancelled, fun acceptor hacceptor ↦ ?_⟩,
      fun index acceptor hacceptor _ ↦ Or.inl ?_⟩
    · rw [hstarted acceptor hacceptor]
    · rw [hstarted acceptor (List.mem_of_getElem? hacceptor)]
      exact Nat.one_pos

/-- **A listener goes dead** exactly when the process runs out of file descriptors. For every list
of endpoints on which the server starts and every run, all open acceptors have a pending accept or
an armed timer in every state of the run if and only if no accept on an open acceptor ends with
`no_descriptors`. -/
theorem everyState_listens_iff {hasTlsContext : Bool} {endpoints : List Endpoint}
    {s final : Server} {events : List Event}
    (hstart : listenAndServe hasTlsContext endpoints = .ok s)
    (hrun : TransitionSystem.run step s events = some final) :
    TransitionSystem.EveryState step Listens s events ↔
      TransitionSystem.RunMeets step (fun s event ↦ ¬ s.Exhausts event) s events := by
  obtain ⟨hdormant, hlistens⟩ := dormant_listenAndServe hstart
  exact TransitionSystem.everyState_iff_runMeets (fun _ _ _ h hstep ↦ h.step hstep)
    (fun _ _ _ h hlistens hstep ↦ h.listens_step_iff hlistens hstep) hdormant hlistens hrun

/-- The acceptor at an index has no pending accept. -/
def DeadAt (index : ℕ) (s : Server) : Prop :=
  ∃ acceptor, s.acceptors[index]? = some acceptor ∧ acceptor.accepting = 0

/-- An acceptor without a pending accept never gets one again. -/
theorem deadAt_of_run {s final : Server} {events : List Event} {index : ℕ} (h : s.Dormant)
    (hdead : s.DeadAt index) (hrun : TransitionSystem.run step s events = some final) :
    final.DeadAt index := by
  refine And.right (@TransitionSystem.invariant_run _ _ step
    (fun s ↦ s.Dormant ∧ s.DeadAt index) (fun state event next hinv hstep ↦ ?_) _ _ _ ⟨h, hdead⟩
    hrun)
  obtain ⟨hdormant, later, hlater, hzero⟩ := hinv
  refine ⟨hdormant.step hstep, ?_⟩
  rcases hdormant.step_cases hstep with ⟨other, outcome, accepted, -, haccepted, hpending, rfl⟩ |
    ⟨ms, -, rfl⟩ | ⟨-, rfl⟩
  · have hother : other ≠ index := by
      rintro rfl
      obtain rfl := Option.some.inj (hlater.symm.trans haccepted)
      omega
    exact ⟨later, (List.getElem?_set_ne hother).trans hlater, hzero⟩
  · exact ⟨later, hlater, hzero⟩
  · refine ⟨{ later with isOpen := false }, ?_, hzero⟩
    rw [List.getElem?_map, hlater]
    rfl

/-- An endpoint that can be bound. -/
def boundEndpoint : Endpoint where
  error := none
  slot := 0
  time := 0

theorem everyState_listens_twoErrors :
    ∃ s final, listenAndServe false [boundEndpoint] = .ok s ∧
      TransitionSystem.run step s [.accepted 0 .error, .elapse 200, .accepted 0 .success] =
        some final ∧
      TransitionSystem.EveryState step Listens s
        [.accepted 0 .error, .elapse 200, .accepted 0 .success] :=
  ⟨_, _, rfl, rfl, (@everyState_listens_iff false [boundEndpoint] _ _ _ rfl rfl).mpr (by decide)⟩

/-- One accept that ends with `no_descriptors`, and nothing accepts ever again. -/
theorem not_everyState_listens_noDescriptors :
    ∃ s final, listenAndServe false [boundEndpoint] = .ok s ∧
      TransitionSystem.run step s [.accepted 0 .noDescriptors] = some final ∧
      ¬ TransitionSystem.EveryState step Listens s [.accepted 0 .noDescriptors] ∧
      ∀ events later, TransitionSystem.run step final events = some later → later.DeadAt 0 := by
  refine ⟨_, _, rfl, rfl, fun h ↦ ?_, fun events later hrun ↦ ?_⟩
  · rcases (h.2 _ rfl) 0 ⟨true, 0⟩ rfl rfl with hpending | ⟨entry, hentry, hwaiting⟩
    · exact absurd hpending (by decide)
    · obtain rfl := List.mem_singleton.mp hentry
      exact List.not_mem_nil hwaiting
  · have hstarted := (@dormant_listenAndServe false [boundEndpoint] _ rfl).1
    exact deadAt_of_run (@Dormant.step _ _ (.accepted 0 .noDescriptors) hstarted rfl)
      ⟨_, rfl, rfl⟩ hrun

end Server

end Maock.Listening
