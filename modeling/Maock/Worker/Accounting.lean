import Maock.Worker.Statistics

/-!
# The statistics account for every request

`Balanced` is the invariant of counters, ledger and jobs in flight: the counters have the numbers of
the requests that count for them, every request that was matched has the slot of its service and
response, and the jobs in flight are those of the pending requests, each once. `Balanced.record` and
`Balanced.settle` say how it is kept when a request gets its first fate and when a job ends.

`accounting_of_run` is the result for all runs of the thread.
-/

set_option autoImplicit false
set_option relaxedAutoImplicit false

namespace Maock.Worker

open Foundation Foundation.OrderedContainer Foundation.Bytes Foundation.TransitionSystem
open Foundation.Ledger Http Matching Answering

variable {Document σ : Type} {s : Surroundings Document σ}
  {config : List (SchemaService H2ServerResponseGroup)}

/-! ### Slots -/

/-- The entry that `get_matched_request` finds for a request. -/
def Arrival.matchedService (s : Surroundings Document σ)
    (config : List (SchemaService H2ServerResponseGroup)) (arrival : Arrival σ) :
    Option (H2ServerRequest × H2ServerResponseGroup) :=
  ((H2Server.ofConfig config).getMatchedRequest s.toMatchLibraries
    (RequestMessage.ofRequest s.toMatchLibraries arrival.req)).1.service

/-- The slot of a request: the index in the configuration of the service whose request matches, and
the index of the response that is selected in this service. -/
def Arrival.HasSlot (s : Surroundings Document σ)
    (config : List (SchemaService H2ServerResponseGroup)) (arrival : Arrival σ) :
    Option Slot → Prop
  | none => arrival.matchedService s config = none
  | some slot => ∃ service, config[slot.reqIndex]? = some service ∧
      arrival.matchedService s config =
        some ((H2ServerRequest.ofSchema service.request slot.reqIndex).assignUniqueIds
          (allMatchRules (configuredServices config)), service.responseGroup) ∧
      slot.respIndex = service.responseGroup.selectResponse arrival.randomNumber ∧
      slot.respIndex < service.responseGroup.responses.length

/-- There is an element of `respStats` at the slot of a request. -/
theorem Arrival.HasSlot.isSome_cell? {arrival : Arrival σ} {slot : Slot} {stats : Statistics}
    (hslot : arrival.HasSlot s config (some slot))
    (hlengths : stats.respStats.map List.length = responseCounts config) :
    (stats.cell? slot).isSome := by
  obtain ⟨service, hservice, -, -, hlt⟩ := hslot
  refine RaggedTable.isSome_cell?_iff.mpr ⟨service.responseGroup.responses.length, ?_, hlt⟩
  rw [hlengths, responseCounts, List.getElem?_map, hservice, Option.map_some]

/-! ### The balance -/

/-- What a fate does to the counters. -/
def Statistics.credit (fate : Fate) (stats : Statistics) : Statistics :=
  match fate.counter with
  | some counter => stats.increment counter
  | none => stats

namespace Statistics

theorem lengths_credit (fate : Fate) (stats : Statistics) :
    (stats.credit fate).respStats.map List.length = stats.respStats.map List.length := by
  unfold credit
  cases fate.counter with
  | none => rfl
  | some counter => exact lengths_increment stats counter

theorem reqReceived_credit (fate : Fate) (stats : Statistics) :
    (stats.credit fate).reqReceived = stats.reqReceived := by
  unfold credit
  cases fate.counter with
  | none => rfl
  | some counter => exact reqReceived_increment stats counter

/-- The counter of a fate exists when its slot does. -/
theorem has_of_slot {fate : Fate} {stats : Statistics}
    (hcell : ∀ slot, fate.slot = some slot → (stats.cell? slot).isSome) {counter : Counter}
    (hcounter : fate.counter = some counter) : stats.Has counter := by
  cases fate with
  | unMatched =>
    obtain rfl := Option.some.inj hcounter
    trivial
  | throttled slot =>
    obtain rfl := Option.some.inj hcounter
    exact hcell slot rfl
  | sent slot =>
    obtain rfl := Option.some.inj hcounter
    exact hcell slot rfl
  | offloaded slot => exact absurd hcounter (by simp [Fate.counter])
  | unposted slot => exact absurd hcounter (by simp [Fate.counter])
  | dropped slot reason => exact absurd hcounter (by simp [Fate.counter])

theorem value_credit {fate : Fate} {stats : Statistics}
    (hcell : ∀ slot, fate.slot = some slot → (stats.cell? slot).isSome) (other : Counter) :
    (stats.credit fate).value other =
      stats.value other + if fate.counter = some other then 1 else 0 := by
  unfold credit
  cases hcounter : fate.counter with
  | none => simp
  | some counter => simpa using value_increment (has_of_slot hcell hcounter) other

theorem accounted_credit {fate : Fate} {stats : Statistics}
    (hcell : ∀ slot, fate.slot = some slot → (stats.cell? slot).isSome) :
    (stats.credit fate).accounted =
      stats.accounted + if fate.counter.isSome then 1 else 0 := by
  unfold credit
  cases hcounter : fate.counter with
  | none => simp
  | some counter => simpa using accounted_increment (has_of_slot hcell hcounter)

end Statistics

/-- The counters, the jobs in flight and the ledger agree. -/
structure Balanced (s : Surroundings Document σ)
    (config : List (SchemaService H2ServerResponseGroup)) (stats : Statistics)
    (tickets : List (ℕ × Slot)) (ledger : List (Entry (Arrival σ) Fate)) : Prop where
  lengths : stats.respStats.map List.length = responseCounts config
  received : stats.reqReceived = ledger.length
  value_eq : ∀ counter, stats.value counter =
    count (fun fate ↦ decide (fate.counter = some counter)) ledger
  accounted_eq : stats.accounted = count (fun fate ↦ fate.counter.isSome) ledger
  hasSlot : ∀ entry ∈ ledger, entry.item.HasSlot s config entry.fate.slot
  posted : ∀ entry ∈ ledger, ∀ slot, entry.fate ≠ .unposted slot
  outstanding : Outstanding Fate.pendingSlot tickets ledger

theorem balanced_initial (s : Surroundings Document σ)
    (config : List (SchemaService H2ServerResponseGroup)) :
    Balanced s config (Statistics.initial config) [] [] where
  lengths := Statistics.lengths_initial config
  received := rfl
  value_eq := Statistics.value_initial config
  accounted_eq := Statistics.accounted_initial config
  hasSlot _ hentry := absurd hentry List.not_mem_nil
  posted _ hentry := absurd hentry List.not_mem_nil
  outstanding := outstanding_nil

namespace Balanced

variable {stats : Statistics} {tickets : List (ℕ × Slot)} {ledger : List (Entry (Arrival σ) Fate)}

/-- The order of the jobs in flight does not matter. -/
theorem perm {tickets' : List (ℕ × Slot)} (h : Balanced s config stats tickets ledger)
    (hperm : tickets.Perm tickets') : Balanced s config stats tickets' ledger :=
  { h with
    outstanding := h.outstanding.perm hperm }

/-- A request arrives and gets its first fate. -/
theorem record (h : Balanced s config stats tickets ledger) {arrival : Arrival σ} {fate : Fate}
    (hslot : arrival.HasSlot s config fate.slot) (hposted : ∀ slot, fate ≠ .unposted slot)
    {tickets' : List (ℕ × Slot)}
    (houtstanding : Outstanding Fate.pendingSlot tickets' (Ledger.record arrival fate ledger)) :
    Balanced s config
      ({ stats with reqReceived := stats.reqReceived + 1 }.credit fate) tickets'
      (Ledger.record arrival fate ledger) := by
  set received : Statistics := { stats with reqReceived := stats.reqReceived + 1 }
  have hcell : ∀ slot, fate.slot = some slot → (received.cell? slot).isSome := fun slot heq ↦
    (heq ▸ hslot : arrival.HasSlot s config (some slot)).isSome_cell? h.lengths
  refine ⟨(Statistics.lengths_credit fate received).trans h.lengths, ?_, fun counter ↦ ?_, ?_,
    fun entry hentry ↦ ?_, fun entry hentry ↦ ?_, houtstanding⟩
  · rw [Statistics.reqReceived_credit, length_record, ← h.received]
  · rw [Statistics.value_credit hcell, count_record, ← h.value_eq counter]
    simp only [decide_eq_true_eq]
    rfl
  · rw [Statistics.accounted_credit hcell, count_record, ← h.accounted_eq]
    rfl
  · rcases mem_record.mp hentry with hold | rfl
    · exact h.hasSlot entry hold
    · exact hslot
  · rcases mem_record.mp hentry with hold | rfl
    · exact h.posted entry hold
    · exact hposted

/-- A job in flight ends, and its request gets its last fate. -/
theorem settle {ticket : ℕ × Slot} (h : Balanced s config stats (ticket :: tickets) ledger)
    {fate : Fate} (hslot : fate.slot = some ticket.2) (hpending : fate.pendingSlot = none)
    (hposted : ∀ slot, fate ≠ .unposted slot) :
    Balanced s config (stats.credit fate) tickets (Ledger.settle ticket.1 fate ledger) := by
  obtain ⟨settled, hsettled, hkey⟩ := h.outstanding.exists_entry List.mem_cons_self
  -- the request was pending, so it counted for nothing and had the same slot
  obtain ⟨hslotBefore, hcounter⟩ :
      settled.fate.slot = some ticket.2 ∧ settled.fate.counter = none := by
    cases hfate : settled.fate with
    | offloaded slot => exact ⟨by rw [hfate] at hkey; exact hkey, rfl⟩
    | _ =>
      rw [hfate] at hkey
      exact absurd hkey (by simp [Fate.pendingSlot])
  have hitem : settled.item.HasSlot s config (some ticket.2) :=
    hslotBefore ▸ h.hasSlot settled (List.mem_of_getElem? hsettled)
  have hcell : ∀ slot, fate.slot = some slot → (stats.cell? slot).isSome := by
    intro slot heq
    obtain rfl := Option.some.inj (hslot.symm.trans heq)
    exact hitem.isSome_cell? h.lengths
  refine ⟨(Statistics.lengths_credit fate stats).trans h.lengths, ?_, fun counter ↦ ?_, ?_,
    fun entry hentry ↦ ?_, fun entry hentry ↦ ?_, h.outstanding.settle hpending⟩
  · rw [Statistics.reqReceived_credit, h.received, length_settle]
  · rw [Statistics.value_credit hcell, count_settle hsettled (by simp [hcounter]),
      h.value_eq counter]
    simp only [decide_eq_true_eq]
  · rw [Statistics.accounted_credit hcell, count_settle hsettled (by simp [hcounter]),
      h.accounted_eq]
  · rcases mem_settle hentry with hold | ⟨other, hother, rfl⟩
    · exact h.hasSlot entry hold
    · obtain rfl := Option.some.inj (hsettled.symm.trans hother)
      exact hslot ▸ hitem
  · rcases mem_settle hentry with hold | ⟨other, -, rfl⟩
    · exact h.posted entry hold
    · exact hposted

end Balanced

/-! ### Steps of the thread -/

/-- The number of the request of a job, with the slot that it refers to. -/
def Job.ticket {work : Type} (job : Job work) : ℕ × Slot :=
  (job.number, job.slot)

namespace CountingThread

/-- The tickets of all jobs in flight. -/
def tickets (w : CountingThread σ) : List (ℕ × Slot) :=
  w.offloaded.map Job.ticket ++ w.posted.map Job.ticket

/-- The invariant of the runs. -/
structure Accounts (s : Surroundings Document σ)
    (config : List (SchemaService H2ServerResponseGroup)) (w : CountingThread σ) : Prop where
  inRange : w.outOfRange = false
  hasIoService : w.hasIoService ≠ some false
  bound : ∀ job ∈ w.offloaded, job.work.hasIoService = true
  balanced : Balanced s config w.stats w.tickets w.ledger

theorem accounts_initial (s : Surroundings Document σ)
    (config : List (SchemaService H2ServerResponseGroup)) :
    Accounts s config (initial config : CountingThread σ) where
  inRange := rfl
  hasIoService := by simp [initial]
  bound _ hjob := absurd hjob List.not_mem_nil
  balanced := balanced_initial s config

/-- What the handler does with a response for a slot: it changes the counters as the fate says, and
it leaves a job to an offload thread when the response is pending. -/
structure Answers (slot : Slot) (before after : CountingThread σ) (fate : Fate) : Prop where
  stats : after.stats = before.stats.credit fate
  ledger : after.ledger = before.ledger
  outOfRange : after.outOfRange = before.outOfRange
  hasIoService : after.hasIoService = before.hasIoService
  posted : after.posted = before.posted
  fate_slot : fate.slot = some slot
  fate_posted : ∀ other, fate ≠ .unposted other
  offloaded : fate.pendingSlot = none ∧ after.offloaded = before.offloaded ∨
    fate.pendingSlot = some slot ∧ ∃ job, after.offloaded = before.offloaded ++ [job] ∧
      job.ticket = (before.ledger.length, slot) ∧
      job.work.hasIoService = before.hasIoService.getD false

theorem answers_sendResponse (a : Answer) (task : Task) (slot : Slot) (w : CountingThread σ) :
    Answers slot w (w.sendResponse a task slot).1 (w.sendResponse a task slot).2 := by
  unfold sendResponse
  cases w.thread.dropReason a task.handlerId task.streamId with
  | some reason =>
    exact ⟨rfl, rfl, rfl, rfl, rfl, rfl, fun _ h ↦ Fate.noConfusion h, Or.inl ⟨rfl, rfl⟩⟩
  | none =>
    exact ⟨rfl, rfl, rfl, rfl, rfl, rfl, fun _ h ↦ Fate.noConfusion h, Or.inl ⟨rfl, rfl⟩⟩

theorem answers_throttle (task : Task) (slot : Slot) (w : CountingThread σ) :
    Answers slot w (w.throttle task slot).1 (w.throttle task slot).2 :=
  ⟨rfl, rfl, rfl, rfl, rfl, rfl, fun _ h ↦ Fate.noConfusion h, Or.inl ⟨rfl, rfl⟩⟩

theorem answers_offload (task : Task) (slot : Slot) (update : OffloadedUpdate)
    (w : CountingThread σ) :
    Answers slot w (w.offload task slot update).1 (w.offload task slot update).2 :=
  ⟨rfl, rfl, rfl, rfl, rfl, rfl, fun _ h ↦ Fate.noConfusion h,
    Or.inr ⟨rfl, _, rfl, rfl, rfl⟩⟩

theorem answers_answerMatched (visit : Visit Document σ) (task : Task) (slot : Slot)
    (w : CountingThread σ) :
    Answers slot w (w.answerMatched s visit task slot).1 (w.answerMatched s visit task slot).2 := by
  set handled : CountingThread σ := { w with statics := (visit.handle s w.statics).1 } with hhandled
  have hanswers : ∀ {after : CountingThread σ} {fate : Fate}, Answers slot handled after fate →
      Answers slot w after fate := fun h ↦
    ⟨h.stats, h.ledger, h.outOfRange, h.hasIoService, h.posted, h.fate_slot, h.fate_posted,
      h.offloaded⟩
  unfold answerMatched
  dsimp only
  rw [← hhandled]
  cases (visit.handle s w.statics).2 with
  | throttled => exact hanswers (answers_throttle task slot handled)
  | offloaded update => exact hanswers (answers_offload task slot update handled)
  | answered a => exact hanswers (answers_sendResponse a task slot handled)

/-- What `send_response` leaves is not pending. -/
theorem pendingSlot_sendResponse (a : Answer) (task : Task) (slot : Slot) (w : CountingThread σ) :
    (w.sendResponse a task slot).2.pendingSlot = none := by
  unfold sendResponse
  cases w.thread.dropReason a task.handlerId task.streamId <;> rfl

/-- The thread afterwards has the requests from before and new ones, and what is not pending has
kept its fate. -/
structure Advances (before after : CountingThread σ) (arrivals : List (Arrival σ)) : Prop where
  items : after.ledger.map Entry.item = before.ledger.map Entry.item ++ arrivals
  settled : ∀ (number : ℕ) (entry : Entry (Arrival σ) Fate),
    before.ledger[number]? = some entry → entry.fate.pendingSlot = none →
      after.ledger[number]? = some entry

theorem advances_of_ledger_eq {before after : CountingThread σ}
    (hledger : after.ledger = before.ledger) : Advances before after [] := by
  refine ⟨?_, fun number entry hentry _ ↦ ?_⟩
  · rw [hledger, List.append_nil]
  · rw [hledger, hentry]

theorem Advances.trans {first second third : CountingThread σ}
    {arrivals arrivals' : List (Arrival σ)}
    (h : Advances first second arrivals) (h' : Advances second third arrivals') :
    Advances first third (arrivals ++ arrivals') := by
  refine ⟨?_, fun number entry hentry hpending ↦ ?_⟩
  · rw [h'.items, h.items, List.append_assoc]
  · exact h'.settled number entry (h.settled number entry hentry hpending) hpending

theorem advances_record {before after : CountingThread σ} {arrival : Arrival σ} {fate : Fate}
    (hledger : after.ledger = record arrival fate before.ledger) :
    Advances before after [arrival] := by
  refine ⟨?_, fun number entry hentry _ ↦ ?_⟩
  · rw [hledger, items_record]
  · rw [hledger, getElem?_record_of_lt (List.getElem?_eq_some_iff.mp hentry).1, hentry]

/-- Settling a pending request changes no settled one. -/
theorem advances_settle {before after : CountingThread σ} {ticket : ℕ × Slot} {fate : Fate}
    (hledger : after.ledger = settle ticket.1 fate before.ledger)
    {tickets : List (ℕ × Slot)}
    (houtstanding : Outstanding Fate.pendingSlot (ticket :: tickets) before.ledger) :
    Advances before after [] := by
  obtain ⟨settled, hsettled, hkey⟩ := houtstanding.exists_entry List.mem_cons_self
  refine ⟨?_, fun number entry hentry hpending ↦ ?_⟩
  · rw [hledger, items_settle, List.append_nil]
  · have hne : ticket.1 ≠ number := by
      intro heq
      obtain rfl := Option.some.inj (hsettled.symm.trans (heq ▸ hentry))
      exact absurd (hpending.symm.trans hkey) (by simp)
    rw [hledger, getElem?_settle_of_ne hne, hentry]

/-! ### The invariant -/

namespace Accounts

variable {w : CountingThread σ}

/-- An open handler has an `io_service`. -/
theorem hasIoService_receive (h : Accounts s config w) {handlerId : ℕ}
    (halive : (w.thread.findHandler handlerId).isSome) :
    (w.receive handlerId).hasIoService = some true := by
  have hstored := h.hasIoService
  unfold receive
  dsimp only
  rw [halive]
  cases hio : w.hasIoService with
  | none => rfl
  | some stored =>
    cases stored with
    | true => rfl
    | false => exact absurd hio hstored

/-- A request with a slot is recorded with the fate that the handler gives it. -/
theorem recordAnswer (h : Accounts s config w) {handlerId : ℕ}
    (halive : (w.thread.findHandler handlerId).isSome) {arrival : Arrival σ} {slot : Slot}
    (hslot : arrival.HasSlot s config (some slot)) {after : CountingThread σ} {fate : Fate}
    (hanswers : Answers slot (w.receive handlerId) after fate) :
    Accounts s config { after with ledger := record arrival fate after.ledger } := by
  have hio := h.hasIoService_receive halive
  have hledger : after.ledger = w.ledger := hanswers.ledger
  have hposted : after.posted = w.posted := hanswers.posted
  have hrecorded : ∀ {tickets : List (ℕ × Slot)},
      Outstanding Fate.pendingSlot tickets (record arrival fate w.ledger) →
      Balanced s config after.stats tickets (record arrival fate after.ledger) := by
    intro tickets houtstanding
    rw [hanswers.stats, hledger]
    exact h.balanced.record (hanswers.fate_slot ▸ hslot) hanswers.fate_posted houtstanding
  rcases hanswers.offloaded with ⟨hpending, hoffloaded⟩ | ⟨hpending, job, hoffloaded, hticket, hjob⟩
  · refine ⟨hanswers.outOfRange.trans h.inRange, ?_, fun job hmem ↦ ?_, ?_⟩
    · simp [hanswers.hasIoService, hio]
    · exact h.bound job (hoffloaded ▸ hmem)
    · have htickets : after.tickets = w.tickets := by
        unfold tickets
        rw [hoffloaded, hposted]
        rfl
      show Balanced s config after.stats after.tickets (record arrival fate after.ledger)
      rw [htickets]
      exact hrecorded (h.balanced.outstanding.record_settled arrival hpending)
  · refine ⟨hanswers.outOfRange.trans h.inRange, ?_, fun other hmem ↦ ?_, ?_⟩
    · simp [hanswers.hasIoService, hio]
    · rcases List.mem_append.mp (hoffloaded ▸ hmem) with hold | hnew
      · exact h.bound other hold
      · rw [List.mem_singleton.mp hnew, hjob, hio, Option.getD_some]
    · have htickets : ((w.ledger.length, slot) :: w.tickets).Perm after.tickets := by
        unfold tickets
        rw [hoffloaded, hposted, List.map_append, List.map_singleton, hticket, List.append_assoc]
        exact List.perm_middle.symm
      exact hrecorded ((h.balanced.outstanding.record_open arrival hpending).perm htickets)

/-- A request is handled. Assumes that every service has a response and that the handler of the
stream is there. -/
theorem handleRequest (h : Accounts s config w)
    (hresponses : ∀ service ∈ config, service.responseGroup.responses ≠ []) {task : Task}
    (halive : (w.thread.findHandler task.handlerId).isSome) (arrival : Arrival σ) :
    Accounts s config (w.handleRequest s (H2Server.ofConfig config) task arrival) ∧
      Advances w (w.handleRequest s (H2Server.ofConfig config) task arrival) [arrival] := by
  unfold CountingThread.handleRequest
  dsimp only
  have hcases := (H2Server.ofConfig config).getMatchedRequest_cases s.toMatchLibraries
    (RequestMessage.ofRequest s.toMatchLibraries arrival.req)
  rcases hcases with ⟨entry, hentry, hmatched⟩ | hmatched
  · obtain ⟨index, service, hservice, rfl⟩ := mem_services_ofConfig hentry
    have hlt := H2ServerResponseGroup.selectResponse_lt
      (hresponses service (List.mem_of_getElem? hservice)) arrival.randomNumber
    set slot : Slot := ⟨index, service.responseGroup.selectResponse arrival.randomNumber⟩ with heq
    have hslot : arrival.HasSlot s config (some slot) :=
      ⟨service, hservice, by rw [Arrival.matchedService, hmatched], rfl, hlt⟩
    obtain ⟨cell, hcell⟩ := Option.isSome_iff_exists.mp
      (hslot.isSome_cell? h.balanced.lengths)
    have hcell' : (w.receive task.handlerId).stats.cell? slot = some cell := hcell
    have hindex : (-1 : ℤ) < (index : ℤ) := by omega
    rw [hmatched]
    simp only [H2ServerRequest.assignUniqueIds, H2ServerRequest.ofSchema, hindex, if_true,
      Int.toNat_natCast, ← heq, List.getElem?_eq_getElem hlt, hcell']
    exact ⟨h.recordAnswer halive hslot (answers_answerMatched _ task slot _),
      advances_record (by rw [(answers_answerMatched _ task slot _).ledger]; rfl)⟩
  · rw [hmatched]
    dsimp only
    rw [if_neg (by omega)]
    refine ⟨⟨h.inRange, ?_, h.bound, ?_⟩, advances_record rfl⟩
    · rw [h.hasIoService_receive halive]
      simp
    · have hnone : arrival.HasSlot s config (Fate.slot .unMatched) := by
        show arrival.matchedService s config = none
        rw [Arrival.matchedService, hmatched]
      exact h.balanced.record hnone (fun _ h ↦ Fate.noConfusion h)
        (h.balanced.outstanding.record_settled arrival rfl)

/-- A script ends, and its job goes on to the worker thread. -/
theorem endScript (h : Accounts s config w) {position : ℕ} {job : Job BoundUpdate}
    (hjob : w.offloaded[position]? = some job) (script : Script) :
    Accounts s config
        ({ w with offloaded := w.offloaded.eraseIdx position }.endScript job script) ∧
      Advances w
        ({ w with offloaded := w.offloaded.eraseIdx position }.endScript job script) [] := by
  unfold CountingThread.endScript
  rw [if_pos (h.bound job (List.mem_of_getElem? hjob))]
  refine ⟨⟨h.inRange, h.hasIoService, fun other hother ↦ ?_, h.balanced.perm ?_⟩,
    advances_of_ledger_eq rfl⟩
  · exact h.bound other (List.mem_of_mem_eraseIdx hother)
  · have hperm := (perm_cons_eraseIdx hjob).map Job.ticket
    unfold tickets
    dsimp only
    rw [List.map_append, ← List.append_assoc]
    refine (hperm.append_right _).trans ?_
    rw [List.map_cons, List.cons_append]
    exact (List.perm_append_singleton _ _).symm

/-- A posted job ends. -/
theorem runPosted (h : Accounts s config w) {position : ℕ} {job : Job Answer}
    (hjob : w.posted[position]? = some job) :
    Accounts s config ({ w with posted := w.posted.eraseIdx position }.runPosted job) ∧
      Advances w ({ w with posted := w.posted.eraseIdx position }.runPosted job) [] := by
  unfold CountingThread.runPosted
  dsimp only
  set before : CountingThread σ :=
    { w with
      thread := { w.thread with pending := w.thread.pending.erase job.task }
      posted := w.posted.eraseIdx position }
  have hanswers := answers_sendResponse job.work job.task job.slot before
  have hpending := pendingSlot_sendResponse job.work job.task job.slot before
  have hoffloaded : (before.sendResponse job.work job.task job.slot).1.offloaded = w.offloaded := by
    rcases hanswers.offloaded with ⟨-, hsame⟩ | ⟨hsome, -⟩
    · exact hsame
    · exact absurd (hpending.symm.trans hsome) (by simp)
  have hperm : w.tickets.Perm (job.ticket :: before.tickets) := by
    unfold tickets
    refine (((perm_cons_eraseIdx hjob).map Job.ticket).append_left _).trans ?_
    rw [List.map_cons]
    exact List.perm_middle
  have htickets : (before.sendResponse job.work job.task job.slot).1.tickets = before.tickets := by
    unfold tickets
    rw [hoffloaded, hanswers.posted]
  have hbalanced := (h.balanced.perm hperm).settle hanswers.fate_slot hpending hanswers.fate_posted
  refine ⟨⟨hanswers.outOfRange.trans h.inRange, ?_, fun other hother ↦ ?_, ?_⟩,
    advances_settle (by rw [hanswers.ledger]; rfl) (h.balanced.perm hperm).outstanding⟩
  · rw [hanswers.hasIoService]
    exact h.hasIoService
  · exact h.bound other (hoffloaded ▸ hother)
  · show Balanced s config (before.sendResponse job.work job.task job.slot).1.stats
      (before.sendResponse job.work job.task job.slot).1.tickets _
    rw [htickets, hanswers.stats, hanswers.ledger]
    exact hbalanced

/-- Connections and streams come and go without any effect on the balance. -/
theorem stepThread (h : Accounts s config w) {e : Thread.Event} {after : CountingThread σ}
    (hstep : w.stepThread e = some after) :
    Accounts s config after ∧ Advances w after [] := by
  obtain ⟨thread, -, rfl⟩ := Option.map_eq_some_iff.mp hstep
  exact ⟨⟨h.inRange, h.hasIoService, h.bound, h.balanced⟩, advances_of_ledger_eq rfl⟩

/-- Every step keeps the invariant. -/
theorem step (h : Accounts s config w)
    (hresponses : ∀ service ∈ config, service.responseGroup.responses ≠ [])
    {e : Event σ} {after : CountingThread σ}
    (hstep : CountingThread.step s (H2Server.ofConfig config) w e = some after) :
    Accounts s config after ∧ Advances w after e.arrival?.toList := by
  cases e with
  | openConnection => exact h.stepThread hstep
  | destroyConnection handlerId => exact h.stepThread hstep
  | createStream handlerId streamId => exact h.stepThread hstep
  | closeStream handlerId streamId => exact h.stepThread hstep
  | request handlerId streamId arrival =>
    obtain ⟨strm, hstrm, rfl⟩ := Option.map_eq_some_iff.mp hstep
    obtain ⟨handler, hhandler, -⟩ := Thread.findStream_eq_some_iff.mp hstrm
    exact h.handleRequest hresponses (Option.isSome_of_eq_some hhandler) arrival
  | scriptEnds position script =>
    obtain ⟨job, hjob, rfl⟩ := Option.map_eq_some_iff.mp hstep
    exact h.endScript hjob script
  | sendResponse position =>
    obtain ⟨job, hjob, rfl⟩ := Option.map_eq_some_iff.mp hstep
    exact h.runPosted hjob

/-- Every run keeps the invariant. -/
theorem run (hresponses : ∀ service ∈ config, service.responseGroup.responses ≠ [])
    {events : List (Event σ)} {after : CountingThread σ} (h : Accounts s config w)
    (hrun : TransitionSystem.run (CountingThread.step s (H2Server.ofConfig config)) w events =
      some after) :
    Accounts s config after ∧ Advances w after (events.filterMap Event.arrival?) := by
  induction events generalizing w with
  | nil =>
    obtain rfl := Option.some.inj hrun
    exact ⟨h, advances_of_ledger_eq rfl⟩
  | cons e rest ih =>
    obtain ⟨next, hnext, hrest⟩ := run_cons_eq_some.mp hrun
    obtain ⟨hbetween, hfirst⟩ := h.step hresponses hnext
    obtain ⟨hafter, hlast⟩ := ih hbetween hrest
    refine ⟨hafter, ?_⟩
    have hadvances := hfirst.trans hlast
    cases harrival : e.arrival? with
    | none =>
      rw [harrival] at hadvances
      rwa [List.filterMap_cons_none harrival]
    | some arrival =>
      rw [harrival] at hadvances
      rwa [List.filterMap_cons_some harrival]

end Accounts

/-! ### Accounting -/

/-- The counters account for the requests of a run. The requests in the ledger are those of the run,
each of which incremented the received counter. Every other counter has the number of the requests
whose fate counts for it; a fate counts for at most one counter, of the slot that the request has,
and once it does it stays. The counters together never exceed the received counter, and they are
equal to it when no response is pending and none was dropped. -/
structure Accounting (s : Surroundings Document σ)
    (config : List (SchemaService H2ServerResponseGroup)) (events : List (Event σ))
    (w : CountingThread σ) : Prop where
  inRange : w.outOfRange = false
  items : w.ledger.map Entry.item = events.filterMap Event.arrival?
  received : w.stats.reqReceived = (events.filterMap Event.arrival?).length
  value_eq : ∀ counter, w.stats.value counter =
    count (fun fate ↦ decide (fate.counter = some counter)) w.ledger
  hasSlot : ∀ entry ∈ w.ledger, entry.item.HasSlot s config entry.fate.slot
  settled : ∀ later after,
    TransitionSystem.run (step s (H2Server.ofConfig config)) w later = some after →
      ∀ (number : ℕ) (entry : Entry (Arrival σ) Fate), w.ledger[number]? = some entry →
        entry.fate.counter.isSome → after.ledger[number]? = some entry
  accounted_le : w.stats.accounted ≤ w.stats.reqReceived
  accounted_eq : w.offloaded = [] → w.posted = [] →
    (∀ entry ∈ w.ledger, ∀ slot reason, entry.fate ≠ .dropped slot reason) →
      w.stats.accounted = w.stats.reqReceived

/-- A fate that counts is not pending. -/
theorem pendingSlot_of_counter {fate : Fate} (hcounter : fate.counter.isSome) :
    fate.pendingSlot = none := by
  cases fate with
  | offloaded slot => exact absurd hcounter Bool.false_ne_true
  | _ => rfl

/-- Without jobs in flight and dropped responses all requests count. -/
theorem Accounts.isSome_counter {w : CountingThread σ} (h : Accounts s config w)
    (hoffloaded : w.offloaded = []) (hposted : w.posted = [])
    (hdropped : ∀ entry ∈ w.ledger, ∀ slot reason, entry.fate ≠ .dropped slot reason) :
    ∀ entry ∈ w.ledger, entry.fate.counter.isSome := by
  intro entry hentry
  have htickets : w.tickets = [] := by
    unfold tickets
    rw [hoffloaded, hposted]
    rfl
  obtain ⟨number, hnumber⟩ := List.getElem?_of_mem hentry
  cases hfate : entry.fate with
  | unMatched => rfl
  | throttled slot => rfl
  | sent slot => rfl
  | offloaded slot =>
    have hticket : (number, slot) ∈ w.tickets :=
      (h.balanced.outstanding.mem_iff number slot).mpr ⟨entry, hnumber, by rw [hfate]; rfl⟩
    rw [htickets] at hticket
    exact absurd hticket List.not_mem_nil
  | unposted slot => exact absurd hfate (h.balanced.posted entry hentry slot)
  | dropped slot reason => exact absurd hfate (hdropped entry hentry slot reason)

/-- **The statistics account for every request**, in every run on a configuration whose services all
have a response. -/
theorem accounting_of_run (s : Surroundings Document σ)
    {config : List (SchemaService H2ServerResponseGroup)}
    (hresponses : ∀ service ∈ config, service.responseGroup.responses ≠ [])
    {events : List (Event σ)} {w : CountingThread σ}
    (hrun : TransitionSystem.run (step s (H2Server.ofConfig config)) (initial config) events =
      some w) : Accounting s config events w := by
  obtain ⟨haccounts, hadvances⟩ := (accounts_initial s config).run hresponses hrun
  have hbalanced := haccounts.balanced
  have hitems : w.ledger.map Entry.item = events.filterMap Event.arrival? := hadvances.items
  refine ⟨haccounts.inRange, hitems, ?_, hbalanced.value_eq, hbalanced.hasSlot,
    fun later after hlater number entry hentry hcounter ↦ ?_, ?_,
    fun hoffloaded hposted hdropped ↦ ?_⟩
  · rw [hbalanced.received, ← hitems, List.length_map]
  · exact (haccounts.run hresponses hlater).2.settled number entry hentry
      (pendingSlot_of_counter hcounter)
  · rw [hbalanced.accounted_eq, hbalanced.received]
    exact count_le_length _ _
  · rw [hbalanced.accounted_eq, hbalanced.received]
    exact count_eq_length_iff.mpr (haccounts.isSome_counter hoffloaded hposted hdropped)

/-- A service for `GET` requests with a plain response and one whose script is left to an offload
thread. -/
def twoResponses : List (SchemaService H2ServerResponseGroup) :=
  [⟨⟨[⟨ascii "EqualsTo", ascii ":method", ascii "GET"⟩], [], ascii "get"⟩,
    .ofResponses [bareResponse 0,
      { bareResponse 0 with hasLuaState := true, luaOffload := true }]⟩]

/-- A request with a method and the number drawn to select its response. -/
def plainArrival (method : Bytes) (randomNumber : ℕ) : Arrival Unit where
  req := { AsioServerRequest.empty with method := method }
  randomNumber := randomNumber
  number := 0
  source := ()
  script := none

/-- Three requests on a connection, one of which waits for its script and is sent last. -/
theorem accounting_of_run_twoResponses :
    ∃ w, TransitionSystem.run (step Visit.plainSurroundings (H2Server.ofConfig twoResponses))
        (initial twoResponses)
        [.openConnection, .createStream 0 1, .request 0 1 (plainArrival (ascii "GET") 1),
          .createStream 0 3, .request 0 3 (plainArrival (ascii "POST") 0), .createStream 0 5,
          .request 0 5 (plainArrival (ascii "GET") 0), .scriptEnds 0 none, .sendResponse 0] =
          some w ∧
      w.stats.accounted = 3 ∧
      Accounting Visit.plainSurroundings twoResponses
        [.openConnection, .createStream 0 1, .request 0 1 (plainArrival (ascii "GET") 1),
          .createStream 0 3, .request 0 3 (plainArrival (ascii "POST") 0), .createStream 0 5,
          .request 0 5 (plainArrival (ascii "GET") 0), .scriptEnds 0 none, .sendResponse 0] w := by
  refine ⟨_, rfl, ?_, accounting_of_run Visit.plainSurroundings ?_ rfl⟩
  · decide
  · intro service hservice
    obtain rfl := List.mem_singleton.mp hservice
    exact List.cons_ne_nil _ _

end CountingThread

end Maock.Worker
