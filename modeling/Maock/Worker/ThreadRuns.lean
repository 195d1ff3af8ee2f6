import Mathlib.Data.List.Perm.Subperm
import Maock.Worker.Statistics

/-!
# The thread below the statistics

The worker thread with its counters moves handlers and streams only as a worker thread does: every
event is matched by events of `Thread` (`follows_step`), in which an answer that the handler sends
itself is one that is posted and runs at once. So every run reaches a thread that its own events
reach (`reaches_of_run`), and the handlers, streams and tasks keep the invariant `Tracked`
(`tracked_of_run`).
-/

set_option autoImplicit false
set_option relaxedAutoImplicit false

namespace Maock.Worker

open Foundation Foundation.TransitionSystem Foundation.Ledger Matching Answering

variable {Document σ : Type}

/-- An answer to an open stream, as an answer that is posted and runs at once. -/
theorem Thread.reaches_sendResponse {w : Thread} {handlerId streamId : ℕ} {strm : OpenStream}
    (hstrm : w.findStream handlerId streamId = some strm) (a : Answer) :
    Reaches step w (w.sendResponse a handlerId streamId) := by
  have hoffload : step w (.offload handlerId streamId) =
      some { w with pending := ⟨handlerId, streamId, strm.request⟩ :: w.pending } :=
    Option.map_eq_some_iff.mpr ⟨strm, hstrm, rfl⟩
  have hsend : step { w with pending := ⟨handlerId, streamId, strm.request⟩ :: w.pending }
      (.sendResponse ⟨handlerId, streamId, strm.request⟩ a) =
        some (w.sendResponse a handlerId streamId) := by
    dsimp only [step]
    rw [if_pos List.mem_cons_self, List.erase_cons_head]
  exact (reaches_of_step hoffload).trans (reaches_of_step hsend)

theorem Thread.pending_sendResponse (a : Answer) (handlerId streamId : ℕ) (w : Thread) :
    (w.sendResponse a handlerId streamId).pending = w.pending := by
  unfold sendResponse
  cases w.findHandler handlerId with
  | none => rfl
  | some handler =>
    dsimp only
    split_ifs <;> rfl

namespace CountingThread

/-- The tasks of all jobs in flight. -/
def tasks (w : CountingThread σ) : List Task :=
  w.offloaded.map Job.task ++ w.posted.map Job.task

/-- As long as the thread has the tasks of the jobs in flight among its pending ones, it moves as a
worker thread does and still has them. -/
def Follows (before after : CountingThread σ) : Prop :=
  before.tasks.Subperm before.thread.pending →
    Reaches Thread.step before.thread after.thread ∧ after.tasks.Subperm after.thread.pending

theorem Follows.trans {first second third : CountingThread σ} (h : Follows first second)
    (h' : Follows second third) : Follows first third := by
  intro hpending
  obtain ⟨hfirst, hbetween⟩ := h hpending
  obtain ⟨hsecond, hafter⟩ := h' hbetween
  exact ⟨hfirst.trans hsecond, hafter⟩

/-- Steps of the thread that leave the pending tasks and the jobs as they are. -/
theorem follows_of_reaches {before after : CountingThread σ}
    (hreaches : Reaches Thread.step before.thread after.thread)
    (hpending : after.thread.pending = before.thread.pending)
    (htasks : after.tasks = before.tasks) : Follows before after := by
  refine fun h ↦ ⟨hreaches, ?_⟩
  rw [hpending, htasks]
  exact h

/-- A change that does not concern the thread and the jobs. -/
theorem follows_of_eq {before after : CountingThread σ} (hthread : after.thread = before.thread)
    (htasks : after.tasks = before.tasks) : Follows before after := by
  refine follows_of_reaches ?_ (congrArg Thread.pending hthread) htasks
  rw [hthread]
  exact reaches_refl before.thread

section Handler

variable {w : CountingThread σ} {handlerId streamId : ℕ} {strm : OpenStream}
  (hstrm : w.thread.findStream handlerId streamId = some strm)

include hstrm

theorem follows_sendResponse (a : Answer) (slot : Slot) :
    Follows w (w.sendResponse a ⟨handlerId, streamId, strm.request⟩ slot).1 := by
  unfold sendResponse
  cases w.thread.dropReason a handlerId streamId with
  | some reason =>
    exact follows_of_reaches (Thread.reaches_sendResponse hstrm a)
      (Thread.pending_sendResponse a handlerId streamId w.thread) rfl
  | none =>
    exact follows_of_reaches (Thread.reaches_sendResponse hstrm a)
      (Thread.pending_sendResponse a handlerId streamId w.thread) rfl

omit hstrm in
theorem follows_throttle (task : Task) (slot : Slot) : Follows w (w.throttle task slot).1 := by
  have hclose : Thread.step w.thread (.closeStream task.handlerId task.streamId) =
      some (w.throttle task slot).1.thread := rfl
  exact follows_of_reaches (reaches_of_step hclose) rfl rfl

theorem follows_offload (slot : Slot) (update : OffloadedUpdate) :
    Follows w (w.offload ⟨handlerId, streamId, strm.request⟩ slot update).1 := by
  have hoffload : Thread.step w.thread (.offload handlerId streamId) =
      some (w.offload ⟨handlerId, streamId, strm.request⟩ slot update).1.thread :=
    Option.map_eq_some_iff.mpr ⟨strm, hstrm, rfl⟩
  refine fun hpending ↦ ⟨reaches_of_step hoffload, ?_⟩
  unfold offload tasks
  dsimp only
  rw [List.map_append, List.map_singleton, List.append_assoc]
  exact (List.perm_middle.subperm).trans ((List.subperm_cons _).mpr hpending)

theorem follows_answerMatched (s : Surroundings Document σ) (visit : Visit Document σ)
    (slot : Slot) :
    Follows w (w.answerMatched s visit ⟨handlerId, streamId, strm.request⟩ slot).1 := by
  unfold answerMatched
  dsimp only
  set handled : CountingThread σ := { w with statics := (visit.handle s w.statics).1 }
  have hhandled : Follows w handled := follows_of_eq rfl rfl
  have hstrm' : handled.thread.findStream handlerId streamId = some strm := hstrm
  cases (visit.handle s w.statics).2 with
  | throttled => exact hhandled.trans (follows_throttle _ slot)
  | offloaded update => exact hhandled.trans (follows_offload hstrm' slot update)
  | answered a => exact hhandled.trans (follows_sendResponse hstrm' a slot)

/-- The handler moves the thread as a worker thread moves, whatever the configuration. -/
theorem follows_handleRequest (s : Surroundings Document σ)
    (server : H2Server H2ServerResponseGroup) (arrival : Arrival σ) :
    Follows w (w.handleRequest s server ⟨handlerId, streamId, strm.request⟩ arrival) := by
  have hreceive : Follows w (w.receive handlerId) := follows_of_eq rfl rfl
  have hstrm' : (w.receive handlerId).thread.findStream handlerId streamId = some strm := hstrm
  unfold handleRequest
  dsimp only
  split_ifs with hindex
  · cases (server.getMatchedRequest s.toMatchLibraries
      (RequestMessage.ofRequest s.toMatchLibraries arrival.req)).1.service with
    | none => exact follows_of_eq rfl rfl
    | some service =>
      dsimp only
      split
      · exact (hreceive.trans (follows_answerMatched hstrm' s _ _)).trans (follows_of_eq rfl rfl)
      · exact follows_of_eq rfl rfl
  · obtain ⟨handler, hhandler, hfound⟩ := Thread.findStream_eq_some_iff.mp hstrm
    have hwrite : w.thread.sendResponse notFound handlerId streamId =
        w.thread.modifyHandler handlerId (BaseHandler.writeResponse notFound streamId) := by
      have hstatus : notFound.statusCode ≠ 0 := by decide
      unfold Thread.sendResponse
      rw [hhandler]
      dsimp only
      rw [if_neg hstatus, hfound]
      rfl
    have hreaches := Thread.reaches_sendResponse hstrm notFound
    rw [hwrite] at hreaches
    exact follows_of_reaches hreaches rfl rfl

end Handler

/-! ### Jobs -/

/-- The tasks with one job taken out of the offloaded ones. -/
theorem perm_tasks_offloaded {w : CountingThread σ} {position : ℕ} {job : Job BoundUpdate}
    (hjob : w.offloaded[position]? = some job) :
    w.tasks.Perm (job.task :: { w with offloaded := w.offloaded.eraseIdx position }.tasks) :=
  ((perm_cons_eraseIdx hjob).map Job.task).append_right _

/-- The tasks with one job taken out of the posted ones. -/
theorem perm_tasks_posted {w : CountingThread σ} {position : ℕ} {job : Job Answer}
    (hjob : w.posted[position]? = some job) :
    w.tasks.Perm (job.task :: { w with posted := w.posted.eraseIdx position }.tasks) := by
  unfold tasks
  refine (((perm_cons_eraseIdx hjob).map Job.task).append_left _).trans ?_
  rw [List.map_cons]
  exact List.perm_middle

theorem follows_endScript {w : CountingThread σ} {position : ℕ} {job : Job BoundUpdate}
    (hjob : w.offloaded[position]? = some job) (script : Script) :
    Follows w ({ w with offloaded := w.offloaded.eraseIdx position }.endScript job script) := by
  have hperm := perm_tasks_offloaded hjob
  unfold endScript
  split_ifs
  · refine fun hpending ↦ ⟨reaches_refl w.thread, List.Subperm.trans ?_ hpending⟩
    refine (List.Perm.trans ?_ hperm.symm).subperm
    unfold tasks
    dsimp only
    rw [List.map_append, ← List.append_assoc]
    exact List.perm_append_singleton _ _
  · exact fun hpending ↦ ⟨reaches_refl w.thread,
      ((List.sublist_cons_self _ _).subperm.trans hperm.symm.subperm).trans hpending⟩

theorem follows_runPosted {w : CountingThread σ} {position : ℕ} {job : Job Answer}
    (hjob : w.posted[position]? = some job) :
    Follows w ({ w with posted := w.posted.eraseIdx position }.runPosted job) := by
  intro hpending
  have hperm := perm_tasks_posted hjob
  have hmem : job.task ∈ w.thread.pending :=
    hpending.subset (hperm.mem_iff.mpr List.mem_cons_self)
  have hsend : Thread.step w.thread (.sendResponse job.task job.work) =
      some ({ w.thread with pending := w.thread.pending.erase job.task }.sendResponse job.work
        job.task.handlerId job.task.streamId) :=
    if_pos hmem
  have hrest : { w with posted := w.posted.eraseIdx position }.tasks.Subperm
      ({ w.thread with pending := w.thread.pending.erase job.task }.sendResponse job.work
        job.task.handlerId job.task.streamId).pending := by
    have herased := (hperm.symm.subperm.trans hpending).erase job.task
    rw [List.erase_cons_head] at herased
    rwa [Thread.pending_sendResponse]
  unfold runPosted sendResponse
  dsimp only
  cases Thread.dropReason job.work job.task.handlerId job.task.streamId _ with
  | some reason => exact ⟨reaches_of_step hsend, hrest⟩
  | none => exact ⟨reaches_of_step hsend, hrest⟩

/-! ### Runs -/

/-- Connections and streams come and go on the thread itself. -/
theorem follows_stepThread {w after : CountingThread σ} {e : Thread.Event}
    (hstep : w.stepThread e = some after)
    (hpending : ∀ next, w.thread.step e = some next → next.pending = w.thread.pending) :
    Follows w after := by
  obtain ⟨next, hnext, rfl⟩ := Option.map_eq_some_iff.mp hstep
  exact follows_of_reaches (reaches_of_step hnext) (hpending next hnext) rfl

/-- Every event is matched by events of the thread. -/
theorem follows_step {s : Surroundings Document σ} {server : H2Server H2ServerResponseGroup}
    {w after : CountingThread σ} {e : Event σ} (hstep : step s server w e = some after) :
    Follows w after := by
  cases e with
  | openConnection =>
    refine follows_stepThread hstep fun next hnext ↦ ?_
    obtain rfl := Option.some.inj hnext
    rfl
  | destroyConnection handlerId =>
    refine follows_stepThread hstep fun next hnext ↦ ?_
    obtain rfl := Option.some.inj hnext
    rfl
  | createStream handlerId streamId =>
    refine follows_stepThread hstep fun next hnext ↦ ?_
    dsimp only [Thread.step] at hnext
    cases hhandler : w.thread.findHandler handlerId with
    | none =>
      rw [hhandler] at hnext
      exact absurd hnext (by simp)
    | some handler =>
      rw [hhandler] at hnext
      dsimp only at hnext
      split_ifs at hnext
      obtain rfl := Option.some.inj hnext
      rfl
  | closeStream handlerId streamId =>
    refine follows_stepThread hstep fun next hnext ↦ ?_
    obtain rfl := Option.some.inj hnext
    rfl
  | request handlerId streamId arrival =>
    obtain ⟨strm, hstrm, rfl⟩ := Option.map_eq_some_iff.mp hstep
    exact follows_handleRequest hstrm s server arrival
  | scriptEnds position script =>
    obtain ⟨job, hjob, rfl⟩ := Option.map_eq_some_iff.mp hstep
    exact follows_endScript hjob script
  | sendResponse position =>
    obtain ⟨job, hjob, rfl⟩ := Option.map_eq_some_iff.mp hstep
    exact follows_runPosted hjob

/-- Every run of the thread with its counters reaches a thread that its own events reach. -/
theorem reaches_of_run {s : Surroundings Document σ} {server : H2Server H2ServerResponseGroup}
    {config : List (SchemaService H2ServerResponseGroup)} {events : List (Event σ)}
    {w : CountingThread σ}
    (hrun : TransitionSystem.run (step s server) (initial config) events = some w) :
    Reaches Thread.step Thread.initial w.thread := by
  have hinv := @invariant_run _ _ (step s server)
    (fun w ↦ Reaches Thread.step Thread.initial w.thread ∧ w.tasks.Subperm w.thread.pending)
    (fun before e after hbefore hstep ↦ by
      obtain ⟨hnext, hafter⟩ := follows_step hstep hbefore.2
      exact ⟨hbefore.1.trans hnext, hafter⟩)
    _ _ _ ⟨reaches_refl _, List.Subperm.refl _⟩ hrun
  exact hinv.1

/-- So the numbers of its handlers, streams and tasks keep their invariant. -/
theorem tracked_of_run {s : Surroundings Document σ} {server : H2Server H2ServerResponseGroup}
    {config : List (SchemaService H2ServerResponseGroup)} {events : List (Event σ)}
    {w : CountingThread σ}
    (hrun : TransitionSystem.run (step s server) (initial config) events = some w) :
    w.thread.Tracked := by
  obtain ⟨threadEvents, hthread⟩ := reaches_of_run hrun
  exact Thread.tracked_run hthread

end CountingThread

end Maock.Worker
