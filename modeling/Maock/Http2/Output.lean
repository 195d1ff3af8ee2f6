import Maock.Foundation.TransitionSystem
import Maock.Http1.WriteSizes

/-!
# The output stream of an HTTP/2 connection

`asio_server_connection` with its `http2_handler` as the sending side of an nghttp2 session. The
session is a parameter (`Session`). `on_write` takes chunks from it until it has none left or the
next one does not fit; that one stays in the memory of the session, and the handler keeps its
address and length (`buf_`, `buflen_`) for the next call.

The events are what the `io_service` runs: completions of reads and writes, posted `initiate_write`
calls, tasks that call the session (a posted `send_response`, say) and the read deadline. The state
keeps a history: the chunks taken, the byte ranges passed to `async_write`, and how many of these
writes have not completed. `Ordered` is the invariant of the runs.
-/

set_option autoImplicit false
set_option relaxedAutoImplicit false

namespace Maock.Http2

open Foundation Foundation.Bytes Foundation.TransitionSystem
open Http1 (overwrite length_overwrite take_overwrite)

variable {σ τ : Type*}

/-! ### Sessions -/

/-- What a connection uses of an nghttp2 session. `memSend` is `nghttp2_session_mem_send`, and
`data` is what stands at the address that its last call has returned. `memRecv` is
`nghttp2_session_mem_recv` with the callbacks of the handler, and `call` a call on the session that
a task makes; both tell whether they succeed. `idle` is that the session wants neither to read nor
to write. -/
structure Session (σ τ : Type*) where
  memSend : σ → ℕ × σ
  data : σ → Bytes
  memRecv : Bytes → σ → σ × Bool
  call : τ → σ → σ × Bool
  idle : σ → Bool

/-- What the handler relies on: `nghttp2_session_mem_send` returns the length of the chunk, no chunk
is longer than the output buffer, and a chunk is valid until the next call. -/
structure Session.Lawful (S : Session σ τ) (size : ℕ) : Prop where
  length_data : ∀ s, 0 < (S.memSend s).1 → (S.data (S.memSend s).2).length = (S.memSend s).1
  memSend_le : ∀ s, (S.memSend s).1 ≤ size
  data_memRecv : ∀ bytes s, S.data (S.memRecv bytes s).1 = S.data s
  data_call : ∀ call s, S.data (S.call call s).1 = S.data s

/-! ### `on_write` -/

/-- `copy_n` of `piece` to an address in the buffer, when it does not leave the buffer. -/
def copyN (piece : Bytes) (address : ℕ) (buffer : Bytes) : Option Bytes :=
  if address + piece.length ≤ buffer.length then some (overwrite buffer address piece) else none

theorem length_of_copyN {piece : Bytes} {address : ℕ} {buffer copied : Bytes}
    (h : copyN piece address buffer = some copied) : copied.length = buffer.length := by
  unfold copyN at h
  split_ifs at h with hroom
  rw [← Option.some_inj.mp h, length_overwrite (Or.inr hroom)]

theorem take_of_copyN {piece : Bytes} {address : ℕ} {buffer copied : Bytes}
    (h : copyN piece address buffer = some copied) :
    copied.take (address + piece.length) = buffer.take address ++ piece := by
  unfold copyN at h
  split_ifs at h with hroom
  rw [← Option.some_inj.mp h, take_overwrite (Nat.le_of_add_right_le hroom)]

/-- What `on_write` leaves: the session, the buffer, `len`, the length of the chunk that `buf_`
points to, and the chunks that the call has taken from the session. -/
structure Filled (σ : Type*) where
  session : σ
  buffer : Bytes
  len : ℕ
  buflen : Option ℕ
  taken : List Bytes

namespace Session

variable (S : Session σ τ)

/-- The loop of `on_write`. It returns nothing when a `copy_n` leaves the buffer. -/
def fill (session : σ) (buffer : Bytes) (len : ℕ) : Option (Filled σ) :=
  let nread := (S.memSend session).1
  let next := (S.memSend session).2
  let chunk := (S.data next).take nread
  if _hnone : nread = 0 then
    some { session := next, buffer := buffer, len := len, buflen := none, taken := [] }
  else if _hroom : buffer.length < len + nread then
    some { session := next, buffer := buffer, len := len, buflen := some nread, taken := [chunk] }
  else
    match _hcopy : copyN chunk len buffer with
    | none => none
    | some copied =>
      (fill next copied (len + nread)).map fun rest ↦ { rest with taken := chunk :: rest.taken }
termination_by buffer.length - len
decreasing_by
  have hlength := length_of_copyN _hcopy
  omega

/-- `on_write`, with the length of the chunk that `buf_` points to, if it is not null. -/
def onWrite (session : σ) (buflen : Option ℕ) (buffer : Bytes) : Option (Filled σ) :=
  match buflen with
  | none => S.fill session buffer 0
  | some n => (copyN ((S.data session).take n) 0 buffer).bind fun copied ↦ S.fill session copied n

end Session

/-- The chunk that `buf_` points to. -/
def Session.parked (S : Session σ τ) (session : σ) (buflen : Option ℕ) : Bytes :=
  match buflen with
  | none => []
  | some n => (S.data session).take n

/-- The chunk that `buf_` points to has the length kept with it, and fits into a buffer. -/
def Session.Parks (S : Session σ τ) (size : ℕ) (session : σ) (buflen : Option ℕ) : Prop :=
  ∀ n, buflen = some n → (S.data session).length = n ∧ n ≤ size

/-- What `on_write` does to a buffer of this size from `len` on: behind what stands there it copies
what it takes from the session, up to the chunk that it parks; and it parks none without having
copied something. -/
structure Fills (S : Session σ τ) (size : ℕ) (before : Bytes) (f : Filled σ) : Prop where
  length_buffer : f.buffer.length = size
  len_le : f.len ≤ size
  parks : S.Parks size f.session f.buflen
  stream : f.buffer.take f.len ++ S.parked f.session f.buflen = before ++ f.taken.flatten
  copied : f.buflen.isSome = true → 0 < f.len

/-- The loop of `on_write` leaves the buffer at no `copy_n`. -/
theorem Session.fill_spec {S : Session σ τ} {size : ℕ} (hS : S.Lawful size) (session : σ)
    (buffer : Bytes) (len : ℕ) (hbuffer : buffer.length = size) (hlen : len ≤ size) :
    ∃ f, S.fill session buffer len = some f ∧ Fills S size (buffer.take len) f := by
  induction hleft : size - len using Nat.strongRecOn generalizing session buffer len with
  | _ left ih =>
    have hle := hS.memSend_le session
    rw [Session.fill]
    by_cases hnone : (S.memSend session).1 = 0
    · rw [dif_pos hnone]
      exact ⟨_, rfl, hbuffer, hlen, fun n hn ↦ absurd hn (by simp), rfl, fun h ↦ absurd h (by simp)⟩
    have hlength := hS.length_data session (Nat.pos_of_ne_zero hnone)
    by_cases hroom : buffer.length < len + (S.memSend session).1
    · rw [dif_neg hnone, dif_pos hroom]
      refine ⟨_, rfl, hbuffer, hlen, fun n hn ↦ ?_, ?_, fun _ ↦ ?_⟩
      · rw [← Option.some_inj.mp hn]
        exact ⟨hlength, hle⟩
      · rw [List.flatten_singleton]
        rfl
      · -- the chunk does not fit behind what was copied, but it fits into the buffer
        show 0 < len
        omega
    · rw [dif_neg hnone, dif_neg hroom]
      have hchunk : ((S.data (S.memSend session).2).take (S.memSend session).1).length =
          (S.memSend session).1 := List.length_take_of_le (Nat.le_of_eq hlength.symm)
      split
      next hcopy =>
        unfold copyN at hcopy
        rw [if_pos (by omega)] at hcopy
        exact absurd hcopy (by simp)
      next copied hcopy =>
        have hcopied := take_of_copyN hcopy
        rw [hchunk] at hcopied
        obtain ⟨f, hf, hfills⟩ := ih _ (by omega) (S.memSend session).2 copied
          (len + (S.memSend session).1) ((length_of_copyN hcopy).trans hbuffer) (by omega) rfl
        rw [hf]
        refine ⟨_, rfl, hfills.length_buffer, hfills.len_le, hfills.parks, ?_, hfills.copied⟩
        rw [List.flatten_cons, ← List.append_assoc, ← hcopied]
        exact hfills.stream

/-- A call of `on_write` first copies the chunk parked before. -/
theorem Session.onWrite_spec {S : Session σ τ} {size : ℕ} (hS : S.Lawful size) {session : σ}
    {buflen : Option ℕ} {buffer : Bytes} (hbuffer : buffer.length = size)
    (hparks : S.Parks size session buflen) :
    ∃ f, S.onWrite session buflen buffer = some f ∧ Fills S size (S.parked session buflen) f := by
  cases buflen with
  | none => exact S.fill_spec hS session buffer 0 hbuffer (Nat.zero_le size)
  | some n =>
    obtain ⟨hlength, hle⟩ := hparks n rfl
    have hchunk : ((S.data session).take n).length = n :=
      List.length_take_of_le (Nat.le_of_eq hlength.symm)
    obtain ⟨copied, hcopy⟩ : ∃ copied, copyN ((S.data session).take n) 0 buffer = some copied :=
      ⟨_, if_pos (by omega)⟩
    have hcopied := take_of_copyN hcopy
    rw [hchunk, Nat.zero_add, List.take_zero, List.nil_append] at hcopied
    obtain ⟨f, hf, hfills⟩ :=
      fill_spec hS session copied n ((length_of_copyN hcopy).trans hbuffer) hle
    rw [hcopied] at hfills
    refine ⟨f, ?_, hfills⟩
    rw [onWrite, hcopy]
    exact hf

/-! ### The connection -/

/-- The size of `outbuf_`. -/
def outbufSize : ℕ := 64 * 1024

/-- `asio_server_connection` with what `http2_handler` keeps for its output. Beside their members
the state has the tasks under way (whether a read is, and how many `initiate_write` calls are posted
and how many writes outstanding) and the history: the byte ranges passed to `async_write`, the
chunks taken from the session, and whether a `copy_n` has left the buffer. -/
structure Connection (σ : Type*) where
  session : σ
  buflen : Option ℕ
  writeSignaled : Bool
  outbuf : Bytes
  writing : Bool
  stopped : Bool
  reading : Bool
  posted : ℕ
  outstanding : ℕ
  started : List Bytes
  taken : List Bytes
  overrun : Bool

/-- What the `io_service` runs: a read has completed, with bytes or an error; a write has; a posted
`initiate_write`; a task that calls the session; and the read deadline. -/
inductive Event (τ : Type*) where
  | readCompletion (bytes : Option Bytes)
  | writeCompletion (succeeded : Bool)
  | initiateWrite
  | task (call : τ)
  | deadline

namespace Connection

/-- A connection when it has started its first read. The results below hold for a buffer of any
size. -/
def initial (session : σ) (size : ℕ := outbufSize) : Connection σ where
  session := session
  buflen := none
  writeSignaled := false
  outbuf := List.replicate size 0
  writing := false
  stopped := false
  reading := true
  posted := 0
  outstanding := 0
  started := []
  taken := []
  overrun := false

/-- `stop`. -/
def stop (c : Connection σ) : Connection σ :=
  { c with stopped := true }

/-- `signal_write`, outside of the callbacks. -/
def signalWrite (c : Connection σ) : Connection σ :=
  if c.writeSignaled then c else { c with writeSignaled := true, posted := c.posted + 1 }

/-- `do_write`. -/
def doWrite (S : Session σ τ) (c : Connection σ) : Connection σ :=
  if c.stopped || c.writing then c
  else
    match S.onWrite c.session c.buflen c.outbuf with
    | none => { c with overrun := true }
    | some f =>
      let c := { c with
        session := f.session
        buflen := f.buflen
        outbuf := f.buffer
        taken := c.taken ++ f.taken }
      if f.len = 0 then if S.idle c.session then c.stop else c
      else { c with
        writing := true
        outstanding := c.outstanding + 1
        started := c.started ++ [c.outbuf.take f.len] }

/-- The completion of a read that has succeeded, from `do_write` on. -/
def afterRead (S : Session σ τ) (c : Connection σ) : Connection σ :=
  let c := c.doWrite S
  if !c.writing && S.idle c.session then c.stop else { c with reading := !c.stopped }

/-- The completion of a read. -/
def onReadCompletion (S : Session σ τ) (bytes : Option Bytes) (c : Connection σ) : Connection σ :=
  match bytes with
  | none => c.stop
  | some bytes =>
    let (session, succeeded) := S.memRecv bytes c.session
    let c := { c with session := session }
    if succeeded then c.afterRead S else c.stop

/-- The completion of a write. -/
def onWriteCompletion (S : Session σ τ) (succeeded : Bool) (c : Connection σ) : Connection σ :=
  if succeeded then { c with writing := false }.doWrite S else c.stop

/-- A task that calls the session, and `signal_write` behind it. -/
def onTask (S : Session σ τ) (call : τ) (c : Connection σ) : Connection σ :=
  let (session, succeeded) := S.call call c.session
  let c := { c with session := session }
  if succeeded then c.signalWrite else c

/-- One event. Nothing happens any more once a `copy_n` has left the buffer. -/
def step (S : Session σ τ) (c : Connection σ) (event : Event τ) : Option (Connection σ) :=
  if c.overrun then none
  else
    match event with
    | .readCompletion bytes =>
      if c.reading then some ({ c with reading := false }.onReadCompletion S bytes) else none
    | .writeCompletion succeeded =>
      if 0 < c.outstanding then
        some ({ c with outstanding := c.outstanding - 1 }.onWriteCompletion S succeeded)
      else none
    | .initiateWrite =>
      if 0 < c.posted then
        some ({ c with posted := c.posted - 1, writeSignaled := false }.doWrite S)
      else none
    | .task call => some (c.onTask S call)
    | .deadline => some c.stop

/-! ### The invariant -/

section Invariant

variable {S : Session σ τ} {size : ℕ}

/-- What is common to the states of a run, also in the midst of an event: the bytes handed over and
the chunk parked are the chunks taken, in their order; and a write is outstanding only while
`writing_` is set. -/
structure Ordered (S : Session σ τ) (size : ℕ) (c : Connection σ) : Prop where
  length_outbuf : c.outbuf.length = size
  parks : S.Parks size c.session c.buflen
  stream : c.started.flatten ++ S.parked c.session c.buflen = c.taken.flatten
  outstanding_le : c.outstanding ≤ 1
  writing_of_outstanding : 0 < c.outstanding → c.writing = true
  not_overrun : c.overrun = false

theorem ordered_initial (S : Session σ τ) (size : ℕ) (session : σ) :
    Ordered S size (initial session size) :=
  ⟨List.length_replicate, fun n hn ↦ absurd hn (by simp [initial]), rfl, Nat.zero_le 1,
    fun h ↦ absurd h (Nat.lt_irrefl 0), rfl⟩

/-- A chunk parked waits for the completion of a write, unless the connection is stopped. -/
def Flushing (c : Connection σ) : Prop :=
  c.buflen.isSome = true → c.stopped = false → 0 < c.outstanding

/-- `do_write` does nothing while a write is outstanding. -/
theorem doWrite_of_writing {c : Connection σ} (hwriting : c.writing = true) :
    c.doWrite S = c := by
  rw [doWrite, hwriting, Bool.or_true, if_pos rfl]

/-- `do_write` keeps the order of the bytes. -/
theorem Ordered.doWrite (hS : S.Lawful size) {c : Connection σ}
    (hinv : Ordered S size c) : Ordered S size (c.doWrite S) := by
  unfold Connection.doWrite
  by_cases hidle : (c.stopped || c.writing) = true
  · rw [if_pos hidle]
    exact hinv
  rw [if_neg hidle]
  obtain ⟨-, hwriting⟩ : c.stopped = false ∧ c.writing = false := by simpa using hidle
  have hnone : c.outstanding = 0 := by
    by_contra hne
    have hset := hinv.writing_of_outstanding (Nat.pos_of_ne_zero hne)
    exact absurd (hwriting.symm.trans hset) Bool.false_ne_true
  obtain ⟨f, hf, hfills⟩ := S.onWrite_spec hS hinv.length_outbuf hinv.parks
  rw [hf]
  dsimp only
  have hstream : c.started.flatten ++ (f.buffer.take f.len ++ S.parked f.session f.buflen) =
      (c.taken ++ f.taken).flatten := by
    rw [hfills.stream, List.flatten_append, ← hinv.stream, List.append_assoc]
  by_cases hempty : f.len = 0
  · have hordered : Ordered S size { c with
        session := f.session
        buflen := f.buflen
        outbuf := f.buffer
        taken := c.taken ++ f.taken } := by
      rw [hempty, List.take_zero, List.nil_append] at hstream
      exact ⟨hfills.length_buffer, hfills.parks, hstream, hinv.outstanding_le,
        hinv.writing_of_outstanding, hinv.not_overrun⟩
    rw [if_pos hempty]
    split_ifs
    · exact ⟨hordered.length_outbuf, hordered.parks, hordered.stream, hordered.outstanding_le,
        hordered.writing_of_outstanding, hordered.not_overrun⟩
    · exact hordered
  · rw [if_neg hempty]
    refine ⟨hfills.length_buffer, hfills.parks, ?_, ?_, fun _ ↦ rfl, hinv.not_overrun⟩
    · show (c.started ++ [f.buffer.take f.len]).flatten ++ _ = _
      rw [List.flatten_append, List.flatten_singleton, List.append_assoc]
      exact hstream
    · show c.outstanding + 1 ≤ 1
      omega

/-- `do_write` leaves no chunk parked without a write behind which it waits. -/
theorem flushing_doWrite (hS : S.Lawful size) {c : Connection σ}
    (hinv : Ordered S size c) (hflushing : c.writing = true → c.Flushing) :
    (c.doWrite S).Flushing := by
  unfold Connection.doWrite
  by_cases hidle : (c.stopped || c.writing) = true
  · rw [if_pos hidle]
    intro hparked hrunning
    refine hflushing ?_ hparked hrunning
    rwa [hrunning, Bool.false_or] at hidle
  rw [if_neg hidle]
  obtain ⟨f, hf, hfills⟩ := S.onWrite_spec hS hinv.length_outbuf hinv.parks
  rw [hf]
  dsimp only
  by_cases hempty : f.len = 0
  · rw [if_pos hempty]
    have hnothing : ¬ f.buflen.isSome = true := fun hparked ↦
      absurd (hfills.copied hparked) (by omega)
    split_ifs <;> exact fun hparked ↦ absurd hparked hnothing
  · rw [if_neg hempty]
    exact fun _ _ ↦ Nat.succ_pos _

/-- The invariant between events. -/
structure Keeps (S : Session σ τ) (size : ℕ) (c : Connection σ) : Prop where
  ordered : Ordered S size c
  flushing : c.Flushing

theorem Keeps.doWrite (hS : S.Lawful size) {c : Connection σ}
    (hinv : Keeps S size c) : Keeps S size (c.doWrite S) :=
  ⟨hinv.ordered.doWrite hS, flushing_doWrite hS hinv.ordered fun _ ↦ hinv.flushing⟩

theorem Keeps.stop {c : Connection σ} (hinv : Ordered S size c) : Keeps S size c.stop :=
  ⟨⟨hinv.length_outbuf, hinv.parks, hinv.stream, hinv.outstanding_le, hinv.writing_of_outstanding,
    hinv.not_overrun⟩, fun _ hrunning ↦ absurd hrunning (by simp [Connection.stop])⟩

/-- The invariant does not speak of the tasks posted and of the read under way. -/
theorem Keeps.frame {c : Connection σ} (hinv : Keeps S size c)
    (writeSignaled : Bool) (posted : ℕ) (reading : Bool) : Keeps S size { c with
      writeSignaled := writeSignaled, posted := posted, reading := reading } :=
  ⟨⟨hinv.ordered.length_outbuf, hinv.ordered.parks, hinv.ordered.stream,
    hinv.ordered.outstanding_le, hinv.ordered.writing_of_outstanding, hinv.ordered.not_overrun⟩,
    hinv.flushing⟩

/-- A call on the session that leaves the chunk it has returned last. -/
theorem Keeps.withSession {c : Connection σ} (hinv : Keeps S size c) {session : σ}
    (hdata : S.data session = S.data c.session) : Keeps S size { c with session := session } := by
  have hparked : S.parked session c.buflen = S.parked c.session c.buflen := by
    unfold Session.parked
    rw [hdata]
  refine ⟨⟨hinv.ordered.length_outbuf, fun n hn ↦ ?_, ?_, hinv.ordered.outstanding_le,
    hinv.ordered.writing_of_outstanding, hinv.ordered.not_overrun⟩, hinv.flushing⟩
  · show (S.data session).length = n ∧ n ≤ size
    rw [hdata]
    exact hinv.ordered.parks n hn
  · show c.started.flatten ++ S.parked session c.buflen = c.taken.flatten
    rw [hparked]
    exact hinv.ordered.stream

/-! ### Events keep the invariant -/

theorem Keeps.onReadCompletion (hS : S.Lawful size) {c : Connection σ}
    (hinv : Keeps S size c) (bytes : Option Bytes) : Keeps S size (c.onReadCompletion S bytes) := by
  cases bytes with
  | none => exact Keeps.stop hinv.ordered
  | some bytes =>
    have hreceived := hinv.withSession (hS.data_memRecv bytes c.session)
    unfold Connection.onReadCompletion
    dsimp only
    split_ifs
    · have hwritten := hreceived.doWrite hS
      unfold Connection.afterRead
      dsimp only
      split_ifs
      · exact Keeps.stop hwritten.ordered
      · exact hwritten.frame _ _ _
    · exact Keeps.stop hreceived.ordered

theorem Keeps.onWriteCompletion (hS : S.Lawful size) {c : Connection σ}
    (hinv : Keeps S size c) (succeeded : Bool) :
    Keeps S size ({ c with outstanding := c.outstanding - 1 }.onWriteCompletion S succeeded) := by
  have hle := hinv.ordered.outstanding_le
  have hcompleted : ∀ writing, Ordered S size
      { c with outstanding := c.outstanding - 1, writing := writing } := by
    refine fun writing ↦ ⟨hinv.ordered.length_outbuf, hinv.ordered.parks, hinv.ordered.stream,
      ?_, fun hpos ↦ ?_, hinv.ordered.not_overrun⟩
    · show c.outstanding - 1 ≤ 1
      omega
    · -- the one write that was outstanding has completed
      have hpos' : 0 < c.outstanding - 1 := hpos
      omega
  unfold Connection.onWriteCompletion
  split_ifs
  · exact ⟨(hcompleted false).doWrite hS,
      flushing_doWrite hS (hcompleted false) fun h ↦ absurd h Bool.false_ne_true⟩
  · exact Keeps.stop (hcompleted c.writing)

theorem Keeps.onTask (hS : S.Lawful size) {c : Connection σ}
    (hinv : Keeps S size c) (call : τ) : Keeps S size (c.onTask S call) := by
  have hcalled := hinv.withSession (hS.data_call call c.session)
  unfold Connection.onTask signalWrite
  dsimp only
  split_ifs
  · exact hcalled
  · exact hcalled.frame _ _ _
  · exact hcalled

/-- One event keeps the invariant. -/
theorem keeps_step (hS : S.Lawful size) (c : Connection σ) (event : Event τ)
    (next : Connection σ) (hinv : Keeps S size c) (hstep : c.step S event = some next) :
    Keeps S size next := by
  unfold step at hstep
  by_cases hoverrun : c.overrun = true
  · rw [if_pos hoverrun] at hstep
    exact absurd hstep (by simp)
  rw [if_neg hoverrun] at hstep
  cases event with
  | readCompletion bytes =>
    dsimp only at hstep
    split_ifs at hstep
    exact Option.some_inj.mp hstep ▸ (hinv.frame _ _ false).onReadCompletion hS bytes
  | writeCompletion succeeded =>
    dsimp only at hstep
    split_ifs at hstep
    exact Option.some_inj.mp hstep ▸ hinv.onWriteCompletion hS succeeded
  | initiateWrite =>
    dsimp only at hstep
    split_ifs at hstep
    exact Option.some_inj.mp hstep ▸ (hinv.frame false (c.posted - 1) _).doWrite hS
  | task call => exact Option.some_inj.mp hstep ▸ hinv.onTask hS call
  | deadline => exact Option.some_inj.mp hstep ▸ Keeps.stop hinv.ordered

/-! ### Outstanding writes -/

/-- The buffer and the history of the writes are as before. -/
structure SameOutput (c next : Connection σ) : Prop where
  outbuf : next.outbuf = c.outbuf
  started : next.started = c.started

/-- While a write is outstanding, no event but its completion touches the buffer or starts a
write. -/
theorem sameOutput_step {c next : Connection σ} {event : Event τ}
    (hwriting : c.writing = true) (hother : ∀ succeeded, event ≠ .writeCompletion succeeded)
    (hstep : c.step S event = some next) : SameOutput c next := by
  unfold step at hstep
  by_cases hoverrun : c.overrun = true
  · rw [if_pos hoverrun] at hstep
    exact absurd hstep (by simp)
  rw [if_neg hoverrun] at hstep
  cases event with
  | readCompletion bytes =>
    dsimp only at hstep
    split_ifs at hstep
    obtain rfl := Option.some_inj.mp hstep
    cases bytes with
    | none => exact ⟨rfl, rfl⟩
    | some bytes =>
      unfold onReadCompletion afterRead
      dsimp only
      rw [doWrite_of_writing (by exact hwriting)]
      split_ifs <;> exact ⟨rfl, rfl⟩
  | writeCompletion succeeded => exact absurd rfl (hother succeeded)
  | initiateWrite =>
    dsimp only at hstep
    split_ifs at hstep
    obtain rfl := Option.some_inj.mp hstep
    rw [doWrite_of_writing (by exact hwriting)]
    exact ⟨rfl, rfl⟩
  | task call =>
    obtain rfl := Option.some_inj.mp hstep
    unfold onTask signalWrite
    dsimp only
    split_ifs <;> exact ⟨rfl, rfl⟩
  | deadline =>
    obtain rfl := Option.some_inj.mp hstep
    exact ⟨rfl, rfl⟩

/-! ### Runs -/

theorem keeps_run (hS : S.Lawful size) {session : σ}
    {events : List (Event τ)} {c : Connection σ}
    (hrun : run (step S) (initial session size) events = some c) : Keeps S size c :=
  invariant_run (keeps_step hS)
    ⟨ordered_initial S size session, fun h ↦ absurd h (by simp [initial])⟩ hrun

/-- **The output stream is neither lossy nor duplicated nor reordered.** After any events, the byte
ranges passed to `async_write` with the chunk parked behind them are the chunks taken from the
session; at most one write is outstanding, and no event but its completion touches the buffer or
starts a write; and no `copy_n` has left the buffer. -/
theorem output_of_run (hS : S.Lawful size) {session : σ}
    {events : List (Event τ)} {c : Connection σ}
    (hrun : run (step S) (initial session size) events = some c) :
    c.started.flatten ++ S.parked c.session c.buflen = c.taken.flatten ∧
      c.outstanding ≤ 1 ∧
      (0 < c.outstanding → ∀ event next, (∀ succeeded, event ≠ .writeCompletion succeeded) →
        c.step S event = some next → next.outbuf = c.outbuf ∧ next.started = c.started) ∧
      c.overrun = false := by
  obtain ⟨hordered, -⟩ := keeps_run hS hrun
  refine ⟨hordered.stream, hordered.outstanding_le, fun hpos event next hother hstep ↦ ?_,
    hordered.not_overrun⟩
  obtain ⟨houtbuf, hstarted⟩ :=
    sameOutput_step (hordered.writing_of_outstanding hpos) hother hstep
  exact ⟨houtbuf, hstarted⟩

end Invariant

/-- A session that sends what it is given, one chunk after the other, in pieces that fit. -/
def queueSession (size : ℕ) : Session (List Bytes × Bytes) Bytes where
  memSend s := match s.1 with
    | [] => (0, ([], s.2))
    | chunk :: rest => ((chunk.take size).length, (rest, chunk.take size))
  data := Prod.snd
  memRecv bytes s := ((s.1 ++ [bytes], s.2), true)
  call chunk s := ((s.1 ++ [chunk], s.2), true)
  idle _ := false

theorem lawful_queueSession (size : ℕ) : (queueSession size).Lawful size := by
  refine ⟨fun s hpos ↦ ?_, fun s ↦ ?_, fun _ _ ↦ rfl, fun _ _ ↦ rfl⟩
  · obtain ⟨queue, last⟩ := s
    cases queue with
    | nil => exact absurd hpos (Nat.lt_irrefl 0)
    | cons chunk rest => rfl
  · obtain ⟨queue, last⟩ := s
    cases queue with
    | nil => exact Nat.zero_le _
    | cons chunk rest => exact List.length_take_le _ _

/-- Three chunks of two bytes and a buffer of five: the third is parked, and the completion of the
write hands it over in front of what a read has brought. -/
def parkedThenWritten : List (Event Bytes) :=
  [.task [1, 2], .task [3, 4], .task [5, 6], .initiateWrite, .readCompletion (some [7]),
    .writeCompletion true]

theorem output_of_run_parkedThenWritten :
    ∃ c, run (step (queueSession 5)) (initial ([], []) 5) parkedThenWritten = some c ∧
      c.started = [[1, 2, 3, 4], [5, 6, 7]] ∧ c.outstanding = 1 ∧
      c.started.flatten ++ (queueSession 5).parked c.session c.buflen = c.taken.flatten := by
  have hstate : (run (step (queueSession 5)) (initial ([], []) 5) parkedThenWritten).map
      (fun c ↦ (c.started, c.outstanding)) = some ([[1, 2, 3, 4], [5, 6, 7]], 1) := by
    decide +kernel
  obtain ⟨c, hrun, hc⟩ := Option.map_eq_some_iff.mp hstate
  obtain ⟨hstarted, houtstanding⟩ := Prod.mk.inj hc
  exact ⟨c, hrun, hstarted, houtstanding, (output_of_run (lawful_queueSession 5) hrun).1⟩

end Connection

end Maock.Http2
