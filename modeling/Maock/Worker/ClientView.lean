import Maock.Worker.ServedHandler

/-!
# What the client of a connection gets

A client that sends requests on an HTTP/1 connection and reads what comes back, over every run of
`asio_server_connection` with its timers, handshake, reads, writes and tasks. `client_reads` says
that it gets the answers that were sent for its requests, one for each and in their order, exactly
when each of them can be read (`Answer.Readable`), and that wherever the connection breaks off it
has then read the first of them and nothing else.
-/

set_option autoImplicit false
set_option relaxedAutoImplicit false

namespace Maock.Worker.ServedHandler

open Foundation Foundation.Bytes Foundation.TransitionSystem Foundation.Framing
open Http1 (TlsConfig)
open Maock.Connection (AsioServerConnection Timeouts)

/-- In every run of a connection its handler keeps the invariant, unless a call of `on_write` has
gone wrong. -/
theorem served_of_run {config : TlsConfig} {fuel : ℕ} {T : Timeouts} {tls : Bool}
    {events : List (Maock.Connection.Event (List ReadEvent × Bool) Reply)}
    {c : AsioServerConnection ServedHandler} {h : ServedHandler}
    (hrun : run (AsioServerConnection.step (http1BaseHandler config fuel) T)
      (AsioServerConnection.initial T tls) events = some c)
    (hhandler : c.handler = some h) (hsafe : h.faulted = false) : Served h :=
  AsioServerConnection.handlerMeets_run (H := http1BaseHandler config fuel) (P := Unbroken)
    (fun _ ↦ served_initial) unbroken_onRead unbroken_onWrite unbroken_call hrun h hhandler hsafe

/-- The messages of exchanges can be read as the responses to their requests exactly when the
answers can. -/
theorem forall₂_readable_iff (exchanges : List Exchange) :
    List.Forall₂ responseFormat.Readable (exchanges.map Exchange.method)
        (exchanges.map Exchange.message) ↔ ∀ e ∈ exchanges, e.answer.Readable e.request := by
  rw [List.forall₂_map_left_iff, List.forall₂_map_right_iff, List.forall₂_same]
  exact forall₂_congr fun e _ ↦ readable_message_iff e.keepAlive e.request e.answer

/-- **What the client gets.** In every run of a connection in which `on_write` stays within its
buffer and no body has `2 ^ 31` bytes or more: each message was sent for the request that it
answers; unless a stream was closed without an answer, the messages are those for the first
requests, in their order; a client that reads what was written gets exactly these messages when and
only when each answer can be read; and then a client that has got a part of what was written only
has read the messages that have arrived as a whole. -/
theorem client_reads {config : TlsConfig} {fuel : ℕ} {T : Timeouts} {tls : Bool}
    {events : List (Maock.Connection.Event (List ReadEvent × Bool) Reply)}
    {c : AsioServerConnection ServedHandler} {h : ServedHandler}
    (hrun : run (AsioServerConnection.step (http1BaseHandler config fuel) T)
      (AsioServerConnection.initial T tls) events = some c)
    (hhandler : c.handler = some h) (hsafe : h.faulted = false)
    (hshort : ∀ e ∈ h.exchanges, e.message.body.length < 2 ^ 31) :
    (∀ e ∈ h.exchanges, h.answers e.streamId = some e.answer) ∧
    (h.closings = [] → h.exchanges.map Exchange.streamId = List.range' 1 h.exchanges.length) ∧
    (responseFormat.readAll (h.exchanges.map Exchange.method) h.written =
        some (h.exchanges.map Exchange.message, []) ↔
      ∀ e ∈ h.exchanges, e.answer.Readable e.request) ∧
    ((∀ e ∈ h.exchanges, e.answer.Readable e.request) → ∀ arrived, arrived <+: h.written →
      ∃ n ≤ h.exchanges.length, ∃ part,
        responseFormat.readArrived (h.exchanges.map Exchange.method) arrived =
            (h.exchanges.take n).map Exchange.message ∧
          arrived = ((h.exchanges.take n).map Exchange.message).flatMap Message.text ++ part ∧
          ∀ next ∈ h.exchanges[n]?, ¬ next.message.text <+: part) := by
  have hinv := served_of_run hrun hhandler hsafe
  obtain ⟨-, hwritten⟩ := hinv.written hshort
  refine ⟨fun e he ↦ (hinv.past e he).2.2, fun hnone ↦ (hinv.inOrder hnone).1, ?_,
    fun hreadable arrived harrived ↦ ?_⟩
  · have hall : responseFormat.readAll (h.exchanges.map Exchange.method) h.written =
        some (h.exchanges.map Exchange.message, []) ↔ _ := Format.readAll_eq_some_iff
    rw [hall, forall₂_readable_iff]
    exact and_iff_left (hwritten.trans (List.append_nil _).symm)
  · rw [hwritten] at harrived
    obtain ⟨n, hn, part, hread, hpart, hnext⟩ :=
      Format.exists_readArrived ((forall₂_readable_iff _).mpr hreadable) harrived
    rw [List.length_map] at hn
    rw [← List.map_take] at hread hpart
    refine ⟨n, hn, part, hread, hpart, fun next hmem ↦ hnext next.message ?_⟩
    rw [List.getElem?_map]
    exact Option.mem_map_of_mem Exchange.message hmem

/-- The events of a read that delivers a request. -/
def received (method : Bytes) : List ReadEvent :=
  [.callback .messageBegin, .callback (.url method (ascii "/")), .callback (.messageComplete true)]

/-- Two pipelined requests, the second of which, to `HEAD`, is answered first. -/
def pipelinedPair : List (Maock.Connection.Event (List ReadEvent × Bool) Reply) :=
  [.start, .readCompletion (some (received (ascii "GET") ++ received (ascii "HEAD"), true)),
    .task ⟨2, some (answerOf [] (ascii "ok"))⟩,
    .task ⟨1, some (answerOf [(ascii "x-id", ascii "7")] (ascii "ok"))⟩, .tick, .initiateWrite]

theorem client_reads_pipelinedPair :
    ∃ c h, run (AsioServerConnection.step (http1BaseHandler ⟨[], []⟩ 1) ⟨3, 4⟩)
        (AsioServerConnection.initial ⟨3, 4⟩ false) pipelinedPair = some c ∧
      c.handler = some h ∧ h.exchanges.map Exchange.streamId = [1, 2] ∧
      ∀ e ∈ h.exchanges, h.answers e.streamId = some e.answer := by
  have hstate : ((run (AsioServerConnection.step (http1BaseHandler ⟨[], []⟩ 1) ⟨3, 4⟩)
      (AsioServerConnection.initial ⟨3, 4⟩ false) pipelinedPair).bind fun c ↦
        c.handler.map fun h ↦ (h.faulted, h.closings, h.exchanges.map fun e ↦
          e.message.body.length)) = some (false, [], [2, 0]) := by decide +kernel
  obtain ⟨c, hrun, hc⟩ := Option.bind_eq_some_iff.mp hstate
  obtain ⟨h, hhandler, hh⟩ := Option.map_eq_some_iff.mp hc
  obtain ⟨hsafe, hclosings, hbodies⟩ : h.faulted = false ∧ h.closings = [] ∧
      (h.exchanges.map fun e ↦ e.message.body.length) = [2, 0] := by simpa using hh
  have hshort : ∀ e ∈ h.exchanges, e.message.body.length < 2 ^ 31 := by
    intro e he
    have hmem := List.mem_map_of_mem (f := fun e : Exchange ↦ e.message.body.length) he
    rw [hbodies] at hmem
    rcases List.mem_pair.mp hmem with hlength | hlength <;> rw [hlength] <;> decide
  obtain ⟨hanswers, hids, -⟩ := client_reads hrun hhandler hsafe hshort
  have hlength : h.exchanges.length = 2 := by
    rw [← List.length_map (fun e : Exchange ↦ e.message.body.length), hbodies]
    rfl
  exact ⟨c, h, hrun, hhandler, by rw [hids hclosings, hlength]; rfl, hanswers⟩

end Maock.Worker.ServedHandler
