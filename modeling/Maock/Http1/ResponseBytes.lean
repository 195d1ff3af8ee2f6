import Maock.Http1.HeadFields
import Maock.Http1.Progress

/-!
# The bytes of the responses that `on_write` emits

`responseBytes` is the head of a response with the part of its payload that has not been read yet. A
turn of the loop of `on_write` that comes to its end leaves these bytes behind what has been written
(`Output.Sound.respond`), for payloads whose length the `int` of `call_read` can hold.
-/

set_option autoImplicit false
set_option relaxedAutoImplicit false

namespace Maock.Http1

open Foundation Foundation.OrderedContainer Foundation.Bytes Foundation.Fuel Http
open AsioServerResponse

/-- What the generator of a response has left. -/
def bodyBytes (res : AsioServerResponse) : Bytes :=
  match res.generator with
  | some (.string data left) => data.drop (data.length - left)
  | some .deferred | none => []

/-- A string of which nothing has been drawn yet. -/
theorem bodyBytes_of_stringGenerator {res : AsioServerResponse} {payload : Bytes}
    (hgenerator : res.generator = some (stringGenerator payload)) : bodyBytes res = payload := by
  rw [bodyBytes, hgenerator]
  show payload.drop (payload.length - payload.length) = payload
  rw [Nat.sub_self, List.drop_zero]

/-- The bytes of a response: its head, and its payload when one is expected. -/
def responseBytes (shouldKeepAlive : Bool) (strm : Stream) : Bytes :=
  headBytes shouldKeepAlive strm.response ++
    if expectResponseBody strm.request.method strm.response.statusCode then
      bodyBytes strm.response
    else []

/-- The head starts with the version that the keep-alive setting selects. -/
theorem headBytes_eq_version_append (shouldKeepAlive : Bool) (res : AsioServerResponse) :
    ∃ rest, headBytes shouldKeepAlive res =
      ascii (if shouldKeepAlive then "HTTP/1.1" else "HTTP/1.0") ++ rest := by
  rw [headBytes, headGroups, statusLine, List.cons_append, List.cons_append, List.flatten_cons,
    List.cons_append, List.flatten_cons]
  exact ⟨_, rfl⟩

/-- A response is emitted with the same bytes under two keep-alive settings only if they agree. -/
theorem responseBytes_inj {shouldKeepAlive shouldKeepAlive' : Bool} {strm : Stream}
    (h : responseBytes shouldKeepAlive strm = responseBytes shouldKeepAlive' strm) :
    shouldKeepAlive = shouldKeepAlive' := by
  obtain ⟨rest, hrest⟩ := headBytes_eq_version_append shouldKeepAlive strm.response
  obtain ⟨rest', hrest'⟩ := headBytes_eq_version_append shouldKeepAlive' strm.response
  have hlength : ∀ alive : Bool,
      (ascii (if alive then "HTTP/1.1" else "HTTP/1.0")).length = 8 := by decide
  have hversion := congrArg (List.take 8) h
  rw [responseBytes, responseBytes, hrest, hrest', List.append_assoc, List.append_assoc,
    List.take_left' (hlength _), List.take_left' (hlength _)] at hversion
  have hdiffer : ∀ alive alive' : Bool,
      ascii (if alive then "HTTP/1.1" else "HTTP/1.0") =
        ascii (if alive' then "HTTP/1.1" else "HTTP/1.0") → alive = alive' := by decide
  exact hdiffer _ _ hversion

/-- The payload of a response that `end` was given as a string, of a length that an `int` can hold.
-/
def EndedWithString (res : AsioServerResponse) : Prop :=
  ∃ payload, res.generator = some (stringGenerator payload) ∧ payload.length < 2 ^ 31

namespace Output

/-- Where `on_write` may write: the offset lies within a buffer that the loop over the payload does
not grow. -/
structure Sound (out : Output) : Prop where
  nonneg : 0 ≤ out.dataLen
  le : out.dataLen ≤ out.buffer.length
  incStep_le : incStep ≤ out.buffer.length

theorem le_grownSize (size : ℕ) (groups : List ℕ) : size ≤ grownSize size groups := by
  induction groups generalizing size with
  | nil => exact Nat.le_refl size
  | cons group rest ih => exact Nat.le_trans (le_grow size group) (ih (grow size group))

/-- A head is written behind what has been written. -/
theorem Sound.writeHead {shouldKeepAlive : Bool} {res : AsioServerResponse} {out out' : Output}
    (hout : out.Sound) (h : out.writeHead shouldKeepAlive res = .ok out') :
    out'.written = out.written ++ headBytes shouldKeepAlive res ∧ out'.Sound := by
  obtain ⟨hwritten, hle⟩ := written_writeHead hout.le h
  have hhead := writeHead_eq shouldKeepAlive res out
  split_ifs at hhead
  · obtain ⟨next, hnext, hbuffer, hdataLen⟩ := hhead
    obtain rfl : next = out' := Except.ok.inj (hnext.symm.trans h)
    refine ⟨hwritten, ?_, hle, ?_⟩
    · rw [hdataLen]
      exact Int.add_nonneg hout.nonneg (Int.natCast_nonneg _)
    · rw [hbuffer]
      exact Nat.le_trans hout.incStep_le (le_grownSize _ _)
  · exact absurd (hhead.symm.trans h) (by simp)

/-- A payload whose writing returns is written behind what has been written. -/
theorem Sound.writeBody {fuel : ℕ} {res : AsioServerResponse} {out out' : Output}
    (hout : out.Sound) (hended : EndedWithString res) (h : out.writeBody fuel res = .ok out') :
    out'.written = out.written ++ bodyBytes res ∧ out'.Sound := by
  obtain ⟨payload, hgenerator, hsmall⟩ := hended
  have hnonneg := hout.nonneg
  have hle := hout.le
  by_cases hfits : out.dataLen + payload.length ≤ out.buffer.length
  · have hbody := writeBody_of_le hgenerator hnonneg hfits fuel
    rw [toInt32_of_lt hsmall, h] at hbody
    have hcopy : out.copyPiece payload = .ok out' := by
      rw [copyPiece, if_pos ⟨hnonneg, hfits⟩]
      exact hbody.symm
    obtain ⟨hwritten, hle'⟩ := written_copyPiece hcopy
    rw [bodyBytes_of_stringGenerator hgenerator]
    refine ⟨hwritten, ?_, hle', ?_⟩
    · rw [Except.ok.inj hbody]
      exact Int.add_nonneg hnonneg (Int.natCast_nonneg _)
    · rw [Except.ok.inj hbody, length_overwrite (Or.inr (by omega))]
      exact hout.incStep_le
  · -- the first read fills the buffer, and the loop finds no room
    obtain ⟨room, hroom⟩ : ∃ room : ℕ, out.dataLen + room = out.buffer.length :=
      ⟨(out.buffer.length - out.dataLen).toNat, by omega⟩
    obtain ⟨filled, hbuffer, hdataLen, hloop⟩ :=
      writeBody_of_lt hgenerator hnonneg hroom (by omega)
    rw [toInt32_of_lt (by omega), hroom, ← hbuffer] at hdataLen
    have hstalls := @drainBody_neverEnds
      { res with generator := some (.string payload (payload.length - room)) } filled payload _ rfl
      (Nat.sub_le _ _) (by omega) (hbuffer ▸ hout.incStep_le) hdataLen
    exact absurd (((hloop fuel).trans (hstalls fuel)).symm.trans h) (by simp)

/-- A response whose writing returns is written behind what has been written. -/
theorem Sound.respond {fuel : ℕ} {shouldKeepAlive : Bool} {strm : Stream} {out out' : Output}
    (hout : out.Sound) (hended : EndedWithString strm.response)
    (h : respond fuel shouldKeepAlive strm out = .ok out') :
    out'.written = out.written ++ responseBytes shouldKeepAlive strm ∧ out'.Sound := by
  unfold Http1.respond at h
  cases hhead : out.writeHead shouldKeepAlive strm.response with
  | error fault =>
    rw [hhead] at h
    exact absurd h (by simp [bind, Except.bind])
  | ok next =>
    obtain ⟨hnext, hsound⟩ := hout.writeHead hhead
    rw [hhead] at h
    change (if expectResponseBody strm.request.method strm.response.statusCode then
      next.writeBody fuel strm.response else .ok next) = .ok out' at h
    unfold responseBytes
    split_ifs at h ⊢
    · obtain ⟨hbody, hsound'⟩ := hsound.writeBody hended h
      exact ⟨by rw [hbody, hnext, List.append_assoc], hsound'⟩
    · obtain rfl := Except.ok.inj h
      exact ⟨by rw [hnext, List.append_nil], hsound⟩

end Output

namespace Http1Handler

/-- The bytes of the response on a stream, as the handler would emit them now. -/
def responseOn (h : Http1Handler) (streamId : ℕ) : Bytes :=
  ((h.findStream streamId).map (responseBytes h.shouldKeepAlive)).getD []

end Http1Handler

/-- Closing a stream that is not in a batch leaves the responses of the batch. -/
theorem Http1Handler.map_responseOn_closeStream {streamId : ℕ} {batch : List ℕ} (h : Http1Handler)
    (hnotMem : streamId ∉ batch) :
    batch.map (h.closeStream streamId).responseOn = batch.map h.responseOn := by
  refine List.map_congr_left fun id hid ↦ ?_
  have hne : streamId ≠ id := fun heq ↦ hnotMem (heq ▸ hid)
  unfold Http1Handler.responseOn
  rw [Http1Handler.findStream_closeStream_of_ne h hne]
  rfl

end Maock.Http1
