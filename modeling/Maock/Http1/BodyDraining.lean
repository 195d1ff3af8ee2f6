import Maock.Http1.HeadBounds

/-!
# Draining a payload

When `on_write` serves the payload of a response. The loop over a payload that does not fit behind
its head asks for a buffer of `inc_step` bytes, which an output buffer of 64 KiB already is, so the
buffer never grows and the loop never ends (`onWrite_neverEnds`). `onWrite_drains_iff` is the exact
condition: the payload fits behind the head, and its length survives the `int` of `call_read`.
-/

set_option autoImplicit false
set_option relaxedAutoImplicit false

namespace Maock.Http1

open Foundation Foundation.OrderedContainer Foundation.Fuel Foundation.Bytes Http
open AsioServerResponse

/-- The length of the serialised head of a response. -/
def headLength (shouldKeepAlive : Bool) (res : AsioServerResponse) : ℕ :=
  (headSizes shouldKeepAlive res).sum

/-- A call of `on_write` that answers one stream. -/
theorem onWrite_of_single {h : Http1Handler} {streamId : ℕ} {strm : Stream}
    (hbatch : h.getConsecutiveStreamIdsToRespond.1 = [streamId])
    (hfound : h.findStream streamId = some strm) (fuel : ℕ) (buffer : Bytes) :
    match respond fuel h.shouldKeepAlive strm { buffer := buffer, dataLen := 0 } with
    | .ok written => (h.onWrite fuel buffer).fault = none ∧ (h.onWrite fuel buffer).out = written
    | .error fault => (h.onWrite fuel buffer).fault = some fault := by
  have hfoundLeft : h.takeBatch.findStream streamId = some strm := hfound
  have halive : h.takeBatch.shouldKeepAlive = h.shouldKeepAlive := rfl
  rw [Http1Handler.onWrite_eq, hbatch, ← halive]
  cases hrespond : respond fuel h.takeBatch.shouldKeepAlive strm
      { buffer := buffer, dataLen := 0 } with
  | error fault => exact fault_respondInTurn_of_error hfoundLeft hrespond
  | ok written =>
    simp only [respondInTurn, hfoundLeft, hrespond, true_and]

/-- A head that fits is written and leaves the buffer as large as it was. -/
theorem writeHead_of_fits {shouldKeepAlive : Bool} {res : AsioServerResponse} {buffer : Bytes}
    (hfits : headLength shouldKeepAlive res ≤ buffer.length) :
    ∃ written, Output.writeHead shouldKeepAlive res { buffer := buffer, dataLen := 0 } =
        .ok written ∧
      written.buffer.length = buffer.length ∧ written.dataLen = headLength shouldKeepAlive res := by
  have hhead := Output.writeHead_eq shouldKeepAlive res { buffer := buffer, dataLen := 0 }
  obtain ⟨hroom, hgrown⟩ := @headFits_of_sum_le buffer.length 0
    (headSizes shouldKeepAlive res) (Int.le_refl 0) (by rw [Int.zero_add]; exact_mod_cast hfits)
  rw [if_pos hroom] at hhead
  obtain ⟨written, hwritten, hbuffer, hdataLen⟩ := hhead
  exact ⟨written, hwritten, hbuffer.trans hgrown, by simp [hdataLen, headLength]⟩

/-- A payload that does not fit never puts the offset where its last byte would be. -/
theorem dataLen_lt_of_drained {size offset left final : ℕ} {dataLen : ℤ}
    (hlarge : size < offset + left) (hle : offset ≤ size) (hsize : incStep ≤ size)
    (houtcome : bodyOutcome size offset left = .drained final dataLen) :
    dataLen < offset + left := by
  have hfilled := toInt32_le (size - offset)
  have hrest := toInt32_le (left - (size - offset))
  rw [bodyOutcome_of_filled hlarge hsize rfl] at houtcome
  split_ifs at houtcome with hend
  · obtain ⟨-, rfl⟩ := BodyOutcome.drained.inj houtcome
    omega

section Single

variable {h : Http1Handler} {streamId : ℕ} {strm : Stream} {payload buffer : Bytes}
  (hbatch : h.getConsecutiveStreamIdsToRespond.1 = [streamId])
  (hfound : h.findStream streamId = some strm)
  (hgenerator : strm.response.generator = some (stringGenerator payload))
  (hexpect : expectResponseBody strm.request.method strm.response.statusCode = true)
  (hhead : headLength h.shouldKeepAlive strm.response ≤ buffer.length)

include hbatch hfound hgenerator hexpect hhead

/-- A payload that fits behind its head is copied there, and its length comes through an `int`. -/
theorem onWrite_of_fits
    (hfits : headLength h.shouldKeepAlive strm.response + payload.length ≤ buffer.length)
    (fuel : ℕ) :
    (h.onWrite fuel buffer).fault = none ∧
      (h.onWrite fuel buffer).out.dataLen =
        headLength h.shouldKeepAlive strm.response + toInt32 payload.length ∧
      ((h.onWrite fuel buffer).out.buffer.drop
        (headLength h.shouldKeepAlive strm.response)).take payload.length = payload := by
  obtain ⟨written, hwritten, hlength, hdataLen⟩ := writeHead_of_fits hhead
  have hrespond := respond_of_writeHead hwritten fuel
  rw [if_pos hexpect, Output.writeBody_of_le hgenerator (by omega) (by omega)] at hrespond
  have hsingle := onWrite_of_single hbatch hfound fuel buffer
  rw [hrespond] at hsingle
  obtain ⟨hfault, hout⟩ := hsingle
  rw [hfault, hout, hdataLen]
  refine ⟨rfl, rfl, ?_⟩
  exact drop_take_overwrite (by omega)

/-- What comes of the payload is what its size says. -/
theorem onWrite_of_outcome :
    match bodyOutcome buffer.length (headLength h.shouldKeepAlive strm.response)
      payload.length with
    | .drained _ dataLen => ∀ fuel, (h.onWrite fuel buffer).fault = none →
        (h.onWrite fuel buffer).out.dataLen = dataLen
    | .stalls => ∀ fuel, (h.onWrite fuel buffer).fault = some .outOfFuel
    | .corrupts | .pastEnd => ∀ fuel, (h.onWrite fuel buffer).fault ≠ none := by
  obtain ⟨written, hwritten, hlength, hdataLen⟩ := writeHead_of_fits hhead
  have hbody := Output.writeBody_of_outcome hgenerator hdataLen
    (headSizes_sum_pos h.shouldKeepAlive strm.response) (hlength ▸ hhead)
  have hsingle := fun fuel ↦ onWrite_of_single hbatch hfound fuel buffer
  have hrespond := fun fuel ↦ respond_of_writeHead hwritten fuel
  simp only [hexpect, if_true] at hrespond
  simp only [hrespond] at hsingle
  rw [hlength] at hbody
  have herror : ∀ fault, Settles .outOfFuel (fun fuel ↦ written.writeBody fuel strm.response)
      (.error fault) → ∀ fuel, (h.onWrite fuel buffer).fault ≠ none := by
    intro fault hsettles fuel hfault
    have hcase := hsingle fuel
    rcases hsettles.eq_or_eq fuel with hrun | hrun <;> rw [hrun] at hcase <;>
      exact absurd (hfault.symm.trans hcase) (by simp)
  cases houtcome : bodyOutcome buffer.length (headLength h.shouldKeepAlive strm.response)
      payload.length with
  | drained size dataLen =>
    rw [houtcome] at hbody
    obtain ⟨final, -, hfinal, hsettles⟩ := hbody
    intro fuel hfault
    have hcase := hsingle fuel
    rcases hsettles.eq_or_eq fuel with hrun | hrun
    · rw [hrun] at hcase
      exact absurd (hfault.symm.trans hcase) (by simp)
    · rw [hrun] at hcase
      rw [hcase.2, hfinal]
  | stalls =>
    rw [houtcome] at hbody
    intro fuel
    have hcase := hsingle fuel
    have hrun : written.writeBody fuel strm.response = .error .outOfFuel := hbody fuel
    rw [hrun] at hcase
    exact hcase
  | corrupts =>
    rw [houtcome] at hbody
    exact herror _ hbody
  | pastEnd =>
    rw [houtcome] at hbody
    exact herror _ hbody

/-- A payload that does not fit keeps `on_write` in its loop for ever. -/
theorem onWrite_neverEnds (hsize : incStep ≤ buffer.length)
    (hlarge : buffer.length < headLength h.shouldKeepAlive strm.response + payload.length)
    (hroom : buffer.length - headLength h.shouldKeepAlive strm.response < 2 ^ 31) (fuel : ℕ) :
    (h.onWrite fuel buffer).fault = some .outOfFuel := by
  have houtcome := onWrite_of_outcome hbatch hfound hgenerator hexpect hhead
  have hfilled : (buffer.length : ℤ) = headLength h.shouldKeepAlive strm.response +
      toInt32 (buffer.length - headLength h.shouldKeepAlive strm.response : ℕ) := by
    rw [toInt32_eq_self_iff.mpr hroom]
    omega
  rw [bodyOutcome_of_filled hlarge hsize hfilled, if_pos rfl] at houtcome
  exact houtcome fuel

end Single

/-- Body draining. For an output buffer of at least 64 KiB and a single ready response with a
payload of a string generator, whose head fits: `on_write` returns with the payload behind the head
exactly when the payload fits there too and its length is below `2 ^ 31`. -/
theorem onWrite_drains_iff (h : Http1Handler) (streamId : ℕ) (strm : Stream)
    (payload buffer : Bytes) (hbatch : h.getConsecutiveStreamIdsToRespond.1 = [streamId])
    (hfound : h.findStream streamId = some strm)
    (hgenerator : strm.response.generator = some (stringGenerator payload))
    (hexpect : expectResponseBody strm.request.method strm.response.statusCode = true)
    (hsize : 64 * 1024 ≤ buffer.length)
    (hhead : headLength h.shouldKeepAlive strm.response ≤ buffer.length) :
    (∃ fuel, (h.onWrite fuel buffer).fault = none ∧
      (h.onWrite fuel buffer).out.dataLen =
        headLength h.shouldKeepAlive strm.response + payload.length ∧
      ((h.onWrite fuel buffer).out.buffer.drop
        (headLength h.shouldKeepAlive strm.response)).take payload.length = payload) ↔
      headLength h.shouldKeepAlive strm.response + payload.length ≤ buffer.length ∧
        payload.length < 2 ^ 31 := by
  constructor
  · intro ⟨fuel, hfault, hlen, _⟩
    have hfits : headLength h.shouldKeepAlive strm.response + payload.length ≤
        buffer.length := by
      by_contra hlarge
      have houtcome := onWrite_of_outcome hbatch hfound hgenerator hexpect hhead
      cases hcase : bodyOutcome buffer.length (headLength h.shouldKeepAlive strm.response)
          payload.length with
      | drained final dataLen =>
        rw [hcase] at houtcome
        have hlt := dataLen_lt_of_drained (Nat.not_le.mp hlarge) hhead
          (Nat.le_trans (by decide) hsize) hcase
        rw [houtcome fuel hfault] at hlen
        omega
      | stalls =>
        rw [hcase] at houtcome
        exact absurd (hfault.symm.trans (houtcome fuel)) (by simp)
      | corrupts =>
        rw [hcase] at houtcome
        exact houtcome fuel hfault
      | pastEnd =>
        rw [hcase] at houtcome
        exact houtcome fuel hfault
    obtain ⟨_, hdataLen, _⟩ := onWrite_of_fits hbatch hfound hgenerator hexpect hhead hfits fuel
    refine ⟨hfits, toInt32_eq_self_iff.mp ?_⟩
    omega
  · intro ⟨hfits, hint⟩
    obtain ⟨hfault, hdataLen, hpayload⟩ :=
      onWrite_of_fits hbatch hfound hgenerator hexpect hhead hfits 0
    rw [toInt32_eq_self_iff.mpr hint] at hdataLen
    exact ⟨0, hfault, hdataLen, hpayload⟩

/-- The head of a response with no header fields but the generated content length. -/
theorem headLength_of_noHeader {res : AsioServerResponse} {size : ℕ}
    (hstatus : res.statusCode = 200)
    (hheader : res.header = OrderedMultimap.empty HeaderValue bytesLess)
    (hsize : res.payloadSize = size) (hpos : size ≠ 0) :
    headLength true res = 36 + (decimal size).length := by
  have hempty : (OrderedMultimap.empty HeaderValue bytesLess).count (ascii "content-length") = 0 :=
    rfl
  have hgroups : headGroups true res =
      [statusLine true res, [ascii "content-length", ascii ":", decimal size, crlf], [crlf]] := by
    rw [headGroups, generatedContentLength, hheader, hsize, if_pos ⟨hempty, hpos⟩]
    rfl
  have hstatusLine : groupSize (statusLine true res) = 17 := by
    rw [statusLine, hstatus]
    decide
  have hpieces : (ascii "content-length").length + (ascii ":").length = 15 := by decide
  have hcrlf : crlf.length = 2 := rfl
  rw [headLength, headSizes, hgroups]
  simp only [List.map_cons, List.map_nil, List.sum_cons, List.sum_nil, hstatusLine]
  simp only [groupSize, List.map_cons, List.map_nil, List.sum_cons, List.sum_nil]
  omega

/-- A response of two bytes is served. -/
theorem onWrite_drains_small :
    ∃ fuel, ((readyHandler 200 (OrderedMultimap.empty HeaderValue bytesLess) (ascii "ok")).onWrite
      fuel (List.replicate (64 * 1024) 0)).fault = none := by
  have hhead := @headLength_of_noHeader ((AsioServerResponse.initial.writeHead [] 200
    (OrderedMultimap.empty HeaderValue bytesLess)).endString [] (ascii "ok")) 2 rfl rfl rfl
    (by decide)
  have hlength : (List.replicate (64 * 1024) 0 : Bytes).length = 64 * 1024 := List.length_replicate
  have hdigits : (decimal 2).length = 1 := by decide
  obtain ⟨fuel, hfault, -⟩ := (onWrite_drains_iff
    (readyHandler 200 (OrderedMultimap.empty HeaderValue bytesLess) (ascii "ok")) 1 _ (ascii "ok")
    (List.replicate (64 * 1024) 0) rfl rfl rfl rfl (Nat.le_of_eq hlength.symm)
    (by rw [hlength]; exact hhead ▸ (by omega))).mpr
      ⟨by rw [hlength]; exact hhead ▸ (by rw [hdigits]; decide), by decide⟩
  exact ⟨fuel, hfault⟩

/-- A response of 64 KiB is not served: with its head in front it does not fit into the output
buffer. -/
theorem onWrite_neverEnds_largePayload :
    ¬ ∃ fuel, ((readyHandler 200 (OrderedMultimap.empty HeaderValue bytesLess)
      (List.replicate (64 * 1024) 97)).onWrite fuel (List.replicate (64 * 1024) 0)).fault ≠
        some .outOfFuel := by
  rintro ⟨fuel, hends⟩
  apply hends
  have hhead := @headLength_of_noHeader ((AsioServerResponse.initial.writeHead [] 200
    (OrderedMultimap.empty HeaderValue bytesLess)).endString []
      (List.replicate (64 * 1024) 97)) (64 * 1024) rfl rfl List.length_replicate (by decide)
  have hdigits : (decimal (64 * 1024)).length = 5 := by decide
  rw [hdigits] at hhead
  have hbuffer : (List.replicate (64 * 1024) 0 : Bytes).length = 64 * 1024 := List.length_replicate
  have hpayload : (List.replicate (64 * 1024) 97 : Bytes).length = 64 * 1024 :=
    List.length_replicate
  refine @onWrite_neverEnds _ 1 _ (List.replicate (64 * 1024) 97) _ rfl rfl rfl rfl ?_ ?_ ?_ ?_ fuel
  · rw [hbuffer]
    exact Nat.le_trans (Nat.le_of_eq hhead) (by decide)
  · rw [hbuffer]
    decide
  · rw [hbuffer, hpayload]
    exact Nat.lt_of_lt_of_le (by decide) (Nat.add_le_add_right (Nat.le_of_eq hhead.symm) _)
  · rw [hbuffer]
    exact Nat.lt_of_le_of_lt (Nat.sub_le _ _) (by decide)

end Maock.Http1
