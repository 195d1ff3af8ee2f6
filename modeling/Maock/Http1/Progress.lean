import Maock.Foundation.TransitionSystem
import Maock.Http1.ResponseOrder
import Maock.Http1.WriteSizes

/-!
# What `on_write` hands over is not empty

A response whose body is shorter than `2 ^ 31` bytes adds to the output, so a call of `on_write`
that answers at least one stream leaves bytes to write (`dataLen_onWrite_pos`). A generator that
defers never lets the loop over the payload end.
-/

set_option autoImplicit false
set_option relaxedAutoImplicit false

namespace Maock.Http1

open Foundation Foundation.OrderedContainer Foundation.Bytes Foundation.TransitionSystem Http
open AsioServerResponse

/-- What a generator has left is shorter than `2 ^ 31` bytes. -/
def Generator.Small : Generator → Prop
  | .string _ left => left < 2 ^ 31
  | .deferred => True

instance : DecidablePred Generator.Small
  | .string _ left => inferInstanceAs (Decidable (left < 2 ^ 31))
  | .deferred => isTrue trivial

/-- The body of a response, as far as it is not read yet, is shorter than `2 ^ 31` bytes. -/
def AsioServerResponse.SmallBody (res : AsioServerResponse) : Prop :=
  ∀ generator, res.generator = some generator → generator.Small

instance (res : AsioServerResponse) : Decidable res.SmallBody :=
  inferInstanceAs (Decidable (∀ generator, res.generator = some generator → generator.Small))

/-- The returned length and the generator left do not depend on the trailers. -/
theorem callRead_retCode_generator (res : AsioServerResponse) (len : ℕ) (flags : UInt32) :
    match res.generator with
    | some generator =>
      (res.callRead len flags).retCode = toInt32 (generator.call len).2.1 ∧
        ((res.callRead len flags).response.generator = none ∨
          (res.callRead len flags).response.generator = some (generator.call len).2.2.2)
    | none =>
      (res.callRead len flags).retCode = 0 ∧
        (res.callRead len flags).response.generator = none := by
  unfold callRead
  cases hgenerator : res.generator with
  | none => dsimp only; split_ifs <;> exact ⟨rfl, hgenerator⟩
  | some generator =>
    dsimp only
    split_ifs <;> first | exact ⟨rfl, Or.inl rfl⟩ | exact ⟨rfl, Or.inr rfl⟩

/-- A call of `call_read` on a small body that is not deferred returns no negative length and leaves
such a body. -/
theorem callRead_small {res : AsioServerResponse} (hsmall : res.SmallBody)
    (hready : res.generator ≠ some .deferred) (len : ℕ) (flags : UInt32) :
    0 ≤ (res.callRead len flags).retCode ∧ (res.callRead len flags).response.SmallBody ∧
      (res.callRead len flags).response.generator ≠ some .deferred := by
  have hread := callRead_retCode_generator res len flags
  unfold AsioServerResponse.SmallBody
  cases hgenerator : res.generator with
  | none =>
    rw [hgenerator] at hread
    rw [hread.1, hread.2]
    exact ⟨Int.le_refl 0, by simp, by simp⟩
  | some generator =>
    cases generator with
    | deferred => exact absurd hgenerator hready
    | string data left =>
      rw [hgenerator] at hread
      have hleft : left < 2 ^ 31 := hsmall (.string data left) hgenerator
      refine ⟨?_, fun other hother ↦ ?_, fun hdeferred ↦ ?_⟩
      · rw [hread.1]
        show 0 ≤ toInt32 ((min len left : ℕ) : ℤ)
        rw [toInt32_of_lt (Nat.lt_of_le_of_lt (Nat.min_le_right len left) hleft)]
        exact Int.natCast_nonneg _
      · rcases hread.2 with hnone | hsome
        · rw [hnone] at hother
          exact absurd hother (by simp)
        · rw [hsome] at hother
          rw [← Option.some.inj hother]
          exact Nat.lt_of_le_of_lt (Nat.sub_le left (min len left)) hleft
      · rcases hread.2 with hnone | hsome
        · rw [hnone] at hdeferred
          exact absurd hdeferred (by simp)
        · rw [hsome] at hdeferred
          exact absurd hdeferred (by simp [Generator.call])

/-- A call of `call_read` on a deferred payload sets no flag and leaves it deferred. -/
theorem callRead_deferred {res : AsioServerResponse} (hdeferred : res.generator = some .deferred)
    (len : ℕ) : (res.callRead len 0).response.generator = some .deferred ∧
      (res.callRead len 0).flags = 0 := by
  unfold callRead
  rw [hdeferred]
  simp [Generator.call]

namespace Output

/-- What a read that succeeds leaves. -/
theorem readInto_ok {address : ℕ} {res res' : AsioServerResponse} {flags flags' : UInt32}
    {out out' : Output} (h : out.readInto address res flags = .ok (out', res', flags')) :
    ∃ len, out'.dataLen = out.dataLen + (res.callRead len flags).retCode ∧
      res' = (res.callRead len flags).response ∧ flags' = (res.callRead len flags).flags := by
  unfold readInto at h
  refine ⟨out.buffer.length - out.dataLen.toNat, ?_⟩
  dsimp only at h
  split_ifs at h
  simp only [Except.ok.injEq, Prod.mk.injEq] at h
  obtain ⟨rfl, rfl, rfl⟩ := h
  exact ⟨rfl, rfl, rfl⟩

/-- One turn of the loop over the payload, when it goes on. -/
theorem drainBody_ok_cases {fuel : ℕ} {res : AsioServerResponse} {flags : UInt32}
    {out out' : Output} (h : drainBody fuel res flags out = .ok out') :
    (flags &&& dataFlagEof ≠ 0 ∧ out' = out) ∨
      ∃ less next res' flags', fuel = less + 1 ∧
        { out with buffer := incBufferSize incStep out.buffer }.readInto (2 * out.dataLen.toNat)
          res flags = .ok (next, res', flags') ∧
        drainBody less res' flags' next = .ok out' := by
  unfold drainBody at h
  split_ifs at h with heof
  · exact Or.inl ⟨heof, (Except.ok.inj h).symm⟩
  · cases fuel with
    | zero => exact absurd h (by simp)
    | succ less =>
      dsimp only at h
      cases hread : Output.readInto (2 * out.dataLen.toNat) res flags
          { out with buffer := incBufferSize incStep out.buffer } with
      | error fault =>
        rw [hread] at h
        exact absurd h (by simp [bind, Except.bind])
      | ok read =>
        rw [hread] at h
        exact Or.inr ⟨less, read.1, read.2.1, read.2.2, rfl, rfl, h⟩

/-- The loop over a small payload does not take output away. -/
theorem le_of_drainBody_ok {fuel : ℕ} {res : AsioServerResponse} {flags : UInt32}
    {out out' : Output} (hsmall : res.SmallBody) (hready : res.generator ≠ some .deferred)
    (h : drainBody fuel res flags out = .ok out') : out.dataLen ≤ out'.dataLen := by
  induction fuel generalizing res flags out with
  | zero =>
    rcases drainBody_ok_cases h with ⟨-, rfl⟩ | ⟨less, _, _, _, hfuel, -⟩
    · exact Int.le_refl _
    · exact absurd hfuel (by omega)
  | succ fuel ih =>
    rcases drainBody_ok_cases h with ⟨-, rfl⟩ | ⟨less, next, res', flags', hfuel, hread, hrest⟩
    · exact Int.le_refl _
    · obtain ⟨len, hlength, hres, -⟩ := readInto_ok hread
      obtain ⟨hretCode, hsmall', hready'⟩ := callRead_small hsmall hready len flags
      have hless : less = fuel := by omega
      subst hless
      have hle := ih (hres ▸ hsmall') (hres ▸ hready') hrest
      have hnext : next.dataLen = out.dataLen + (res.callRead len flags).retCode := hlength
      omega

/-- The loop over a deferred payload never ends. -/
theorem drainBody_deferred_ne_ok {fuel : ℕ} {res : AsioServerResponse} {out out' : Output}
    (hdeferred : res.generator = some .deferred) : drainBody fuel res 0 out ≠ .ok out' := by
  induction fuel generalizing res out with
  | zero =>
    intro h
    rcases drainBody_ok_cases h with ⟨heof, -⟩ | ⟨less, _, _, _, hfuel, -⟩
    · exact absurd heof (by decide)
    · exact absurd hfuel (by omega)
  | succ fuel ih =>
    intro h
    rcases drainBody_ok_cases h with ⟨heof, -⟩ | ⟨less, next, res', flags', hfuel, hread, hrest⟩
    · exact absurd heof (by decide)
    · obtain ⟨len, -, hres, hflags⟩ := readInto_ok hread
      have hless : less = fuel := by omega
      subst hless
      obtain ⟨hgenerator, hzero⟩ := callRead_deferred hdeferred len
      rw [hflags, hzero] at hrest
      exact ih (hres ▸ hgenerator) hrest

/-- A small payload does not take output away. -/
theorem le_of_writeBody_ok {fuel : ℕ} {res : AsioServerResponse} {out out' : Output}
    (hsmall : res.SmallBody) (h : out.writeBody fuel res = .ok out') :
    out.dataLen ≤ out'.dataLen := by
  unfold writeBody at h
  cases hread : out.readInto out.dataLen.toNat res 0 with
  | error fault =>
    rw [hread] at h
    exact absurd h (by simp [bind, Except.bind])
  | ok read =>
    obtain ⟨next, res', flags'⟩ := read
    rw [hread] at h
    change (if flags' &&& errDeferredAsFlags = 0 then drainBody fuel res' flags' next
      else .ok next) = .ok out' at h
    obtain ⟨len, hlength, hres, hflags⟩ := readInto_ok hread
    by_cases hdeferred : res.generator = some .deferred
    · obtain ⟨hgenerator, hzero⟩ := callRead_deferred hdeferred len
      rw [hflags, hzero, hres, if_pos (by decide)] at h
      exact absurd h (drainBody_deferred_ne_ok hgenerator)
    · obtain ⟨hretCode, hsmall', hready'⟩ := callRead_small hsmall hdeferred len 0
      split_ifs at h
      · have hle := le_of_drainBody_ok (hres ▸ hsmall') (hres ▸ hready') h
        omega
      · rw [← Except.ok.inj h]
        omega

/-- A head adds to the output. -/
theorem lt_of_writeHead_ok {shouldKeepAlive : Bool} {res : AsioServerResponse} {out out' : Output}
    (h : out.writeHead shouldKeepAlive res = .ok out') : out.dataLen < out'.dataLen := by
  have hhead := writeHead_eq shouldKeepAlive res out
  have hpos : 0 < (headSizes shouldKeepAlive res).sum := by
    unfold headSizes headGroups
    rw [List.cons_append, List.cons_append, List.map_cons, List.sum_cons]
    have hline : 0 < groupSize (statusLine shouldKeepAlive res) := by
      have hversion : 0 < (ascii (if shouldKeepAlive then "HTTP/1.1" else "HTTP/1.0")).length := by
        cases shouldKeepAlive <;> decide
      unfold statusLine groupSize
      rw [List.map_cons, List.sum_cons]
      omega
    omega
  split_ifs at hhead
  · obtain ⟨written, hwritten, -, hlength⟩ := hhead
    rw [h] at hwritten
    rw [Except.ok.inj hwritten, hlength]
    omega
  · rw [h] at hhead
    exact absurd hhead (by simp)

end Output

/-- A stream with a small body adds to the output. -/
theorem lt_of_respond_ok {fuel : ℕ} {shouldKeepAlive : Bool} {strm : Stream} {out out' : Output}
    (hsmall : strm.response.SmallBody)
    (h : respond fuel shouldKeepAlive strm out = .ok out') : out.dataLen < out'.dataLen := by
  unfold respond at h
  cases hhead : out.writeHead shouldKeepAlive strm.response with
  | error fault =>
    rw [hhead] at h
    exact absurd h (by simp [bind, Except.bind])
  | ok next =>
    have hlt := Output.lt_of_writeHead_ok hhead
    rw [hhead] at h
    simp only [bind, Except.bind] at h
    split_ifs at h
    · have hle := Output.le_of_writeBody_ok hsmall h
      omega
    · rw [← Except.ok.inj h]
      exact hlt

/-- A batch of streams with small bodies leaves the output longer than before, as soon as it is not
empty and is written without a fault. -/
theorem lt_of_respondInTurn {fuel : ℕ} {batch : List ℕ} {h : Http1Handler} {out : Output}
    (hsorted : batch.Pairwise (· < ·)) (hbatch : batch ≠ [])
    (hsmall : ∀ id ∈ batch, ∀ strm, h.findStream id = some strm → strm.response.SmallBody)
    (hfault : (respondInTurn fuel batch h out).fault = none) :
    out.dataLen < (respondInTurn fuel batch h out).out.dataLen := by
  induction batch generalizing h out with
  | nil => exact absurd rfl hbatch
  | cons streamId rest ih =>
    cases hfound : h.findStream streamId with
    | none =>
      simp only [respondInTurn, hfound] at hfault
      exact absurd hfault (by simp)
    | some strm =>
      cases hrespond : respond fuel h.shouldKeepAlive strm out with
      | error fault =>
        simp only [respondInTurn, hfound, hrespond] at hfault
        exact absurd hfault (by simp)
      | ok next =>
        have hlt := lt_of_respond_ok (hsmall streamId List.mem_cons_self strm hfound) hrespond
        simp only [respondInTurn, hfound, hrespond] at hfault ⊢
        by_cases hrest : rest = []
        · subst hrest
          exact hlt
        · obtain ⟨hbelow, hsortedRest⟩ := List.pairwise_cons.mp hsorted
          have hsmallRest : ∀ id ∈ rest, ∀ strm,
              (h.closeStream streamId).findStream id = some strm →
                strm.response.SmallBody := by
            intro id hid strm hstrm
            have hne : streamId ≠ id := Nat.ne_of_lt (hbelow id hid)
            rw [Http1Handler.findStream_closeStream_of_ne h hne] at hstrm
            exact hsmall id (List.mem_cons_of_mem streamId hid) strm hstrm
          exact Int.lt_trans hlt (ih hsortedRest hrest hsmallRest hfault)

namespace Http1Handler

/-- The oldest open stream is ready to be answered. -/
def OldestReady (h : Http1Handler) : Prop :=
  ∃ oldest ∈ h.streamIdsToRespond, ∀ id ∈ h.openIds, oldest ≤ id

/-- Every stream that is ready to be answered has a small body. -/
def SmallBodies (h : Http1Handler) : Prop :=
  ∀ id ∈ h.streamIdsToRespond, ∀ strm, h.findStream id = some strm → strm.response.SmallBody

instance (h : Http1Handler) : Decidable h.OldestReady :=
  inferInstanceAs (Decidable (∃ oldest ∈ h.streamIdsToRespond.elems, ∀ id ∈ h.openIds, oldest ≤ id))

instance (h : Http1Handler) : Decidable h.SmallBodies :=
  inferInstanceAs (Decidable (∀ id ∈ h.streamIdsToRespond.elems,
    ∀ strm, h.findStream id = some strm → strm.response.SmallBody))

/-- The batch is empty exactly when the oldest open stream is not ready. -/
theorem batch_ne_nil_iff {h : Http1Handler} (hready : ∀ id ∈ h.streamIdsToRespond, id ∈ h.openIds) :
    h.getConsecutiveStreamIdsToRespond.1 ≠ [] ↔ h.OldestReady := by
  have hsortedReady : h.streamIdsToRespond.elems.Pairwise (· < ·) := by
    simpa using h.streamIdsToRespond.sorted
  have hsortedOpen := h.openIds_sorted
  have hopen : h.openIds = h.streams.elems.map Prod.fst := rfl
  unfold getConsecutiveStreamIdsToRespond OldestReady
  cases hids : h.streamIdsToRespond.elems with
  | nil =>
    refine ⟨fun hne ↦ absurd rfl hne, ?_⟩
    rintro ⟨oldest, hmem, -⟩
    rw [OrderedSet.mem_def, hids] at hmem
    exact absurd hmem List.not_mem_nil
  | cons first rest =>
    have hfirst : first ∈ h.openIds := hready first (by
      rw [OrderedSet.mem_def, hids]
      exact List.mem_cons_self)
    cases hstreams : h.streams.elems with
    | nil =>
      rw [hopen, hstreams] at hfirst
      exact absurd hfirst List.not_mem_nil
    | cons smallest others =>
      rw [hopen, hstreams, List.map_cons] at hfirst hsortedOpen ⊢
      rw [hids] at hsortedReady
      have hle : smallest.1 ≤ first := by
        rcases List.mem_cons.mp hfirst with heq | hmem
        · exact Nat.le_of_eq heq.symm
        · exact Nat.le_of_lt ((List.pairwise_cons.mp hsortedOpen).1 first hmem)
      dsimp only
      by_cases heq : first = smallest.1
      · rw [if_pos heq]
        refine ⟨fun _ ↦ ⟨first, ?_, ?_⟩, fun _ ↦ List.cons_ne_nil _ _⟩
        · rw [OrderedSet.mem_def, hids]
          exact List.mem_cons_self
        · intro id hid
          rcases List.mem_cons.mp hid with rfl | hid
          · exact Nat.le_of_eq heq
          · have hlt := (List.pairwise_cons.mp hsortedOpen).1 id hid
            omega
      · rw [if_neg heq]
        refine ⟨fun hne ↦ absurd rfl hne, ?_⟩
        rintro ⟨oldest, hmem, hleast⟩
        rw [OrderedSet.mem_def, hids] at hmem
        have hsmallest := hleast smallest.1 List.mem_cons_self
        rcases List.mem_cons.mp hmem with rfl | hmem
        · omega
        · have hlt := (List.pairwise_cons.mp hsortedReady).1 oldest hmem
          omega

/-- **A call of `on_write` leaves bytes to write** when the oldest open stream is ready. -/
theorem dataLen_onWrite_pos {h : Http1Handler}
    (hready : ∀ id ∈ h.streamIdsToRespond, id ∈ h.openIds) (hsmall : h.SmallBodies)
    (holdest : h.OldestReady) {fuel : ℕ} {buffer : Bytes}
    (hfault : (h.onWrite fuel buffer).fault = none) : 0 < (h.onWrite fuel buffer).out.dataLen := by
  obtain ⟨hbatch, hsubset⟩ := getConsecutiveStreamIdsToRespond_spec hready
  have hne := (batch_ne_nil_iff hready).mpr holdest
  rw [onWrite_eq] at hfault ⊢
  exact lt_of_respondInTurn hbatch.sorted hne
    (fun id hid strm hstrm ↦ hsmall id (hsubset id hid) strm hstrm) hfault

/-- A part of the handler that closing streams does not touch stays as it is while a batch is
answered. -/
theorem respondInTurn_frame {β : Type*} (part : Http1Handler → β)
    (hpart : ∀ streamId (h : Http1Handler), part (h.closeStream streamId) = part h) (fuel : ℕ)
    (batch : List ℕ) (h : Http1Handler) (out : Output) :
    part (respondInTurn fuel batch h out).handler = part h := by
  induction batch generalizing h out with
  | nil => rfl
  | cons streamId rest ih =>
    unfold respondInTurn
    cases h.findStream streamId with
    | none => rfl
    | some strm =>
      dsimp only
      cases respond fuel h.shouldKeepAlive strm out with
      | error fault => rfl
      | ok out => exact (ih (h.closeStream streamId) out).trans (hpart streamId h)

/-- A call of `on_write` does not touch the keep-alive setting. -/
theorem shouldKeepAlive_onWrite (fuel : ℕ) (buffer : Bytes) (h : Http1Handler) :
    (h.onWrite fuel buffer).handler.shouldKeepAlive = h.shouldKeepAlive := by
  rw [onWrite_eq]
  exact respondInTurn_frame shouldKeepAlive (fun _ _ ↦ rfl) fuel _ h.takeBatch _

/-- A call of `on_write` posts nothing. -/
theorem writeSignaled_onWrite (fuel : ℕ) (buffer : Bytes) (h : Http1Handler) :
    (h.onWrite fuel buffer).handler.writeSignaled = h.writeSignaled := by
  rw [onWrite_eq]
  exact respondInTurn_frame writeSignaled (fun _ _ ↦ rfl) fuel _ h.takeBatch _

/-- A call of `on_write` begins no request. -/
theorem requestCount_onWrite (fuel : ℕ) (buffer : Bytes) (h : Http1Handler) :
    (h.onWrite fuel buffer).handler.requestCount = h.requestCount := by
  rw [onWrite_eq]
  exact respondInTurn_frame requestCount (fun _ _ ↦ rfl) fuel _ h.takeBatch _

/-- A call of `on_write` takes its batch out of the ready streams. -/
theorem mem_streamIdsToRespond_onWrite {fuel : ℕ} {buffer : Bytes} {h : Http1Handler} {id : ℕ} :
    id ∈ (h.onWrite fuel buffer).handler.streamIdsToRespond ↔
      id ∈ h.streamIdsToRespond ∧ id ∉ h.getConsecutiveStreamIdsToRespond.1 := by
  have hsame : (h.onWrite fuel buffer).handler.streamIdsToRespond =
      h.takeBatch.streamIdsToRespond := by
    rw [onWrite_eq]
    exact respondInTurn_frame streamIdsToRespond (fun _ _ ↦ rfl) fuel _ h.takeBatch _
  rw [hsame, mem_streamIdsToRespond_takeBatch]

theorem insideCallback_onWrite (fuel : ℕ) (buffer : Bytes) (h : Http1Handler) :
    (h.onWrite fuel buffer).handler.insideCallback = false :=
  rfl

/-- Nothing is written and nothing changes when the oldest open stream is not ready. -/
theorem onWrite_eq_of_not_oldestReady {h : Http1Handler}
    (hready : ∀ id ∈ h.streamIdsToRespond, id ∈ h.openIds) (holdest : ¬ h.OldestReady)
    (fuel : ℕ) (buffer : Bytes) :
    h.onWrite fuel buffer =
      { handler := { h with insideCallback := false }
        out := { buffer := buffer, dataLen := 0 }
        emitted := []
        fault := none } := by
  have hempty : h.getConsecutiveStreamIdsToRespond.1 = [] := by
    by_contra hne
    exact holdest ((batch_ne_nil_iff hready).mp hne)
  have hkeep : h.streamIdsToRespond.removeIf (fun id ↦ List.contains [] id) =
      h.streamIdsToRespond :=
    OrderedSet.ext (List.filter_eq_self.mpr fun _ _ ↦ rfl)
  rw [onWrite_eq, takeBatch, hempty, hkeep]
  rfl

theorem onWrite_of_not_oldestReady {h : Http1Handler}
    (hready : ∀ id ∈ h.streamIdsToRespond, id ∈ h.openIds) (holdest : ¬ h.OldestReady)
    (fuel : ℕ) (buffer : Bytes) :
    (h.onWrite fuel buffer).fault = none ∧ (h.onWrite fuel buffer).out.dataLen = 0 ∧
      (h.onWrite fuel buffer).handler.openIds = h.openIds ∧
      (h.onWrite fuel buffer).handler.shouldKeepAlive = h.shouldKeepAlive := by
  rw [onWrite_eq_of_not_oldestReady hready holdest]
  exact ⟨rfl, rfl, rfl, rfl⟩

end Http1Handler

end Maock.Http1
