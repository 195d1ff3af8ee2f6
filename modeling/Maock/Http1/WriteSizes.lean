import Maock.Foundation.Fuel
import Maock.Http1.Handler

/-!
# Writing, seen through sizes

What `on_write` does to the size of the buffer and to the offset depends on lengths only: on the
sizes of the groups of a head (`HeadFits`, `writeHead_eq`) and on the size of a payload
(`bodyOutcome`, `writeBody_of_outcome`).

A head is written exactly when the groups up to each one fit into the buffer grown for them. A
payload that fits behind the head is drawn by the first read. One that does not fit fills the
buffer, and then either the loop finds no room for ever, or the buffer was so small that the loop
grows it, or it was so large that the returned length has wrapped around the range of an `int`.
-/

set_option autoImplicit false
set_option relaxedAutoImplicit false

namespace Maock.Http1

open Foundation Foundation.Fuel Foundation.Bytes Http

/-! ### The buffer -/

/-- The size that the growth check leaves. -/
def grow (size requiredSize : ℕ) : ℕ :=
  if size < requiredSize then size + (requiredSize + incStep) else size

@[simp] theorem length_incBufferSize (requiredSize : ℕ) (buffer : Bytes) :
    (incBufferSize requiredSize buffer).length = grow buffer.length requiredSize := by
  unfold incBufferSize grow
  split_ifs
  · rw [List.length_append, List.length_replicate]
  · rfl

/-- The size after the growth checks for groups of these sizes. -/
def grownSize (size : ℕ) (groups : List ℕ) : ℕ :=
  groups.foldl grow size

theorem le_grow (size requiredSize : ℕ) : size ≤ grow size requiredSize := by
  unfold grow
  split_ifs
  · omega
  · exact Nat.le_refl _

theorem length_overwrite {buffer piece : Bytes} {address : ℕ}
    (h : piece = [] ∨ address + piece.length ≤ buffer.length) :
    (overwrite buffer address piece).length = buffer.length := by
  rcases h with rfl | h
  · simp [overwrite]
  · simp only [overwrite, List.length_append, List.length_take, List.length_drop]
    omega

theorem overwrite_nil (buffer : Bytes) (address : ℕ) : overwrite buffer address [] = buffer := by
  simp [overwrite]

/-- What was copied stands at the address. -/
theorem drop_take_overwrite {buffer piece : Bytes} {address : ℕ} (h : address ≤ buffer.length) :
    ((overwrite buffer address piece).drop address).take piece.length = piece := by
  have hlength : (buffer.take address).length = address := List.length_take_of_le h
  rw [overwrite, List.append_assoc]
  nth_rewrite 1 [← hlength]
  rw [List.drop_left, List.take_left]

/-- Up to the end of what was copied, the buffer is as before in front of it. -/
theorem take_overwrite {buffer piece : Bytes} {address : ℕ} (h : address ≤ buffer.length) :
    (overwrite buffer address piece).take (address + piece.length) =
      buffer.take address ++ piece := by
  have hlength : (buffer.take address ++ piece).length = address + piece.length := by
    rw [List.length_append, List.length_take_of_le h]
  rw [overwrite, ← hlength, List.take_left]

/-! ### Heads -/

/-- The size of a group of pieces. -/
def groupSize (pieces : List Bytes) : ℕ :=
  (pieces.map List.length).sum

namespace Output

/-- The copies of a group succeed exactly when the whole group fits. -/
theorem foldlM_copyPiece_eq {pieces : List Bytes} (hpieces : pieces ≠ []) (out : Output) :
    if 0 ≤ out.dataLen ∧ out.dataLen + groupSize pieces ≤ out.buffer.length then
      ∃ written, pieces.foldlM copyPiece out = .ok written ∧
        written.buffer.length = out.buffer.length ∧
        written.dataLen = out.dataLen + groupSize pieces
    else pieces.foldlM copyPiece out = .error .copyOutOfBounds := by
  induction pieces generalizing out with
  | nil => exact absurd rfl hpieces
  | cons piece rest ih =>
    have hsize : groupSize (piece :: rest) = piece.length + groupSize rest := by
      simp [groupSize]
    by_cases hpiece : 0 ≤ out.dataLen ∧ out.dataLen + piece.length ≤ out.buffer.length
    · have hlength : (overwrite out.buffer out.dataLen.toNat piece).length = out.buffer.length :=
        length_overwrite (Or.inr (by omega))
      have hcopy : out.copyPiece piece = .ok
          { buffer := overwrite out.buffer out.dataLen.toNat piece
            dataLen := out.dataLen + piece.length } := by
        rw [copyPiece, if_pos hpiece]
      rw [List.foldlM_cons, hcopy]
      by_cases hrest : rest = []
      · subst hrest
        have hfits : out.dataLen + groupSize [piece] ≤ out.buffer.length := by
          simpa [groupSize] using hpiece.2
        rw [if_pos ⟨hpiece.1, hfits⟩]
        exact ⟨_, rfl, hlength, by simp [groupSize]⟩
      · have hnext := ih hrest
          { buffer := overwrite out.buffer out.dataLen.toNat piece
            dataLen := out.dataLen + piece.length }
        simp only [hlength] at hnext
        by_cases hall : 0 ≤ out.dataLen ∧
            out.dataLen + groupSize (piece :: rest) ≤ out.buffer.length
        · rw [if_pos (by omega)] at hnext
          rw [if_pos hall]
          obtain ⟨written, hwritten, hbuffer, hdataLen⟩ := hnext
          exact ⟨written, hwritten, hbuffer, by rw [hdataLen, hsize]; omega⟩
        · rw [if_neg (by omega)] at hnext
          rw [if_neg hall]
          exact hnext
    · have hcopy : out.copyPiece piece = .error .copyOutOfBounds := by
        rw [copyPiece, if_neg hpiece]
      rw [if_neg (by omega), List.foldlM_cons, hcopy]
      rfl

/-- A group is written exactly when it fits into the buffer grown for it. -/
theorem writeGroup_eq {pieces : List Bytes} (hpieces : pieces ≠ []) (out : Output) :
    if 0 ≤ out.dataLen ∧
        out.dataLen + groupSize pieces ≤ grow out.buffer.length (groupSize pieces) then
      ∃ written, out.writeGroup pieces = .ok written ∧
        written.buffer.length = grow out.buffer.length (groupSize pieces) ∧
        written.dataLen = out.dataLen + groupSize pieces
    else out.writeGroup pieces = .error .copyOutOfBounds := by
  have h := foldlM_copyPiece_eq hpieces
    { out with buffer := incBufferSize (groupSize pieces) out.buffer }
  simp only [length_incBufferSize] at h
  exact h

end Output

/-- The groups of a head fit: up to every group, what has been written and the groups themselves
take no more than the buffer grown for these groups. -/
def HeadFits (size : ℕ) (dataLen : ℤ) (groups : List ℕ) : Prop :=
  ∀ n < groups.length, 0 ≤ dataLen ∧
    dataLen + (groups.take (n + 1)).sum ≤ grownSize size (groups.take (n + 1))

instance decidableHeadFits (size : ℕ) (dataLen : ℤ) (groups : List ℕ) :
    Decidable (HeadFits size dataLen groups) :=
  Nat.decidableBallLT groups.length _

theorem headFits_cons {size group : ℕ} {dataLen : ℤ} {rest : List ℕ} :
    HeadFits size dataLen (group :: rest) ↔
      (0 ≤ dataLen ∧ dataLen + group ≤ grow size group) ∧
        HeadFits (grow size group) (dataLen + group) rest := by
  simp only [HeadFits, List.length_cons, List.take_succ_cons, List.sum_cons, grownSize,
    List.foldl_cons]
  constructor
  · intro hall
    have hfirst := hall 0 (Nat.succ_pos _)
    refine ⟨by simpa using hfirst, fun n hn ↦ ?_⟩
    have h := hall (n + 1) (Nat.succ_lt_succ hn)
    omega
  · intro ⟨hgroup, hall⟩ n hn
    induction n with
    | zero => simpa using hgroup
    | succ n _ =>
      have h := hall n (Nat.lt_of_succ_lt_succ hn)
      omega

/-- A list of groups is written exactly when it fits. -/
theorem foldlM_writeGroup_eq {groups : List (List Bytes)} (hgroups : ∀ pieces ∈ groups, pieces ≠ [])
    (out : Output) :
    if HeadFits out.buffer.length out.dataLen (groups.map groupSize) then
      ∃ written, groups.foldlM Output.writeGroup out = .ok written ∧
        written.buffer.length = grownSize out.buffer.length (groups.map groupSize) ∧
        written.dataLen = out.dataLen + (groups.map groupSize).sum
    else groups.foldlM Output.writeGroup out = .error .copyOutOfBounds := by
  induction groups generalizing out with
  | nil =>
    have hfits : HeadFits out.buffer.length out.dataLen ([].map groupSize) :=
      fun n hn ↦ absurd hn (Nat.not_lt_zero n)
    rw [if_pos hfits]
    exact ⟨out, rfl, rfl, by simp⟩
  | cons pieces rest ih =>
    have hgroup := Output.writeGroup_eq (hgroups pieces List.mem_cons_self) out
    have hrest := ih fun other hother ↦ hgroups other (List.mem_cons_of_mem pieces hother)
    rw [List.foldlM_cons]
    simp only [List.map_cons, headFits_cons, List.sum_cons, grownSize, List.foldl_cons]
    by_cases hfits : 0 ≤ out.dataLen ∧
        out.dataLen + groupSize pieces ≤ grow out.buffer.length (groupSize pieces)
    · rw [if_pos hfits] at hgroup
      obtain ⟨written, hwritten, hbuffer, hdataLen⟩ := hgroup
      have hnext := hrest written
      rw [hbuffer, hdataLen] at hnext
      rw [hwritten]
      simp only [hfits, true_and, and_self]
      split_ifs at hnext ⊢
      · obtain ⟨final, hfinal, hsize, hoffset⟩ := hnext
        exact ⟨final, hfinal, hsize, by omega⟩
      · exact hnext
    · rw [if_neg hfits] at hgroup
      rw [if_neg (fun h ↦ hfits h.1), hgroup]
      rfl

/-- The sizes of the groups of the head of a response. -/
def headSizes (shouldKeepAlive : Bool) (res : AsioServerResponse) : List ℕ :=
  (headGroups shouldKeepAlive res).map groupSize

theorem ne_nil_of_mem_headGroups {shouldKeepAlive : Bool} {res : AsioServerResponse}
    {pieces : List Bytes} (h : pieces ∈ headGroups shouldKeepAlive res) : pieces ≠ [] := by
  simp only [headGroups, List.cons_append, List.mem_cons, List.mem_append, List.mem_map,
    List.not_mem_nil, or_false] at h
  rcases h with rfl | (hlength | ⟨header, _, rfl⟩) | rfl
  · simp [statusLine]
  · unfold generatedContentLength at hlength
    split_ifs at hlength
    · rw [List.mem_singleton.mp hlength]
      simp
    · exact absurd hlength List.not_mem_nil
  · simp [headerLine]
  · simp

/-- The head of a response is written exactly when its groups fit. -/
theorem Output.writeHead_eq (shouldKeepAlive : Bool) (res : AsioServerResponse) (out : Output) :
    if HeadFits out.buffer.length out.dataLen (headSizes shouldKeepAlive res) then
      ∃ written, out.writeHead shouldKeepAlive res = .ok written ∧
        written.buffer.length = grownSize out.buffer.length (headSizes shouldKeepAlive res) ∧
        written.dataLen = out.dataLen + (headSizes shouldKeepAlive res).sum
    else out.writeHead shouldKeepAlive res = .error .copyOutOfBounds :=
  foldlM_writeGroup_eq (fun _ ↦ ne_nil_of_mem_headGroups) out

/-- A head that fits into the buffer as it is. -/
theorem headFits_of_sum_le {size : ℕ} {dataLen : ℤ} {groups : List ℕ} (hnonneg : 0 ≤ dataLen)
    (h : dataLen + groups.sum ≤ size) :
    HeadFits size dataLen groups ∧ grownSize size groups = size := by
  have hgrown : ∀ {l : List ℕ}, l.sum ≤ size → grownSize size l = size := by
    intro l hl
    induction l with
    | nil => rfl
    | cons group rest ih =>
      simp only [List.sum_cons] at hl
      have hgroup : grow size group = size := if_neg (by omega)
      simpa [grownSize, hgroup] using ih (by omega)
  refine ⟨fun n hn ↦ ?_, hgrown (by omega)⟩
  have hbegins : (groups.take (n + 1)).sum ≤ groups.sum := by
    have hsplit := congrArg List.sum (List.take_append_drop (n + 1) groups)
    rw [List.sum_append] at hsplit
    omega
  rw [hgrown (by omega)]
  omega

/-! ### Lengths that go through an `int` -/

namespace AsioServerResponse

/-- The number of values of an `int`. -/
def intValues : ℕ := 2 ^ 32

/-- A length comes back short by a multiple of the number of values. -/
theorem exists_toInt32_eq (n : ℕ) :
    ∃ lost : ℕ, toInt32 n = n - lost ∧ intValues ∣ lost ∧ (lost = 0 ↔ n < 2 ^ 31) := by
  unfold toInt32
  rw [Int.bmod_def]
  by_cases h : (n : ℤ) % ((2 ^ 32 : ℕ) : ℤ) < (((2 ^ 32 : ℕ) : ℤ) + 1) / 2
  · rw [if_pos h]
    refine ⟨2 ^ 32 * (n / 2 ^ 32), ?_, Nat.dvd_mul_right _ _, ?_⟩ <;> omega
  · rw [if_neg h]
    refine ⟨2 ^ 32 * (n / 2 ^ 32 + 1), ?_, Nat.dvd_mul_right _ _, ?_⟩ <;> omega

theorem toInt32_eq_self_iff {n : ℕ} : toInt32 n = n ↔ n < 2 ^ 31 := by
  obtain ⟨lost, hlost, _, hzero⟩ := exists_toInt32_eq n
  rw [hlost, ← hzero]
  omega

theorem toInt32_le (n : ℕ) : toInt32 n ≤ n := by
  obtain ⟨lost, hlost, _⟩ := exists_toInt32_eq n
  omega

/-- Multiples of the number of values are not seen. -/
theorem toInt32_sub_of_dvd {n lost : ℕ} (hdvd : intValues ∣ lost) (h : lost ≤ n) :
    toInt32 ((n - lost : ℕ) : ℤ) = toInt32 n := by
  obtain ⟨k, rfl⟩ := hdvd
  unfold intValues at h ⊢
  unfold toInt32
  rw [Int.bmod_def, Int.bmod_def]
  split_ifs <;> omega

/-- A read with room for all that is left returns it and sets the end flag. -/
theorem callRead_of_le {res : AsioServerResponse} {data : Bytes} {left len : ℕ}
    (hgenerator : res.generator = some (.string data left)) (hleft : left ≤ len) :
    (res.callRead len 0).copied = (data.drop (data.length - left)).take left ∧
      (res.callRead len 0).retCode = toInt32 left ∧
      (res.callRead len 0).flags &&& dataFlagEof ≠ 0 ∧
      (res.callRead len 0).flags &&& errDeferredAsFlags = 0 := by
  have hmin : min len left = left := Nat.min_eq_right hleft
  have heof : (0 ||| dataFlagEof) &&& dataFlagEof ≠ 0 := by decide
  have hdeferred : (0 ||| dataFlagEof) &&& errDeferredAsFlags = 0 := by decide
  have heofTrailers : (0 ||| dataFlagEof ||| dataFlagNoEndStream) &&& dataFlagEof ≠ 0 := by decide
  have hdeferredTrailers :
      (0 ||| dataFlagEof ||| dataFlagNoEndStream) &&& errDeferredAsFlags = 0 := by decide
  simp only [callRead, hgenerator, Generator.call, hmin, Nat.sub_self, decide_true, if_true]
  by_cases htrailers : res.trailers.entries = []
  · rw [if_neg (fun h ↦ h.2 htrailers)]
    exact ⟨rfl, rfl, heof, hdeferred⟩
  · rw [if_pos ⟨heof, htrailers⟩]
    exact ⟨rfl, rfl, heofTrailers, hdeferredTrailers⟩

/-- A read with less room fills it and leaves the generator behind what it returned. -/
theorem callRead_of_lt {res : AsioServerResponse} {data : Bytes} {left len : ℕ}
    (hgenerator : res.generator = some (.string data left)) (hlen : len < left) :
    res.callRead len 0 =
      { copied := (data.drop (data.length - left)).take len
        retCode := toInt32 len
        flags := 0
        response := { res with generator := some (.string data (left - len)) } } := by
  have hmin : min len left = len := Nat.min_eq_left (Nat.le_of_lt hlen)
  have hleft : left - len ≠ 0 := by omega
  have heof : ¬ (0 : UInt32) &&& dataFlagEof ≠ 0 := by decide
  simp only [callRead, hgenerator, Generator.call, hmin, hleft, decide_false, Bool.false_eq_true,
    if_false, heof, false_and]

end AsioServerResponse

/-! ### Payloads -/

open AsioServerResponse

/-- What comes of a payload. -/
inductive BodyOutcome where
  /-- The payload is drawn and leaves this size and offset. -/
  | drained (size : ℕ) (dataLen : ℤ)
  /-- The loop finds no room and never ends. -/
  | stalls
  /-- A generator copies bytes behind the buffer. -/
  | corrupts
  /-- `call_read` is given an offset beyond the buffer. -/
  | pastEnd

/-- What comes of `left` bytes of a payload at an offset of a buffer. The first branch is a payload
that fits; the second a buffer that the loop grows; in the others the buffer is filled, and
`filledTo` is where the returned length puts the offset. -/
def bodyOutcome (size offset left : ℕ) : BodyOutcome :=
  if offset + left ≤ size then .drained size (offset + toInt32 left)
  else if size < incStep then
    if offset + left ≤ 2 * incStep then .drained (size + 2 * incStep) (offset + left) else .corrupts
  else
    let filledTo : ℤ := offset + toInt32 (size - offset : ℕ)
    let remaining := left - (size - offset)
    if filledTo = size then .stalls
    else if filledTo < 0 then .pastEnd
    else if filledTo = 0 ∨ 2 * filledTo + remaining ≤ size then
      .drained size (filledTo + toInt32 remaining)
    else .corrupts

/-- The outcome once the payload has filled a buffer that the loop does not grow. -/
theorem bodyOutcome_of_filled {size offset left : ℕ} {filledTo : ℤ} (hfull : size < offset + left)
    (hsize : incStep ≤ size) (hfilled : filledTo = offset + toInt32 (size - offset : ℕ)) :
    bodyOutcome size offset left =
      if filledTo = size then .stalls
      else if filledTo < 0 then .pastEnd
      else if filledTo = 0 ∨ 2 * filledTo + (left - (size - offset) : ℕ) ≤ size then
        .drained size (filledTo + toInt32 (left - (size - offset) : ℕ))
      else .corrupts := by
  rw [hfilled, bodyOutcome, if_neg (Nat.not_le.mpr hfull), if_neg (Nat.not_lt.mpr hsize)]

/-- A run that writes a body comes to an outcome. -/
def BodyOutcome.Describes (run : ℕ → Except WriteFault Output) : BodyOutcome → Prop
  | .drained size dataLen => ∃ written : Output, written.buffer.length = size ∧
      written.dataLen = dataLen ∧ Settles .outOfFuel run (.ok written)
  | .stalls => NeverEnds .outOfFuel run
  | .corrupts => Settles .outOfFuel run (.error .generatorOutOfBounds)
  | .pastEnd => Settles .outOfFuel run (.error .readPastEnd)

namespace Output

/-- A read with room for all that is left. -/
theorem readInto_of_le {address : ℕ} {res : AsioServerResponse} {out : Output} {data : Bytes}
    {left : ℕ} (hgenerator : res.generator = some (.string data left)) (hdata : left ≤ data.length)
    (hnonneg : 0 ≤ out.dataLen) (hroom : out.dataLen + left ≤ out.buffer.length) :
    ∃ final flags, flags &&& dataFlagEof ≠ 0 ∧ flags &&& errDeferredAsFlags = 0 ∧
      out.readInto address res 0 =
        if left = 0 ∨ address + left ≤ out.buffer.length then
          .ok ({ buffer := overwrite out.buffer address (data.drop (data.length - left))
                 dataLen := out.dataLen + toInt32 left }, final, flags)
        else .error .generatorOutOfBounds := by
  obtain ⟨hcopied, hcode, heof, hdeferred⟩ := callRead_of_le hgenerator
    (show left ≤ out.buffer.length - out.dataLen.toNat by omega)
  have hlength : (data.drop (data.length - left)).length = left := by
    rw [List.length_drop]
    omega
  have hempty : data.drop (data.length - left) = [] ↔ left = 0 := by
    rw [← List.length_eq_zero_iff, hlength]
  rw [List.take_of_length_le (Nat.le_of_eq hlength)] at hcopied
  refine ⟨(res.callRead (out.buffer.length - out.dataLen.toNat) 0).response,
    (res.callRead (out.buffer.length - out.dataLen.toNat) 0).flags, heof, hdeferred, ?_⟩
  simp only [readInto, hcopied, hcode, hlength, hempty]
  rw [if_pos (by omega)]

/-- A read with less room than what is left. -/
theorem readInto_of_lt {address : ℕ} {res : AsioServerResponse} {out : Output} {data : Bytes}
    {left room : ℕ} (hgenerator : res.generator = some (.string data left))
    (hdata : left ≤ data.length) (hnonneg : 0 ≤ out.dataLen)
    (hroom : out.dataLen + room = out.buffer.length) (hlt : room < left) :
    out.readInto address res 0 =
      if room = 0 ∨ address + room ≤ out.buffer.length then
        .ok ({ buffer := overwrite out.buffer address
                ((data.drop (data.length - left)).take room)
               dataLen := out.dataLen + toInt32 room },
          { res with generator := some (.string data (left - room)) }, 0)
      else .error .generatorOutOfBounds := by
  have hlength : ((data.drop (data.length - left)).take room).length = room := by
    rw [List.length_take, List.length_drop]
    omega
  have hempty : (data.drop (data.length - left)).take room = [] ↔ room = 0 := by
    rw [← List.length_eq_zero_iff, hlength]
  have hlen : out.buffer.length - out.dataLen.toNat = room := by omega
  simp only [readInto, hlen, callRead_of_lt hgenerator hlt, hlength, hempty]
  rw [if_pos (by omega)]

/-- One turn of the loop in front of the others, while the end flag is not set. -/
theorem drainBody_succ (fuel : ℕ) (res : AsioServerResponse) (out : Output) :
    drainBody (fuel + 1) res 0 out =
      ({ out with buffer := incBufferSize incStep out.buffer }.readInto (2 * out.dataLen.toNat)
        res 0).bind fun read ↦ drainBody fuel read.2.1 read.2.2 read.1 := by
  have hrunning : ¬ (0 : UInt32) &&& dataFlagEof ≠ 0 := by decide
  conv_lhs => unfold drainBody
  rw [if_neg hrunning]
  rfl

theorem drainBody_zero (res : AsioServerResponse) (out : Output) :
    drainBody 0 res 0 out = .error .outOfFuel := by
  have hrunning : ¬ (0 : UInt32) &&& dataFlagEof ≠ 0 := by decide
  rw [drainBody, if_neg hrunning]

theorem drainBody_of_eof {fuel : ℕ} {res : AsioServerResponse} {flags : UInt32} {out : Output}
    (heof : flags &&& dataFlagEof ≠ 0) : drainBody fuel res flags out = .ok out := by
  unfold drainBody
  rw [if_pos heof]

/-- A turn that reads the last bytes ends the loop. -/
theorem drainBody_of_last_read {res final : AsioServerResponse} {out written : Output}
    {flags : UInt32} (heof : flags &&& dataFlagEof ≠ 0)
    (hread : { out with buffer := incBufferSize incStep out.buffer }.readInto
      (2 * out.dataLen.toNat) res 0 = .ok (written, final, flags)) :
    Settles .outOfFuel (fun fuel ↦ drainBody fuel res 0 out) (.ok written) := by
  refine Settles.of_turn (drainBody_zero res out) fun fuel ↦ ?_
  rw [drainBody_succ, hread]
  exact drainBody_of_eof heof

/-- So does a turn whose read goes wrong. -/
theorem drainBody_of_read_error {res : AsioServerResponse} {out : Output} {fault : WriteFault}
    (hread : { out with buffer := incBufferSize incStep out.buffer }.readInto
      (2 * out.dataLen.toNat) res 0 = .error fault) :
    Settles .outOfFuel (fun fuel ↦ drainBody fuel res 0 out) (.error fault) := by
  refine Settles.of_turn (drainBody_zero res out) fun fuel ↦ ?_
  rw [drainBody_succ, hread]
  rfl

/-- A payload that fits is drawn by the first read. -/
theorem writeBody_of_le {res : AsioServerResponse} {out : Output} {payload : Bytes}
    (hgenerator : res.generator = some (stringGenerator payload)) (hnonneg : 0 ≤ out.dataLen)
    (hfits : out.dataLen + payload.length ≤ out.buffer.length) (fuel : ℕ) :
    out.writeBody fuel res = .ok
      { buffer := overwrite out.buffer out.dataLen.toNat payload
        dataLen := out.dataLen + toInt32 payload.length } := by
  obtain ⟨final, flags, heof, hdeferred, hread⟩ := @readInto_of_le out.dataLen.toNat _ _ _ _
    hgenerator (Nat.le_refl _) hnonneg hfits
  rw [if_pos (Or.inr (by omega)), Nat.sub_self, List.drop_zero] at hread
  simp only [writeBody, hread, bind, Except.bind, hdeferred, if_true]
  exact drainBody_of_eof heof

/-- The loop with the offset at the end of the buffer, and something left, never ends. -/
theorem drainBody_neverEnds {res : AsioServerResponse} {out : Output} {data : Bytes} {left : ℕ}
    (hgenerator : res.generator = some (.string data left)) (hdata : left ≤ data.length)
    (hleft : 0 < left) (hsize : incStep ≤ out.buffer.length)
    (hend : out.dataLen = out.buffer.length) :
    NeverEnds .outOfFuel fun fuel ↦ drainBody fuel res 0 out := by
  have hgrown : incBufferSize incStep out.buffer = out.buffer := if_neg (Nat.not_lt.mpr hsize)
  have hread := @readInto_of_lt (2 * out.dataLen.toNat) _ out _ _ 0 hgenerator hdata (by omega)
    (by omega) hleft
  have hcode : toInt32 (0 : ℕ) = 0 := toInt32_eq_self_iff.mpr (by omega)
  have hsame : { res with generator := some (.string data left) } = res := by rw [← hgenerator]
  rw [if_pos (Or.inl rfl), List.take_zero, overwrite_nil, hcode, Nat.sub_zero, hsame,
    Int.add_zero] at hread
  refine NeverEnds.of_loop (drainBody_zero res out) fun fuel ↦ ?_
  rw [drainBody_succ, hgrown, hread]
  rfl

/-- The loop with the offset below zero. -/
theorem drainBody_of_neg {res : AsioServerResponse} {out : Output} (hneg : out.dataLen < 0) :
    Settles .outOfFuel (fun fuel ↦ drainBody fuel res 0 out) (.error .readPastEnd) := by
  have hbounds : ¬ (0 ≤ out.dataLen ∧
      out.dataLen ≤ (incBufferSize incStep out.buffer).length) := by omega
  exact drainBody_of_read_error (if_neg hbounds)

/-- The loop with the offset at the end of a buffer that it grows. -/
theorem drainBody_of_small {res : AsioServerResponse} {out : Output} {data : Bytes} {left : ℕ}
    (hgenerator : res.generator = some (.string data left)) (hdata : left ≤ data.length)
    (hleft : 0 < left) (hpos : 0 < out.buffer.length) (hsize : out.buffer.length < incStep)
    (hend : out.dataLen = out.buffer.length) :
    BodyOutcome.Describes (fun fuel ↦ drainBody fuel res 0 out)
      (if out.buffer.length + left ≤ 2 * incStep then
        .drained (out.buffer.length + 2 * incStep) (out.dataLen + left)
      else .corrupts) := by
  have hstep : incStep = 16384 := rfl
  have hlength : (incBufferSize incStep out.buffer).length = out.buffer.length + 2 * incStep := by
    rw [length_incBufferSize, grow, if_pos hsize]
    omega
  set grown : Output := { out with buffer := incBufferSize incStep out.buffer }
  have hoffset : grown.dataLen = out.buffer.length := hend
  by_cases hroom : left ≤ 2 * incStep
  · obtain ⟨final, flags, heof, _, hread⟩ := @readInto_of_le (2 * out.dataLen.toNat) _ grown _ _
      hgenerator hdata (by omega) (by rw [hlength]; omega)
    rw [hlength] at hread
    by_cases hfits : out.buffer.length + left ≤ 2 * incStep
    · rw [if_pos (Or.inr (by omega))] at hread
      rw [if_pos hfits]
      refine ⟨{ buffer := overwrite grown.buffer (2 * out.dataLen.toNat)
                  (data.drop (data.length - left))
                dataLen := grown.dataLen + toInt32 left }, ?_, ?_,
        drainBody_of_last_read heof hread⟩
      · exact (length_overwrite (Or.inr (by rw [List.length_drop, hlength]; omega))).trans hlength
      · rw [toInt32_eq_self_iff.mpr (by omega)]
    · rw [if_neg (by omega)] at hread
      rw [if_neg hfits]
      exact drainBody_of_read_error hread
  · have hread := @readInto_of_lt (2 * out.dataLen.toNat) _ grown _ _ (2 * incStep) hgenerator
      hdata (by omega) (by rw [hlength]; omega) (by omega)
    rw [hlength, if_neg (by omega)] at hread
    rw [if_neg (by omega)]
    exact drainBody_of_read_error hread

/-- A buffer with more room than `incStep` does not grow. -/
theorem incBufferSize_of_room {out : Output} {lost : ℕ} (hlarge : incStep < lost)
    (hnonneg : 0 ≤ out.dataLen) (hroom : out.dataLen + lost = out.buffer.length) :
    incBufferSize incStep out.buffer = out.buffer :=
  if_neg (by omega)

/-- The last turn of the loop when there is more room than `incStep`: it draws what is left, or
copies bytes behind the buffer. -/
theorem drainBody_of_last_turn {res : AsioServerResponse} {out : Output} {data : Bytes}
    {left lost : ℕ}
    (hgenerator : res.generator = some (.string data left)) (hdata : left ≤ data.length)
    (hleft : 0 < left) (hlarge : incStep < lost) (hlast : left ≤ lost) (hnonneg : 0 ≤ out.dataLen)
    (hroom : out.dataLen + lost = out.buffer.length) :
    BodyOutcome.Describes (fun fuel ↦ drainBody fuel res 0 out)
      (if out.dataLen = 0 ∨ 2 * out.dataLen + left ≤ out.buffer.length then
        .drained out.buffer.length (out.dataLen + toInt32 left)
      else .corrupts) := by
  have hgrown := incBufferSize_of_room hlarge hnonneg hroom
  have hsame : { out with buffer := incBufferSize incStep out.buffer } = out := by rw [hgrown]
  obtain ⟨final, flags, heof, _, hread⟩ := @readInto_of_le (2 * out.dataLen.toNat) _ out _ _
    hgenerator hdata hnonneg (by omega)
  by_cases hfits : out.dataLen = 0 ∨ 2 * out.dataLen + left ≤ out.buffer.length
  · rw [if_pos (Or.inr (by omega))] at hread
    rw [if_pos hfits]
    refine ⟨{ buffer := overwrite out.buffer (2 * out.dataLen.toNat)
                (data.drop (data.length - left))
              dataLen := out.dataLen + toInt32 left }, ?_, rfl,
      drainBody_of_last_read heof (by rwa [hsame])⟩
    exact length_overwrite (Or.inr (by rw [List.length_drop]; omega))
  · rw [if_neg (by omega)] at hread
    rw [if_neg hfits]
    exact drainBody_of_read_error (by rwa [hsame])

/-- The loop with the offset a multiple of `intValues` before the end of the buffer: a turn either
draws what is left, or copies bytes behind the buffer, or comes back to the same offset. -/
theorem drainBody_of_wrapped {res : AsioServerResponse} {out : Output} {data : Bytes}
    {left lost : ℕ}
    (hgenerator : res.generator = some (.string data left)) (hdata : left ≤ data.length)
    (hleft : 0 < left) (hdvd : intValues ∣ lost) (hpos : 0 < lost) (hnonneg : 0 ≤ out.dataLen)
    (hroom : out.dataLen + lost = out.buffer.length) :
    BodyOutcome.Describes (fun fuel ↦ drainBody fuel res 0 out)
      (if out.dataLen = 0 ∨ 2 * out.dataLen + left ≤ out.buffer.length then
        .drained out.buffer.length (out.dataLen + toInt32 left)
      else .corrupts) := by
  have hlarge : incStep < lost :=
    Nat.lt_of_lt_of_le (by decide : incStep < intValues) (Nat.le_of_dvd hpos hdvd)
  induction left using Nat.strongRecOn generalizing res out with
  | ind left ih =>
    have hgrown := incBufferSize_of_room hlarge hnonneg hroom
    have hsame : { out with buffer := incBufferSize incStep out.buffer } = out := by rw [hgrown]
    by_cases hlast : left ≤ lost
    · exact drainBody_of_last_turn hgenerator hdata hleft hlarge hlast hnonneg hroom
    have hread := @readInto_of_lt (2 * out.dataLen.toNat) _ out _ _ lost hgenerator hdata
      hnonneg (by omega) (by omega)
    by_cases hfits : out.dataLen = 0 ∨ 2 * out.dataLen + left ≤ out.buffer.length
    · -- the returned length is a multiple of `intValues`, so the offset stays
      have hcode : toInt32 lost = 0 := by
        have h := toInt32_sub_of_dvd hdvd (Nat.le_refl lost)
        rw [Nat.sub_self] at h
        exact h.symm.trans (toInt32_eq_self_iff.mpr (by omega))
      rw [if_pos (Or.inr (by omega)), hcode, Int.add_zero] at hread
      rw [if_pos hfits]
      have hlength : (overwrite out.buffer (2 * out.dataLen.toNat)
          ((data.drop (data.length - left)).take lost)).length = out.buffer.length := by
        refine length_overwrite (Or.inr ?_)
        rw [List.length_take, List.length_drop]
        omega
      have hnext := @ih (left - lost) (by omega)
        { res with generator := some (.string data (left - lost)) }
        { buffer := overwrite out.buffer (2 * out.dataLen.toNat)
            ((data.drop (data.length - left)).take lost)
          dataLen := out.dataLen } rfl (by omega) (by omega) hnonneg
            (by rw [hlength]; exact hroom)
      rw [if_pos (Or.inl (by show out.dataLen = 0; omega)), hlength,
        toInt32_sub_of_dvd hdvd (by omega)] at hnext
      obtain ⟨written, hsize, hoffset, hsettles⟩ := hnext
      refine ⟨written, hsize, hoffset, Settles.succ (drainBody_zero res out) (fun fuel ↦ ?_)
        hsettles⟩
      rw [drainBody_succ, hgrown, hread]
      rfl
    · rw [if_neg (by omega)] at hread
      rw [if_neg hfits]
      exact drainBody_of_read_error (by rwa [hsame])

/-- A payload that does not fit fills the buffer and goes into the loop. -/
theorem writeBody_of_lt {res : AsioServerResponse} {out : Output} {payload : Bytes} {room : ℕ}
    (hgenerator : res.generator = some (stringGenerator payload)) (hnonneg : 0 ≤ out.dataLen)
    (hroom : out.dataLen + room = out.buffer.length) (hlt : room < payload.length) :
    ∃ filled : Output, filled.buffer.length = out.buffer.length ∧
      filled.dataLen = out.dataLen + toInt32 room ∧
      ∀ fuel, out.writeBody fuel res = drainBody fuel
        { res with generator := some (.string payload (payload.length - room)) } 0 filled := by
  have hread := @readInto_of_lt out.dataLen.toNat _ out _ _ room hgenerator (Nat.le_refl _) hnonneg
    hroom hlt
  rw [if_pos (Or.inr (by omega)), Nat.sub_self, List.drop_zero] at hread
  refine ⟨{ buffer := overwrite out.buffer out.dataLen.toNat (payload.take room)
            dataLen := out.dataLen + toInt32 room }, ?_, rfl, fun fuel ↦ ?_⟩
  · exact length_overwrite (Or.inr (by rw [List.length_take]; omega))
  · have hdeferred : (0 : UInt32) &&& errDeferredAsFlags = 0 := by decide
    simp only [writeBody, hread, bind, Except.bind, hdeferred, if_true]

/-- The loop with a filled buffer that it does not grow. -/
theorem drainBody_of_filled {res : AsioServerResponse} {out : Output} {data : Bytes}
    {left lost : ℕ}
    (hgenerator : res.generator = some (.string data left)) (hdata : left ≤ data.length)
    (hleft : 0 < left) (hsize : incStep ≤ out.buffer.length) (hdvd : intValues ∣ lost)
    (hroom : out.dataLen + lost = out.buffer.length) :
    BodyOutcome.Describes (fun fuel ↦ drainBody fuel res 0 out)
      (if out.dataLen = out.buffer.length then .stalls
      else if out.dataLen < 0 then .pastEnd
      else if out.dataLen = 0 ∨ 2 * out.dataLen + left ≤ out.buffer.length then
        .drained out.buffer.length (out.dataLen + toInt32 left)
      else .corrupts) := by
  by_cases hend : out.dataLen = out.buffer.length
  · rw [if_pos hend]
    exact drainBody_neverEnds hgenerator hdata hleft hsize hend
  rw [if_neg hend]
  by_cases hneg : out.dataLen < 0
  · rw [if_pos hneg]
    exact drainBody_of_neg hneg
  rw [if_neg hneg]
  exact drainBody_of_wrapped hgenerator hdata hleft hdvd (by omega) (by omega) hroom

/-- What comes of a payload behind a head is what its size says. -/
theorem writeBody_of_outcome {res : AsioServerResponse} {out : Output} {payload : Bytes}
    {offset : ℕ} (hgenerator : res.generator = some (stringGenerator payload))
    (hoffset : out.dataLen = offset) (hpos : 0 < offset) (hle : offset ≤ out.buffer.length) :
    BodyOutcome.Describes (fun fuel ↦ out.writeBody fuel res)
      (bodyOutcome out.buffer.length offset payload.length) := by
  by_cases hfits : offset + payload.length ≤ out.buffer.length
  · rw [bodyOutcome, if_pos hfits]
    refine ⟨{ buffer := overwrite out.buffer out.dataLen.toNat payload
              dataLen := out.dataLen + toInt32 payload.length },
      length_overwrite (Or.inr (by omega)), by rw [hoffset], Settles.of_forall fun fuel ↦ ?_⟩
    exact writeBody_of_le hgenerator (by omega) (by omega) fuel
  have hleft : 0 < payload.length - (out.buffer.length - offset) := by omega
  obtain ⟨filled, hbuffer, hdataLen, hloop⟩ := @writeBody_of_lt res out payload
    (out.buffer.length - offset) hgenerator (by omega) (by omega) (by omega)
  rw [funext hloop]
  by_cases hsmall : out.buffer.length < incStep
  · have hstep : incStep = 16384 := rfl
    have hend : filled.dataLen = filled.buffer.length := by
      rw [hdataLen, toInt32_eq_self_iff.mpr (by omega)]
      omega
    have hcase : out.buffer.length + (payload.length - (out.buffer.length - offset)) ≤
        2 * incStep ↔ offset + payload.length ≤ 2 * incStep := by omega
    have hlast : filled.dataLen + (payload.length - (out.buffer.length - offset) : ℕ) =
        offset + payload.length := by omega
    have hdrain := @drainBody_of_small
      { res with generator := some (.string payload
        (payload.length - (out.buffer.length - offset))) } filled payload _ rfl (by omega)
      hleft (by omega) (by omega) hend
    simp only [hcase, hlast, hbuffer] at hdrain
    rwa [bodyOutcome, if_neg hfits, if_pos hsmall]
  · obtain ⟨lost, hlost, hdvd, -⟩ := exists_toInt32_eq (out.buffer.length - offset)
    have hroom : filled.dataLen + lost = filled.buffer.length := by
      rw [hdataLen, hlost, hoffset]
      omega
    have hsize : incStep ≤ filled.buffer.length := hbuffer ▸ Nat.not_lt.mp hsmall
    rw [bodyOutcome_of_filled (Nat.not_le.mp hfits) (Nat.not_lt.mp hsmall) (hoffset ▸ hdataLen),
      ← hbuffer]
    exact drainBody_of_filled rfl (Nat.sub_le _ _) (hbuffer ▸ hleft) hsize hdvd hroom

end Output

end Maock.Http1
