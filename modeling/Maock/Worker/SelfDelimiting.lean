import Maock.Worker.ContentLength

/-!
# Responses that delimit themselves

What `on_write` emits for a response sent by `send_response`: the lines of its head, and the number
of bytes that it hands over behind the head. The lines are those of the bytes, so a value with a
line break makes several of them (`linesOf_headBytes`), and the number of bytes is what the offset
advances by, which goes through an `int` (`Emits.advance_eq`, `exists_emits`).

`selfDelimiting_iff` says, on the fields and the payload of the answer, when the head delimits the
response.
-/

set_option autoImplicit false
set_option relaxedAutoImplicit false

namespace Maock.Worker

open Foundation Foundation.OrderedContainer Foundation.Bytes Foundation.Fuel Foundation.Lines Http
open Http1 (AsioServerResponse BodyOutcome Output Stream bodyOutcome expectResponseBody fieldText
  headBytes headFields headParts incStep respond responseBytes statusText stringGenerator)
open Http1.AsioServerResponse (toInt32)

/-! ### Content lengths among lines -/

/-- The field of a line: what stands in front of its first colon and behind it. -/
def lineField (line : Bytes) : Option (Bytes × Bytes) :=
  match line.dropWhile (· != char ':') with
  | [] => none
  | _ :: value => some (line.takeWhile (· != char ':'), value)

/-- The values of the content lengths among lines, in any letter case and without the blanks around
them. -/
def contentLengths (lines : List Bytes) : List Bytes :=
  ((lines.filterMap lineField).filter isContentLength).map fun field ↦ trimBlanks field.2

theorem lineField_eq_none {line : Bytes} (h : char ':' ∉ line) : lineField line = none := by
  have hdrop : line.dropWhile (· != char ':') = [] := by
    rw [List.dropWhile_eq_nil_iff]
    exact fun c hc ↦ bne_iff_ne.mpr fun heq ↦ h (heq ▸ hc)
  unfold lineField
  rw [hdrop]

theorem lineField_fieldText {field : Bytes × Bytes} (h : char ':' ∉ field.1) :
    lineField (fieldText field) = some field := by
  have hname : ∀ c ∈ field.1, (c != char ':') = true :=
    fun c hc ↦ bne_iff_ne.mpr fun heq ↦ h (heq ▸ hc)
  have htext : fieldText field = field.1 ++ char ':' :: field.2 := by
    unfold fieldText
    rw [List.append_assoc]
    rfl
  unfold lineField
  rw [htext, List.dropWhile_append_of_pos hname, List.takeWhile_append_of_pos hname,
    List.dropWhile_cons_of_neg (by simp), List.takeWhile_cons_of_neg (by simp), List.append_nil]

theorem contentLengths_append (lines lines' : List Bytes) :
    contentLengths (lines ++ lines') = contentLengths lines ++ contentLengths lines' := by
  unfold contentLengths
  rw [List.filterMap_append, List.filter_append, List.map_append]

theorem contentLengths_perm {lines lines' : List Bytes} (h : lines.Perm lines') :
    (contentLengths lines).Perm (contentLengths lines') :=
  ((h.filterMap lineField).filter isContentLength).map _

/-- A content length that the server adds is one. -/
theorem contentLengths_added (n : ℕ) :
    contentLengths [fieldText (contentLength, decimal n)] = [decimal n] := by
  have hfield : lineField (fieldText (contentLength, decimal n)) =
      some (contentLength, decimal n) :=
    lineField_fieldText (show char ':' ∉ contentLength by decide)
  have hlower : isContentLength (contentLength, decimal n) = true :=
    (by decide : (contentLength.map toLower == contentLength) = true)
  unfold contentLengths
  rw [List.filterMap_cons_some hfield, List.filterMap_nil, List.filter_cons_of_pos hlower,
    List.filter_nil, List.map_singleton, trimBlanks_decimal]

/-- The status line is none. -/
theorem contentLengths_statusText (shouldKeepAlive : Bool) (res : AsioServerResponse) :
    contentLengths [statusText shouldKeepAlive res] = [] := by
  have hversion : char ':' ∉ ascii (if shouldKeepAlive then "HTTP/1.1" else "HTTP/1.0") := by
    cases shouldKeepAlive <;> decide
  have hdigits : char ':' ∉ decimal res.statusCode := fun hmem ↦
    absurd (isDigit_of_mem_decimal hmem) (by decide)
  have hreason : char ':' ∉ ascii (Http1.getReasonPhrase res.statusCode) := by
    unfold Http1.getReasonPhrase
    split <;> decide +kernel
  have hnone : lineField (statusText shouldKeepAlive res) = none := by
    refine lineField_eq_none ?_
    unfold statusText
    simp only [List.mem_append, not_or]
    exact ⟨⟨⟨⟨hversion, by decide⟩, hdigits⟩, by decide⟩, hreason⟩
  unfold contentLengths
  rw [List.filterMap_cons_none hnone]
  rfl

/-! ### The lines of a head -/

/-- The lines that the fields of the response's own make. -/
def Answer.ownLines (a : Answer) : List Bytes :=
  a.ownFields.flatMap fun field ↦ linesOf (fieldText field)

/-- The lines of a head, whatever its fields contain. -/
theorem linesOf_headBytes (shouldKeepAlive : Bool) (res : AsioServerResponse) :
    linesOf (headBytes shouldKeepAlive res) =
      statusText shouldKeepAlive res ::
        ((headFields res).flatMap fun field ↦ linesOf (fieldText field)) ++ [[], []] := by
  rw [Http1.headBytes_eq, linesOf_joined, headParts, List.flatMap_append, List.flatMap_cons,
    List.flatMap_map, linesOf_eq_self (Http1.not_lineBreak_statusText shouldKeepAlive res),
    List.append_assoc]
  rfl

/-- Between the status line and the empty line a sent response has the lines of its own fields and,
if it is added, one for the content length. -/
theorem fieldLines_sent_perm (a : Answer) (request : AsioServerRequest) :
    ((headFields (a.sent request)).flatMap fun field ↦ linesOf (fieldText field)).Perm
      ((if a.AddsContentLength then [fieldText (contentLength, decimal a.payload.length)]
        else []) ++ a.ownLines) := by
  have hfields := (headFields_sent_perm a request).flatMap_right
    fun field ↦ linesOf (fieldText field)
  rw [List.flatMap_append] at hfields
  split_ifs at hfields ⊢ with hadds
  · rwa [List.flatMap_singleton,
      linesOf_eq_self (not_lineBreak_contentLength a.payload.length)] at hfields
  · exact hfields

/-- The content lengths of a head: the own ones, and the one that is added. -/
theorem contentLengths_head_perm (shouldKeepAlive : Bool) (a : Answer)
    (request : AsioServerRequest) :
    (contentLengths (linesOf (headBytes shouldKeepAlive (a.sent request)))).Perm
      ((if a.AddsContentLength then [decimal a.payload.length] else []) ++
        contentLengths a.ownLines) := by
  have hlines := contentLengths_perm (fieldLines_sent_perm a request)
  have hempty : contentLengths [[], []] = [] := rfl
  rw [linesOf_headBytes, contentLengths_append, hempty, List.append_nil, ← List.singleton_append,
    contentLengths_append, contentLengths_statusText, List.nil_append]
  rw [contentLengths_append] at hlines
  split_ifs at hlines ⊢ with hadds
  · rwa [contentLengths_added] at hlines
  · exact hlines

/-! ### What is emitted -/

/-- A turn of the loop of `on_write` for the response of a stream comes to its end, at any place in
a buffer: the bytes of the head that it writes, and by how much the offset advances behind them. -/
def Emits (shouldKeepAlive : Bool) (strm : Stream) (head : Bytes) (advance : ℤ) : Prop :=
  ∃ (fuel : ℕ) (out headed final : Output), 0 ≤ out.dataLen ∧ out.dataLen ≤ out.buffer.length ∧
    out.writeHead shouldKeepAlive strm.response = .ok headed ∧
    respond fuel shouldKeepAlive strm out = .ok final ∧
    headed.written = out.written ++ head ∧ final.dataLen = headed.dataLen + advance

/-- The head that is emitted consists of the lines of its fields. -/
theorem Emits.head_eq {shouldKeepAlive : Bool} {strm : Stream} {head : Bytes} {advance : ℤ}
    (h : Emits shouldKeepAlive strm head advance) :
    head = headBytes shouldKeepAlive strm.response := by
  obtain ⟨fuel, out, headed, final, -, hle, hhead, -, hwritten, -⟩ := h
  exact List.append_cancel_left (hwritten.symm.trans (Output.written_writeHead hle hhead).1)

/-- Where the head of a response ends in the buffer. -/
theorem headed_of_writeHead {shouldKeepAlive : Bool} {res : AsioServerResponse}
    {out headed : Output} (h : out.writeHead shouldKeepAlive res = .ok headed) :
    0 < headed.dataLen ∧ headed.dataLen ≤ headed.buffer.length ∧
      headed.dataLen = out.dataLen + (headBytes shouldKeepAlive res).length := by
  have hhead := Output.writeHead_eq shouldKeepAlive res out
  split_ifs at hhead with hfits
  · obtain ⟨next, hnext, hbuffer, hdataLen⟩ := hhead
    obtain rfl := Except.ok.inj (hnext.symm.trans h)
    obtain ⟨hnonneg, hle⟩ := Http1.le_of_headFits hfits (Http1.headSizes_ne_nil _ _)
    have hpos := Http1.headSizes_sum_pos shouldKeepAlive res
    rw [Http1.length_headBytes, hbuffer, hdataLen]
    exact ⟨by omega, hle, rfl⟩
  · exact absurd (hhead.symm.trans h) (by simp)

/-- A body whose writing comes to its end was drawn. -/
theorem eq_drained_of_describes {run : ℕ → Except Http1.WriteFault Output} {outcome : BodyOutcome}
    (h : outcome.Describes run) {fuel : ℕ} {final : Output} (hrun : run fuel = .ok final) :
    outcome = .drained final.buffer.length final.dataLen := by
  cases outcome with
  | drained size dataLen =>
    obtain ⟨written, rfl, rfl, hsettles⟩ := h
    rcases hsettles.eq_or_eq fuel with herror | hok
    · exact absurd (herror.symm.trans hrun) (by simp)
    · rw [Except.ok.inj (hok.symm.trans hrun)]
  | stalls => exact absurd ((h fuel).symm.trans hrun) (by simp)
  | corrupts =>
    rcases Settles.eq_or_eq h fuel with herror | herror
    · exact absurd (herror.symm.trans hrun) (by simp)
    · exact absurd (herror.symm.trans hrun) (by simp)
  | pastEnd =>
    rcases Settles.eq_or_eq h fuel with herror | herror
    · exact absurd (herror.symm.trans hrun) (by simp)
    · exact absurd (herror.symm.trans hrun) (by simp)

/-- A payload of less than `2 ^ 31` bytes that is drawn advances the offset by its length. -/
theorem dataLen_of_drained {size offset left finalSize : ℕ} {dataLen : ℤ} (hle : offset ≤ size)
    (hshort : left < 2 ^ 31) (h : bodyOutcome size offset left = .drained finalSize dataLen) :
    dataLen = offset + left := by
  have hexact : ∀ n : ℕ, n ≤ left → toInt32 n = n := fun n hn ↦
    Http1.AsioServerResponse.toInt32_eq_self_iff.mpr (by omega)
  unfold bodyOutcome at h
  dsimp only at h
  split_ifs at h with hfits hsmall hdouble hstalls hneg hagain
  · rw [← (BodyOutcome.drained.inj h).2, hexact left (Nat.le_refl left)]
  · rw [← (BodyOutcome.drained.inj h).2]
  · have hfilled := hexact (size - offset) (by omega)
    exact absurd (by omega) hstalls

/-- A payload of less than `2 ^ 31` bytes is followed by nothing else. -/
theorem Emits.advance_eq {shouldKeepAlive : Bool} {strm : Stream} {head payload : Bytes}
    {advance : ℤ} (h : Emits shouldKeepAlive strm head advance)
    (hexpect : expectResponseBody strm.request.method strm.response.statusCode = true)
    (hgenerator : strm.response.generator = some (stringGenerator payload))
    (hshort : payload.length < 2 ^ 31) : advance = payload.length := by
  obtain ⟨fuel, out, headed, final, -, -, hhead, hrespond, -, hdataLen⟩ := h
  obtain ⟨hpos, hle, -⟩ := headed_of_writeHead hhead
  rw [Http1.respond_of_writeHead hhead, if_pos hexpect] at hrespond
  have hbody := @Output.writeBody_of_outcome strm.response headed payload headed.dataLen.toNat
    hgenerator (by omega) (by omega) (by omega)
  have hend := dataLen_of_drained (by omega) hshort (eq_drained_of_describes hbody hrespond)
  omega

/-- With enough room a response is emitted, and the offset advances by what the `int` makes of the
length of its body. -/
theorem exists_emits {strm : Stream} (hended : strm.Ended) (shouldKeepAlive : Bool) :
    Emits shouldKeepAlive strm (headBytes shouldKeepAlive strm.response)
      (toInt32 strm.body.length) := by
  obtain ⟨final, hrespond, -, hdataLen, -⟩ := @Http1.respond_of_room shouldKeepAlive strm
    ⟨List.replicate (responseBytes shouldKeepAlive strm).length 0, 0⟩ hended (Int.le_refl 0)
    (by simp) 0
  cases hhead : Output.writeHead shouldKeepAlive strm.response
      ⟨List.replicate (responseBytes shouldKeepAlive strm).length 0, 0⟩ with
  | error fault =>
    rw [respond, hhead] at hrespond
    exact absurd hrespond (by simp [bind, Except.bind])
  | ok headed =>
    obtain ⟨-, -, hheaded⟩ := headed_of_writeHead hhead
    exact ⟨0, _, headed, final, Int.le_refl 0, Int.natCast_nonneg _, hhead, hrespond,
      (Output.written_writeHead (Int.natCast_nonneg _) hhead).1, by rw [hdataLen, hheaded]⟩

/-- So is every sent response. -/
theorem exists_emits_sent (shouldKeepAlive : Bool) (request : AsioServerRequest) (a : Answer) :
    Emits shouldKeepAlive ⟨request, a.sent request⟩ (headBytes shouldKeepAlive (a.sent request))
      (toInt32
        (if expectResponseBody request.method a.statusCode then a.payload else []).length) := by
  have hemits := exists_emits (@ended_of_sent ⟨request, a.sent request⟩ a rfl) shouldKeepAlive
  rwa [@body_of_sent ⟨request, a.sent request⟩ a rfl] at hemits

/-! ### Delimiting the response -/

/-- Whenever the response is emitted, its head has at most one content length; and when the
connection is kept alive, a body is expected and the response has no content length of its own, the
first empty line is the end of the head, and in front of it there is exactly one content length, the
number of the bytes that follow. With the status 0 nothing is sent. -/
def SelfDelimiting (shouldKeepAlive : Bool) (request : AsioServerRequest) (a : Answer) : Prop :=
  a.statusCode ≠ 0 → ∀ head advance,
    Emits shouldKeepAlive ⟨request, a.sent request⟩ head advance →
      (contentLengths (linesOf head)).length ≤ 1 ∧
        (shouldKeepAlive = true → expectResponseBody request.method a.statusCode = true →
          a.ownFields.filter isContentLength = [] →
            ∃ (lines : List Bytes) (n : ℕ), linesOf head = lines ++ [[], []] ∧ [] ∉ lines ∧
              contentLengths lines = [decimal n] ∧ advance = n)

/-- Only the own fields may make an empty line in front of the end of a head. -/
theorem nil_mem_fieldLines_iff (a : Answer) (request : AsioServerRequest) :
    [] ∈ (headFields (a.sent request)).flatMap (fun field ↦ linesOf (fieldText field)) ↔
      [] ∈ a.ownLines := by
  rw [(fieldLines_sent_perm a request).mem_iff, List.mem_append]
  refine or_iff_right fun hmem ↦ ?_
  split_ifs at hmem
  · exact absurd (List.mem_singleton.mp hmem) (by simp [fieldText, contentLength, ascii])
  · exact absurd hmem List.not_mem_nil

/-- The lines up to the first empty line, when it is the end of the head. -/
theorem exists_lines_iff (shouldKeepAlive : Bool) (a : Answer) (request : AsioServerRequest)
    (lengths : List Bytes) :
    (∃ lines, linesOf (headBytes shouldKeepAlive (a.sent request)) = lines ++ [[], []] ∧
        [] ∉ lines ∧ contentLengths lines = lengths) ↔
      [] ∉ a.ownLines ∧
        contentLengths (linesOf (headBytes shouldKeepAlive (a.sent request))) = lengths := by
  have hstatus : statusText shouldKeepAlive (a.sent request) ≠ [] := by
    cases shouldKeepAlive <;> simp [statusText, ascii]
  have hend : contentLengths [[], []] = [] := rfl
  rw [← nil_mem_fieldLines_iff a request, linesOf_headBytes]
  constructor
  · rintro ⟨lines, hlines, hnot, hlengths⟩
    obtain rfl := List.append_cancel_right hlines
    rw [contentLengths_append, hend, List.append_nil]
    exact ⟨fun hmem ↦ hnot (List.mem_cons_of_mem _ hmem), hlengths⟩
  · rintro ⟨hnot, hlengths⟩
    rw [contentLengths_append, hend, List.append_nil] at hlengths
    exact ⟨_, rfl, List.not_mem_cons_of_ne_of_not_mem hstatus.symm hnot, hlengths⟩

/-- How many content lengths a head has. -/
theorem length_contentLengths_head_le_iff (shouldKeepAlive : Bool) (a : Answer)
    (request : AsioServerRequest) :
    (contentLengths (linesOf (headBytes shouldKeepAlive (a.sent request)))).length ≤ 1 ↔
      (contentLengths a.ownLines).length ≤ 1 ∧
        (a.AddsContentLength → contentLengths a.ownLines = []) := by
  rw [(contentLengths_head_perm shouldKeepAlive a request).length_eq, List.length_append]
  by_cases hadds : a.AddsContentLength
  · rw [if_pos hadds, List.length_singleton, ← List.length_eq_zero_iff]
    exact ⟨fun h ↦ ⟨by omega, fun _ ↦ by omega⟩, fun h ↦ by have := h.2 hadds; omega⟩
  · rw [if_neg hadds, List.length_nil, Nat.zero_add]
    exact ⟨fun h ↦ ⟨h, fun hadds' ↦ absurd hadds' hadds⟩, fun h ↦ h.1⟩

/-- Without a content length of its own, one is added to a response with a payload. -/
theorem addsContentLength_of_ne_nil {a : Answer} (hown : a.ownFields.filter isContentLength = [])
    (hpayload : a.payload ≠ []) : a.AddsContentLength := by
  refine ⟨hpayload, fun field hfield hname ↦ List.filter_eq_nil_iff.mp hown field hfield ?_⟩
  unfold isContentLength
  rw [hname]
  decide

theorem decimal_injective {m n : ℕ} (h : decimal m = decimal n) : m = n := by
  rw [← digitsValue_decimal m, h, digitsValue_decimal]

/-- The one content length of a head, where the response has none of its own: it is the length of
the payload when the payload is not empty, and what is among the own lines when it is. -/
theorem contentLengths_head_eq_iff (shouldKeepAlive : Bool) {a : Answer}
    (request : AsioServerRequest) (hown : a.ownFields.filter isContentLength = [])
    (hadded : a.AddsContentLength → contentLengths a.ownLines = []) (n : ℕ) :
    contentLengths (linesOf (headBytes shouldKeepAlive (a.sent request))) = [decimal n] ↔
      if a.payload = [] then contentLengths a.ownLines = [decimal n] else n = a.payload.length := by
  have hperm := contentLengths_head_perm shouldKeepAlive a request
  by_cases hpayload : a.payload = []
  · rw [if_neg fun hadds : a.AddsContentLength ↦ hadds.1 hpayload, List.nil_append] at hperm
    rw [if_pos hpayload]
    refine ⟨fun h ↦ ?_, fun h ↦ ?_⟩
    · rw [h] at hperm
      exact List.perm_singleton.mp hperm.symm
    · rw [h] at hperm
      exact List.perm_singleton.mp hperm
  · have hadds := addsContentLength_of_ne_nil hown hpayload
    rw [if_pos hadds, hadded hadds, List.append_nil] at hperm
    rw [if_neg hpayload, List.perm_singleton.mp hperm]
    exact ⟨fun h ↦ (decimal_injective (List.singleton_inj.mp h)).symm, fun h ↦ by rw [h]⟩

/-- **When a response delimits itself.** A response that is sent is delimited by its head, as it is
emitted, exactly when the lines of its own fields have at most one content length, and none if one
is added; and where one is due, these lines contain no empty line, the payload is shorter than
`2 ^ 31` bytes, and if it is empty the only content length among the lines is 0. -/
theorem selfDelimiting_iff (shouldKeepAlive : Bool) (request : AsioServerRequest) (a : Answer) :
    SelfDelimiting shouldKeepAlive request a ↔ a.statusCode = 0 ∨
      (contentLengths a.ownLines).length ≤ 1 ∧
        (a.AddsContentLength → contentLengths a.ownLines = []) ∧
        (shouldKeepAlive = true → expectResponseBody request.method a.statusCode = true →
          a.ownFields.filter isContentLength = [] →
            [] ∉ a.ownLines ∧ a.payload.length < 2 ^ 31 ∧
              (a.payload = [] → contentLengths a.ownLines = [decimal 0])) := by
  have hcode : (a.sent request).statusCode = a.statusCode := by rw [sent_eq]
  have hcount := length_contentLengths_head_le_iff shouldKeepAlive a request
  unfold SelfDelimiting
  refine ⟨fun h ↦ ?_, ?_⟩
  · by_cases hstatus : a.statusCode = 0
    · exact Or.inl hstatus
    obtain ⟨hone, hdelimited⟩ := h hstatus _ _ (exists_emits_sent shouldKeepAlive request a)
    obtain ⟨hown, hadded⟩ := hcount.mp hone
    refine Or.inr ⟨hown, hadded, fun halive hexpect hnone ↦ ?_⟩
    obtain ⟨lines, n, hlines, hnot, hlengths, hadvance⟩ := hdelimited halive hexpect hnone
    obtain ⟨hnil, hhead⟩ := (exists_lines_iff shouldKeepAlive a request [decimal n]).mp
      ⟨lines, hlines, hnot, hlengths⟩
    rw [contentLengths_head_eq_iff shouldKeepAlive request hnone hadded] at hhead
    rw [if_pos hexpect] at hadvance
    by_cases hpayload : a.payload = []
    · have hzero : toInt32 (0 : ℕ) = 0 :=
        Http1.AsioServerResponse.toInt32_eq_self_iff.mpr (by omega)
      rw [hpayload, List.length_nil, hzero] at hadvance
      rw [if_pos hpayload, Int.natCast_eq_zero.mp hadvance.symm] at hhead
      exact ⟨hnil, by rw [hpayload]; exact Nat.two_pow_pos 31, fun _ ↦ hhead⟩
    · rw [if_neg hpayload] at hhead
      rw [hhead] at hadvance
      exact ⟨hnil, Http1.AsioServerResponse.toInt32_eq_self_iff.mp hadvance,
        fun hempty ↦ absurd hempty hpayload⟩
  · rintro (hstatus | ⟨hown, hadded, hdelimited⟩) hsent head advance hemitted
    · exact absurd hstatus hsent
    obtain rfl := hemitted.head_eq
    refine ⟨hcount.mpr ⟨hown, hadded⟩, fun halive hexpect hnone ↦ ?_⟩
    obtain ⟨hnil, hshort, hempty⟩ := hdelimited halive hexpect hnone
    have hhead : contentLengths (linesOf (headBytes shouldKeepAlive (a.sent request))) =
        [decimal a.payload.length] := by
      rw [contentLengths_head_eq_iff shouldKeepAlive request hnone hadded]
      split_ifs with hpayload
      · rw [hempty hpayload, hpayload, List.length_nil]
      · rfl
    obtain ⟨lines, hlines, hnot, hlengths⟩ :=
      (exists_lines_iff shouldKeepAlive a request _).mpr ⟨hnil, hhead⟩
    refine ⟨lines, a.payload.length, hlines, hnot, hlengths, ?_⟩
    exact hemitted.advance_eq (hcode.symm ▸ hexpect) (by rw [sent_eq, if_pos hexpect]) hshort

/-- An empty response does not say where it ends, and a response with a content length of its own in
mixed case says it twice. -/
theorem not_selfDelimiting_emptyPayload :
    ¬ SelfDelimiting true AsioServerRequest.empty (answerOf [] []) ∧
      ¬ SelfDelimiting true AsioServerRequest.empty
        (answerOf [(ascii "Content-Length", ascii "2")] (ascii "ok")) := by
  refine ⟨fun h ↦ ?_, fun h ↦ ?_⟩
  · obtain ⟨-, hdelimited⟩ := h (by decide) _ _ (exists_emits_sent true _ _)
    obtain ⟨lines, n, hlines, hnot, hlengths, -⟩ := hdelimited rfl rfl rfl
    obtain ⟨-, hhead⟩ := (exists_lines_iff true (answerOf [] []) AsioServerRequest.empty _).mp
      ⟨lines, hlines, hnot, hlengths⟩
    rw [contentLengths_head_eq_iff true AsioServerRequest.empty rfl (fun _ ↦ rfl)] at hhead
    exact absurd hhead (List.cons_ne_nil _ _).symm
  · obtain ⟨hone, -⟩ := h (by decide) _ _ (exists_emits_sent true _ _)
    exact absurd ((length_contentLengths_head_le_iff true _ AsioServerRequest.empty).mp hone)
      (by decide)

end Maock.Worker
