import Maock.Foundation.Lines
import Maock.Http1.WriteSizes

/-!
# The header fields of a head

The head of a response as a list of named fields (`headFields`), and as the bytes that `on_write`
puts into the buffer for them (`headBytes_eq`, `written_writeHead`).
-/

set_option autoImplicit false
set_option relaxedAutoImplicit false

namespace Maock.Http1

open Foundation Foundation.OrderedContainer Foundation.Bytes Foundation.Lines Http
open AsioServerResponse

/-! ### Heads -/

/-- The header fields of a head, in the order in which `on_write` writes them. -/
def headFields (res : AsioServerResponse) : List (Bytes × Bytes) :=
  (if res.header.count (ascii "content-length") = 0 ∧ res.payloadSize ≠ 0 then
    [(ascii "content-length", decimal res.payloadSize)] else []) ++
    res.header.entries.map fun header ↦ (header.1, header.2.value)

/-- The pieces of the line of a header field. -/
def fieldLine (field : Bytes × Bytes) : List Bytes :=
  [field.1, ascii ":", field.2, crlf]

/-- A head is a status line, a line for each field, and an empty line. -/
theorem headGroups_eq (shouldKeepAlive : Bool) (res : AsioServerResponse) :
    headGroups shouldKeepAlive res =
      statusLine shouldKeepAlive res :: (headFields res).map fieldLine ++ [[crlf]] := by
  unfold headGroups headFields generatedContentLength
  rw [List.map_append, List.map_map]
  split_ifs <;> rfl

/-- The bytes of a head. -/
def headBytes (shouldKeepAlive : Bool) (res : AsioServerResponse) : Bytes :=
  (headGroups shouldKeepAlive res).flatten.flatten

/-- The status line, without its line break. -/
def statusText (shouldKeepAlive : Bool) (res : AsioServerResponse) : Bytes :=
  ascii (if shouldKeepAlive then "HTTP/1.1" else "HTTP/1.0") ++ ascii " " ++
    decimal res.statusCode ++ ascii " " ++ ascii (getReasonPhrase res.statusCode)

/-- The line of a header field, without its line break. -/
def fieldText (field : Bytes × Bytes) : Bytes :=
  field.1 ++ ascii ":" ++ field.2

/-- The parts of a head that `on_write` puts a line break behind. -/
def headParts (shouldKeepAlive : Bool) (res : AsioServerResponse) : List Bytes :=
  statusText shouldKeepAlive res :: (headFields res).map fieldText ++ [[]]

theorem headBytes_eq (shouldKeepAlive : Bool) (res : AsioServerResponse) :
    headBytes shouldKeepAlive res = joined (headParts shouldKeepAlive res) := by
  have hfields : ∀ fields : List (Bytes × Bytes), (fields.map fieldLine).flatten.flatten =
      joined (fields.map fieldText) := by
    intro fields
    induction fields with
    | nil => rfl
    | cons field rest ih =>
      rw [List.map_cons, List.flatten_cons, List.flatten_append, ih]
      simp [fieldLine, fieldText, joined, lineBreak, crlf]
  unfold headBytes headParts
  rw [headGroups_eq, List.cons_append, List.flatten_cons, List.flatten_append, List.flatten_append,
    List.flatten_append, hfields]
  simp [statusLine, statusText, joined, lineBreak, crlf]

/-- The status line contains no line break. -/
theorem not_lineBreak_statusText (shouldKeepAlive : Bool) (res : AsioServerResponse) :
    ¬ lineBreak <:+: statusText shouldKeepAlive res := by
  have hversion : (13 : UInt8) ∉
      ascii (if shouldKeepAlive then "HTTP/1.1" else "HTTP/1.0") := by
    cases shouldKeepAlive <;> decide
  have hdigits : (13 : UInt8) ∉ decimal res.statusCode := fun hmem ↦
    absurd (isDigit_of_mem_decimal hmem) (by decide)
  have hreason : (13 : UInt8) ∉ ascii (getReasonPhrase res.statusCode) := by
    unfold getReasonPhrase
    split <;> decide +kernel
  refine not_lineBreak_of_notMem ?_
  unfold statusText
  simp only [List.mem_append, not_or]
  exact ⟨⟨⟨⟨hversion, by decide⟩, hdigits⟩, by decide⟩, hreason⟩

namespace Output

/-- What has been written to the buffer. -/
def written (out : Output) : Bytes :=
  out.buffer.take out.dataLen.toNat

/-- A copy of a piece writes it behind what has been written. -/
theorem written_copyPiece {out out' : Output} {piece : Bytes}
    (h : out.copyPiece piece = .ok out') :
    out'.written = out.written ++ piece ∧ out'.dataLen ≤ out'.buffer.length := by
  unfold copyPiece at h
  split_ifs at h with hroom
  obtain rfl := Except.ok.inj h
  obtain ⟨hnonneg, hfits⟩ := hroom
  have hlength := @length_overwrite out.buffer piece out.dataLen.toNat (Or.inr (by omega))
  refine ⟨?_, ?_⟩
  · show (overwrite out.buffer out.dataLen.toNat piece).take (out.dataLen + piece.length).toNat = _
    have hsum : (out.dataLen + piece.length).toNat = out.dataLen.toNat + piece.length := by omega
    rw [hsum, take_overwrite (by omega)]
    rfl
  · show out.dataLen + piece.length ≤ (overwrite out.buffer out.dataLen.toNat piece).length
    rw [hlength]
    exact hfits

theorem written_foldlM_copyPiece {pieces : List Bytes} {out out' : Output}
    (hle : out.dataLen ≤ out.buffer.length) (h : pieces.foldlM copyPiece out = .ok out') :
    out'.written = out.written ++ pieces.flatten ∧ out'.dataLen ≤ out'.buffer.length := by
  induction pieces generalizing out with
  | nil =>
    obtain rfl := Except.ok.inj h
    exact ⟨(List.append_nil _).symm, hle⟩
  | cons piece rest ih =>
    rw [List.foldlM_cons] at h
    cases hpiece : out.copyPiece piece with
    | error fault =>
      rw [hpiece] at h
      exact absurd h (by simp [bind, Except.bind])
    | ok next =>
      rw [hpiece] at h
      obtain ⟨hwritten, hnext⟩ := written_copyPiece hpiece
      obtain ⟨hrest, hle'⟩ := ih hnext h
      exact ⟨by rw [hrest, hwritten, List.flatten_cons, List.append_assoc], hle'⟩

/-- A group of pieces is written whether the buffer grows or not. -/
theorem written_writeGroup {pieces : List Bytes} {out out' : Output}
    (hle : out.dataLen ≤ out.buffer.length) (h : out.writeGroup pieces = .ok out') :
    out'.written = out.written ++ pieces.flatten ∧ out'.dataLen ≤ out'.buffer.length := by
  have hgrown : ({ out with
      buffer := incBufferSize (pieces.map List.length).sum out.buffer } : Output).written =
        out.written := by
    unfold written incBufferSize
    split_ifs
    · exact List.take_append_of_le_length (show out.dataLen.toNat ≤ out.buffer.length by omega)
    · rfl
  have hle' : out.dataLen ≤ (incBufferSize (pieces.map List.length).sum out.buffer).length := by
    unfold incBufferSize
    split_ifs
    · rw [List.length_append]
      omega
    · exact hle
  rw [← hgrown]
  exact written_foldlM_copyPiece hle' h

/-- Groups of pieces are written one behind the other. -/
theorem written_foldlM_writeGroup {groups : List (List Bytes)} {out out' : Output}
    (hle : out.dataLen ≤ out.buffer.length) (h : groups.foldlM writeGroup out = .ok out') :
    out'.written = out.written ++ groups.flatten.flatten ∧
      out'.dataLen ≤ out'.buffer.length := by
  induction groups generalizing out with
  | nil =>
    obtain rfl := Except.ok.inj h
    exact ⟨(List.append_nil _).symm, hle⟩
  | cons group rest ih =>
    rw [List.foldlM_cons] at h
    cases hgroup : out.writeGroup group with
    | error fault =>
      rw [hgroup] at h
      exact absurd h (by simp [bind, Except.bind])
    | ok next =>
      rw [hgroup] at h
      obtain ⟨hwritten, hnext⟩ := written_writeGroup hle hgroup
      obtain ⟨hrest, hle'⟩ := ih hnext h
      refine ⟨?_, hle'⟩
      rw [hrest, hwritten, List.flatten_cons, List.flatten_append, List.append_assoc]

/-- `on_write` writes the bytes of the head. -/
theorem written_writeHead {shouldKeepAlive : Bool} {res : AsioServerResponse} {out out' : Output}
    (hle : out.dataLen ≤ out.buffer.length) (h : out.writeHead shouldKeepAlive res = .ok out') :
    out'.written = out.written ++ headBytes shouldKeepAlive res ∧
      out'.dataLen ≤ out'.buffer.length :=
  written_foldlM_writeGroup hle h

end Output

end Maock.Http1
