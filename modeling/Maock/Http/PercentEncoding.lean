import Mathlib.Tactic.Common
import Maock.Foundation.Bytes

/-!
# Percent-encoding

`percent_encode_path` and `percent_decode`. Decoding takes an encoded path back
(`percentDecode_percentEncodePath`), so that encoding is injective, and an encoded path has no `?`.
-/

set_option autoImplicit false
set_option relaxedAutoImplicit false

namespace Maock.Http

open Foundation Foundation.Bytes

/-- `is_alpha(c)` of the utilities. -/
def isLetter (c : UInt8) : Bool :=
  (char 'A' ≤ c && c ≤ char 'Z') || (char 'a' ≤ c && c ≤ char 'z')

/-- `is_digit(c)`. -/
def isDigit (c : UInt8) : Bool :=
  char '0' ≤ c && c ≤ char '9'

/-- `is_hex_digit(c)`. -/
def isHexDigit (c : UInt8) : Bool :=
  isDigit c || (char 'A' ≤ c && c ≤ char 'F') || (char 'a' ≤ c && c ≤ char 'f')

/-- `in_rfc3986_unreserved_chars(c)`. -/
def inRfc3986UnreservedChars (c : UInt8) : Bool :=
  isLetter c || isDigit c || (ascii "-._~").contains c

/-- `in_rfc3986_sub_delims(c)`. -/
def inRfc3986SubDelims (c : UInt8) : Bool :=
  (ascii "!$&'()*+,;=").contains c

/-- `hex_to_uint(c)`. -/
def hexToUint (c : UInt8) : ℕ :=
  if c ≤ char '9' then c.toNat - (char '0').toNat
  else if c ≤ char 'Z' then c.toNat - (char 'A').toNat + 10
  else if c ≤ char 'z' then c.toNat - (char 'a').toNat + 10
  else 256

/-- `UPPER_XDIGITS[n]`. -/
def upperXdigit (n : UInt8) : UInt8 :=
  (ascii "0123456789ABCDEF").getD n.toNat 0

/-- A byte that `percent_encode_path` leaves as it is. -/
def staysInPath (c : UInt8) : Bool :=
  inRfc3986UnreservedChars c || inRfc3986SubDelims c || c == char '/'

/-- What `percent_encode_path` makes of one byte. -/
def percentEncodeByte (c : UInt8) : Bytes :=
  if staysInPath c then [c]
  else [char '%', upperXdigit ((c >>> 4) &&& 0x0f), upperXdigit (c &&& 0x0f)]

/-- `percent_encode_path(s)`. -/
def percentEncodePath (s : Bytes) : Bytes :=
  s.flatMap percentEncodeByte

/-- `percent_decode(first, last)`: a `%` without two hexadecimal digits behind it stays. -/
def percentDecode : Bytes → Bytes
  | [] => []
  | c :: hi :: lo :: rest =>
    if c = char '%' ∧ isHexDigit hi ∧ isHexDigit lo then
      UInt8.ofNat (hexToUint hi <<< 4 + hexToUint lo) :: percentDecode rest
    else c :: percentDecode (hi :: lo :: rest)
  | c :: rest => c :: percentDecode rest

/-! ### Decoding, byte by byte -/

@[simp] theorem percentDecode_nil : percentDecode [] = [] := rfl

/-- A byte other than `%` stands for itself. -/
theorem percentDecode_cons_of_ne {c : UInt8} (hc : c ≠ char '%') (rest : Bytes) :
    percentDecode (c :: rest) = c :: percentDecode rest := by
  match rest with
  | [] => rfl
  | [_] => rfl
  | _ :: _ :: _ => rw [percentDecode, if_neg fun h ↦ hc h.1]

/-- An escape stands for the byte that its digits spell. -/
theorem percentDecode_escape {hi lo : UInt8} (hhi : isHexDigit hi = true)
    (hlo : isHexDigit lo = true) (rest : Bytes) :
    percentDecode (char '%' :: hi :: lo :: rest) =
      UInt8.ofNat (hexToUint hi <<< 4 + hexToUint lo) :: percentDecode rest := by
  rw [percentDecode, if_pos ⟨rfl, hhi, hlo⟩]

/-! ### Encoding -/

/-- The two digits of an escape are hexadecimal and spell the byte again. -/
theorem upperXdigit_spells : ∀ c : UInt8,
    isHexDigit (upperXdigit ((c >>> 4) &&& 0x0f)) = true ∧
      isHexDigit (upperXdigit (c &&& 0x0f)) = true ∧
      UInt8.ofNat (hexToUint (upperXdigit ((c >>> 4) &&& 0x0f)) <<< 4 +
        hexToUint (upperXdigit (c &&& 0x0f))) = c :=
  forall_byte (by decide +kernel)

/-- Neither `%` nor `?` stays in a path. -/
theorem ne_of_staysInPath {c : UInt8} (hc : staysInPath c = true) :
    c ≠ char '%' ∧ c ≠ char '?' := by
  constructor
  · rintro rfl
    exact absurd hc (by decide)
  · rintro rfl
    exact absurd hc (by decide)

/-- Decoding the encoding of a byte gives the byte. -/
theorem percentDecode_percentEncodeByte_append (c : UInt8) (rest : Bytes) :
    percentDecode (percentEncodeByte c ++ rest) = c :: percentDecode rest := by
  unfold percentEncodeByte
  split_ifs with hc
  · exact percentDecode_cons_of_ne (ne_of_staysInPath hc).1 rest
  · obtain ⟨hhi, hlo, hspells⟩ := upperXdigit_spells c
    show percentDecode (char '%' :: _ :: _ :: rest) = _
    rw [percentDecode_escape hhi hlo, hspells]

/-- **Decoding takes the encoding of a path back.** -/
theorem percentDecode_percentEncodePath (s : Bytes) :
    percentDecode (percentEncodePath s) = s := by
  induction s with
  | nil => rfl
  | cons c rest ih =>
    rw [percentEncodePath, List.flatMap_cons, percentDecode_percentEncodeByte_append]
    exact congrArg (c :: ·) ih

/-- Different paths have different encodings. -/
theorem percentEncodePath_injective {s s' : Bytes}
    (h : percentEncodePath s = percentEncodePath s') : s = s' := by
  rw [← percentDecode_percentEncodePath s, h, percentDecode_percentEncodePath]

/-- An encoded path has no `?`. -/
theorem question_notMem_percentEncodePath (s : Bytes) : char '?' ∉ percentEncodePath s := by
  have hdigits : ∀ c : UInt8, char '?' ≠ upperXdigit ((c >>> 4) &&& 0x0f) ∧
      char '?' ≠ upperXdigit (c &&& 0x0f) :=
    forall_byte (by decide +kernel)
  intro hmem
  obtain ⟨c, -, hc⟩ := List.mem_flatMap.mp hmem
  unfold percentEncodeByte at hc
  split_ifs at hc with hstays
  · exact (ne_of_staysInPath hstays).2 (List.mem_singleton.mp hc).symm
  · rcases List.mem_cons.mp hc with h | hc
    · exact absurd h (by decide)
    · rcases List.mem_cons.mp hc with h | hc
      · exact (hdigits c).1 h
      · exact (hdigits c).2 (List.mem_singleton.mp hc)

end Maock.Http
