import Mathlib.Data.List.TakeDrop
import Maock.Answering.Placeholders

/-!
# The substring of an argument

`sub-string-start` and `sub-string-length` of an argument are optional in the configuration. The
schema gives them the defaults 0 and -1. `Schema_Argument()` assigns `substring_start` twice and
`substring_length` not at all, so that an omitted start is -1 and an omitted length is what stood in
the memory of the object.

`documented` is what the schema says about the two properties. `value_eq_documented_iff` says for
every source string when `getValue` cuts it so.
-/

set_option autoImplicit false
set_option relaxedAutoImplicit false

namespace Maock.Answering

open Foundation Foundation.Bytes Matching

variable {Document σ : Type}

/-! ### The properties in the configuration -/

/-- The properties of an argument, `none` where an optional one is omitted. -/
structure ArgumentProperties where
  typeOfValue : Bytes
  valueIdentifier : Option Bytes
  regex : Option Bytes
  subStringStart : Option Int64
  subStringLength : Option Int64

/-- `Schema_Argument()`, where `memory` stood in the place of `substring_length` before. -/
def SchemaArgument.initial (memory : Int64) : SchemaArgument where
  typeOfValue := []
  valueIdentifier := []
  substringStart := -1
  substringLength := memory
  regex := []

/-- The object that the properties are read into, as `staticjson_init` names its members. An omitted
property leaves its member as it is. -/
def SchemaArgument.read (properties : ArgumentProperties) (memory : Int64) : SchemaArgument :=
  let schema := initial memory
  { typeOfValue := properties.typeOfValue
    valueIdentifier := properties.valueIdentifier.getD schema.valueIdentifier
    substringStart := properties.subStringStart.getD schema.substringStart
    substringLength := properties.subStringLength.getD schema.substringLength
    regex := properties.regex.getD schema.regex }

namespace ArgumentProperties

/-- The argument that is made of the properties. -/
def argument (properties : ArgumentProperties) (memory : Int64) : Argument :=
  Argument.ofSchema (SchemaArgument.read properties memory)

/-- The substring that the schema describes, with the defaults that it gives. -/
def documented (properties : ArgumentProperties) (str : Bytes) : Bytes :=
  let start := properties.subStringStart.getD 0
  let length := properties.subStringLength.getD (-1)
  if length = -1 then str.drop start.toNatClampNeg
  else (str.drop start.toNatClampNeg).take length.toNatClampNeg

/-- When a source string of some size is cut as the schema describes. A given start has to lie in
the string, and an omitted length must by chance reach to its end. With an omitted start nothing is
cut at all. -/
def CutsAsDocumented (properties : ArgumentProperties) (memory : Int64) (size : ℕ) : Prop :=
  match properties.subStringStart, properties.subStringLength with
  | some start, some _ => size = 0 ∨ start.toNatClampNeg < size
  | some start, none =>
    size = 0 ∨ start.toNatClampNeg < size ∧
      size - start.toNatClampNeg ≤ memory.toUInt64.toNat
  | none, some length => length = -1 ∨ size ≤ length.toNatClampNeg
  | none, none => True

instance (properties : ArgumentProperties) (memory : Int64) (size : ℕ) :
    Decidable (properties.CutsAsDocumented memory size) := by
  unfold CutsAsDocumented
  split <;> infer_instance

end ArgumentProperties

/-! ### What the code cuts -/

namespace Argument

theorem nonneg_of_ne_neg_one {n : Int64} (hle : -1 ≤ n) (hne : n ≠ -1) : 0 ≤ n := by
  have hint : n.toInt ≠ -1 := fun h ↦ hne (Int64.toInt_inj.mp h)
  rw [Int64.le_iff_toInt_le] at hle ⊢
  rw [show (-1 : Int64).toInt = -1 from rfl] at hle
  rw [Int64.toInt_zero]
  omega

theorem toNat_toUInt64_neg_one : (-1 : Int64).toUInt64.toNat = 2 ^ 64 - 1 := by
  decide

/-- A start that is negative, read as an unsigned number, or behind the end cuts nothing. -/
theorem substring_of_le {arg : Argument} {str : Bytes}
    (h : str.length ≤ arg.substringStart.toUInt64.toNat) : arg.substring str = str :=
  if_neg fun hcut ↦ absurd hcut.2 (Nat.not_lt.mpr h)

/-- A start in the string cuts there, also where the condition leaves the whole string. -/
theorem substring_of_lt {arg : Argument} {str : Bytes} (hsize : str.length < 2 ^ 64)
    (hstart : 0 ≤ arg.substringStart) (h : arg.substringStart.toNatClampNeg < str.length) :
    arg.substring str = (str.drop arg.substringStart.toNatClampNeg).take
      arg.substringLength.toUInt64.toNat := by
  rw [← Int64.toNat_toUInt64_of_le hstart] at h ⊢
  unfold substring
  split_ifs with hcut
  · rfl
  · obtain ⟨hnotPos, hlength⟩ := not_or.mp fun hor ↦ hcut ⟨hor, h⟩
    have hzero : arg.substringStart = 0 := Int64.le_antisymm (Int64.not_lt.mp hnotPos) hstart
    rw [hzero, not_not.mp hlength, toNat_toUInt64_neg_one]
    exact (List.take_of_length_le (Nat.le_sub_one_of_lt hsize)).symm

end Argument

/-! ### The schema and the code -/

namespace ArgumentProperties

variable {properties : ArgumentProperties} {memory : Int64} {str : Bytes}

/-- With an omitted start the whole string is the substring. -/
theorem substring_argument_of_none (hsize : str.length < 2 ^ 64)
    (hstart : properties.subStringStart = none) :
    (properties.argument memory).substring str = str := by
  refine Argument.substring_of_le ?_
  have hmember : (properties.argument memory).substringStart = -1 := by
    simp [argument, Argument.ofSchema, SchemaArgument.read, SchemaArgument.initial, hstart]
  rw [hmember, Argument.toNat_toUInt64_neg_one]
  exact Nat.le_sub_one_of_lt hsize

/-- A given start behind the end leaves the whole string. -/
theorem substring_argument_of_le {start : Int64} (hnonneg : 0 ≤ start)
    (hstart : properties.subStringStart = some start) (hle : str.length ≤ start.toNatClampNeg) :
    (properties.argument memory).substring str = str := by
  refine Argument.substring_of_le ?_
  have hmember : (properties.argument memory).substringStart = start := by
    simp [argument, Argument.ofSchema, SchemaArgument.read, hstart]
  rw [hmember, Int64.toNat_toUInt64_of_le hnonneg]
  exact hle

/-- A given start in the string is where the substring begins. -/
theorem substring_argument_of_lt {start : Int64} (hnonneg : 0 ≤ start)
    (hsize : str.length < 2 ^ 64) (hstart : properties.subStringStart = some start)
    (hlt : start.toNatClampNeg < str.length) :
    (properties.argument memory).substring str = (str.drop start.toNatClampNeg).take
      (properties.subStringLength.getD memory).toUInt64.toNat := by
  have hmember : (properties.argument memory).substringStart = start := by
    simp [argument, Argument.ofSchema, SchemaArgument.read, hstart]
  have hcut := @Argument.substring_of_lt (properties.argument memory) str hsize
    (hmember ▸ hnonneg) (hmember ▸ hlt)
  rwa [hmember] at hcut

/-- With an omitted start nothing is cut, which is right when the length asks for all of it. -/
theorem substring_eq_documented_iff_of_none (hsize : str.length < 2 ^ 64)
    (hstart : properties.subStringStart = none) :
    (properties.argument memory).substring str = properties.documented str ↔
      properties.CutsAsDocumented memory str.length := by
  rw [substring_argument_of_none hsize hstart]
  unfold documented CutsAsDocumented
  rw [hstart]
  cases properties.subStringLength with
  | none => simp
  | some length =>
    by_cases hall : length = -1
    · simp [hall]
    · simp only [Option.getD_some, Option.getD_none, hall, if_false, false_or]
      rw [eq_comm, ← List.take_eq_self_iff]
      rfl

/-- With a given start in the string it is the length that decides. -/
theorem substring_eq_documented_iff_of_lt {start : Int64} (hnonneg : 0 ≤ start)
    (hlength : ∀ length ∈ properties.subStringLength, -1 ≤ length)
    (hsize : str.length < 2 ^ 64) (hstart : properties.subStringStart = some start)
    (hlt : start.toNatClampNeg < str.length) :
    (properties.argument memory).substring str = properties.documented str ↔
      properties.CutsAsDocumented memory str.length := by
  rw [substring_argument_of_lt hnonneg hsize hstart hlt]
  unfold documented CutsAsDocumented
  rw [hstart]
  cases hcount : properties.subStringLength with
  | none =>
    have hne : str.length ≠ 0 := by omega
    simp [hlt, hne, List.take_eq_self_iff]
  | some length =>
    refine iff_of_true ?_ (Or.inr hlt)
    by_cases hall : length = -1
    · subst hall
      rw [Option.getD_some, Argument.toNat_toUInt64_neg_one]
      refine List.take_of_length_le ?_
      rw [List.length_drop]
      omega
    · have hpos := Argument.nonneg_of_ne_neg_one (hlength length hcount) hall
      simp [hall, Int64.toNat_toUInt64_of_le hpos]

/-- With a given start behind the end nothing is left of the string, but all of it is returned. -/
theorem substring_eq_documented_iff_of_le {start : Int64} (hnonneg : 0 ≤ start)
    (hstart : properties.subStringStart = some start) (hle : str.length ≤ start.toNatClampNeg) :
    (properties.argument memory).substring str = properties.documented str ↔
      properties.CutsAsDocumented memory str.length := by
  rw [substring_argument_of_le hnonneg hstart hle]
  unfold documented CutsAsDocumented
  rw [hstart]
  have hnothing : str.drop start.toNatClampNeg = [] := List.drop_eq_nil_of_le hle
  have houtside : ¬ start.toNatClampNeg < str.length := Nat.not_lt.mpr hle
  cases properties.subStringLength with
  | none => simp [hnothing, houtside]
  | some length => simp [hnothing, houtside]

theorem substring_argument_eq_documented_iff (hsize : str.length < 2 ^ 64)
    (hstart : ∀ start ∈ properties.subStringStart, 0 ≤ start)
    (hlength : ∀ length ∈ properties.subStringLength, -1 ≤ length) :
    (properties.argument memory).substring str = properties.documented str ↔
      properties.CutsAsDocumented memory str.length := by
  cases hgiven : properties.subStringStart with
  | none => exact substring_eq_documented_iff_of_none hsize hgiven
  | some start =>
    have hnonneg := hstart start hgiven
    by_cases hinside : start.toNatClampNeg < str.length
    · exact substring_eq_documented_iff_of_lt hnonneg hlength hsize hgiven hinside
    · exact substring_eq_documented_iff_of_le hnonneg hgiven (Nat.not_lt.mp hinside)

/-- The string that the value of the argument is cut from. -/
def source (s : Surroundings Document σ) (properties : ArgumentProperties) (memory : Int64)
    (state : RequestMessage Document × σ) : Bytes :=
  (((properties.argument memory).subject s).run state).1

/-- The value of the argument. -/
def value (s : Surroundings Document σ) (properties : ArgumentProperties) (memory : Int64)
    (state : RequestMessage Document × σ) : Bytes :=
  (((properties.argument memory).getValue s).run state).1

/-- Without a regular expression only the substring is taken. -/
theorem value_eq_substring {s : Surroundings Document σ} (hregex : properties.regex.getD [] = [])
    (state : RequestMessage Document × σ) :
    properties.value s memory state =
      (properties.argument memory).substring (properties.source s memory state) := by
  have hnone : (properties.argument memory).regex = none := if_pos hregex
  have hsearched (str : Bytes) : (properties.argument memory).searched s str = str := by
    rw [Argument.searched, hnone]
  exact congrArg (properties.argument memory).substring (hsearched _)

/-- **The documented substring.** `getValue` cuts its source string as the schema describes exactly
when the condition `CutsAsDocumented` holds. The length of a string is a `size_t`. -/
theorem value_eq_documented_iff (s : Surroundings Document σ) (properties : ArgumentProperties)
    (memory : Int64) (state : RequestMessage Document × σ)
    (hregex : properties.regex.getD [] = [])
    (hstart : ∀ start ∈ properties.subStringStart, 0 ≤ start)
    (hlength : ∀ length ∈ properties.subStringLength, -1 ≤ length)
    (hsize : (properties.source s memory state).length < 2 ^ 64) :
    properties.value s memory state = properties.documented (properties.source s memory state) ↔
      properties.CutsAsDocumented memory (properties.source s memory state).length := by
  rw [value_eq_substring hregex]
  exact substring_argument_eq_documented_iff hsize hstart hlength

/-- An argument with a part of the raw payload of the request as its value. -/
def rawPayloadPart (start length : Option Int64) : ArgumentProperties where
  typeOfValue := ascii "RawPayload"
  valueIdentifier := none
  regex := none
  subStringStart := start
  subStringLength := length

theorem value_rawPayloadPart_tail :
    (rawPayloadPart (some 2) (some 9)).value repeatingLibraries 0 (taggingMessage, ()) =
      ascii "$VAR" :=
  (value_eq_documented_iff repeatingLibraries (rawPayloadPart (some 2) (some 9)) 0
    (taggingMessage, ()) rfl (by decide) (by decide) (by decide)).mpr (by decide)

/-- A length without a start cuts nothing. -/
theorem value_rawPayloadPart_ne_documented :
    (rawPayloadPart none (some 1)).value repeatingLibraries 0 (taggingMessage, ()) ≠
      (rawPayloadPart none (some 1)).documented
        ((rawPayloadPart none (some 1)).source repeatingLibraries 0 (taggingMessage, ())) := by
  decide

end ArgumentProperties

end Maock.Answering
