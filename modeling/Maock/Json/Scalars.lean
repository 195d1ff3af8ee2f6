import Maock.Json.Lookup
import Maock.Matching.MatchRule

/-!
# Extracted scalars

What a lookup makes of the strings, booleans and integers that it finds. A string is passed on as a
C string, and of the integers only those are written that fit into 64 unsigned bits.
`extractsExactly_iff` says for which scalars the text is exact, so that different scalars of a kind
stay different and an `EqualsTo` rule tells integers apart.
-/

set_option autoImplicit false
set_option relaxedAutoImplicit false

namespace Maock.Json

open Foundation Foundation.Bytes Matching

variable {Double : Type*}

/-! ### Rules -/

/-- `Match_Rule::match(d)` for a rule with a JSON pointer. -/
def matchDocument (lib : JsonLibrary Double) (regexMatch : Bytes → Bytes → Bool) (rule : MatchRule)
    (d : Value Double) : Except LookupFault Bool :=
  (getValueFromJsonPtr lib d rule.jsonPointer).map (rule.matchSubject regexMatch)

/-- The rule that compares what a pointer locates with the decimal text of an integer. -/
def equalsToRule (jsonPointer : Bytes) (n : ℤ) : MatchRule :=
  MatchRule.ofPayloadMatch ⟨ascii "EqualsTo", jsonPointer, decimalInt n⟩

/-! ### Scalars -/

/-- A pointer locates a value in a document. -/
def Locates (lib : JsonLibrary Double) (d : Value Double) (jsonPointer : Bytes)
    (value : Value Double) : Prop :=
  navigate lib (splitComplexJsonPointer jsonPointer) d = .ok (some value)

/-- The kinds of scalars that have an exact text. -/
inductive ScalarKind where
  | string
  | bool
  | integer
  deriving DecidableEq

/-- The kind of a scalar. Doubles and null have no exact text. -/
def Value.kind : Value Double → Option ScalarKind
  | .string _ => some .string
  | .bool _ => some .bool
  | .integer _ => some .integer
  | .null | .double _ | .array _ | .object _ => none

/-- All bytes of a string, `true` or `false`, and the decimal text of an integer. -/
def Value.exactText : Value Double → Bytes
  | .string s => s
  | .bool b => ascii (if b then "true" else "false")
  | .integer n => decimalInt n
  | .null | .double _ | .array _ | .object _ => []

/-- The text is not changed: there is no NUL in the string, and the integer is not negative. -/
def Value.KeepsText : Value Double → Prop
  | .string s => 0 ∉ s
  | .integer n => 0 ≤ n
  | .bool _ | .null | .double _ | .array _ | .object _ => True

/-- Scalars of one kind with the same text are the same. -/
theorem eq_of_exactText_eq {value other : Value Double} (hscalar : value.kind ≠ none)
    (hkind : value.kind = other.kind) (htext : value.exactText = other.exactText) :
    value = other := by
  cases value with
  | string s =>
    cases other with
    | string s' => exact congrArg Value.string htext
    | _ => exact absurd hkind (by simp [Value.kind])
  | bool b =>
    cases other with
    | bool b' =>
      have htexts : ∀ b b' : Bool, ascii (if b then "true" else "false") =
          ascii (if b' then "true" else "false") → b = b' := by decide
      exact congrArg Value.bool (htexts b b' htext)
    | _ => exact absurd hkind (by simp [Value.kind])
  | integer n =>
    cases other with
    | integer n' => exact congrArg Value.integer (decimalInt_injective htext)
    | _ => exact absurd hkind (by simp [Value.kind])
  | _ => exact absurd rfl hscalar

theorem decimalInt_of_nonneg {n : ℤ} (h : 0 ≤ n) : decimalInt n = decimal n.toNat := by
  unfold decimalInt
  rw [if_neg (Int.not_lt.mpr h), ← Int.toNat_of_nonneg h, Int.natAbs_natCast, Int.toNat_natCast]

theorem decimalInt_ne_nil (n : ℤ) : decimalInt n ≠ [] := by
  unfold decimalInt
  split_ifs
  · exact List.cons_ne_nil _ _
  · exact decimal_ne_nil _

/-- The conversion is exact for the scalars whose text it keeps, and for no others. -/
theorem convertRapidVJsonValueToStr_eq_iff (lib : JsonLibrary Double) {value : Value Double}
    (hscalar : value.kind ≠ none) :
    convertRapidVJsonValueToStr lib (some value) = value.exactText ↔ value.KeepsText := by
  cases value with
  | string s => exact cString_eq_self_iff
  | bool b => exact iff_of_true rfl trivial
  | integer n =>
    show (if 0 ≤ n then decimal n.toNat else []) = decimalInt n ↔ 0 ≤ n
    by_cases hnonneg : 0 ≤ n
    · exact iff_of_true (by rw [if_pos hnonneg, decimalInt_of_nonneg hnonneg]) hnonneg
    · rw [if_neg hnonneg]
      exact iff_of_false (decimalInt_ne_nil n).symm hnonneg
  | _ => exact absurd rfl hscalar

/-- The lookup converts what it locates. -/
theorem getValueFromJsonPtr_of_locates {lib : JsonLibrary Double} {d value : Value Double}
    {jsonPointer : Bytes} (h : Locates lib d jsonPointer value) :
    getValueFromJsonPtr lib d jsonPointer = .ok (convertRapidVJsonValueToStr lib (some value)) := by
  unfold getValueFromJsonPtr
  rw [h]
  rfl

/-! ### Exact extraction -/

/-- Where a scalar is located: a document, a pointer into it, and the scalar. -/
structure Location (lib : JsonLibrary Double) where
  document : Value Double
  jsonPointer : Bytes
  value : Value Double
  located : Locates lib document jsonPointer value
  scalar : value.kind ≠ none

/-- What the extraction of a scalar gives. -/
def Location.extracted {lib : JsonLibrary Double} (location : Location lib) :
    Except LookupFault Bytes :=
  getValueFromJsonPtr lib location.document location.jsonPointer

/-- Two scalars of one kind are extracted with their exact texts. So they are told apart, and an
`EqualsTo` rule on the text of an integer matches this integer and no other. -/
structure ExtractsExactly {lib : JsonLibrary Double} (first second : Location lib) : Prop where
  firstText : first.extracted = .ok first.value.exactText
  secondText : second.extracted = .ok second.value.exactText
  distinct : first.extracted = second.extracted → first.value = second.value
  rule : ∀ n, first.value = .integer n → ∀ regexMatch m,
    matchDocument lib regexMatch (equalsToRule first.jsonPointer m) first.document =
      .ok (decide (n = m))

/-- A rule compares the text that is extracted. -/
theorem matchDocument_equalsToRule {lib : JsonLibrary Double} (location : Location lib)
    (regexMatch : Bytes → Bytes → Bool) (n m : ℤ) (hvalue : location.value = .integer n)
    (htext : location.extracted = .ok location.value.exactText) :
    matchDocument lib regexMatch (equalsToRule location.jsonPointer m) location.document =
      .ok (decide (n = m)) := by
  have hmatch : (equalsToRule location.jsonPointer m).matchSubject regexMatch (decimalInt n) =
      decide (n = m) := by
    show (decimalInt n == decimalInt m) = decide (n = m)
    rw [Bool.eq_iff_iff, beq_iff_eq, decide_eq_true_iff]
    exact ⟨fun h ↦ decimalInt_injective h, congrArg decimalInt⟩
  rw [hvalue] at htext
  rw [← hmatch]
  exact congrArg (Except.map _) htext

/-- **Scalars keep their exact text** exactly when the strings have no NUL and the integers are not
negative, wherever two scalars of one kind are located. -/
theorem extractsExactly_iff {lib : JsonLibrary Double} (first second : Location lib)
    (hkind : first.value.kind = second.value.kind) :
    ExtractsExactly first second ↔ first.value.KeepsText ∧ second.value.KeepsText := by
  have hexact : ∀ location : Location lib,
      location.extracted = .ok location.value.exactText ↔ location.value.KeepsText := by
    intro location
    unfold Location.extracted
    rw [getValueFromJsonPtr_of_locates location.located, Except.ok.injEq]
    exact convertRapidVJsonValueToStr_eq_iff lib location.scalar
  constructor
  · exact fun h ↦ ⟨(hexact first).mp h.firstText, (hexact second).mp h.secondText⟩
  · rintro ⟨hfirst, hsecond⟩
    rw [← hexact] at hfirst hsecond
    refine ⟨hfirst, hsecond, fun hsame ↦ ?_, fun n hvalue regexMatch m ↦
      matchDocument_equalsToRule first regexMatch n m hvalue hfirst⟩
    rw [hfirst, hsecond] at hsame
    exact eq_of_exactText_eq first.scalar hkind (Except.ok.inj hsame)

/-- The only member of an object, located by its position. -/
def onlyMember (value : Value Unit) (hscalar : value.kind ≠ none) : Location emptyLibrary where
  document := .object [(ascii "a", value)]
  jsonPointer := ascii "/~#1#value"
  value := value
  located := by
    have hsplit : splitComplexJsonPointer (ascii "/~#1#value") = [ascii "/~#1#value"] := by
      decide +kernel
    rw [Locates, hsplit]
    rfl
  scalar := hscalar

theorem extractsExactly_oneAndTwo :
    ExtractsExactly (onlyMember (.integer 1) (by decide)) (onlyMember (.integer 2) (by decide)) :=
  (extractsExactly_iff (onlyMember (.integer 1) (by decide))
    (onlyMember (.integer 2) (by decide)) rfl).mpr ⟨Int.one_nonneg, Int.natCast_nonneg 2⟩

/-- Two negative integers both become the empty string, and two strings with the same bytes up to a
NUL become the same string. -/
theorem not_extractsExactly_negative :
    (onlyMember (.integer (-1)) (by decide)).extracted = .ok [] ∧
      (onlyMember (.integer (-2)) (by decide)).extracted = .ok [] ∧
      ¬ ExtractsExactly (onlyMember (.integer (-1)) (by decide))
        (onlyMember (.integer (-2)) (by decide)) ∧
      (onlyMember (.string [97, 0, 98]) (by decide)).extracted = .ok [97] ∧
      (onlyMember (.string [97, 0, 99]) (by decide)).extracted = .ok [97] ∧
      ¬ ExtractsExactly (onlyMember (.string [97, 0, 98]) (by decide))
        (onlyMember (.string [97, 0, 99]) (by decide)) := by
  have hextracted : ∀ (value : Value Unit) (hscalar : value.kind ≠ none),
      (onlyMember value hscalar).extracted =
        .ok (convertRapidVJsonValueToStr emptyLibrary (some value)) :=
    fun value hscalar ↦ getValueFromJsonPtr_of_locates (onlyMember value hscalar).located
  have hone := hextracted (.integer (-1)) (by decide)
  have htwo := hextracted (.integer (-2)) (by decide)
  have hb := hextracted (.string [97, 0, 98]) (by decide)
  have hc := hextracted (.string [97, 0, 99]) (by decide)
  refine ⟨hone, htwo, fun h ↦ ?_, hb, hc, fun h ↦ ?_⟩
  · have hsame := h.distinct (Eq.trans hone (Eq.symm htwo))
    exact absurd (Value.integer.inj hsame) (by decide)
  · have hsame := h.distinct (Eq.trans hb (Eq.symm hc))
    exact absurd (Value.string.inj hsame) (by decide)

end Maock.Json
