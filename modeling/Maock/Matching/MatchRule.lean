import Maock.Foundation.Bytes

/-!
# Match rules

`Match_Rule` of `H2Server_Request.h`: the rule built from a header or payload entry of the
configuration, the order in which rules are kept, and the match of a rule against one subject.

The order compares the kind of the rules, then whether they are `EqualsTo` rules, and then one
string glued together from the match type, the header name, the JSON pointer and the input
(`gluedFields`). `equivalent_lt_iff` says which rules the order cannot tell apart, and
`isStrictWeakOrder_lt` that the order is a strict weak order, so the ordered containers of rules
behave as documented. Two rules with the same four fields are never told apart; the converse fails
exactly for `FieldBoundariesDiffer`, two rules of one kind and type whose fields glue to the same
string and are cut at different places (`equivalent_iff_sameRule_iff`).
-/

set_option autoImplicit false
set_option relaxedAutoImplicit false

namespace Maock.Matching

open Foundation Foundation.OrderedContainer Foundation.Bytes

/-! ### Configuration entries -/

/-- `Schema_Header_Match`. -/
structure SchemaHeaderMatch where
  matchType : Bytes
  header : Bytes
  input : Bytes
  deriving DecidableEq

/-- `Schema_Payload_Match`. -/
structure SchemaPayloadMatch where
  matchType : Bytes
  jsonPointer : Bytes
  input : Bytes
  deriving DecidableEq

/-- `Match_Rule::Match_Type`, with the numbering of the enumeration. -/
inductive MatchType
  | equalsTo
  | startWith
  | endWith
  | contains
  | regexMatch
  deriving DecidableEq

/-- The value of the enumerator. -/
def MatchType.toNat : MatchType → ℕ
  | .equalsTo => 0
  | .startWith => 1
  | .endWith => 2
  | .contains => 3
  | .regexMatch => 4

/-- `string_to_match_type[name]`: `operator[]` inserts the enumerator zero for a name that is not
in the table. -/
def stringToMatchType (name : Bytes) : MatchType :=
  if name = ascii "EqualsTo" then .equalsTo
  else if name = ascii "StartsWith" then .startWith
  else if name = ascii "EndsWith" then .endWith
  else if name = ascii "Contains" then .contains
  else if name = ascii "RegexMatch" then .regexMatch
  else .equalsTo

/-- `Match_Rule`. The regular expression of the source is compiled from `object`, so a match reads
`object`. The constructors leave `unique_id` indeterminate; `build_match_rule_unique_id` assigns it
before any match reads it. -/
structure MatchRule where
  matchType : MatchType
  headerName : Bytes
  jsonPointer : Bytes
  object : Bytes
  uniqueId : ℕ
  deriving DecidableEq

namespace MatchRule

/-- `Match_Rule(const Schema_Header_Match&)`. -/
def ofHeaderMatch (headerMatch : SchemaHeaderMatch) : MatchRule where
  matchType := stringToMatchType headerMatch.matchType
  headerName := headerMatch.header
  jsonPointer := []
  object := headerMatch.input
  uniqueId := 0

/-- `Match_Rule(const Schema_Payload_Match&)`. -/
def ofPayloadMatch (payloadMatch : SchemaPayloadMatch) : MatchRule where
  matchType := stringToMatchType payloadMatch.matchType
  headerName := []
  jsonPointer := payloadMatch.jsonPointer
  object := payloadMatch.input
  uniqueId := 0

/-- Two rules agree on header name, JSON pointer, match type and input. -/
def SameRule (a b : MatchRule) : Prop :=
  a.headerName = b.headerName ∧ a.jsonPointer = b.jsonPointer ∧ a.matchType = b.matchType ∧
    a.object = b.object

instance decidableSameRule (a b : MatchRule) : Decidable (SameRule a b) :=
  inferInstanceAs (Decidable (_ ∧ _))

theorem SameRule.symm {a b : MatchRule} (h : SameRule a b) : SameRule b a :=
  ⟨h.1.symm, h.2.1.symm, h.2.2.1.symm, h.2.2.2.symm⟩

theorem SameRule.trans {a b c : MatchRule} (hab : SameRule a b) (hbc : SameRule b c) :
    SameRule a c :=
  ⟨hab.1.trans hbc.1, hab.2.1.trans hbc.2.1, hab.2.2.1.trans hbc.2.2.1,
    hab.2.2.2.trans hbc.2.2.2⟩

/-! ### The order of rules -/

/-- The string that the last branch of the comparison builds for a rule. -/
def gluedFields (rule : MatchRule) : Bytes :=
  decimal rule.matchType.toNat ++ rule.headerName ++ rule.jsonPointer ++ rule.object

/-- `Match_Rule::operator<`. -/
def lt (self rhs : MatchRule) : Bool :=
  if !self.headerName.isEmpty && rhs.headerName.isEmpty then false
  else if self.headerName.isEmpty && !rhs.headerName.isEmpty then true
  else if self.matchType == .equalsTo && rhs.matchType != .equalsTo then false
  else if rhs.matchType == .equalsTo && self.matchType != .equalsTo then true
  else bytesLess self.gluedFields rhs.gluedFields

/-- The kind of a rule as the comparison ranks it: payload rules below header rules, and within a
kind `EqualsTo` rules last. -/
def kindRank (rule : MatchRule) : ℕ :=
  (if rule.headerName.isEmpty then 0 else 2) + if rule.matchType = .equalsTo then 1 else 0

/-- The comparison is lexicographic: the rank of the kind decides, then the glued string. -/
theorem lt_eq_true_iff (a b : MatchRule) :
    lt a b = true ↔ a.kindRank < b.kindRank ∨
      a.kindRank = b.kindRank ∧ a.gluedFields < b.gluedFields := by
  cases hkindA : a.headerName.isEmpty <;> cases hkindB : b.headerName.isEmpty <;>
    by_cases htypeA : a.matchType = .equalsTo <;> by_cases htypeB : b.matchType = .equalsTo <;>
    simp [lt, kindRank, hkindA, hkindB, htypeA, htypeB]

/-- Two rules that the order does not tell apart have one rank and one glued string. -/
theorem equivalent_lt_iff (a b : MatchRule) :
    Equivalent lt a b ↔ a.kindRank = b.kindRank ∧ a.gluedFields = b.gluedFields := by
  have hglued := equivalent_bytesLess a.gluedFields b.gluedFields
  simp only [Equivalent, bytesLess_eq_false] at hglued
  simp only [Equivalent, ← Bool.not_eq_true, lt_eq_true_iff, not_or, Nat.not_lt, not_and]
  constructor
  · rintro ⟨hab, hba⟩
    have hrank : a.kindRank = b.kindRank := Nat.le_antisymm hba.1 hab.1
    exact ⟨hrank, hglued.mp ⟨hab.2 hrank, hba.2 hrank.symm⟩⟩
  · rintro ⟨hrank, hfields⟩
    obtain ⟨hab, hba⟩ := hglued.mpr hfields
    exact ⟨⟨Nat.le_of_eq hrank.symm, fun _ ↦ hab⟩, Nat.le_of_eq hrank, fun _ ↦ hba⟩

instance isStrictWeakOrder_lt : IsStrictWeakOrder MatchRule (fun a b ↦ lt a b = true) where
  irrefl a := by simp [lt_eq_true_iff, List.lt_irrefl]
  trans a b c := by
    simp only [lt_eq_true_iff]
    rintro (hab | ⟨hab, hab'⟩) (hbc | ⟨hbc, hbc'⟩)
    · exact Or.inl (Nat.lt_trans hab hbc)
    · exact Or.inl (hbc ▸ hab)
    · exact Or.inl (hab ▸ hbc)
    · exact Or.inr ⟨hab.trans hbc, List.lt_trans hab' hbc'⟩
  incomp_trans a b c hab hbc := by
    simp only [Bool.not_eq_true] at hab hbc ⊢
    obtain ⟨hrank, hglued⟩ := (equivalent_lt_iff a b).mp hab
    obtain ⟨hrank', hglued'⟩ := (equivalent_lt_iff b c).mp hbc
    exact (equivalent_lt_iff a c).mpr ⟨hrank.trans hrank', hglued.trans hglued'⟩

/-! ### Identity of rules -/

/-- The digit of the match type is the first byte of the glued string. -/
theorem gluedFields_eq_iff (a b : MatchRule) :
    a.gluedFields = b.gluedFields ↔ a.matchType = b.matchType ∧
      a.headerName ++ a.jsonPointer ++ a.object = b.headerName ++ b.jsonPointer ++ b.object := by
  have hdigit : ∀ first second : MatchType, ∀ left right : Bytes,
      decimal first.toNat ++ left = decimal second.toNat ++ right ↔
        first = second ∧ left = right := by
    intro first second left right
    have hlength : (decimal first.toNat).length = (decimal second.toNat).length := by
      cases first <;> cases second <;> decide
    have hinjective : decimal first.toNat = decimal second.toNat ↔ first = second := by
      cases first <;> cases second <;> decide
    rw [← hinjective]
    exact ⟨fun h ↦ List.append_inj h hlength, fun h ↦ by rw [h.1, h.2]⟩
  simp only [gluedFields, List.append_assoc]
  exact hdigit _ _ _ _

/-- Two rules of one kind and one match type whose fields glue to the same string, cut into header
name, pointer and input at different places. -/
def FieldBoundariesDiffer (a b : MatchRule) : Prop :=
  a.headerName.isEmpty = b.headerName.isEmpty ∧ a.matchType = b.matchType ∧
    a.headerName ++ a.jsonPointer ++ a.object = b.headerName ++ b.jsonPointer ++ b.object ∧
    (a.headerName.length ≠ b.headerName.length ∨ a.jsonPointer.length ≠ b.jsonPointer.length)

instance decidableFieldBoundariesDiffer (a b : MatchRule) :
    Decidable (FieldBoundariesDiffer a b) :=
  inferInstanceAs (Decidable (_ ∧ _ ∧ _ ∧ _))

/-- Two rules with the same four fields are not told apart. -/
theorem SameRule.equivalent {a b : MatchRule} (h : SameRule a b) : Equivalent lt a b := by
  obtain ⟨hheader, hpointer, htype, hobject⟩ := h
  rw [equivalent_lt_iff, gluedFields_eq_iff]
  simp [kindRank, hheader, hpointer, htype, hobject]

/-- The order tells rules apart by their four fields except where only the boundaries of the fields
differ. -/
theorem equivalent_iff_sameRule_iff (a b : MatchRule) :
    (Equivalent lt a b ↔ SameRule a b) ↔ ¬ FieldBoundariesDiffer a b := by
  constructor
  · rintro hidentity ⟨hkind, htype, hglued, hlengths⟩
    have hequiv : Equivalent lt a b := by
      rw [equivalent_lt_iff, gluedFields_eq_iff]
      exact ⟨by simp [kindRank, hkind, htype], htype, hglued⟩
    obtain ⟨hheader, hpointer, -, -⟩ := hidentity.mp hequiv
    rcases hlengths with hlength | hlength
    · exact hlength (congrArg List.length hheader)
    · exact hlength (congrArg List.length hpointer)
  · intro hnot
    refine ⟨fun hequiv ↦ ?_, SameRule.equivalent⟩
    rw [equivalent_lt_iff, gluedFields_eq_iff] at hequiv
    obtain ⟨hrank, htype, hglued⟩ := hequiv
    have hkind : a.headerName.isEmpty = b.headerName.isEmpty := by
      cases hkindA : a.headerName.isEmpty <;> cases hkindB : b.headerName.isEmpty <;>
        simp [kindRank, hkindA, hkindB, htype] at hrank ⊢
    have hlengths : a.headerName.length = b.headerName.length ∧
        a.jsonPointer.length = b.jsonPointer.length := by
      by_contra hdiffer
      exact hnot ⟨hkind, htype, hglued, not_and_or.mp hdiffer⟩
    rw [List.append_assoc, List.append_assoc] at hglued
    obtain ⟨hheader, hrest⟩ := List.append_inj hglued hlengths.1
    obtain ⟨hpointer, hobject⟩ := List.append_inj hrest hlengths.2
    exact ⟨hheader, hpointer, htype, hobject⟩

/-! ### Matching one subject -/

/-- `Match_Rule::match(const std::string&)`, with `std::regex_match` as a fixed predicate of the
pattern and the subject. -/
def matchSubject (regexMatch : Bytes → Bytes → Bool) (rule : MatchRule) (subject : Bytes) : Bool :=
  match rule.matchType with
  | .equalsTo => subject == rule.object
  | .startWith => find? rule.object subject == some 0
  | .endWith =>
    decide (rule.object.length ≤ subject.length) &&
      subject.drop (subject.length - rule.object.length) == rule.object
  | .contains => (find? rule.object subject).isSome
  | .regexMatch => regexMatch rule.object subject

/-- The match reads nothing of a rule but its type and its input. -/
theorem SameRule.matchSubject_eq {a b : MatchRule} (h : SameRule a b)
    (regexMatch : Bytes → Bytes → Bool) (subject : Bytes) :
    matchSubject regexMatch a subject = matchSubject regexMatch b subject := by
  simp only [matchSubject, h.2.2.1, h.2.2.2]

end MatchRule

end Maock.Matching
