import Maock.Json.ExtendedPointer

/-!
# Which JSON lookups return

A request may carry any JSON document, and the pointers of the configuration are not checked. A
lookup returns exactly when every segment that it reaches is admissible where it is reached
(`getValueFromJsonPtr_returns_iff`): a positional segment needs a number and stands at an object,
and any other segment is a valid JSON pointer. Where the segments lead is stated without the faults
of the program, by `select`.
-/

set_option autoImplicit false
set_option relaxedAutoImplicit false

namespace Maock.Json

open Foundation Foundation.Bytes

variable {Double : Type*}

/-! ### Where segments lead -/

/-- What stands behind the number of a positional segment. -/
def positionSuffix (segment : Bytes) (index : ℤ) : Bytes :=
  segment.drop (indicator ++ decimalInt index).length

/-- The member that a value has at a position, if it is an object. -/
def memberAt (index : ℤ) : Value Double → Option (Value Double)
  | .object members => (nthMember index members).map Prod.snd
  | _ => none

/-- Where a segment leads from a value. Nothing is looked up behind a name, and a positional segment
that asks neither for a name nor for a value stays where it is. -/
def select (lib : JsonLibrary Double) (value : Value Double) (segment : Bytes) :
    Option (Value Double) :=
  if isPositional segment then
    match stoi (segment.drop indicator.length) with
    | .error _ => none
    | .ok index =>
      if positionSuffix segment index = nameIndicator then none
      else if positionSuffix segment index = valueIndicator then memberAt index value
      else some value
  else lib.get (cString segment) value

/-- A segment is in order where it stands: a positional segment has a number, and stands at an
object when it asks for a name or a value; any other segment is a valid pointer. -/
def Admissible (lib : JsonLibrary Double) (segment : Bytes) (value : Value Double) : Prop :=
  if isPositional segment then
    ∃ index, stoi (segment.drop indicator.length) = .ok index ∧
      (positionSuffix segment index = nameIndicator ∨
        positionSuffix segment index = valueIndicator → value.IsObject)
  else lib.isValid (cString segment) = true

/-- Every segment is in order at the value to which those before it lead, if they lead anywhere. -/
def AdmissibleWhereReached (lib : JsonLibrary Double) (segments : List Bytes)
    (d : Value Double) : Prop :=
  ∀ before segment after value, segments = before ++ segment :: after →
    before.foldlM (select lib) d = some value → Admissible lib segment value

theorem admissibleWhereReached_nil (lib : JsonLibrary Double) (d : Value Double) :
    AdmissibleWhereReached lib [] d := by
  intro before segment after value hsplit
  exact absurd hsplit.symm (List.append_ne_nil_of_right_ne_nil _ (List.cons_ne_nil _ _))

/-- The first segment is in order, and so are the others from where it leads. -/
theorem admissibleWhereReached_cons {lib : JsonLibrary Double} {segment : Bytes}
    {rest : List Bytes} {d : Value Double} :
    AdmissibleWhereReached lib (segment :: rest) d ↔
      Admissible lib segment d ∧
        ∀ next, select lib d segment = some next → AdmissibleWhereReached lib rest next := by
  constructor
  · intro h
    refine ⟨h [] segment rest d rfl rfl, fun next hnext before other after value hsplit hlead ↦ ?_⟩
    refine h (segment :: before) other after value (by rw [hsplit, List.cons_append]) ?_
    rw [List.foldlM_cons, hnext]
    exact hlead
  · rintro ⟨hfirst, hrest⟩ before other after value hsplit hlead
    cases before with
    | nil =>
      obtain ⟨rfl, rfl⟩ := List.cons.inj hsplit
      rw [← Option.some_inj.mp hlead]
      exact hfirst
    | cons head before =>
      obtain ⟨rfl, hsplitRest⟩ := List.cons.inj hsplit
      rw [List.foldlM_cons] at hlead
      obtain ⟨next, hnext, hlead⟩ := Option.bind_eq_some_iff.mp hlead
      exact hrest next hnext before other after value hsplitRest hlead

/-! ### The lookup -/

/-- The lookup returns. -/
def Returns {α : Type*} (result : Except LookupFault α) : Prop :=
  ∃ found, result = .ok found

theorem not_returns_error {α : Type*} (fault : LookupFault) :
    ¬ Returns (.error fault : Except LookupFault α) := by
  rintro ⟨found, hfound⟩
  exact absurd hfound (by simp)

/-- `substr` does not throw: the number is not written with more bytes than it was read from. -/
theorem length_position_le {segment : Bytes} {index : ℤ} (hpositional : isPositional segment = true)
    (hindex : stoi (segment.drop indicator.length) = .ok index) :
    ¬ segment.length < (indicator ++ decimalInt index).length := by
  have hlength := length_decimalInt_le_of_stoi hindex
  have hindicator : indicator.length ≤ segment.length := by
    obtain ⟨position, hfound⟩ := Option.isSome_iff_exists.mp hpositional
    exact length_le_of_find? hfound
  rw [List.length_drop] at hlength
  rw [List.length_append]
  omega

/-- The rest of the lookup returns as it does from the value found, if there is one. -/
theorem returns_proceed_iff {next : Value Double → Except LookupFault (Option (Value Double))}
    {found : Option (Value Double)} :
    Returns (proceed next found) ↔ ∀ value, found = some value → Returns (next value) := by
  cases found with
  | none => exact ⟨fun _ value hvalue ↦ absurd hvalue (by simp), fun _ ↦ ⟨none, rfl⟩⟩
  | some value => exact ⟨fun h other hother ↦ Option.some_inj.mp hother ▸ h, fun h ↦ h value rfl⟩

/-- A name is looked up in objects only. -/
theorem returns_getNthName_iff {index : ℤ} {d : Value Double} :
    Returns (getNthName index d) ↔ d.IsObject := by
  have heq : getNthName index d =
      if d.IsObject then getNthName index d else .error .memberCount := by
    cases d <;> rfl
  by_cases hobject : d.IsObject
  · refine iff_of_true ?_ hobject
    cases d with
    | object members => exact ⟨_, rfl⟩
    | _ => exact hobject.elim
  · rw [heq, if_neg hobject]
    exact iff_of_false (not_returns_error _) hobject

theorem getNthValue_eq (index : ℤ) (d : Value Double) :
    getNthValue index d = if d.IsObject then .ok (memberAt index d) else .error .memberCount := by
  cases d <;> rfl

/-- A value is looked up in objects only, and the lookup goes on from it. -/
theorem returns_getNthValue_bind_iff {index : ℤ} {d : Value Double}
    {next : Value Double → Except LookupFault (Option (Value Double))} :
    Returns ((getNthValue index d).bind (proceed next)) ↔
      d.IsObject ∧ ∀ value, memberAt index d = some value → Returns (next value) := by
  rw [getNthValue_eq]
  by_cases hobject : d.IsObject
  · rw [if_pos hobject, and_iff_right hobject]
    exact returns_proceed_iff
  · rw [if_neg hobject]
    exact iff_of_false (not_returns_error _) fun h ↦ hobject h.1

/-- A plain segment: its text is a pointer of the library. -/
theorem returns_navigate_plain {lib : JsonLibrary Double} {segment : Bytes} {rest : List Bytes}
    {d : Value Double} (hplain : isPositional segment = false) :
    Returns (navigate lib (segment :: rest) d) ↔
      lib.isValid (cString segment) = true ∧
        ∀ next, lib.get (cString segment) d = some next → Returns (navigate lib rest next) := by
  rw [navigate, if_neg (ne_true_of_eq_false hplain)]
  by_cases hvalid : lib.isValid (cString segment) = true
  · rw [if_pos hvalid, and_iff_right hvalid]
    exact returns_proceed_iff
  · rw [if_neg hvalid]
    exact iff_of_false (not_returns_error _) fun h ↦ hvalid h.1

/-- The lookup behind its first segment. -/
theorem returns_navigate_cons {lib : JsonLibrary Double} {segment : Bytes} {rest : List Bytes}
    {d : Value Double} :
    Returns (navigate lib (segment :: rest) d) ↔
      Admissible lib segment d ∧
        ∀ next, select lib d segment = some next → Returns (navigate lib rest next) := by
  unfold Admissible select
  cases hpositional : isPositional segment with
  | false =>
    simp only [Bool.false_eq_true, if_false]
    exact returns_navigate_plain hpositional
  | true =>
    rw [navigate, if_pos hpositional]
    simp only [if_true]
    cases hindex : stoi (segment.drop indicator.length) with
    | error fault =>
      refine iff_of_false (not_returns_error _) ?_
      rintro ⟨⟨index, hindex', -⟩, -⟩
      exact absurd hindex' (by simp)
    | ok index =>
      simp only [Except.ok.injEq, exists_eq_left']
      rw [if_neg (length_position_le hpositional hindex)]
      change Returns (if positionSuffix segment index = nameIndicator then _
        else if positionSuffix segment index = valueIndicator then _ else _) ↔ _
      by_cases hname : positionSuffix segment index = nameIndicator
      · rw [if_pos hname, if_pos hname, returns_getNthName_iff]
        exact ⟨fun h ↦ ⟨fun _ ↦ h, fun next hnext ↦ absurd hnext (by simp)⟩,
          fun h ↦ h.1 (Or.inl hname)⟩
      rw [if_neg hname, if_neg hname]
      by_cases hvalue : positionSuffix segment index = valueIndicator
      · rw [if_pos hvalue, if_pos hvalue, returns_getNthValue_bind_iff]
        exact and_congr_left fun _ ↦ ⟨fun h _ ↦ h, fun h ↦ h (Or.inr hvalue)⟩
      · rw [if_neg hvalue, if_neg hvalue]
        refine ⟨fun h ↦ ⟨fun hsuffix ↦ absurd hsuffix (not_or.mpr ⟨hname, hvalue⟩),
          fun next hnext ↦ Option.some_inj.mp hnext ▸ h⟩, fun h ↦ h.2 d rfl⟩

/-- **The lookup returns if and only if every segment that it reaches is in order there.** -/
theorem getValueFromJsonPtr_returns_iff (lib : JsonLibrary Double) (d : Value Double)
    (jsonPointer : Bytes) :
    (∃ text, getValueFromJsonPtr lib d jsonPointer = .ok text) ↔
      AdmissibleWhereReached lib (splitComplexJsonPointer jsonPointer) d := by
  have hnavigate : ∀ (segments : List Bytes) (d : Value Double),
      Returns (navigate lib segments d) ↔ AdmissibleWhereReached lib segments d := by
    intro segments
    induction segments with
    | nil => exact fun d ↦ iff_of_true ⟨some d, rfl⟩ (admissibleWhereReached_nil lib d)
    | cons segment rest ih =>
      intro d
      rw [returns_navigate_cons, admissibleWhereReached_cons]
      exact and_congr_right fun _ ↦ forall_congr' fun next ↦ imp_congr_right fun _ ↦ ih next
  rw [← hnavigate, getValueFromJsonPtr]
  cases navigate lib (splitComplexJsonPointer jsonPointer) d with
  | error fault => exact iff_of_false (by simp [Except.map]) (by simp [Returns])
  | ok found => exact iff_of_true ⟨_, rfl⟩ ⟨found, rfl⟩

/-- A pointer without positional segments whose segments are valid is looked up in every document.
-/
theorem getValueFromJsonPtr_returns_of_plain (lib : JsonLibrary Double) {jsonPointer : Bytes}
    (hplain : ∀ segment ∈ splitComplexJsonPointer jsonPointer,
      isPositional segment = false ∧ lib.isValid (cString segment) = true) (d : Value Double) :
    ∃ text, getValueFromJsonPtr lib d jsonPointer = .ok text := by
  rw [getValueFromJsonPtr_returns_iff]
  intro before segment after value hsplit _
  have hmem : segment ∈ splitComplexJsonPointer jsonPointer := by
    rw [hsplit]
    exact List.mem_append_right before List.mem_cons_self
  obtain ⟨hstandard, hvalid⟩ := hplain segment hmem
  rw [Admissible, if_neg (by simp [hstandard])]
  exact hvalid

/-- A library of which only the empty document is looked up, without a pointer. -/
def emptyLibrary : JsonLibrary Unit where
  isValid source := source.isEmpty
  get _ value := some value
  doubleToString _ := []
  write _ := []

/-- The body `[]` and a pointer to the value of the first member: its members are counted although
it is an array. -/
theorem not_returns_firstMemberOfArray :
    getValueFromJsonPtr emptyLibrary (.array []) (ascii "/~#1#value") = .error .memberCount ∧
      ¬ ∃ text, getValueFromJsonPtr emptyLibrary (.array []) (ascii "/~#1#value") = .ok text := by
  have hsplit : splitComplexJsonPointer (ascii "/~#1#value") = [ascii "/~#1#value"] := by
    decide +kernel
  have hfault : getValueFromJsonPtr emptyLibrary (.array []) (ascii "/~#1#value") =
      .error .memberCount := by
    rw [getValueFromJsonPtr, hsplit]
    rfl
  refine ⟨hfault, ?_⟩
  rintro ⟨text, htext⟩
  rw [hfault] at htext
  exact absurd htext (by simp)

end Maock.Json
