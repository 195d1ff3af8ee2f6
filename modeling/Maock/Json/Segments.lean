import Maock.Json.Lookup

/-!
# Pointers made of segments

An extended pointer is a list of segments: tokens of JSON pointers, and values and names of members
by their position. `follow` says where such a list leads, one segment after the other.
`getValueFromJsonPtr` cuts the text of the pointer into pieces, a piece for each positional segment
and one for each run of tokens, and parses the pieces again. A run of tokens is passed on as a C
string. `getValueFromJsonPtr_eq_follow_iff` says for which lists of segments the two agree on every
document.
-/

set_option autoImplicit false
set_option relaxedAutoImplicit false

namespace Maock.Json

open Foundation Foundation.Bytes

variable {Double : Type*}

/-! ### Segments -/

/-- A segment of an extended pointer: the text of a token behind its slash, or the value or the name
of the member at a position. -/
inductive Segment where
  | token (text : Bytes)
  | value (n : ℤ)
  | name (n : ℤ)
  deriving DecidableEq

/-- The text of a token: it has no slash, and a tilde is followed by `0` or `1`. -/
def Escaped : Bytes → Prop
  | [] => True
  | [c] => c ≠ char '/' ∧ c ≠ char '~'
  | c :: d :: rest =>
    c ≠ char '/' ∧ (c = char '~' → d = char '0' ∨ d = char '1') ∧ Escaped (d :: rest)

/-- The name that the text of a token stands for: `~0` is a tilde and `~1` a slash. -/
def unescape : Bytes → Bytes
  | [] => []
  | [c] => [c]
  | c :: d :: rest =>
    if c = char '~' ∧ d = char '0' then char '~' :: unescape rest
    else if c = char '~' ∧ d = char '1' then char '/' :: unescape rest
    else c :: unescape (d :: rest)

/-- The text of a segment. -/
def Segment.render : Segment → Bytes
  | .token text => char '/' :: text
  | .value n => indicator ++ decimalInt n ++ valueIndicator
  | .name n => indicator ++ decimalInt n ++ nameIndicator

/-- The pointer made of segments. -/
def render (segments : List Segment) : Bytes :=
  segments.flatMap Segment.render

/-- A token is escaped, and a position is an `int`. -/
def Segment.WellFormed : Segment → Prop
  | .token text => Escaped text
  | .value n | .name n => -2 ^ 31 ≤ n ∧ n < 2 ^ 31

/-- The pointer made of tokens. -/
def plainRun (texts : List Bytes) : Bytes :=
  texts.flatMap (char '/' :: ·)

instance decidableEscaped : (text : Bytes) → Decidable (Escaped text)
  | [] => isTrue trivial
  | [_] => inferInstanceAs (Decidable (_ ∧ _))
  | _ :: d :: rest =>
    have := decidableEscaped (d :: rest)
    inferInstanceAs (Decidable (_ ∧ _ ∧ _))

instance : DecidablePred Segment.WellFormed
  | .token text => decidableEscaped text
  | .value _ | .name _ => inferInstanceAs (Decidable (_ ∧ _))

/-- What the JSON library promises of pointers without positional segments: they are valid, the
empty one is the document itself, and tokens are applied from left to right, each to an object by
the first member with its name. -/
structure JsonLibrary.Lawful (lib : JsonLibrary Double) : Prop where
  valid : ∀ texts, (∀ text ∈ texts, Escaped text) → lib.isValid (plainRun texts) = true
  root : ∀ value, lib.get [] value = some value
  leftToRight : ∀ text texts value, Escaped text → (∀ other ∈ texts, Escaped other) →
    lib.get (plainRun (text :: texts)) value =
      (lib.get (plainRun [text]) value).bind (lib.get (plainRun texts))
  member : ∀ text members, Escaped text →
    lib.get (plainRun [text]) (.object members) =
      (members.find? fun entry ↦ decide (entry.1 = unescape text)).map Prod.snd

/-! ### Where segments lead -/

/-- The member at a position, counted from the start or, for negative numbers, from the end. -/
def memberFromEither (n : ℤ) (members : List (Bytes × Value Double)) :
    Option (Bytes × Value Double) :=
  if 0 < n then members[(n - 1).toNat]?
  else if n < 0 then members.reverse[(-n - 1).toNat]?
  else none

/-- The members of an object; other values have none. -/
def Value.members : Value Double → List (Bytes × Value Double)
  | .object members => members
  | .null | .bool _ | .integer _ | .double _ | .string _ | .array _ => []

/-- The value to which segments lead, applied from left to right. A name ends the navigation. -/
def follow (lib : JsonLibrary Double) : List Segment → Value Double → Option (Value Double)
  | [], value => some value
  | .token text :: rest, value => (lib.get (plainRun [text]) value).bind (follow lib rest)
  | .value n :: rest, value =>
    ((memberFromEither n value.members).map Prod.snd).bind (follow lib rest)
  | .name n :: _, value =>
    (memberFromEither n value.members).map fun entry ↦ Value.string entry.1

/-- Positional segments are applied to objects only. -/
def PositionalAtObjects (lib : JsonLibrary Double) : List Segment → Value Double → Prop
  | [], _ => True
  | .token text :: rest, value =>
    ∀ next, lib.get (plainRun [text]) value = some next → PositionalAtObjects lib rest next
  | .value n :: rest, value =>
    value.IsObject ∧ ∀ next, (memberFromEither n value.members).map Prod.snd = some next →
      PositionalAtObjects lib rest next
  | .name _ :: _, value => value.IsObject

/-- The tokens in front of the first name and the first position `0` have no NUL. -/
def NulFree : List Segment → Prop
  | [] => True
  | .token text :: rest => 0 ∉ text ∧ NulFree rest
  | .value n :: rest => n ≠ 0 → NulFree rest
  | .name _ :: _ => True

instance decidableNulFree : (segments : List Segment) → Decidable (NulFree segments)
  | [] => isTrue trivial
  | .token _ :: rest =>
    have := decidableNulFree rest
    inferInstanceAs (Decidable (_ ∧ _))
  | .value _ :: rest =>
    have := decidableNulFree rest
    inferInstanceAs (Decidable (_ → _))
  | .name _ :: _ => isTrue trivial

/-! ### Members by position -/

theorem walkMembers_up {n k : ℤ} (hle : k ≤ n) (members : List (Bytes × Value Double)) :
    walkMembers n 1 k members = members[(n - k).toNat]? := by
  induction members generalizing k with
  | nil => rfl
  | cons entry rest ih =>
    rw [walkMembers]
    by_cases hfound : k = n
    · rw [if_pos hfound, hfound, Int.sub_self]
      rfl
    · have hnext : (n - k).toNat = (n - (k + 1)).toNat + 1 := by omega
      rw [if_neg hfound, ih (by omega), hnext, List.getElem?_cons_succ]

theorem walkMembers_down {n k : ℤ} (hle : n ≤ k) (members : List (Bytes × Value Double)) :
    walkMembers n (-1) k members = members[(k - n).toNat]? := by
  induction members generalizing k with
  | nil => rfl
  | cons entry rest ih =>
    rw [walkMembers]
    by_cases hfound : k = n
    · rw [if_pos hfound, hfound, Int.sub_self]
      rfl
    · have hnext : (k - n).toNat = (k + -1 - n).toNat + 1 := by omega
      rw [if_neg hfound, ih (by omega), hnext, List.getElem?_cons_succ]

/-- The loops find the member at the position. -/
theorem nthMember_eq (n : ℤ) (members : List (Bytes × Value Double)) :
    nthMember n members = memberFromEither n members := by
  unfold nthMember memberFromEither
  cases members with
  | nil => simp
  | cons entry rest =>
    have hne : entry :: rest ≠ [] := List.cons_ne_nil _ _
    by_cases hpos : 0 < n
    · rw [if_pos ⟨hne, hpos⟩, if_pos hpos, walkMembers_up (by omega)]
    rw [if_neg fun h ↦ hpos h.2, if_neg hpos]
    by_cases hneg : n < 0
    · rw [if_pos ⟨hne, hneg⟩, if_pos hneg, List.reverse_cons]
      by_cases hfirst : -n = (entry :: rest).length
      · have hlast : (-n - 1).toNat = rest.reverse.length := by
          rw [List.length_cons] at hfirst
          rw [List.length_reverse]
          omega
        rw [if_pos hfirst, hlast, List.getElem?_concat_length]
        rfl
      · have hindex : (-1 - n).toNat = (-n - 1).toNat := by omega
        rw [if_neg hfirst, walkMembers_down (by omega), List.tail_cons, hindex]
        by_cases hlt : (-n - 1).toNat < rest.reverse.length
        · rw [List.getElem?_append_left hlt]
        · have hbeyond : (-n - 1).toNat ≠ rest.reverse.length := by
            rw [List.length_cons] at hfirst
            rw [List.length_reverse]
            omega
          rw [List.getElem?_eq_none (by omega), List.getElem?_eq_none]
          rw [List.length_append, List.length_singleton]
          omega
    · rw [if_neg fun h ↦ hneg h.2, if_neg hneg]

/-! ### Cutting the pointer -/

/-- What follows a segment: nothing, or the slash of another one. -/
def BeginsSegment (rest : Bytes) : Prop :=
  rest = [] ∨ ∃ tail, rest = char '/' :: tail

theorem beginsSegment_render (segments : List Segment) : BeginsSegment (render segments) := by
  cases segments with
  | nil => exact Or.inl rfl
  | cons segment rest => cases segment <;> exact Or.inr ⟨_, rfl⟩

theorem Escaped.tail {c : UInt8} {text : Bytes} (h : Escaped (c :: text)) : Escaped text := by
  cases text with
  | nil => trivial
  | cons d rest => exact h.2.2

theorem Escaped.slash_notMem {text : Bytes} (h : Escaped text) : char '/' ∉ text := by
  induction text with
  | nil => exact List.not_mem_nil
  | cons c rest ih =>
    have hne : char '/' ≠ c := by
      cases rest with
      | nil => exact h.1.symm
      | cons d rest => exact h.1.symm
    exact List.not_mem_cons_of_ne_of_not_mem hne (ih h.tail)

/-- A slash in front of an escaped text does not begin a positional segment. -/
theorem Escaped.not_indicator {text : Bytes} (h : Escaped text) {rest : Bytes}
    (hrest : BeginsSegment rest) : ¬ indicator <+: char '/' :: (text ++ rest) := by
  intro hprefix
  have htilde : ascii "~#" <+: text ++ rest := (List.cons_prefix_cons.mp hprefix).2
  cases text with
  | nil =>
    rcases hrest with rfl | ⟨tail, rfl⟩
    · exact absurd (List.prefix_nil.mp htilde) (by decide)
    · exact absurd (List.cons_prefix_cons.mp htilde).1 (by decide)
  | cons c text =>
    obtain ⟨hc, hhash⟩ := List.cons_prefix_cons.mp htilde
    cases text with
    | nil => exact h.2 hc.symm
    | cons d text =>
      have hd := (List.cons_prefix_cons.mp hhash).1
      rcases h.2.1 hc.symm with hzero | hone
      · exact absurd (hd.trans hzero) (by decide)
      · exact absurd (hd.trans hone) (by decide)

/-- In a run of tokens there is no positional segment. -/
theorem find?_indicator_plainRun {texts : List Bytes} (h : ∀ text ∈ texts, Escaped text)
    {rest : Bytes} (hrest : BeginsSegment rest) :
    find? indicator (plainRun texts ++ rest) =
      (find? indicator rest).map ((plainRun texts).length + ·) := by
  induction texts with
  | nil => cases hfound : find? indicator rest <;> simp [plainRun, hfound]
  | cons text texts ih =>
    have htext := h text List.mem_cons_self
    have hbehind : BeginsSegment (plainRun texts ++ rest) := by
      cases texts with
      | nil => exact hrest
      | cons other texts => exact Or.inr ⟨_, rfl⟩
    have hrun : plainRun (text :: texts) ++ rest =
        char '/' :: (text ++ (plainRun texts ++ rest)) := by
      simp only [plainRun, List.flatMap_cons, List.cons_append, List.append_assoc]
    have hbegins : ¬ indicator.isPrefixOf (char '/' :: (text ++ (plainRun texts ++ rest))) = true :=
      fun hfront ↦ htext.not_indicator hbehind <| List.isPrefixOf_iff_prefix.mp hfront
    have hskip : find? indicator (text ++ (plainRun texts ++ rest)) =
        (find? indicator (plainRun texts ++ rest)).map (text.length + ·) :=
      find?_append_of_notMem htext.slash_notMem (ascii "~#") _
    rw [hrun, find?, if_neg hbegins, hskip,
      ih fun other hother ↦ h other (List.mem_cons_of_mem text hother), Option.map_map,
      Option.map_map]
    congr 1
    funext position
    simp only [Function.comp_apply, plainRun, List.flatMap_cons, List.length_append,
      List.length_cons]
    omega

/-- A run of tokens at the end is one piece. -/
theorem splitComplexJsonPointer_plainRun {texts : List Bytes}
    (h : ∀ text ∈ texts, Escaped text) :
    splitComplexJsonPointer (plainRun texts) = [plainRun texts] := by
  have hnone := find?_indicator_plainRun h (Or.inl rfl)
  rw [List.append_nil] at hnone
  rw [splitComplexJsonPointer]
  split
  · rfl
  · next hfound => exact absurd (hnone.symm.trans hfound) (by simp [find?, indicator, ascii])

/-- A run of tokens and the positional segment behind it are cut off. -/
theorem splitComplexJsonPointer_positional {texts : List Bytes}
    (h : ∀ text ∈ texts, Escaped text) {body : Bytes} (hbody : char '/' ∉ body) {rest : Bytes}
    (hrest : BeginsSegment rest) :
    splitComplexJsonPointer (plainRun texts ++ (indicator ++ body ++ rest)) =
      (if texts = [] then [] else [plainRun texts]) ++ (indicator ++ body) ::
        (if rest = [] then [] else splitComplexJsonPointer rest) := by
  have hextended : indicator ++ body ++ rest = char '/' :: (ascii "~#" ++ body ++ rest) := rfl
  have hstart : find? indicator (plainRun texts ++ (indicator ++ body ++ rest)) =
      some (plainRun texts).length := by
    have hhere : find? indicator (indicator ++ body ++ rest) = some 0 := by
      rw [List.append_assoc]
      exact find?_of_isPrefix (List.prefix_append _ _)
    rw [find?_indicator_plainRun h (Or.inr ⟨_, hextended⟩), hhere]
    rfl
  have hempty : (plainRun texts).length = 0 ↔ texts = [] := by
    cases texts <;> simp [plainRun]
  have hslash : find? (ascii "/") (ascii "~#" ++ body ++ rest) =
      (find? (ascii "/") rest).map ((ascii "~#" ++ body).length + ·) := by
    have hnone : char '/' ∉ ascii "~#" ++ body := fun hmem ↦
      (List.mem_append.mp hmem).elim (by decide) hbody
    exact find?_append_of_notMem hnone [] rest
  rw [splitComplexJsonPointer]
  split
  · next hfound => exact absurd (hstart.symm.trans hfound) (by simp)
  · next endPos hfound =>
    obtain rfl := Option.some.inj (hfound.symm.trans hstart)
    simp only [hempty, List.take_left, List.drop_left]
    rw [hextended, List.tail_cons, hslash]
    rcases hrest with rfl | ⟨tail, rfl⟩
    · simp [find?, ascii, indicator]
    · have hhere : find? (ascii "/") (char '/' :: tail) = some 0 :=
        find?_of_isPrefix ⟨tail, rfl⟩
      have hpiece : indicator ++ body = char '/' :: (ascii "~#" ++ body) := rfl
      rw [hhere, Option.map_some, Nat.add_zero, if_neg (List.cons_ne_nil _ _), hpiece]
      dsimp only
      rw [List.take_succ_cons, List.drop_succ_cons, List.take_left, List.drop_left]

/-! ### The pieces of the code -/

/-- The lookup segment by segment. The flag says that a NUL further ahead in the run of tokens has
cut off the rest of the run. -/
def navigateSegments (lib : JsonLibrary Double) :
    Bool → List Segment → Value Double → Except LookupFault (Option (Value Double))
  | _, [], value => .ok (some value)
  | true, .token _ :: rest, value => navigateSegments lib true rest value
  | false, .token text :: rest, value =>
    proceed (navigateSegments lib (decide (0 ∈ text)) rest)
      (lib.get (plainRun [cString text]) value)
  | _, .value n :: rest, value =>
    (getNthValue n value).bind (proceed (navigateSegments lib false rest))
  | _, .name n :: _, value => getNthName n value

/-- The tokens of a run up to a NUL. -/
def cutTexts : List Bytes → List Bytes
  | [] => []
  | text :: texts => if 0 ∈ text then [cString text] else text :: cutTexts texts

/-- A NUL in a token cuts off the rest of the token and the tokens behind it. -/
theorem cString_plainRun (texts : List Bytes) :
    cString (plainRun texts) = plainRun (cutTexts texts) := by
  induction texts with
  | nil => rfl
  | cons text texts ih =>
    have hrun : ∀ rest, cString (char '/' :: (text ++ rest)) =
        char '/' :: cString (text ++ rest) := fun rest ↦ by
      rw [cString, List.takeWhile_cons_of_pos (by decide)]
      rfl
    rw [show plainRun (text :: texts) = char '/' :: (text ++ plainRun texts) from rfl, hrun,
      cutTexts]
    split_ifs with hzero
    · rw [cString_append_of_mem hzero]
      exact (List.append_nil _).symm
    · rw [cString_append_of_notMem hzero, ih]
      rfl

theorem Escaped.cString_of_escaped {text : Bytes} (h : Escaped text) : Escaped (cString text) := by
  induction text with
  | nil => exact h
  | cons c text ih =>
    by_cases hc : (c != 0) = true
    · have hcut : cString (c :: text) = c :: cString text := List.takeWhile_cons_of_pos hc
      have htail := ih h.tail
      rw [hcut]
      cases text with
      | nil => exact h
      | cons d text =>
        by_cases hd : (d != 0) = true
        · have hcut' : cString (d :: text) = d :: cString text := List.takeWhile_cons_of_pos hd
          rw [hcut'] at htail ⊢
          exact ⟨h.1, h.2.1, htail⟩
        · have hcut' : cString (d :: text) = [] := List.takeWhile_cons_of_neg hd
          rw [hcut']
          refine ⟨h.1, fun htilde ↦ hd ?_⟩
          rcases h.2.1 htilde with rfl | rfl <;> decide
    · have hcut : cString (c :: text) = [] := List.takeWhile_cons_of_neg hc
      rw [hcut]
      trivial

theorem escaped_of_mem_cutTexts {texts : List Bytes} (h : ∀ text ∈ texts, Escaped text) :
    ∀ text ∈ cutTexts texts, Escaped text := by
  induction texts with
  | nil => exact h
  | cons text texts ih =>
    have htext := h text List.mem_cons_self
    have hrest := ih fun other hother ↦ h other (List.mem_cons_of_mem text hother)
    intro other hother
    rw [cutTexts] at hother
    split_ifs at hother
    · rw [List.mem_singleton.mp hother]
      exact htext.cString_of_escaped
    · rcases List.mem_cons.mp hother with rfl | hother
      · exact htext
      · exact hrest other hother

/-- A list of segments is a run of tokens, with a positional segment behind it, if anything. -/
theorem exists_eq_tokens_append (segments : List Segment) :
    ∃ (texts : List Bytes) (tail : List Segment),
      segments = texts.map Segment.token ++ tail ∧ ∀ text rest, tail ≠ .token text :: rest := by
  induction segments with
  | nil => exact ⟨[], [], rfl, fun _ _ ↦ (List.cons_ne_nil _ _).symm⟩
  | cons segment rest ih =>
    cases segment with
    | token text =>
      obtain ⟨texts, tail, rfl, htail⟩ := ih
      exact ⟨text :: texts, tail, rfl, htail⟩
    | value n => exact ⟨[], .value n :: rest, rfl, fun _ _ h ↦ by simp at h⟩
    | name n => exact ⟨[], .name n :: rest, rfl, fun _ _ h ↦ by simp at h⟩

/-- Behind a NUL the lookup goes on at the next positional segment. -/
theorem navigateSegments_true (lib : JsonLibrary Double) (texts : List Bytes)
    {tail : List Segment} (htail : ∀ text rest, tail ≠ .token text :: rest) :
    navigateSegments lib true (texts.map Segment.token ++ tail) =
      navigateSegments lib false tail := by
  funext value
  induction texts with
  | nil =>
    cases tail with
    | nil => rfl
    | cons segment rest =>
      cases segment with
      | token text => exact absurd rfl (htail text rest)
      | value n => rfl
      | name n => rfl
  | cons text texts ih => exact ih

/-- A run of tokens is looked up at once. -/
theorem navigateSegments_tokens {lib : JsonLibrary Double} (hlawful : lib.Lawful)
    {texts : List Bytes} (h : ∀ text ∈ texts, Escaped text) {tail : List Segment}
    (htail : ∀ text rest, tail ≠ .token text :: rest) (value : Value Double) :
    navigateSegments lib false (texts.map Segment.token ++ tail) value =
      proceed (navigateSegments lib false tail) (lib.get (cString (plainRun texts)) value) := by
  induction texts generalizing value with
  | nil => exact (congrArg (proceed _) (hlawful.root value)).symm
  | cons text texts ih =>
    have htext := h text List.mem_cons_self
    have hrest : ∀ other ∈ texts, Escaped other :=
      fun other hother ↦ h other (List.mem_cons_of_mem text hother)
    rw [cString_plainRun, cutTexts, List.map_cons, List.cons_append, navigateSegments]
    by_cases hzero : 0 ∈ text
    · rw [if_pos hzero, decide_eq_true hzero, navigateSegments_true lib texts htail]
    · rw [if_neg hzero, decide_eq_false hzero, cString_eq_self_iff.mpr hzero,
        hlawful.leftToRight text _ value htext (escaped_of_mem_cutTexts hrest)]
      cases lib.get (plainRun [text]) value with
      | none => rfl
      | some next =>
        rw [← cString_plainRun]
        exact ih hrest next

theorem isPositional_plainRun {texts : List Bytes} (h : ∀ text ∈ texts, Escaped text) :
    isPositional (plainRun texts) = false := by
  have hnone := find?_indicator_plainRun h (Or.inl rfl)
  rw [List.append_nil] at hnone
  rw [isPositional, hnone]
  rfl

/-- The piece of a run of tokens. -/
theorem navigate_plainRun {lib : JsonLibrary Double} (hlawful : lib.Lawful) {texts : List Bytes}
    (h : ∀ text ∈ texts, Escaped text) (pieces : List Bytes) (value : Value Double) :
    navigate lib (plainRun texts :: pieces) value =
      proceed (navigate lib pieces) (lib.get (cString (plainRun texts)) value) := by
  have hvalid := hlawful.valid (cutTexts texts) (escaped_of_mem_cutTexts h)
  rw [← cString_plainRun] at hvalid
  rw [navigate, if_neg (by simp [isPositional_plainRun h]), if_pos hvalid]

/-- There is no piece for an empty run, which leads nowhere else. -/
theorem navigate_optional {lib : JsonLibrary Double} (hlawful : lib.Lawful) {texts : List Bytes}
    (h : ∀ text ∈ texts, Escaped text) (pieces : List Bytes) (value : Value Double) :
    navigate lib ((if texts = [] then [] else [plainRun texts]) ++ pieces) value =
      proceed (navigate lib pieces) (lib.get (cString (plainRun texts)) value) := by
  split_ifs with hempty
  · rw [hempty]
    exact (congrArg (proceed _) (hlawful.root value)).symm
  · exact navigate_plainRun hlawful h pieces value

/-- The number of a positional segment is read back, and so is what stands behind it. -/
theorem stoi_positional {n : ℤ} (hn : -2 ^ 31 ≤ n ∧ n < 2 ^ 31) {suffix : Bytes}
    (hsuffix : ∀ c, suffix.head? = some c → isDigit c = false) :
    isPositional (indicator ++ decimalInt n ++ suffix) = true ∧
      stoi ((indicator ++ decimalInt n ++ suffix).drop indicator.length) = .ok n ∧
      (indicator ++ decimalInt n ++ suffix).drop (indicator ++ decimalInt n).length = suffix := by
  refine ⟨?_, ?_, List.drop_left⟩
  · rw [isPositional, List.append_assoc, find?_of_isPrefix (List.prefix_append _ _)]
    rfl
  · rw [List.append_assoc, List.drop_left]
    exact stoi_decimalInt_append hn.1 hn.2 hsuffix

theorem navigate_value (lib : JsonLibrary Double) {n : ℤ} (hn : -2 ^ 31 ≤ n ∧ n < 2 ^ 31)
    (pieces : List Bytes) (value : Value Double) :
    navigate lib ((Segment.value n).render :: pieces) value =
      (getNthValue n value).bind (proceed (navigate lib pieces)) := by
  obtain ⟨hpositional, hindex, hsuffix⟩ := @stoi_positional n hn valueIndicator
    fun c hc ↦ by rw [← Option.some.inj hc]; decide
  have hlength : ¬ (Segment.value n).render.length < (indicator ++ decimalInt n).length := by
    rw [Segment.render, List.length_append]
    exact Nat.not_lt.mpr (Nat.le_add_right _ _)
  have hne : valueIndicator ≠ nameIndicator := by decide
  rw [navigate]
  rw [Segment.render] at hlength ⊢
  rw [if_pos hpositional, hindex]
  dsimp only
  rw [if_neg hlength, hsuffix, if_neg hne, if_pos rfl]

theorem navigate_name (lib : JsonLibrary Double) {n : ℤ} (hn : -2 ^ 31 ≤ n ∧ n < 2 ^ 31)
    (pieces : List Bytes) (value : Value Double) :
    navigate lib ((Segment.name n).render :: pieces) value = getNthName n value := by
  obtain ⟨hpositional, hindex, hsuffix⟩ := @stoi_positional n hn nameIndicator
    fun c hc ↦ by rw [← Option.some.inj hc]; decide
  have hlength : ¬ (Segment.name n).render.length < (indicator ++ decimalInt n).length := by
    rw [Segment.render, List.length_append]
    exact Nat.not_lt.mpr (Nat.le_add_right _ _)
  rw [navigate]
  rw [Segment.render] at hlength ⊢
  rw [if_pos hpositional, hindex]
  dsimp only
  rw [if_neg hlength, hsuffix, if_pos rfl]

theorem slash_notMem_decimalInt (n : ℤ) : char '/' ∉ decimalInt n := by
  have hdigits : char '/' ∉ decimal n.natAbs := fun hmem ↦
    (ne_of_isDigit (isDigit_of_mem_decimal hmem)).2.2.2.2.1 rfl
  unfold decimalInt
  split_ifs
  · exact List.not_mem_cons_of_ne_of_not_mem (by decide) hdigits
  · exact hdigits

theorem render_eq_nil_iff (segments : List Segment) : render segments = [] ↔ segments = [] := by
  cases segments with
  | nil => exact iff_of_true rfl rfl
  | cons segment rest =>
    cases segment <;> exact iff_of_false (by simp [render, Segment.render, indicator, ascii])
      (List.cons_ne_nil _ _)

theorem render_tokens_append (texts : List Bytes) (tail : List Segment) :
    render (texts.map Segment.token ++ tail) = plainRun texts ++ render tail := by
  rw [render, List.flatMap_append, List.flatMap_map]
  rfl

/-- The lookup behind a positional segment. -/
theorem navigate_rest {lib : JsonLibrary Double} {rest : List Segment}
    (h : ∀ value, navigate lib (splitComplexJsonPointer (render rest)) value =
      navigateSegments lib false rest value) :
    navigate lib (if render rest = [] then [] else splitComplexJsonPointer (render rest)) =
      navigateSegments lib false rest := by
  funext value
  split_ifs with hempty
  · rw [(render_eq_nil_iff rest).mp hempty]
    rfl
  · exact h value

/-- The pieces into which the code cuts a pointer are looked up like its segments. -/
theorem navigate_render {lib : JsonLibrary Double} (hlawful : lib.Lawful) {segments : List Segment}
    (hwell : ∀ segment ∈ segments, segment.WellFormed) (value : Value Double) :
    navigate lib (splitComplexJsonPointer (render segments)) value =
      navigateSegments lib false segments value := by
  induction hlength : segments.length using Nat.strong_induction_on generalizing segments value with
  | _ length ih =>
    obtain ⟨texts, tail, rfl, htail⟩ := exists_eq_tokens_append segments
    have htexts : ∀ text ∈ texts, Escaped text := fun text htext ↦
      hwell (.token text) (List.mem_append_left _ (List.mem_map_of_mem htext))
    rw [navigateSegments_tokens hlawful htexts htail, render_tokens_append]
    cases tail with
    | nil =>
      rw [show render [] = [] from rfl, List.append_nil, splitComplexJsonPointer_plainRun htexts]
      exact navigate_plainRun hlawful htexts [] value
    | cons segment rest =>
      have hsegment := hwell segment (List.mem_append_right _ List.mem_cons_self)
      have hshorter : rest.length < length := by
        rw [← hlength, List.length_append, List.length_cons]
        omega
      have hrest := navigate_rest fun value ↦ ih rest.length hshorter
        (fun other hother ↦ hwell other (List.mem_append_right _
          (List.mem_cons_of_mem segment hother))) value rfl
      -- the run in front, the positional segment, and the rest
      have hsplit : ∀ suffix, char '/' ∉ suffix → ∀ n,
          navigate lib (splitComplexJsonPointer (plainRun texts ++
              (indicator ++ (decimalInt n ++ suffix) ++ render rest))) value =
            proceed (navigate lib ((indicator ++ (decimalInt n ++ suffix)) ::
              (if render rest = [] then [] else splitComplexJsonPointer (render rest))))
              (lib.get (cString (plainRun texts)) value) := by
        intro suffix hsuffix n
        rw [splitComplexJsonPointer_positional htexts
          (fun hmem ↦ (List.mem_append.mp hmem).elim (slash_notMem_decimalInt n) hsuffix)
          (beginsSegment_render rest), navigate_optional hlawful htexts]
      cases segment with
      | token text => exact absurd rfl (htail text rest)
      | value n =>
        refine (hsplit valueIndicator (by decide) n).trans (congrArg (fun next ↦ proceed next _) ?_)
        funext next
        exact (navigate_value lib hsegment _ next).trans (by rw [hrest]; rfl)
      | name n =>
        refine (hsplit nameIndicator (by decide) n).trans (congrArg (fun next ↦ proceed next _) ?_)
        funext next
        exact navigate_name lib hsegment _ next

/-! ### Without a NUL -/

theorem getNth_eq (part : Bytes × Value Double → Value Double) (n : ℤ) {value : Value Double}
    (hobject : value.IsObject) :
    getNth part n value = .ok ((memberFromEither n value.members).map part) := by
  cases value with
  | object members =>
    exact congrArg (fun found ↦ Except.ok (found.map part)) (nthMember_eq n members)
  | _ => exact hobject.elim

theorem memberFromEither_zero (members : List (Bytes × Value Double)) :
    memberFromEither 0 members = none := rfl

/-- Without a NUL in the tokens that are reached the lookup leads where the segments lead. -/
theorem navigateSegments_eq_follow {lib : JsonLibrary Double} {segments : List Segment}
    (hfree : NulFree segments) {value : Value Double}
    (hobjects : PositionalAtObjects lib segments value) :
    navigateSegments lib false segments value = .ok (follow lib segments value) := by
  induction segments generalizing value with
  | nil => rfl
  | cons segment rest ih =>
    cases segment with
    | token text =>
      obtain ⟨hzero, hfree⟩ := hfree
      rw [navigateSegments, follow, decide_eq_false hzero, cString_eq_self_iff.mpr hzero]
      cases hfound : lib.get (plainRun [text]) value with
      | none => rfl
      | some next => exact ih hfree (hobjects next hfound)
    | value n =>
      obtain ⟨hobject, hobjects⟩ := hobjects
      rw [navigateSegments, follow, getNthValue, getNth_eq Prod.snd n hobject]
      cases hfound : (memberFromEither n value.members).map Prod.snd with
      | none => rfl
      | some next =>
        have hn : n ≠ 0 := fun hzero ↦ by
          rw [hzero, memberFromEither_zero] at hfound
          exact absurd hfound (by simp)
        exact ih (hfree hn) (hobjects next hfound)
    | name n => exact getNth_eq _ n hobjects

/-! ### With a NUL -/

/-- A document in which segments lead somewhere. Beside the member that a token names it has one
with the name up to the first NUL. -/
def pathDocument : List Segment → Value Double
  | [] => .bool true
  | .token text :: rest =>
    .object [(unescape text, pathDocument rest), (unescape (cString text), .null)]
  | .value n :: rest => .object (List.replicate n.natAbs ([], pathDocument rest))
  | .name n :: _ => .object (List.replicate n.natAbs ([], .null))

/-- Every member of a document with equal members is the one. -/
theorem memberFromEither_replicate {n : ℤ} (hn : n ≠ 0) (entry : Bytes × Value Double) :
    memberFromEither n (List.replicate n.natAbs entry) = some entry := by
  unfold memberFromEither
  rw [List.reverse_replicate]
  split_ifs with hpos hneg
  · exact List.getElem?_replicate_of_lt (by omega)
  · exact List.getElem?_replicate_of_lt (by omega)
  · omega

/-- Escapes neither hide nor bring in a NUL. -/
theorem zero_mem_unescape_iff (text : Bytes) : 0 ∈ unescape text ↔ 0 ∈ text := by
  have htilde : (0 : UInt8) ≠ char '~' := by decide
  have hslash : (0 : UInt8) ≠ char '/' := by decide
  have hzero : (0 : UInt8) ≠ char '0' := by decide
  have hone : (0 : UInt8) ≠ char '1' := by decide
  induction text using unescape.induct with
  | case1 => exact Iff.rfl
  | case2 c => exact Iff.rfl
  | case3 c d rest hescape ih =>
    rw [unescape, if_pos hescape, hescape.1, hescape.2]
    simp only [List.mem_cons, htilde, hzero, false_or, ih]
  | case4 c d rest hnot hescape ih =>
    rw [unescape, if_neg hnot, if_pos hescape, hescape.1, hescape.2]
    simp only [List.mem_cons, htilde, hslash, hone, false_or, ih]
  | case5 c d rest hnot hnot' ih =>
    rw [unescape, if_neg hnot, if_neg hnot']
    exact List.mem_cons.trans ((or_congr_right ih).trans List.mem_cons.symm)

theorem get_pathDocument_token {lib : JsonLibrary Double} (hlawful : lib.Lawful) {text : Bytes}
    (h : Escaped text) (rest : List Segment) :
    lib.get (plainRun [text]) (pathDocument (.token text :: rest)) = some (pathDocument rest) := by
  rw [pathDocument, hlawful.member text _ h, List.find?_cons_of_pos (by simp)]
  rfl

/-- The token up to its NUL leads to the other member. -/
theorem get_pathDocument_cString {lib : JsonLibrary Double} (hlawful : lib.Lawful) {text : Bytes}
    (h : Escaped text) (hzero : 0 ∈ text) (rest : List Segment) :
    lib.get (plainRun [cString text]) (pathDocument (.token text :: rest)) = some .null := by
  have hne : unescape text ≠ unescape (cString text) := fun heq ↦
    zero_notMem_cString text ((zero_mem_unescape_iff _).mp
      (heq ▸ (zero_mem_unescape_iff text).mpr hzero))
  rw [pathDocument, hlawful.member _ _ h.cString_of_escaped,
    List.find?_cons_of_neg (by simp [hne]), List.find?_cons_of_pos (by simp)]
  rfl

/-- In the document, positional segments stand at objects. -/
theorem positionalAtObjects_pathDocument {lib : JsonLibrary Double} (hlawful : lib.Lawful)
    {segments : List Segment} (hwell : ∀ segment ∈ segments, segment.WellFormed) :
    PositionalAtObjects lib segments (pathDocument segments) := by
  induction segments with
  | nil => trivial
  | cons segment rest ih =>
    have hrest := ih fun other hother ↦ hwell other (List.mem_cons_of_mem segment hother)
    cases segment with
    | token text =>
      intro next hnext
      rw [get_pathDocument_token hlawful (hwell (.token text) List.mem_cons_self)] at hnext
      exact Option.some.inj hnext ▸ hrest
    | value n =>
      refine ⟨trivial, fun next hnext ↦ ?_⟩
      by_cases hn : n = 0
      · rw [hn, memberFromEither_zero] at hnext
        exact absurd hnext (by simp)
      · rw [pathDocument, Value.members, memberFromEither_replicate hn] at hnext
        exact Option.some.inj hnext ▸ hrest
    | name n => trivial

/-- From `null` the lookup of the rest of a run finds `null` or runs into a positional segment, and
in the first case the tokens lead to `true` in their document. -/
theorem navigateSegments_null {lib : JsonLibrary Double} (hlawful : lib.Lawful)
    {segments : List Segment} (hwell : ∀ segment ∈ segments, segment.WellFormed) :
    navigateSegments lib true segments .null = .error .memberCount ∨
      navigateSegments lib true segments .null = .ok (some .null) ∧
        follow lib segments (pathDocument segments) = some (.bool true) := by
  induction segments with
  | nil => exact Or.inr ⟨rfl, rfl⟩
  | cons segment rest ih =>
    cases segment with
    | token text =>
      have htext := hwell (.token text) List.mem_cons_self
      rw [navigateSegments, follow, get_pathDocument_token hlawful htext]
      exact ih fun other hother ↦ hwell other (List.mem_cons_of_mem _ hother)
    | value n => exact Or.inl rfl
    | name n => exact Or.inl rfl

/-- With a NUL in a token that is reached, the lookup in the document goes wrong. -/
theorem navigateSegments_pathDocument_ne {lib : JsonLibrary Double} (hlawful : lib.Lawful)
    {segments : List Segment} (hwell : ∀ segment ∈ segments, segment.WellFormed)
    (hnul : ¬ NulFree segments) :
    (navigateSegments lib false segments (pathDocument segments)).map
        (convertRapidVJsonValueToStr lib) ≠
      .ok (convertRapidVJsonValueToStr lib (follow lib segments (pathDocument segments))) := by
  induction segments with
  | nil => exact absurd trivial hnul
  | cons segment rest ih =>
    have hrest : ∀ other ∈ rest, other.WellFormed :=
      fun other hother ↦ hwell other (List.mem_cons_of_mem segment hother)
    cases segment with
    | token text =>
      have htext := hwell (.token text) List.mem_cons_self
      rw [navigateSegments, follow, get_pathDocument_token hlawful htext]
      by_cases hzero : 0 ∈ text
      · rw [get_pathDocument_cString hlawful htext hzero, decide_eq_true hzero]
        rcases navigateSegments_null hlawful hrest with hfault | ⟨hnull, hfollow⟩
        · rw [proceed, hfault]
          exact fun h ↦ absurd h (by simp [Except.map])
        · rw [proceed, hnull, Option.bind_some, hfollow]
          have htexts : ([] : Bytes) ≠ ascii "true" := by decide
          exact fun h ↦ htexts (Except.ok.inj h)
      · rw [cString_eq_self_iff.mpr hzero, get_pathDocument_token hlawful htext,
          decide_eq_false hzero]
        exact ih hrest fun hfree ↦ hnul ⟨hzero, hfree⟩
    | value n =>
      have hn : n ≠ 0 := fun hzero ↦ hnul fun hn ↦ absurd hzero hn
      rw [navigateSegments, follow, getNthValue,
        @getNth_eq _ Prod.snd n (pathDocument (.value n :: rest)) trivial, pathDocument,
        Value.members, memberFromEither_replicate hn]
      exact ih hrest fun hfree ↦ hnul fun _ ↦ hfree
    | name n => exact absurd trivial hnul

/-- **Pointers are followed segment by segment** in every document exactly when no token that is
reached has a NUL. -/
theorem getValueFromJsonPtr_eq_follow_iff {lib : JsonLibrary Double} (hlawful : lib.Lawful)
    {segments : List Segment} (hwell : ∀ segment ∈ segments, segment.WellFormed) :
    (∀ d, PositionalAtObjects lib segments d →
        getValueFromJsonPtr lib d (render segments) =
          .ok (convertRapidVJsonValueToStr lib (follow lib segments d))) ↔ NulFree segments := by
  constructor
  · intro hall
    by_contra hnul
    have hdocument := hall _ (positionalAtObjects_pathDocument hlawful hwell)
    rw [getValueFromJsonPtr, navigate_render hlawful hwell] at hdocument
    exact navigateSegments_pathDocument_ne hlawful hwell hnul hdocument
  · intro hfree d hobjects
    rw [getValueFromJsonPtr, navigate_render hlawful hwell,
      navigateSegments_eq_follow hfree hobjects]
    rfl

/-! ### A library -/

/-- The tokens of a pointer without positional segments, which begins with a slash or is empty. -/
def pointerTokens : Bytes → Option (List Bytes)
  | [] => some []
  | c :: rest => if c = char '/' then some (rest.splitOn (char '/')) else none

/-- The index of an array element: digits without a leading zero. -/
def arrayIndex (text : Bytes) : Option ℕ :=
  if text = decimal (digitsValue text) then some (digitsValue text) else none

/-- What a token leads to. -/
def applyToken (value : Value Unit) (text : Bytes) : Option (Value Unit) :=
  match value with
  | .object members =>
    (members.find? fun entry ↦ decide (entry.1 = unescape text)).map Prod.snd
  | .array elements => (arrayIndex text).bind (elements[·]?)
  | .null | .bool _ | .integer _ | .double _ | .string _ => none

/-- A library with the lookups of objects and arrays. -/
def pointerLibrary : JsonLibrary Unit where
  isValid source := (pointerTokens source).any fun texts ↦ texts.all fun text ↦
    decide (Escaped text)
  get source value := (pointerTokens source).bind fun texts ↦ texts.foldlM applyToken value
  doubleToString _ := []
  write _ := []

theorem pointerTokens_plainRun {texts : List Bytes} (h : ∀ text ∈ texts, Escaped text) :
    pointerTokens (plainRun texts) = some texts := by
  cases texts with
  | nil => rfl
  | cons text texts =>
    have hjoined : ∀ (text : Bytes) (texts : List Bytes),
        [char '/'].intercalate (text :: texts) = text ++ plainRun texts := by
      intro text texts
      induction texts generalizing text with
      | nil => simp [plainRun]
      | cons other texts ih =>
        rw [List.intercalate_cons_of_ne_nil (List.cons_ne_nil _ _), ih]
        simp [plainRun]
    have hsplit := List.splitOn_intercalate (char '/')
      (fun other hother ↦ (h other hother).slash_notMem) (List.cons_ne_nil _ _)
    rw [hjoined] at hsplit
    exact congrArg some hsplit

theorem lawful_pointerLibrary : pointerLibrary.Lawful := by
  have hget : ∀ texts value, (∀ text ∈ texts, Escaped text) →
      pointerLibrary.get (plainRun texts) value = texts.foldlM applyToken value := by
    intro texts value h
    show (pointerTokens (plainRun texts)).bind _ = _
    rw [pointerTokens_plainRun h]
    rfl
  have hone : ∀ text value, Escaped text →
      pointerLibrary.get (plainRun [text]) value = applyToken value text := by
    intro text value h
    rw [hget _ _ (List.forall_mem_singleton.mpr h), List.foldlM_cons]
    exact bind_pure _
  constructor
  case valid =>
    intro texts h
    show (pointerTokens (plainRun texts)).any _ = true
    rw [pointerTokens_plainRun h]
    exact List.all_eq_true.mpr fun text htext ↦ decide_eq_true (h text htext)
  case root => exact fun value ↦ rfl
  case leftToRight =>
    intro text texts value htext htexts
    rw [hget _ _ (List.forall_mem_cons.mpr ⟨htext, htexts⟩), hone text value htext,
      List.foldlM_cons]
    exact congrArg _ (funext fun next ↦ (hget texts next htexts).symm)
  case member => exact fun text members h ↦ hone text (.object members) h

/-- The second member of the value of `a`, and the last but one in it. -/
def nestedSegments : List Segment :=
  [.token (ascii "a"), .value 2, .token (ascii "b~1c"), .value (-2)]

theorem getValueFromJsonPtr_nestedSegments :
    render nestedSegments = ascii "/a/~#2#value/b~1c/~#-2#value" ∧
      ∀ d, PositionalAtObjects pointerLibrary nestedSegments d →
        getValueFromJsonPtr pointerLibrary d (render nestedSegments) =
          .ok (convertRapidVJsonValueToStr pointerLibrary
            (follow pointerLibrary nestedSegments d)) :=
  ⟨by decide +kernel,
    (getValueFromJsonPtr_eq_follow_iff lawful_pointerLibrary (by decide)).mpr (by decide)⟩

/-- A token with a NUL leads to the member whose name ends there. -/
theorem getValueFromJsonPtr_ne_nulToken :
    ∃ d, PositionalAtObjects pointerLibrary [.token [97, 0, 98]] d ∧
      follow pointerLibrary [.token [97, 0, 98]] d = some (.integer 1) ∧
      getValueFromJsonPtr pointerLibrary d (render [.token [97, 0, 98]]) = .ok (ascii "2") ∧
      getValueFromJsonPtr pointerLibrary d (render [.token [97, 0, 98]]) ≠
        .ok (convertRapidVJsonValueToStr pointerLibrary
          (follow pointerLibrary [.token [97, 0, 98]] d)) := by
  have hsplit : splitComplexJsonPointer (render [.token [97, 0, 98]]) = [[47, 97, 0, 98]] := by
    decide +kernel
  have hcode : getValueFromJsonPtr pointerLibrary
      (.object [([97, 0, 98], .integer 1), ([97], .integer 2)])
      (render [.token [97, 0, 98]]) = .ok (ascii "2") := by
    rw [getValueFromJsonPtr, hsplit]
    rfl
  refine ⟨_, fun _ _ ↦ trivial, rfl, hcode, ?_⟩
  rw [hcode]
  exact fun h ↦ absurd (Except.ok.inj h) (by decide)

end Maock.Json
