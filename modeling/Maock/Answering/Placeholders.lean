import Maock.Answering.Template
import Maock.Foundation.Replacement

/-!
# Placeholders and their values

`tokenize_string` cuts a text at the leftmost occurrences of its placeholder that do not overlap, so
the tokens with the values of the arguments between them are the text with these occurrences
replaced. `substitutes_ofSchema` says it for the payload of a response, and `produceHeader_eq` for a
header field: when all placeholders stand behind the colon, the values cannot move the boundary
between name and value.
-/

set_option autoImplicit false
set_option relaxedAutoImplicit false

namespace Maock.Answering

open Foundation Foundation.Bytes Foundation.Replacement

variable {Document σ : Type}

/-! ### Tokens -/

section SplitAt

variable {delimiter : Bytes} (hne : delimiter ≠ [])

theorem splitAt_of_find?_eq_none {source : Bytes} (hfound : find? delimiter source = none) :
    splitAt delimiter hne source = [source] := by
  rw [splitAt]
  split
  · rfl
  · next hother => exact absurd (hfound.symm.trans hother) (by simp)

theorem splitAt_of_find?_eq_some {source : Bytes} {position : ℕ}
    (hfound : find? delimiter source = some position) :
    splitAt delimiter hne source = source.take position ::
      splitAt delimiter hne (source.drop (position + delimiter.length)) := by
  rw [splitAt]
  split
  · next hother => exact absurd (hfound.symm.trans hother) (by simp)
  · next hother => rw [Option.some.inj (hother.symm.trans hfound)]

/-- There is at least one token. -/
theorem splitAt_ne_nil (source : Bytes) : splitAt delimiter hne source ≠ [] := by
  cases hfound : find? delimiter source with
  | none => simp [splitAt_of_find?_eq_none hne hfound]
  | some position => simp [splitAt_of_find?_eq_some hne hfound]

/-- The tokens joined with the delimiter are the source again. -/
theorem intercalate_splitAt (source : Bytes) :
    delimiter.intercalate (splitAt delimiter hne source) = source := by
  induction source using splitAt.induct delimiter hne with
  | case1 source hfound =>
    rw [splitAt_of_find?_eq_none hne hfound]
    simp
  | case2 source position hfound ih =>
    have hjoined := take_append_of_find? hfound
    rw [splitAt_of_find?_eq_some hne hfound, List.intercalate_cons_of_ne_nil (splitAt_ne_nil hne _),
      ih]
    exact hjoined

/-- No token contains the delimiter. -/
theorem not_infix_of_mem_splitAt {source token : Bytes}
    (htoken : token ∈ splitAt delimiter hne source) : ¬ delimiter <:+: token := by
  induction source using splitAt.induct delimiter hne with
  | case1 source hfound =>
    rw [splitAt_of_find?_eq_none hne hfound] at htoken
    rw [List.mem_singleton.mp htoken, ← @List.take_length _ source]
    exact not_infix_take hne fun position _ ↦ not_isPrefix_drop_of_find?_eq_none hfound position
  | case2 source position hfound ih =>
    rw [splitAt_of_find?_eq_some hne hfound] at htoken
    rcases List.mem_cons.mp htoken with rfl | hrest
    · exact not_infix_take hne fun _ ↦ not_isPrefix_drop_of_find? hfound
    · exact ih hrest

/-- Values between the tokens take the places of the delimiters. -/
theorem replaced_splitAt {source : Bytes} {values : List Bytes}
    (hlength : (splitAt delimiter hne source).length = values.length + 1) :
    Replaced delimiter values source (interleave (splitAt delimiter hne source) values) := by
  induction source using splitAt.induct delimiter hne generalizing values with
  | case1 source hfound =>
    rw [splitAt_of_find?_eq_none hne hfound] at hlength ⊢
    obtain rfl := List.length_eq_zero_iff.mp (Nat.succ.inj hlength).symm
    rw [interleave, interleave, List.append_nil]
    exact Replaced.refl_of_forall fun position _ ↦
      not_isPrefix_drop_of_find?_eq_none hfound position
  | case2 source position hfound ih =>
    have hjoined := take_append_of_find? hfound
    have hbound := congrArg List.length hjoined
    rw [splitAt_of_find?_eq_some hne hfound] at hlength ⊢
    cases values with
    | nil => exact absurd (List.length_eq_zero_iff.mp (Nat.succ.inj hlength)) (splitAt_ne_nil hne _)
    | cons value values =>
      have hrest := @Replaced.occurrence _ delimiter value _ _ _ (ih (Nat.succ.inj hlength))
      rw [interleave, List.append_assoc]
      nth_rewrite 1 [← hjoined]
      rw [List.append_assoc]
      refine Replaced.copy_append (fun earlier hearlier ↦ ?_) hrest
      rw [← List.append_assoc, hjoined]
      exact not_isPrefix_drop_of_find? hfound
        (Nat.lt_of_lt_of_le hearlier (List.length_take_le _ _))

end SplitAt

/-! ### Values -/

/-- The values of arguments, one evaluated after the other. -/
def evaluateAll (s : Surroundings Document σ) :
    List Argument → Evaluation Document σ (List Bytes)
  | [] => return []
  | arg :: rest => do
    let value ← arg.getValue s
    let values ← evaluateAll s rest
    return value :: values

theorem length_evaluateAll (s : Surroundings Document σ) (arguments : List Argument)
    (state : Matching.RequestMessage Document × σ) :
    ((evaluateAll s arguments).run state).1.length = arguments.length := by
  induction arguments generalizing state with
  | nil => rfl
  | cons arg rest ih => exact congrArg (· + 1) (ih ((arg.getValue s).run state).2)

/-- The loops over tokens evaluate every argument once and put its value behind its token. -/
theorem substitute_run (s : Surroundings Document σ) {tokens : List Bytes}
    {arguments : List Argument} (hlength : arguments.length ≤ tokens.length)
    (state : Matching.RequestMessage Document × σ) :
    (substitute s tokens arguments).run state =
      (interleave tokens ((evaluateAll s arguments).run state).1,
        ((evaluateAll s arguments).run state).2) := by
  induction tokens generalizing arguments state with
  | nil =>
    obtain rfl := List.length_eq_zero_iff.mp (Nat.le_zero.mp hlength)
    rfl
  | cons token tokens ih =>
    cases arguments with
    | nil =>
      have hrest := @ih [] (Nat.zero_le _) state
      exact congrArg (fun result ↦ (token ++ result.1, result.2)) hrest
    | cons arg arguments =>
      have hrest := ih (Nat.le_of_succ_le_succ hlength) ((arg.getValue s).run state).2
      exact congrArg
        (fun result ↦ (token ++ ((arg.getValue s).run state).1 ++ result.1, result.2)) hrest

/-! ### Texts -/

/-- What an accepted text with placeholders owes to its configuration. The tokens are the text cut
at its placeholder, and the text that is produced is the configured one with its placeholders
replaced by the values of the arguments, each evaluated once, in order. -/
structure Substitutes (s : Surroundings Document σ) (schema : SchemaTemplate)
    (template : Template) : Prop where
  arguments : template.arguments = schema.arguments.map Argument.ofSchema
  joined : schema.placeholder ≠ [] →
    schema.placeholder.intercalate template.tokens = schema.text
  free : schema.placeholder ≠ [] → ∀ token ∈ template.tokens, ¬ schema.placeholder <:+: token
  single : schema.placeholder = [] → template.tokens = [schema.text]
  produced : ∀ state : Matching.RequestMessage Document × σ,
    ((producePayload s template).run state).2 =
        ((evaluateAll s template.arguments).run state).2 ∧
      (schema.placeholder ≠ [] → Replaced schema.placeholder
        ((evaluateAll s template.arguments).run state).1 schema.text
        ((producePayload s template).run state).1) ∧
      (schema.placeholder = [] → ((producePayload s template).run state).1 = schema.text)

theorem ofSchema_eq_some {schema : SchemaTemplate} {template : Template}
    (haccepted : Template.ofSchema schema = some template) :
    template = ⟨tokenizeString schema.text schema.placeholder,
        schema.arguments.map Argument.ofSchema⟩ ∧
      template.tokens.length = template.arguments.length + 1 := by
  unfold Template.ofSchema at haccepted
  dsimp only at haccepted
  split_ifs at haccepted with hlength
  obtain rfl := Option.some.inj haccepted
  exact ⟨rfl, by rw [List.length_map]; exact hlength⟩

theorem tokenizeString_nil (source : Bytes) : tokenizeString source [] = [source] :=
  dif_neg fun hne ↦ hne rfl

theorem tokenizeString_of_ne_nil {delimiter : Bytes} (hne : delimiter ≠ []) (source : Bytes) :
    tokenizeString source delimiter = splitAt delimiter hne source :=
  dif_pos hne

/-- The text of an accepted template, run once. -/
theorem assemble_run (s : Surroundings Document σ) {schema : SchemaTemplate} {template : Template}
    (haccepted : Template.ofSchema schema = some template)
    (state : Matching.RequestMessage Document × σ) :
    (template.assemble s).run state =
      (interleave template.tokens ((evaluateAll s template.arguments).run state).1,
        ((evaluateAll s template.arguments).run state).2) :=
  substitute_run s (by rw [(ofSchema_eq_some haccepted).2]; exact Nat.le_succ _) state

/-- With a placeholder, the text is the configured one with the placeholders replaced. -/
theorem replaced_assemble (s : Surroundings Document σ) {schema : SchemaTemplate}
    {template : Template} (haccepted : Template.ofSchema schema = some template)
    (hne : schema.placeholder ≠ []) (state : Matching.RequestMessage Document × σ) :
    Replaced schema.placeholder ((evaluateAll s template.arguments).run state).1 schema.text
      ((template.assemble s).run state).1 := by
  obtain ⟨rfl, hlength⟩ := ofSchema_eq_some haccepted
  rw [assemble_run s haccepted, tokenizeString_of_ne_nil hne]
  rw [tokenizeString_of_ne_nil hne] at hlength
  refine replaced_splitAt hne ?_
  rw [length_evaluateAll]
  exact hlength

/-- **Placeholders are replaced by the values of the arguments**, for every text, placeholder and
list of arguments that the constructor accepts. -/
theorem substitutes_ofSchema (s : Surroundings Document σ) {schema : SchemaTemplate}
    {template : Template} (haccepted : Template.ofSchema schema = some template) :
    Substitutes s schema template := by
  obtain ⟨htemplate, hlength⟩ := ofSchema_eq_some haccepted
  have htokens := congrArg Template.tokens htemplate
  have harguments := congrArg Template.arguments htemplate
  dsimp only at htokens harguments
  constructor
  case arguments => exact harguments
  case joined =>
    intro hne
    rw [htokens, tokenizeString_of_ne_nil hne]
    exact intercalate_splitAt hne _
  case free =>
    intro hne token htoken
    rw [htokens, tokenizeString_of_ne_nil hne] at htoken
    exact not_infix_of_mem_splitAt hne htoken
  case single =>
    intro hnil
    rw [htokens, hnil, tokenizeString_nil]
  case produced =>
    intro state
    refine ⟨congrArg Prod.snd (assemble_run s haccepted state),
      fun hne ↦ replaced_assemble s haccepted hne state, fun hnil ↦ ?_⟩
    have hsingle : template.tokens = [schema.text] := by rw [htokens, hnil, tokenizeString_nil]
    have hnone : template.arguments = [] := by
      rw [hsingle] at hlength
      exact List.length_eq_zero_iff.mp (Nat.succ.inj hlength).symm
    have hrun := congrArg Prod.fst (assemble_run s haccepted state)
    rw [hsingle, hnone] at hrun
    exact hrun.trans (List.append_nil _)

/-- Libraries for responses whose arguments repeat the payload of the request. -/
def repeatingLibraries : Surroundings Unit Unit where
  regexMatch _ _ := false
  emptyDocument := ()
  parse _ := ()
  getValueFromJsonPtr _ _ := []
  regexSearch _ subject := some subject
  timeStamp _ := ([], ())
  uniform _ greatest _ := (greatest, ())

/-- An argument with the raw payload of the request as its value. -/
def rawPayloadArgument : SchemaArgument where
  typeOfValue := ascii "RawPayload"
  valueIdentifier := []
  substringStart := 0
  substringLength := -1
  regex := []

/-- A text whose placeholder overlaps itself, with an occurrence at its end. -/
def overlappingTemplate : SchemaTemplate where
  text := ascii "a$$$b$$"
  placeholder := ascii "$$"
  arguments := [rawPayloadArgument, rawPayloadArgument]

theorem substitutes_overlappingTemplate :
    ∃ template, Template.ofSchema overlappingTemplate = some template ∧
      template.tokens = [ascii "a", ascii "$b", []] ∧
      Substitutes repeatingLibraries overlappingTemplate template :=
  ⟨⟨[ascii "a", ascii "$b", []], overlappingTemplate.arguments.map Argument.ofSchema⟩,
    by decide +kernel, rfl, substitutes_ofSchema repeatingLibraries (by decide +kernel)⟩

/-! ### Header fields -/

theorem ofSchema_of_headerOfSchema {schema : SchemaTemplate} {header : Template}
    (haccepted : headerOfSchema schema = some header) :
    Template.ofSchema schema = some header := by
  unfold headerOfSchema at haccepted
  split at haccepted
  · exact absurd haccepted (by simp)
  · split_ifs at haccepted
    exact haccepted

/-- The colon is a part of the text. -/
theorem lt_length_of_findColon {text : Bytes} {t : ℕ} (hcolon : findColon text = some t) :
    t < text.length := by
  obtain ⟨position, hfound, rfl⟩ := Option.map_eq_some_iff.mp hcolon
  have hsplit := congrArg List.length (take_append_of_find? hfound)
  have hone : (ascii ":").length = 1 := rfl
  simp only [List.length_append, List.length_take, List.length_drop, hone] at hsplit
  omega

/-- The colon behind the name is found by what stands up to it. -/
theorem findColon_take_append {text : Bytes} {t : ℕ} (hcolon : findColon text = some t)
    (rest : Bytes) : findColon (text.take (t + 1) ++ rest) = some t := by
  obtain ⟨position, hfound, rfl⟩ := Option.map_eq_some_iff.mp hcolon
  cases text with
  | nil => exact absurd (hfound.symm.trans (show find? (ascii ":") [] = none from rfl)) (by simp)
  | cons c text =>
    have hkept := find?_take_append hfound rest
    exact congrArg (Option.map (· + 1)) hkept

/-- **The boundary between name and value stays.** When every occurrence of the placeholder stands
behind the colon at `t`, the name of the produced header field is the configured one, and its value
is the configured one with the placeholders replaced. -/
theorem produceHeader_eq (s : Surroundings Document σ) {schema : SchemaTemplate} {header : Template}
    {t : ℕ} (haccepted : headerOfSchema schema = some header)
    (hcolon : findColon schema.text = some t) (hne : schema.placeholder ≠ [])
    (hbehind : ∀ position, schema.placeholder <+: schema.text.drop position → t < position)
    (state : Matching.RequestMessage Document × σ) :
    header.arguments = schema.arguments.map Argument.ofSchema ∧
      ((produceHeader s header).run state).1.1 = schema.text.take t ∧
      Replaced schema.placeholder ((evaluateAll s header.arguments).run state).1
        (schema.text.drop (t + 1)) ((produceHeader s header).run state).1.2 := by
  have htemplate := ofSchema_of_headerOfSchema haccepted
  refine ⟨congrArg Template.arguments (ofSchema_eq_some htemplate).1, ?_⟩
  have hreplaced := replaced_assemble s htemplate hne state
  -- what stands up to the colon is copied
  have hfree : ∀ position < (schema.text.take (t + 1)).length,
      ¬ schema.placeholder <+:
        (schema.text.take (t + 1) ++ schema.text.drop (t + 1)).drop position := by
    intro position hposition hoccurs
    rw [List.take_append_drop] at hoccurs
    have hlater := hbehind position hoccurs
    have hbound := List.length_take_le (t + 1) schema.text
    omega
  rw [← List.take_append_drop (t + 1) schema.text] at hreplaced
  obtain ⟨value, htext, hvalue⟩ := Replaced.exists_of_append hfree hreplaced
  -- so the colon is found where it was
  have hkept : findColon ((header.assemble s).run state).1 = some t := by
    rw [htext]
    exact findColon_take_append hcolon value
  have hlength : (schema.text.take (t + 1)).length = t + 1 :=
    List.length_take_of_le (lt_length_of_findColon hcolon)
  have hsplit : ((produceHeader s header).run state).1 = (schema.text.take t, value) := by
    show splitHeader ((header.assemble s).run state).1 = _
    unfold splitHeader
    rw [hkept, htext]
    dsimp only
    rw [List.take_append_of_le_length (by omega), List.take_take, Nat.min_eq_left (Nat.le_succ t),
      List.drop_left' hlength]
  rw [hsplit]
  exact ⟨rfl, hvalue⟩

/-- A header field with a colon in its value, in front of the placeholder. -/
def taggedHeader : SchemaTemplate where
  text := ascii ":x-tag:v:$VAR;$VAR"
  placeholder := ascii "$VAR"
  arguments := [rawPayloadArgument, rawPayloadArgument]

/-- A request whose payload has a colon and the placeholder in it. -/
def taggingMessage : Matching.RequestMessage Unit where
  headers := OrderedContainer.OrderedMultimap.empty Bytes bytesLess
  jsonPayload := ()
  jsonPayloadString := none
  rawPayload := ascii "a:$VAR"
  matchResult := []

theorem produceHeader_taggedHeader :
    ∃ header, headerOfSchema taggedHeader = some header ∧
      ((produceHeader repeatingLibraries header).run (taggingMessage, ())).1 =
        (ascii ":x-tag", ascii "v:a:$VAR;a:$VAR") ∧
      Replaced taggedHeader.placeholder
        ((evaluateAll repeatingLibraries header.arguments).run (taggingMessage, ())).1
        (taggedHeader.text.drop 7)
        ((produceHeader repeatingLibraries header).run (taggingMessage, ())).1.2 := by
  have haccepted : headerOfSchema taggedHeader = some
      ⟨[ascii ":x-tag:v:", ascii ";", []], taggedHeader.arguments.map Argument.ofSchema⟩ := by
    decide +kernel
  have hbehind : ∀ position, taggedHeader.placeholder <+: taggedHeader.text.drop position →
      6 < position := by
    intro position hoccurs
    by_contra hearly
    have hnone : ∀ position < 7,
        ¬ taggedHeader.placeholder <+: taggedHeader.text.drop position := by
      decide
    exact hnone position (by omega) hoccurs
  exact ⟨_, haccepted, by decide +kernel, (produceHeader_eq repeatingLibraries haccepted
    (by decide) (by decide) hbehind (taggingMessage, ())).2.2⟩

end Maock.Answering
