import Mathlib.Tactic.Common
import Maock.Config.Handlers

/-!
# What the handlers make of a document

A handler that is fed the events of a document, against a decoder that is given the document:
`Computes` says that the handler ends with the value of the decoder, and with its trace where the
decoder fails, and that it is not parsed before the last event, on which the handlers around it
rely. `computes_scalar` and `computes_array` say it of the handlers of values without parts and of
arrays.

The events of a value are balanced (`levelFrom_events`), so that the depth that a handler counts
comes back to where it was; `ArrayState.feed_element` is the lemma about the events of one
element.
-/

set_option autoImplicit false
set_option relaxedAutoImplicit false

namespace Maock.Config

open Foundation Foundation.Bytes Json

variable {Double : Type}

/-! ### Levels of nesting -/

/-- What an event does to a level of nesting: it opens one, closes one, may only stand within one,
or does neither. -/
inductive Nesting where
  | opens
  | closes
  | within
  | neutral

/-- The level behind an event, if the event may stand at this level. -/
def Nesting.next : Nesting → ℕ → Option ℕ
  | .opens, k => some (k + 1)
  | .closes, 0 => none
  | .closes, k + 1 => some k
  | .within, 0 => none
  | .within, k + 1 => some (k + 1)
  | .neutral, k => some k

/-- The level behind a sequence of events. -/
def levelFrom (nesting : Event Double → Nesting) : ℕ → List (Event Double) → Option ℕ
  | k, [] => some k
  | k, e :: rest => ((nesting e).next k).bind fun k ↦ levelFrom nesting k rest

/-- Nesting of arrays. -/
def arrayNesting : Event Double → Nesting
  | .startArray => .opens
  | .endArray => .closes
  | _ => .neutral

/-- Nesting of objects. -/
def objectNesting : Event Double → Nesting
  | .startObject => .opens
  | .endObject => .closes
  | .key _ => .within
  | _ => .neutral

theorem levelFrom_append (nesting : Event Double → Nesting) (k : ℕ)
    (first second : List (Event Double)) :
    levelFrom nesting k (first ++ second) =
      (levelFrom nesting k first).bind fun k ↦ levelFrom nesting k second := by
  induction first generalizing k with
  | nil => rfl
  | cons e rest ih =>
    rw [List.cons_append, levelFrom, levelFrom, Option.bind_assoc]
    exact congrArg _ (funext ih)

theorem nesting_numberEvent (n : ℤ) :
    arrayNesting (numberEvent n : Event Double) = .neutral ∧
      objectNesting (numberEvent n : Event Double) = .neutral := by
  unfold numberEvent
  split_ifs <;> exact ⟨rfl, rfl⟩

mutual

/-- The events of a value are balanced. -/
theorem levelFrom_events (k : ℕ) (v : Value Double) :
    levelFrom arrayNesting k (events v) = some k ∧
      levelFrom objectNesting k (events v) = some k := by
  cases v with
  | null | bool | double | string => exact ⟨rfl, rfl⟩
  | integer n =>
    refine ⟨?_, ?_⟩
    · rw [events, levelFrom, (nesting_numberEvent n).1]
      rfl
    · rw [events, levelFrom, (nesting_numberEvent n).2]
      rfl
  | array elements =>
    refine ⟨?_, ?_⟩
    · show levelFrom arrayNesting (k + 1) (elementEvents elements ++ [.endArray]) = some k
      rw [levelFrom_append, (levelFrom_elementEvents (k + 1) elements).1]
      rfl
    · show levelFrom objectNesting k (elementEvents elements ++ [.endArray]) = some k
      rw [levelFrom_append, (levelFrom_elementEvents k elements).2]
      rfl
  | object members =>
    refine ⟨?_, ?_⟩
    · show levelFrom arrayNesting k (memberEvents members ++ [.endObject]) = some k
      rw [levelFrom_append, (levelFrom_memberEvents k members).1]
      rfl
    · show levelFrom objectNesting (k + 1) (memberEvents members ++ [.endObject]) = some k
      rw [levelFrom_append, (levelFrom_memberEvents k members).2]
      rfl

theorem levelFrom_elementEvents (k : ℕ) (elements : List (Value Double)) :
    levelFrom arrayNesting k (elementEvents elements) = some k ∧
      levelFrom objectNesting k (elementEvents elements) = some k := by
  cases elements with
  | nil => exact ⟨rfl, rfl⟩
  | cons v rest =>
    have hv := levelFrom_events k v
    have hrest := levelFrom_elementEvents k rest
    rw [elementEvents, levelFrom_append, levelFrom_append, hv.1, hv.2]
    exact hrest

theorem levelFrom_memberEvents (k : ℕ) (members : List (Bytes × Value Double)) :
    levelFrom arrayNesting k (memberEvents members) = some k ∧
      levelFrom objectNesting (k + 1) (memberEvents members) = some (k + 1) := by
  cases members with
  | nil => exact ⟨rfl, rfl⟩
  | cons member rest =>
    obtain ⟨name, v⟩ := member
    show levelFrom arrayNesting k (events v ++ memberEvents rest) = some k ∧
      levelFrom objectNesting (k + 1) (events v ++ memberEvents rest) = some (k + 1)
    rw [levelFrom_append, levelFrom_append, (levelFrom_events k v).1,
      (levelFrom_events (k + 1) v).2]
    exact levelFrom_memberEvents k rest

end

theorem events_ne_nil (v : Value Double) : events v ≠ [] := by
  cases v <;> simp [events]

/-! ### Handlers and decoders -/

mutual

/-- No object in a document names a member twice. -/
def UniqueNames : Value Double → Prop
  | .array elements => UniqueElements elements
  | .object members => (members.map Prod.fst).Nodup ∧ UniqueMembers members
  | _ => True

def UniqueElements : List (Value Double) → Prop
  | [] => True
  | v :: rest => UniqueNames v ∧ UniqueElements rest

def UniqueMembers : List (Bytes × Value Double) → Prop
  | [] => True
  | (_, v) :: rest => UniqueNames v ∧ UniqueMembers rest

end

variable {α : Type}

/-- What is read of a document into a place that holds a value already. -/
abbrev Decoder (Double α : Type) := Value Double → α → Except Trace α

/-- The handler is not parsed before any of the events. -/
def Handler.Unparsed (h : Handler Double α) : List (Event Double) → h.State → α → Prop
  | [], _, _ => True
  | e :: rest, st, a =>
    h.isParsed st = false ∧ ∀ st' a', h.step e st a = .ok (st', a') → h.Unparsed rest st' a'

/-- A handler computes what a decoder says, and is parsed behind the last event of a document and
not before. -/
structure Computes (h : Handler Double α) (decode : Decoder Double α) : Prop where
  unparsed : ∀ v, UniqueNames v → ∀ a, h.Unparsed (events v) h.initial a
  of_ok : ∀ v, UniqueNames v → ∀ a a', decode v a = .ok a' →
    ∃ st, h.feed (events v) h.initial a = .ok (st, a') ∧ h.isParsed st = true
  of_error : ∀ v, UniqueNames v → ∀ a trace, decode v a = .error trace →
    h.feed (events v) h.initial a = .error trace

theorem feed_cons (h : Handler Double α) (e : Event Double) (rest : List (Event Double))
    (st : h.State) (a : α) : h.feed (e :: rest) st a =
      match h.step e st a with
      | .error trace => .error trace
      | .ok (st, a) => h.feed rest st a := rfl

/-- A handler that rejects the first event of a document. -/
theorem feed_of_error {h : Handler Double α} {e : Event Double} {rest : List (Event Double)}
    {st : h.State} {a : α} {trace : Trace} (hstep : h.step e st a = .error trace) :
    h.feed (e :: rest) st a = .error trace := by
  rw [feed_cons, hstep]

theorem feed_of_ok {h : Handler Double α} {e : Event Double} {rest : List (Event Double)}
    {st st' : h.State} {a a' : α} (hstep : h.step e st a = .ok (st', a')) :
    h.feed (e :: rest) st a = h.feed rest st' a' := by
  rw [feed_cons, hstep]

/-- The events behind a sequence that the handler takes. -/
theorem feed_append_of_ok {h : Handler Double α} {first second : List (Event Double)}
    {st st' : h.State} {a a' : α} (hfirst : h.feed first st a = .ok (st', a')) :
    h.feed (first ++ second) st a = h.feed second st' a' := by
  induction first generalizing st a with
  | nil =>
    obtain ⟨rfl, rfl⟩ := Prod.mk.inj (Except.ok.inj hfirst)
    rfl
  | cons e rest ih =>
    cases hstep : h.step e st a with
    | error trace => simp [feed_of_error hstep] at hfirst
    | ok next =>
      rw [feed_of_ok hstep] at hfirst
      rw [List.cons_append, feed_of_ok hstep]
      exact ih hfirst

theorem feed_append_of_error {h : Handler Double α} {first second : List (Event Double)}
    {st : h.State} {a : α} {trace : Trace} (hfirst : h.feed first st a = .error trace) :
    h.feed (first ++ second) st a = .error trace := by
  induction first generalizing st a with
  | nil => simp [Handler.feed] at hfirst
  | cons e rest ih =>
    cases hstep : h.step e st a with
    | error trace' =>
      rw [feed_of_error hstep] at hfirst
      rw [List.cons_append, feed_of_error hstep, hfirst]
    | ok next =>
      rw [feed_of_ok hstep] at hfirst
      rw [List.cons_append, feed_of_ok hstep]
      exact ih hfirst

theorem unparsed_of_error {h : Handler Double α} {e : Event Double} {rest : List (Event Double)}
    {st : h.State} {a : α} {trace : Trace} (hparsed : h.isParsed st = false)
    (hstep : h.step e st a = .error trace) : h.Unparsed (e :: rest) st a :=
  ⟨hparsed, fun st' a' hok ↦ by simp [hstep] at hok⟩

/-- The event with which a value begins. -/
def firstEvent : Value Double → Event Double
  | .null => .null
  | .bool b => .bool b
  | .integer n => numberEvent n
  | .double x => .double x
  | .string s => .string s
  | .array _ => .startArray
  | .object _ => .startObject

theorem events_eq_cons (v : Value Double) : ∃ rest, events v = firstEvent v :: rest ∧
    (rest = [] ∨ firstEvent v = .startArray ∨ firstEvent v = .startObject) := by
  cases v with
  | array elements => exact ⟨_, rfl, Or.inr (Or.inl rfl)⟩
  | object members => exact ⟨_, rfl, Or.inr (Or.inr rfl)⟩
  | _ => exact ⟨[], rfl, Or.inl rfl⟩

/-! ### Values without parts -/

/-- What a scalar handler reads. -/
def decodeScalar (typeName : String) (receive : Event Double → Option (Except ErrorEntry α)) :
    Decoder Double α := fun v _ ↦
  match receive (firstEvent v) with
  | none => .error [.typeMismatch typeName (firstEvent v).typeName]
  | some (.error entry) => .error [entry]
  | some (.ok a) => .ok a

/-- The first event decides about a scalar handler. -/
theorem computes_scalar (typeName : String)
    {receive : Event Double → Option (Except ErrorEntry α)} {write : α → Option (Event Double)}
    (harray : receive .startArray = none) (hobject : receive .startObject = none) :
    Computes (scalarHandler typeName receive write) (decodeScalar typeName receive) := by
  have hstep : ∀ (v : Value Double) (a : α),
      (scalarHandler typeName receive write).step (firstEvent v) false a =
        (decodeScalar typeName receive v a).map fun a' ↦ (true, a') := by
    intro v a
    unfold scalarHandler decodeScalar
    cases hreceive : receive (firstEvent v) with
    | none => simp [hreceive, Except.map]
    | some result => cases result <;> simp [hreceive, Except.map]
  have hrest : ∀ {v : Value Double} {rest : List (Event Double)} {a a' : α},
      (rest = [] ∨ firstEvent v = .startArray ∨ firstEvent v = .startObject) →
        decodeScalar typeName receive v a = .ok a' → rest = [] := by
    intro v rest a a' hfirst hdecode
    refine hfirst.resolve_right fun hopen ↦ ?_
    have hnone : receive (firstEvent v) = none := by
      rcases hopen with hopen | hopen
      · rw [hopen, harray]
      · rw [hopen, hobject]
    simp [decodeScalar, hnone] at hdecode
  refine ⟨fun v _ a ↦ ?_, fun v _ a a' hdecode ↦ ?_, fun v _ a trace hdecode ↦ ?_⟩
  · obtain ⟨rest, hevents, hfirst⟩ := events_eq_cons v
    rw [hevents]
    refine ⟨rfl, fun st a' hnext ↦ ?_⟩
    cases hdecode : decodeScalar typeName receive v a with
    | error trace =>
      have herror := (hstep v a).symm.trans hnext
      simp [hdecode, Except.map] at herror
    | ok a'' =>
      obtain rfl := hrest hfirst hdecode
      trivial
  · obtain ⟨rest, hevents, hfirst⟩ := events_eq_cons v
    obtain rfl := hrest hfirst hdecode
    have hnext := hstep v a
    rw [hdecode] at hnext
    rw [hevents]
    exact ⟨true, feed_of_ok hnext, rfl⟩
  · obtain ⟨rest, hevents, -⟩ := events_eq_cons v
    have hnext := hstep v a
    rw [hdecode] at hnext
    rw [hevents]
    exact feed_of_error hnext

/-! ### Arrays -/

/-- What an array handler reads of the elements: those read already stand in front. -/
def decodeElements (decode : Decoder Double α) (fresh : α) :
    List (Value Double) → List α → Except Trace (List α)
  | [], elements => .ok elements
  | v :: rest, elements =>
    match decode v fresh with
    | .error trace => .error (.arrayElement elements.length :: trace)
    | .ok element => decodeElements decode fresh rest (elements ++ [element])

/-- What an array handler reads. -/
def decodeArray (typeName : String) (decode : Decoder Double α) (fresh : α) :
    Decoder Double (List α) := fun v _ ↦
  match v with
  | .array elements => decodeElements decode fresh elements []
  | v => .error [.typeMismatch typeName (firstEvent v).typeName]

namespace ArrayState

variable {h : Handler Double α} {fresh : α}

/-- An event within an element goes to the handler of the element. -/
theorem step_inner {e : Event Double} {k k' : ℕ} (hnext : (arrayNesting e).next k = some k')
    {st : ArrayState h.State α} (hdepth : st.depth = 1 + k) (elements : List α) :
    (arrayHandler h fresh).step e st elements =
      ArrayState.forward h fresh e { st with depth := 1 + k' } elements := by
  have hsame : ∀ k : ℕ, st.depth = 1 + k → { st with depth := 1 + (k : ℤ) } = st := by
    intro k hk
    rw [← hk]
  cases e with
  | startArray =>
    obtain rfl : k + 1 = k' := Option.some_inj.mp hnext
    have hplace : st.depth + 1 = 1 + ((k + 1 : ℕ) : ℤ) := by push_cast; omega
    have hdeep : (1 : ℤ) < 1 + ((k + 1 : ℕ) : ℤ) := by push_cast; omega
    simp only [arrayHandler, hplace, if_pos hdeep]
  | endArray =>
    cases k with
    | zero => exact absurd hnext (by simp [arrayNesting, Nesting.next])
    | succ k =>
      obtain rfl : k = k' := Option.some_inj.mp hnext
      have hplace : st.depth - 1 = 1 + (k : ℤ) := by push_cast at hdepth; omega
      have hdeep : (0 : ℤ) < 1 + (k : ℤ) := by omega
      simp only [arrayHandler, hplace, if_pos hdeep]
  | _ =>
    obtain rfl : k = k' := Option.some_inj.mp hnext
    have hdeep : ¬ st.depth ≤ 0 := by omega
    simp only [arrayHandler, if_neg hdeep, hsame k hdepth]

theorem forward_keeps {e : Event Double} {st st' : ArrayState h.State α}
    {elements elements' : List α}
    (hok : ArrayState.forward h fresh e st elements = .ok (st', elements')) :
    st'.depth = st.depth ∧ st'.parsed = st.parsed := by
  unfold forward at hok
  cases hstep : h.step e st.internal st.element with
  | error trace => simp [hstep] at hok
  | ok next =>
    simp only [hstep] at hok
    split_ifs at hok
    · obtain ⟨rfl, -⟩ := Prod.mk.inj (Except.ok.inj hok)
      exact ⟨rfl, rfl⟩
    · obtain ⟨rfl, -⟩ := Prod.mk.inj (Except.ok.inj hok)
      exact ⟨rfl, rfl⟩

/-- The handler of an array is not parsed within an element. -/
theorem unparsed_inner {inner rest : List (Event Double)} {k k' : ℕ}
    (hlevel : levelFrom arrayNesting k inner = some k')
    (hrest : ∀ (st : ArrayState h.State α) elements, st.depth = 1 + k' → st.parsed = false →
      (arrayHandler h fresh).Unparsed rest st elements)
    {st : ArrayState h.State α} (hdepth : st.depth = 1 + k) (hparsed : st.parsed = false)
    (elements : List α) : (arrayHandler h fresh).Unparsed (inner ++ rest) st elements := by
  induction inner generalizing k st elements with
  | nil =>
    obtain rfl : k = k' := Option.some_inj.mp hlevel
    exact hrest st elements hdepth hparsed
  | cons e inner ih =>
    obtain ⟨k₁, hnext, hlevel⟩ := Option.bind_eq_some_iff.mp hlevel
    refine ⟨hparsed, fun st' elements' hok ↦ ?_⟩
    rw [step_inner hnext hdepth] at hok
    obtain ⟨hdepth', hparsed'⟩ := forward_keeps hok
    exact ih hlevel hdepth' (hparsed'.trans hparsed) elements'

/-- The events of one element. -/
theorem feed_element {inner : List (Event Double)} (hne : inner ≠ []) {k k' : ℕ}
    (hlevel : levelFrom arrayNesting k inner = some k') {st : ArrayState h.State α}
    (hdepth : st.depth = 1 + k) (hunparsed : h.Unparsed inner st.internal st.element)
    (elements : List α) :
    (arrayHandler h fresh).feed inner st elements =
      match h.feed inner st.internal st.element with
      | .error trace => .error (.arrayElement elements.length :: trace)
      | .ok (internal, element) =>
        if h.isParsed internal then
          .ok ({ st with internal := h.initial, element := fresh, depth := 1 + k' },
            elements ++ [element])
        else .ok ({ st with internal := internal, element := element, depth := 1 + k' },
          elements) := by
  induction inner generalizing k st with
  | nil => exact absurd rfl hne
  | cons e rest ih =>
    obtain ⟨k₁, hnext, hlevel⟩ := Option.bind_eq_some_iff.mp hlevel
    have hforward : (arrayHandler h fresh).step e st elements = _ :=
      step_inner hnext hdepth elements
    rw [forward] at hforward
    cases hstep : h.step e st.internal st.element with
    | error trace =>
      simp only [hstep] at hforward
      rw [feed_of_error hstep]
      exact feed_of_error hforward
    | ok next =>
      obtain ⟨internal, element⟩ := next
      have hquiet := hunparsed.2 internal element hstep
      simp only [hstep] at hforward
      rw [feed_of_ok hstep]
      cases rest with
      | nil =>
        obtain rfl : k₁ = k' := Option.some_inj.mp hlevel
        rw [Handler.feed]
        dsimp only
        split_ifs at hforward ⊢ with hdone
        · exact feed_of_ok hforward
        · exact feed_of_ok hforward
      | cons e' rest =>
        rw [if_neg (by simp [hquiet.1])] at hforward
        rw [feed_of_ok hforward]
        exact ih (List.cons_ne_nil _ _) hlevel rfl hquiet

/-- The handler of an array between two elements. -/
def between (h : Handler Double α) (fresh : α) : ArrayState h.State α :=
  { ArrayState.initial h fresh with depth := 1 }

/-- The events of one element, against the decoder of elements. -/
theorem feed_events {decode : Decoder Double α} (hcomputes : Computes h decode)
    {v : Value Double} (hunique : UniqueNames v) (elements : List α) :
    (arrayHandler h fresh).feed (events v) (between h fresh) elements =
      match decode v fresh with
      | .error trace => .error (.arrayElement elements.length :: trace)
      | .ok element => .ok (between h fresh, elements ++ [element]) := by
  have hrun : (arrayHandler h fresh).feed (events v) (between h fresh) elements = _ :=
    feed_element (k := 0) (events_ne_nil v) (levelFrom_events 0 v).1 rfl
      (hcomputes.unparsed v hunique fresh) elements
  cases hdecode : decode v fresh with
  | error trace =>
    have hfeed : h.feed (events v) (between h fresh).internal (between h fresh).element = _ :=
      hcomputes.of_error v hunique fresh trace hdecode
    rwa [hfeed] at hrun
  | ok element =>
    obtain ⟨internal, hok, hparsed⟩ := hcomputes.of_ok v hunique fresh element hdecode
    have hfeed : h.feed (events v) (between h fresh).internal (between h fresh).element = _ := hok
    simp only [hfeed, if_pos hparsed] at hrun
    exact hrun

/-- The elements of an array and the event that closes it. -/
theorem feed_elements {decode : Decoder Double α} (hcomputes : Computes h decode)
    {vs : List (Value Double)} (hunique : UniqueElements vs) (elements : List α) :
    (arrayHandler h fresh).feed (elementEvents vs ++ [.endArray]) (between h fresh) elements =
      match decodeElements decode fresh vs elements with
      | .error trace => .error trace
      | .ok elements => .ok ({ between h fresh with depth := 0, parsed := true }, elements) := by
  induction vs generalizing elements with
  | nil => rfl
  | cons v rest ih =>
    have hfirst : (arrayHandler h fresh).feed (events v) (between h fresh) elements = _ :=
      feed_events hcomputes hunique.1 elements
    rw [elementEvents, List.append_assoc, decodeElements]
    cases hdecode : decode v fresh with
    | error trace =>
      rw [hdecode] at hfirst
      exact feed_append_of_error hfirst
    | ok element =>
      rw [hdecode] at hfirst
      exact (feed_append_of_ok hfirst).trans (ih hunique.2 _)

end ArrayState

/-- The first event of a document that is not an array. -/
theorem step_not_array {h : Handler Double α} {fresh : α} {v : Value Double}
    (hv : ∀ elements, v ≠ .array elements) (elements : List α) :
    (arrayHandler h fresh).step (firstEvent v) (ArrayState.initial h fresh) elements =
      .error [.typeMismatch (arrayHandler h fresh).typeName (firstEvent v).typeName] := by
  cases v with
  | array elements => exact absurd rfl (hv elements)
  | integer n =>
    rw [firstEvent]
    unfold numberEvent
    split_ifs <;> rfl
  | _ => rfl

theorem decodeArray_not_array {typeName : String} {decode : Decoder Double α} {fresh : α}
    {v : Value Double} (hv : ∀ elements, v ≠ .array elements) (a : List α) :
    decodeArray typeName decode fresh v a =
      .error [.typeMismatch typeName (firstEvent v).typeName] := by
  cases v with
  | array elements => exact absurd rfl (hv elements)
  | _ => rfl

theorem computes_array {h : Handler Double α} {decode : Decoder Double α}
    (hcomputes : Computes h decode) (fresh : α) :
    Computes (arrayHandler h fresh) (decodeArray (arrayHandler h fresh).typeName decode fresh) := by
  have hfeed : ∀ {vs : List (Value Double)} (a : List α), UniqueElements vs →
      (arrayHandler h fresh).feed (events (.array vs)) (ArrayState.initial h fresh) a =
        match decodeElements decode fresh vs [] with
        | .error trace => .error trace
        | .ok elements =>
          .ok ({ ArrayState.between h fresh with depth := 0, parsed := true }, elements) :=
    fun _ hunique ↦ ArrayState.feed_elements hcomputes hunique []
  refine ⟨fun v hunique a ↦ ?_, fun v hunique a a' hdecode ↦ ?_,
    fun v hunique a trace hdecode ↦ ?_⟩
  · by_cases hv : ∃ vs, v = .array vs
    · obtain ⟨vs, rfl⟩ := hv
      refine ⟨rfl, fun st' a' hok ↦ ?_⟩
      obtain ⟨rfl, rfl⟩ := Prod.mk.inj (Except.ok.inj hok)
      refine ArrayState.unparsed_inner (k := 0) (levelFrom_elementEvents 0 vs).1 ?_ rfl rfl []
      exact fun st elements _ hparsed ↦ ⟨hparsed, fun _ _ _ ↦ trivial⟩
    · obtain ⟨rest, hevents, -⟩ := events_eq_cons v
      rw [hevents]
      exact unparsed_of_error rfl (step_not_array (not_exists.mp hv) a)
  · by_cases hv : ∃ vs, v = .array vs
    · obtain ⟨vs, rfl⟩ := hv
      have hrun := hfeed a hunique
      rw [show decodeElements decode fresh vs [] = .ok a' from hdecode] at hrun
      exact ⟨_, hrun, rfl⟩
    · rw [decodeArray_not_array (not_exists.mp hv)] at hdecode
      exact absurd hdecode (by simp)
  · by_cases hv : ∃ vs, v = .array vs
    · obtain ⟨vs, rfl⟩ := hv
      have hrun := hfeed a hunique
      rwa [show decodeElements decode fresh vs [] = .error trace from hdecode] at hrun
    · obtain ⟨rest, hevents, -⟩ := events_eq_cons v
      rw [decodeArray_not_array (not_exists.mp hv)] at hdecode
      obtain rfl := Except.error.inj hdecode
      rw [hevents]
      exact feed_of_error (step_not_array (not_exists.mp hv) a)

end Maock.Config
