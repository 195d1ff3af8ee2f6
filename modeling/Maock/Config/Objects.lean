import Mathlib.Data.List.Nodup
import Maock.Config.Decoding

/-!
# What an object handler makes of a document

`decodeObject` reads the members of an object one after the other, each with the decoder of its
property, passes over the members that no property has the name of, and asks at the end for the
required properties that no member had the name of. `computes_object` says that an object handler
does the same with the events.

Between two members the handler stands at depth 1, and has parsed exactly the properties whose
names it has seen (`ObjectState.Between`). `ObjectState.feed_member` is the lemma about the events
of a member that is known, `ObjectState.feed_unknown` that about those of a member that is not.
-/

set_option autoImplicit false
set_option relaxedAutoImplicit false

namespace Maock.Config

open Foundation Foundation.Bytes Json

variable {Double S : Type} {n : ℕ} {internals : Internals Double S n}

/-! ### The decoder -/

/-- What an object handler reads of one member. -/
def decodeMember (internals : Internals Double S n)
    (decode : (i : Fin n) → Decoder Double (internals.Place i)) (name : Bytes) (v : Value Double)
    (s : S) : Except Trace S :=
  match internals.find name with
  | none => .ok s
  | some i =>
    match decode i v ((internals.property i).get s) with
    | .error trace => .error (.objectMember name :: trace)
    | .ok a => .ok ((internals.property i).set a s)

/-- What an object handler reads of the members. -/
def decodeMembers (internals : Internals Double S n)
    (decode : (i : Fin n) → Decoder Double (internals.Place i)) :
    List (Bytes × Value Double) → S → Except Trace S
  | [], s => .ok s
  | (name, v) :: rest, s =>
    match decodeMember internals decode name v s with
    | .error trace => .error trace
    | .ok s => decodeMembers internals decode rest s

/-- The required properties that none of the names is the name of. -/
def absentNames (internals : Internals Double S n) (names : List Bytes) : List Bytes :=
  internals.namesWhere fun i ↦
    !(internals.property i).optional && !names.contains (internals.name i)

/-- What an object handler reads. -/
def decodeObject (internals : Internals Double S n)
    (decode : (i : Fin n) → Decoder Double (internals.Place i)) : Decoder Double S := fun v s ↦
  match v with
  | .object members =>
    match decodeMembers internals decode members s with
    | .error trace => .error trace
    | .ok s =>
      if absentNames internals (members.map Prod.fst) = [] then .ok s
      else .error [.missingRequired (absentNames internals (members.map Prod.fst))]
  | v => .error [.typeMismatch "object" (ObjectState.actualType (firstEvent v))]

/-! ### The map of the properties -/

namespace Internals

/-- The names stand in a strict order. -/
theorem pairwise_names (internals : Internals Double S n) :
    (internals.order.map internals.name).Pairwise (· < ·) := by
  have hsorted := internals.sorted
  simp only [bytesLess_eq_true] at hsorted
  exact List.isChain_iff_pairwise.mp hsorted

theorem nodup_names (internals : Internals Double S n) :
    (internals.order.map internals.name).Nodup := by
  have hne : ∀ {a b : Bytes}, a < b → a ≠ b := fun hlt heq ↦ List.lt_irrefl _ (heq ▸ hlt)
  exact internals.pairwise_names.imp hne

theorem name_injective (internals : Internals Double S n) :
    Function.Injective internals.name := fun i j hname ↦
  List.inj_on_of_nodup_map internals.nodup_names (internals.complete i) (internals.complete j)
    hname

theorem find_some {internals : Internals Double S n} {name : Bytes} {i : Fin n}
    (h : internals.find name = some i) : internals.name i = name := by
  simpa using List.find?_some h

theorem find_none {internals : Internals Double S n} {name : Bytes}
    (h : internals.find name = none) (i : Fin n) : internals.name i ≠ name := by
  have hall := List.find?_eq_none.mp h i (internals.complete i)
  simpa using hall

theorem find_name (internals : Internals Double S n) (i : Fin n) :
    internals.find (internals.name i) = some i := by
  cases hfind : internals.find (internals.name i) with
  | none => exact absurd rfl (find_none hfind i)
  | some j => rw [internals.name_injective (find_some hfind)]

end Internals

/-! ### Events within a member -/

namespace ObjectState

/-- An event within a member goes to the handler of the member, unless that one has read a value. -/
theorem step_inner {e : Event Double} {k k' : ℕ} (hnext : (objectNesting e).next k = some k')
    {st : ObjectState internals} (hdepth : st.depth = 1 + k) (s : S) :
    (objectHandler internals).step e st s =
        ObjectState.forward e { st with depth := 1 + k' } s ∨
      (st.currentParsed = true ∧
        (objectHandler internals).step e st s = .error [.duplicateKey st.currentName]) := by
  have hsame : ∀ k : ℕ, st.depth = 1 + k → { st with depth := 1 + (k : ℤ) } = st := by
    intro k hk
    rw [← hk]
  cases e with
  | startObject =>
    obtain rfl : k + 1 = k' := Option.some_inj.mp hnext
    have hplace : st.depth + 1 = 1 + ((k + 1 : ℕ) : ℤ) := by push_cast; omega
    have hdeep : (1 : ℤ) < 1 + ((k + 1 : ℕ) : ℤ) := by push_cast; omega
    left
    simp only [objectHandler, hplace, if_pos hdeep]
  | endObject =>
    cases k with
    | zero => exact absurd hnext (by simp [objectNesting, Nesting.next])
    | succ k =>
      obtain rfl : k = k' := Option.some_inj.mp hnext
      have hplace : st.depth - 1 = 1 + (k : ℤ) := by push_cast at hdepth; omega
      have hdeep : (0 : ℤ) < 1 + (k : ℤ) := by omega
      left
      simp only [objectHandler, hplace, if_pos hdeep]
  | key name =>
    cases k with
    | zero => exact absurd hnext (by simp [objectNesting, Nesting.next])
    | succ k =>
      obtain rfl : k + 1 = k' := Option.some_inj.mp hnext
      have hdeep : ¬ st.depth ≤ 0 := by omega
      have hinner : ¬ st.depth = 1 := by push_cast at hdepth; omega
      left
      simp only [objectHandler, if_neg hdeep, if_neg hinner, hsame (k + 1) hdepth]
  | _ =>
    obtain rfl : k = k' := Option.some_inj.mp hnext
    have hdeep : ¬ st.depth ≤ 0 := by omega
    cases hcurrent : st.currentParsed with
    | false =>
      left
      simp only [objectHandler, if_neg hdeep, hcurrent, hsame k hdepth]
      rfl
    | true =>
      refine Or.inr ⟨rfl, ?_⟩
      simp only [objectHandler, if_neg hdeep, hcurrent, if_true]

theorem step_forward {e : Event Double} {k k' : ℕ} (hnext : (objectNesting e).next k = some k')
    {st : ObjectState internals} (hdepth : st.depth = 1 + k) (hcurrent : st.currentParsed = false)
    (s : S) : (objectHandler internals).step e st s =
      ObjectState.forward e { st with depth := 1 + k' } s :=
  (step_inner hnext hdepth s).resolve_right fun h ↦ by simp [hcurrent] at h

theorem forward_unknown {st : ObjectState internals} (hcurrent : st.current = none)
    (e : Event Double) (s : S) : ObjectState.forward e st s = .ok (st, s) := by
  unfold forward
  rw [hcurrent]

theorem forward_known {st : ObjectState internals} {i : Fin n} (hcurrent : st.current = some i)
    (e : Event Double) (s : S) : ObjectState.forward e st s =
      match (internals.handler i).step e (st.states i) ((internals.property i).get s) with
      | .error trace => .error (.objectMember st.currentName :: trace)
      | .ok (state, a) =>
        .ok ({ st with states := Function.update st.states i state },
          (internals.property i).set a s) := by
  obtain ⟨states, current, currentName, depth, parsed⟩ := st
  obtain rfl : current = some i := hcurrent
  rfl

/-- The events of a member that no property has the name of are dropped. -/
theorem feed_unknown {inner : List (Event Double)} {k k' : ℕ}
    (hlevel : levelFrom objectNesting k inner = some k') {st : ObjectState internals}
    (hdepth : st.depth = 1 + k) (hcurrent : st.current = none) (s : S) :
    (objectHandler internals).feed inner st s = .ok ({ st with depth := 1 + k' }, s) := by
  induction inner generalizing k st with
  | nil =>
    obtain rfl : k = k' := Option.some_inj.mp hlevel
    rw [← hdepth]
    rfl
  | cons e rest ih =>
    obtain ⟨k₁, hnext, hlevel⟩ := Option.bind_eq_some_iff.mp hlevel
    have hstep : (objectHandler internals).step e st s = _ :=
      (step_forward hnext hdepth (by simp [currentParsed, hcurrent]) s).trans
        (forward_unknown (by exact hcurrent) e s)
    exact (feed_of_ok hstep).trans (ih hlevel rfl hcurrent)

/-- The events of a member go to the handler of its property, which reads into the place of the
property. -/
theorem feed_member {inner : List (Event Double)} (hne : inner ≠ []) {k k' : ℕ}
    (hlevel : levelFrom objectNesting k inner = some k') {st : ObjectState internals}
    (hdepth : st.depth = 1 + k) {i : Fin n} (hcurrent : st.current = some i) {s : S}
    (hunparsed : (internals.handler i).Unparsed inner (st.states i)
      ((internals.property i).get s)) :
    (objectHandler internals).feed inner st s =
      match (internals.handler i).feed inner (st.states i) ((internals.property i).get s) with
      | .error trace => .error (.objectMember st.currentName :: trace)
      | .ok (state, a) =>
        .ok ({ st with
          states := Function.update st.states i state
          depth := 1 + k' }, (internals.property i).set a s) := by
  induction inner generalizing k st s with
  | nil => exact absurd rfl hne
  | cons e rest ih =>
    obtain ⟨k₁, hnext, hlevel⟩ := Option.bind_eq_some_iff.mp hlevel
    have hquiet : st.currentParsed = false := by
      simp only [currentParsed, hcurrent, Option.elim]
      exact hunparsed.1
    have hforward : (objectHandler internals).step e st s = _ :=
      (step_forward hnext hdepth hquiet s).trans (forward_known (by exact hcurrent) e s)
    cases hstep : (internals.handler i).step e (st.states i) ((internals.property i).get s) with
    | error trace =>
      simp only [hstep] at hforward
      rw [feed_of_error hstep]
      exact feed_of_error hforward
    | ok next =>
      obtain ⟨state, a⟩ := next
      simp only [hstep] at hforward
      rw [feed_of_ok hstep]
      refine (feed_of_ok hforward).trans ?_
      cases rest with
      | nil =>
        obtain rfl : k₁ = k' := Option.some_inj.mp hlevel
        rfl
      | cons e' rest =>
        have hrest := hunparsed.2 state a hstep
        have hrun : (objectHandler internals).feed (e' :: rest)
            { st with
              states := Function.update st.states i state
              depth := 1 + k₁ } ((internals.property i).set a s) = _ :=
          ih (List.cons_ne_nil _ _) hlevel rfl (by exact hcurrent)
            (by simpa [Function.update_self, (internals.property i).get_set] using hrest)
        rw [hrun]
        simp only [Function.update_self, (internals.property i).get_set]
        cases (internals.handler i).feed (e' :: rest) state a with
        | error trace => rfl
        | ok final => simp [Function.update_idem, (internals.property i).set_set]

/-! ### The members one after the other -/

/-- Between two members the handler is at depth 1, and has parsed the properties whose names it has
seen. -/
structure Between (st : ObjectState internals) (seen : List Bytes) : Prop where
  depth : st.depth = 1
  unparsed : st.parsed = false
  read : ∀ i, internals.name i ∈ seen → (internals.handler i).isParsed (st.states i) = true
  fresh : ∀ i, internals.name i ∉ seen → st.states i = (internals.handler i).initial

variable {decode : (i : Fin n) → Decoder Double (internals.Place i)}

/-- One member, with the event of its name. -/
theorem feed_named (hcomputes : ∀ i, Computes (internals.handler i) (decode i))
    {st : ObjectState internals} {seen : List Bytes} (hbetween : Between st seen) {name : Bytes}
    (hnew : name ∉ seen) {v : Value Double} (hunique : UniqueNames v) (s : S) :
    (∀ trace, decodeMember internals decode name v s = .error trace →
      (objectHandler internals).feed (.key name :: events v) st s = .error trace) ∧
    (∀ s', decodeMember internals decode name v s = .ok s' →
      ∃ st', (objectHandler internals).feed (.key name :: events v) st s = .ok (st', s') ∧
        Between st' (name :: seen)) := by
  have hkey : (objectHandler internals).step (.key name) st s =
      .ok ({ st with currentName := name, current := internals.find name }, s) := by
    simp [objectHandler, hbetween.depth]
  have hlevel := (levelFrom_events 0 v).2
  unfold decodeMember
  cases hfind : internals.find name with
  | none =>
    have hrun : (objectHandler internals).feed (events v)
        { st with currentName := name, current := none } s = _ :=
      feed_unknown hlevel (by exact hbetween.depth) rfl s
    rw [hfind] at hkey
    refine ⟨fun trace herror ↦ by simp at herror, fun s' hok ↦ ?_⟩
    obtain rfl := Except.ok.inj hok
    refine ⟨_, (feed_of_ok hkey).trans hrun, rfl, hbetween.unparsed, fun i hi ↦ ?_, fun i hi ↦ ?_⟩
    · exact hbetween.read i ((List.mem_cons.mp hi).resolve_left (Internals.find_none hfind i))
    · exact hbetween.fresh i fun hseen ↦ hi (List.mem_cons_of_mem _ hseen)
  | some i =>
    have hname := Internals.find_some hfind
    have hinitial : st.states i = (internals.handler i).initial :=
      hbetween.fresh i (by rwa [hname])
    have hrun : (objectHandler internals).feed (events v)
        { st with currentName := name, current := some i } s = _ :=
      feed_member (events_ne_nil v) hlevel (by exact hbetween.depth) rfl
        (by simpa [hinitial] using (hcomputes i).unparsed v hunique ((internals.property i).get s))
    simp only [hinitial] at hrun
    rw [hfind] at hkey
    refine ⟨fun trace herror ↦ ?_, fun s' hok ↦ ?_⟩
    · cases hdecode : decode i v ((internals.property i).get s) with
      | error inner =>
        rw [(hcomputes i).of_error v hunique _ inner hdecode] at hrun
        simp only [hdecode] at herror
        obtain rfl := Except.error.inj herror
        exact (feed_of_ok hkey).trans hrun
      | ok a => simp [hdecode] at herror
    · cases hdecode : decode i v ((internals.property i).get s) with
      | error inner => simp [hdecode] at hok
      | ok a =>
        obtain ⟨state, hfeed, hparsed⟩ := (hcomputes i).of_ok v hunique _ a hdecode
        rw [hfeed] at hrun
        simp only [hdecode] at hok
        obtain rfl := Except.ok.inj hok
        refine ⟨_, (feed_of_ok hkey).trans hrun, rfl, hbetween.unparsed, fun j hj ↦ ?_,
          fun j hj ↦ ?_⟩
        · by_cases hij : j = i
          · subst hij
            simpa using hparsed
          · have hother : internals.name j ≠ name := fun h ↦
              hij (internals.name_injective (h.trans hname.symm))
            simp only [Function.update_of_ne hij]
            exact hbetween.read j ((List.mem_cons.mp hj).resolve_left hother)
        · have hij : j ≠ i := fun h ↦ hj (by simp [h, hname])
          simp only [Function.update_of_ne hij]
          exact hbetween.fresh j fun hseen ↦ hj (List.mem_cons_of_mem _ hseen)

/-- The members, in their order. -/
theorem feed_members (hcomputes : ∀ i, Computes (internals.handler i) (decode i))
    {members : List (Bytes × Value Double)} (hunique : UniqueMembers members)
    (hnodup : (members.map Prod.fst).Nodup) {st : ObjectState internals} {seen : List Bytes}
    (hbetween : Between st seen) (hnew : ∀ name ∈ members.map Prod.fst, name ∉ seen) (s : S) :
    (∀ trace, decodeMembers internals decode members s = .error trace →
      (objectHandler internals).feed (memberEvents members) st s = .error trace) ∧
    (∀ s', decodeMembers internals decode members s = .ok s' →
      ∃ st', (objectHandler internals).feed (memberEvents members) st s = .ok (st', s') ∧
        Between st' ((members.map Prod.fst).reverse ++ seen)) := by
  induction members generalizing st seen s with
  | nil =>
    refine ⟨fun trace herror ↦ by simp [decodeMembers] at herror, fun s' hok ↦ ?_⟩
    obtain rfl := Except.ok.inj hok
    exact ⟨st, rfl, hbetween⟩
  | cons member rest ih =>
    obtain ⟨name, v⟩ := member
    obtain ⟨hfresh, hnodup⟩ := List.nodup_cons.mp hnodup
    have hone := feed_named hcomputes hbetween (hnew name (by simp)) hunique.1 s
    rw [decodeMembers, memberEvents, ← List.cons_append]
    cases hmember : decodeMember internals decode name v s with
    | error trace =>
      refine ⟨fun trace' herror ↦ ?_, fun s' hok ↦ by simp at hok⟩
      obtain rfl := Except.error.inj herror
      exact feed_append_of_error (hone.1 trace hmember)
    | ok s₁ =>
      obtain ⟨st₁, hfeed, hbetween₁⟩ := hone.2 s₁ hmember
      have hrest := ih hunique.2 hnodup hbetween₁ (s := s₁) fun other hother hseen ↦ by
        rcases List.mem_cons.mp hseen with rfl | hseen
        · exact hfresh hother
        · exact hnew other (List.mem_cons_of_mem _ hother) hseen
      refine ⟨fun trace herror ↦ ?_, fun s' hok ↦ ?_⟩
      · exact (feed_append_of_ok hfeed).trans (hrest.1 trace herror)
      · obtain ⟨st', hrun, hend⟩ := hrest.2 s' hok
        refine ⟨st', (feed_append_of_ok hfeed).trans hrun, ?_⟩
        rw [List.map_cons, List.reverse_cons, List.append_assoc]
        exact hend

/-- What is missing between two members is what no member had the name of. -/
theorem missing_eq (hcomputes : ∀ i, Computes (internals.handler i) (decode i))
    {st : ObjectState internals} {seen : List Bytes} (hbetween : Between st seen) (s : S) :
    st.missing = absentNames internals seen := by
  unfold missing absentNames
  congr 1
  funext i
  by_cases hi : internals.name i ∈ seen
  · simp [hbetween.read i hi, hi]
  · have hinitial : (internals.handler i).isParsed (internals.handler i).initial = false :=
      ((hcomputes i).unparsed .null trivial ((internals.property i).get s)).1
    simp [hbetween.fresh i hi, hinitial, hi]

/-- The event that closes an object. -/
theorem step_endObject (hcomputes : ∀ i, Computes (internals.handler i) (decode i))
    {st : ObjectState internals} {seen names : List Bytes} (hbetween : Between st seen)
    (hseen : ∀ name, name ∈ seen ↔ name ∈ names) (s : S) :
    (objectHandler internals).step .endObject st s =
      if absentNames internals names = [] then
        .ok ({ st with depth := 0, parsed := true }, s)
      else .error [.missingRequired (absentNames internals names)] := by
  have hmissing : st.missing = absentNames internals names := by
    rw [missing_eq hcomputes hbetween s]
    unfold absentNames
    congr 1
    funext i
    simp [hseen]
  rw [← hmissing]
  simp only [objectHandler, hbetween.depth, sub_self, lt_irrefl, if_false]
  rfl

theorem forward_keeps {e : Event Double} {st st' : ObjectState internals} {s s' : S}
    (hok : ObjectState.forward e st s = .ok (st', s')) :
    st'.depth = st.depth ∧ st'.parsed = st.parsed := by
  cases hcurrent : st.current with
  | none =>
    rw [forward_unknown hcurrent] at hok
    obtain ⟨rfl, -⟩ := Prod.mk.inj (Except.ok.inj hok)
    exact ⟨rfl, rfl⟩
  | some i =>
    rw [forward_known hcurrent] at hok
    cases hstep : (internals.handler i).step e (st.states i) ((internals.property i).get s) with
    | error trace => simp [hstep] at hok
    | ok next =>
      simp only [hstep] at hok
      obtain ⟨rfl, -⟩ := Prod.mk.inj (Except.ok.inj hok)
      exact ⟨rfl, rfl⟩

/-- No event within a member parses the handler of the object. -/
theorem step_keeps {e : Event Double} {k k' : ℕ} (hnext : (objectNesting e).next k = some k')
    {st st' : ObjectState internals} (hdepth : st.depth = 1 + k) {s s' : S}
    (hok : (objectHandler internals).step e st s = .ok (st', s')) :
    st'.depth = 1 + k' ∧ st'.parsed = st.parsed := by
  rcases step_inner hnext hdepth s with hforward | ⟨-, herror⟩
  · exact forward_keeps (hforward.symm.trans hok)
  · simp [herror] at hok

/-- The handler of an object is not parsed within a member. -/
theorem unparsed_inner {inner rest : List (Event Double)} {k k' : ℕ}
    (hlevel : levelFrom objectNesting k inner = some k')
    (hrest : ∀ (st : ObjectState internals) s, st.depth = 1 + k' → st.parsed = false →
      (objectHandler internals).Unparsed rest st s)
    {st : ObjectState internals} (hdepth : st.depth = 1 + k) (hparsed : st.parsed = false) (s : S) :
    (objectHandler internals).Unparsed (inner ++ rest) st s := by
  induction inner generalizing k st s with
  | nil =>
    obtain rfl : k = k' := Option.some_inj.mp hlevel
    exact hrest st s hdepth hparsed
  | cons e inner ih =>
    obtain ⟨k₁, hnext, hlevel⟩ := Option.bind_eq_some_iff.mp hlevel
    refine ⟨hparsed, fun st' s' hok ↦ ?_⟩
    obtain ⟨hdepth', hparsed'⟩ := step_keeps hnext hdepth hok
    exact ih hlevel hdepth' (hparsed'.trans hparsed) s'

/-- The handler of an object is not parsed before the event that closes it. -/
theorem unparsed_members (members : List (Bytes × Value Double)) {st : ObjectState internals}
    (hdepth : st.depth = 1) (hparsed : st.parsed = false) (s : S) :
    (objectHandler internals).Unparsed (memberEvents members ++ [.endObject]) st s := by
  induction members generalizing st s with
  | nil => exact ⟨hparsed, fun _ _ _ ↦ trivial⟩
  | cons member rest ih =>
    obtain ⟨name, v⟩ := member
    rw [memberEvents, List.cons_append, List.append_assoc]
    refine ⟨hparsed, fun st' s' hok ↦ ?_⟩
    have hkey : (objectHandler internals).step (.key name) st s =
        .ok ({ st with currentName := name, current := internals.find name }, s) := by
      simp [objectHandler, hdepth]
    obtain ⟨rfl, rfl⟩ := Prod.mk.inj (Except.ok.inj (hkey.symm.trans hok))
    exact unparsed_inner (levelFrom_events 0 v).2 (fun st s hdepth hparsed ↦ ih hdepth hparsed s)
      (by exact hdepth) (by exact hparsed) s

/-- The events of a whole object. -/
theorem feed_object (hcomputes : ∀ i, Computes (internals.handler i) (decode i))
    {members : List (Bytes × Value Double)} (hunique : UniqueNames (.object members)) (s : S) :
    (∀ trace, decodeObject internals decode (.object members) s = .error trace →
      (objectHandler internals).feed (events (.object members)) (ObjectState.initial internals) s =
        .error trace) ∧
    (∀ s', decodeObject internals decode (.object members) s = .ok s' →
      ∃ st, (objectHandler internals).feed (events (.object members))
        (ObjectState.initial internals) s = .ok (st, s') ∧ st.parsed = true) := by
  have hbegin : (objectHandler internals).step .startObject (ObjectState.initial internals) s =
      .ok ({ ObjectState.initial internals with depth := 1 }, s) := rfl
  have hbetween : Between { ObjectState.initial internals with depth := 1 } [] :=
    ⟨rfl, rfl, fun i hi ↦ by simp at hi, fun i _ ↦ rfl⟩
  have hmembers := feed_members hcomputes hunique.2 hunique.1 hbetween
    (fun name _ ↦ List.not_mem_nil) s
  rw [events, decodeObject]
  cases hdecode : decodeMembers internals decode members s with
  | error trace =>
    refine ⟨fun trace' herror ↦ ?_, fun s' hok ↦ by simp at hok⟩
    obtain rfl := Except.error.inj herror
    exact (feed_of_ok hbegin).trans (feed_append_of_error (hmembers.1 trace hdecode))
  | ok s₁ =>
    obtain ⟨st₁, hfeed, hbetween₁⟩ := hmembers.2 s₁ hdecode
    have hseen : ∀ name, name ∈ (members.map Prod.fst).reverse ++ [] ↔
        name ∈ members.map Prod.fst := fun name ↦ by simp
    have hclose := step_endObject hcomputes hbetween₁ hseen s₁
    have hrun : (objectHandler internals).feed
        (.startObject :: (memberEvents members ++ [.endObject])) (ObjectState.initial internals) s =
          _ := (feed_of_ok hbegin).trans (feed_append_of_ok hfeed)
    dsimp only
    split_ifs at hclose ⊢ with habsent
    · refine ⟨fun trace herror ↦ by simp at herror, fun s' hok ↦ ?_⟩
      obtain rfl := Except.ok.inj hok
      exact ⟨_, hrun.trans (feed_of_ok hclose), rfl⟩
    · refine ⟨fun trace herror ↦ ?_, fun s' hok ↦ by simp at hok⟩
      obtain rfl := Except.error.inj herror
      exact hrun.trans (feed_of_error hclose)

end ObjectState

/-- The first event of a document that is not an object. -/
theorem step_not_object {v : Value Double} (hv : ∀ members, v ≠ .object members) (s : S) :
    (objectHandler internals).step (firstEvent v) (ObjectState.initial internals) s =
      .error [.typeMismatch "object" (ObjectState.actualType (firstEvent v))] := by
  cases v with
  | object members => exact absurd rfl (hv members)
  | integer n =>
    rw [firstEvent]
    unfold numberEvent
    split_ifs <;> rfl
  | _ => rfl

theorem decodeObject_not_object {decode : (i : Fin n) → Decoder Double (internals.Place i)}
    {v : Value Double} (hv : ∀ members, v ≠ .object members) (s : S) :
    decodeObject internals decode v s =
      .error [.typeMismatch "object" (ObjectState.actualType (firstEvent v))] := by
  cases v with
  | object members => exact absurd rfl (hv members)
  | _ => rfl

theorem computes_object {decode : (i : Fin n) → Decoder Double (internals.Place i)}
    (hcomputes : ∀ i, Computes (internals.handler i) (decode i)) :
    Computes (objectHandler internals) (decodeObject internals decode) := by
  refine ⟨fun v hunique s ↦ ?_, fun v hunique s s' hdecode ↦ ?_,
    fun v hunique s trace hdecode ↦ ?_⟩
  · by_cases hv : ∃ members, v = .object members
    · obtain ⟨members, rfl⟩ := hv
      refine ⟨rfl, fun st s' hok ↦ ?_⟩
      obtain ⟨rfl, rfl⟩ := Prod.mk.inj (Except.ok.inj hok)
      exact ObjectState.unparsed_members members rfl rfl s
    · obtain ⟨rest, hevents, -⟩ := events_eq_cons v
      rw [hevents]
      exact unparsed_of_error rfl (step_not_object (not_exists.mp hv) s)
  · by_cases hv : ∃ members, v = .object members
    · obtain ⟨members, rfl⟩ := hv
      exact (ObjectState.feed_object hcomputes hunique s).2 s' hdecode
    · rw [decodeObject_not_object (not_exists.mp hv)] at hdecode
      exact absurd hdecode (by simp)
  · by_cases hv : ∃ members, v = .object members
    · obtain ⟨members, rfl⟩ := hv
      exact (ObjectState.feed_object hcomputes hunique s).1 trace hdecode
    · obtain ⟨rest, hevents, -⟩ := events_eq_cons v
      rw [decodeObject_not_object (not_exists.mp hv)] at hdecode
      obtain rfl := Except.error.inj hdecode
      rw [hevents]
      exact feed_of_error (step_not_object (not_exists.mp hv) s)

end Maock.Config
