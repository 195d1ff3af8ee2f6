import Maock.Worker.ContentLength
import Maock.Worker.RequestHandler

/-!
# The configured header fields of a sent response

Every entry of `additonalHeaders` gives a name and a value. They pass through the `std::map` of
`produce_headers`, which keeps one field for each name, and through the `header_map` of
`send_response`, which keeps all of them. With the status 0 `send_response` closes the stream in
front of `write_head`. `configuredFields_subperm_iff` says when all fields reach `write_head`.
-/

set_option autoImplicit false
set_option relaxedAutoImplicit false

namespace Maock.Worker

open Foundation Foundation.OrderedContainer Foundation.Bytes Http Answering

variable {Document σ : Type}

/-! ### What is configured -/

/-- The pairs that `produce_header` gives for header fields, one after the other. -/
def producePairs (s : Surroundings Document σ) :
    List Template → Evaluation Document σ (List (Bytes × Bytes))
  | [] => return []
  | header :: rest => do
    let headerWithValue ← produceHeader s header
    let pairs ← producePairs s rest
    return headerWithValue :: pairs

/-- The map of `produce_headers` is made of the pairs. -/
theorem insertHeaders_eq_insertAll (s : Surroundings Document σ) (headers : List Template)
    (start : StringMap) (state : Matching.RequestMessage Document × σ) :
    ((insertHeaders s headers start).run state).1 =
      start.insertAll ((producePairs s headers).run state).1 := by
  induction headers generalizing start state with
  | nil => rfl
  | cons header rest ih =>
    exact ih (start.insert ((produceHeader s header).run state).1)
      ((produceHeader s header).run state).2

/-- The fields that a visit's response has by its configuration. -/
def Visit.configuredFields (s : Surroundings Document σ) (visit : Visit Document σ) :
    List (Bytes × Bytes) :=
  ((producePairs s visit.response.additonalHeaders).run (visit.msg, visit.source)).1

/-- Without a script the map of the answer is made of the configured fields. -/
theorem headers_of_answer {s : Surroundings Document σ} {visit : Visit Document σ}
    {statics : HandlerStatics} {a : Answer} (hlua : visit.response.hasLuaState = false)
    (hanswer : visit.answer s statics = some a) :
    a.headers = (OrderedSet.empty _).insertAll (visit.configuredFields s) := by
  cases hthrottled : visit.isThrottled statics with
  | true => exact absurd ((Visit.answer_of_throttled hthrottled).symm.trans hanswer) (by simp)
  | false =>
    obtain rfl := Option.some.inj ((Visit.answer_of_not_lua hthrottled hlua).symm.trans hanswer)
    exact insertHeaders_eq_insertAll s visit.response.additonalHeaders (OrderedSet.empty _)
      (visit.msg, visit.source)

/-- Without a script the answer has the status of the response. -/
theorem statusCode_of_answer {s : Surroundings Document σ} {visit : Visit Document σ}
    {statics : HandlerStatics} {a : Answer} (hlua : visit.response.hasLuaState = false)
    (hanswer : visit.answer s statics = some a) :
    a.statusCode = visit.response.statusCode := by
  cases hthrottled : visit.isThrottled statics with
  | true => exact absurd ((Visit.answer_of_throttled hthrottled).symm.trans hanswer) (by simp)
  | false =>
    obtain rfl := Option.some.inj ((Visit.answer_of_not_lua hthrottled hlua).symm.trans hanswer)
    rfl

/-! ### What is passed on -/

/-- The names and values of the fields of a `header_map`. -/
def mapFields (headers : HeaderMap) : List (Bytes × Bytes) :=
  headers.entries.map fun header ↦ (header.1, header.2.value)

/-- The fields that `send_response` passes to `write_head`, none when it does not get there. -/
def Answer.passedFields (a : Answer) : List (Bytes × Bytes) :=
  match a.calls with
  | none => []
  | some calls => mapFields calls.headers

theorem passedFields_of_status_eq_zero {a : Answer} (hstatus : a.statusCode = 0) :
    a.passedFields = [] := by
  simp only [Answer.passedFields, Answer.calls, hstatus, if_true]

theorem passedFields_of_status_ne_zero {a : Answer} (hstatus : a.statusCode ≠ 0) :
    a.passedFields = mapFields a.headerMap := by
  simp only [Answer.passedFields, Answer.calls, hstatus, if_false]

/-- The map has all fields of the answer, and possibly a content length, when there was none. -/
theorem mapFields_headerMap_perm (a : Answer) :
    (mapFields a.headerMap).Perm a.ownFields ∨
      (∀ field ∈ a.ownFields, field.1 ≠ contentLength) ∧
        (mapFields a.headerMap).Perm
          ((contentLength, decimal a.payload.length) :: a.ownFields) := by
  unfold mapFields Answer.headerMap
  dsimp only
  split_ifs with hadded
  · refine Or.inr ⟨(count_toHeaderMap_eq_zero_iff a.headers contentLength).mp hadded.2.1, ?_⟩
    exact map_entries_emplace_perm contentLength (decimal a.payload.length) a.headers
  · exact Or.inl (List.Perm.of_eq (map_entries_toHeaderMap a.headers))

/-- The fields of an answer are among those of the map. -/
theorem ownFields_subperm (a : Answer) : a.ownFields.Subperm (mapFields a.headerMap) := by
  rcases mapFields_headerMap_perm a with hperm | ⟨_, hperm⟩
  · exact hperm.symm.subperm
  · exact (List.sublist_cons_self _ _).subperm.trans hperm.symm.subperm

/-- No two fields of the map have the same name. -/
theorem nodup_names_headerMap (a : Answer) : ((mapFields a.headerMap).map Prod.fst).Nodup := by
  have hown : (a.ownFields.map Prod.fst).Nodup :=
    (OrderedMap.keys_sorted a.headers).imp fun {x y} hless heq ↦ by
      rw [heq] at hless
      exact absurd hless (by simp)
  rcases mapFields_headerMap_perm a with hperm | ⟨hnone, hperm⟩
  · exact (hperm.map Prod.fst).nodup_iff.mpr hown
  · refine (hperm.map Prod.fst).nodup_iff.mpr (List.nodup_cons.mpr ⟨fun hmem ↦ ?_, hown⟩)
    obtain ⟨field, hfield, hname⟩ := List.mem_map.mp hmem
    exact hnone field hfield hname

/-! ### What is lost -/

/-- A pair is produced for every header field. -/
theorem producePairs_eq_nil_iff (s : Surroundings Document σ) (headers : List Template)
    (state : Matching.RequestMessage Document × σ) :
    ((producePairs s headers).run state).1 = [] ↔ headers = [] := by
  cases headers with
  | nil => exact iff_of_true rfl rfl
  | cons header rest => exact iff_of_false (List.cons_ne_nil _ _) (List.cons_ne_nil header rest)

/-- The map has every configured field exactly when their names are different. -/
theorem configuredFields_subperm_headerMap_iff {s : Surroundings Document σ}
    {visit : Visit Document σ} {statics : HandlerStatics} {a : Answer}
    (hlua : visit.response.hasLuaState = false) (hanswer : visit.answer s statics = some a) :
    (visit.configuredFields s).Subperm (mapFields a.headerMap) ↔
      ((visit.configuredFields s).map Prod.fst).Nodup := by
  have hheaders := headers_of_answer hlua hanswer
  constructor
  · rintro ⟨kept, hperm, hsublist⟩
    exact (hperm.map Prod.fst).nodup_iff.mp
      ((nodup_names_headerMap a).sublist (hsublist.map Prod.fst))
  · intro hnames
    have hunique : (visit.configuredFields s).Pairwise fun field field' ↦
        ¬ Equivalent (keyLess bytesLess) field field' := by
      refine (List.pairwise_map.mp hnames).imp fun {field field'} hne hequiv ↦ hne ?_
      exact (equivalent_bytesLess field.1 field'.1).mp hequiv
    have hkept := OrderedSet.elems_insertAll_perm hunique
    rw [← hheaders] at hkept
    exact hkept.symm.subperm.trans (ownFields_subperm a)

/-- **The configured header fields.** For every response without a script and every request that is
answered, the fields passed to `write_head` contain every configured field, counted with its
multiplicity, exactly when none is configured; or the status of the response is not 0, with which
the stream is closed instead, and the names of the configured fields are different. -/
theorem configuredFields_subperm_iff (s : Surroundings Document σ) {visit : Visit Document σ}
    {statics : HandlerStatics} {a : Answer} (hlua : visit.response.hasLuaState = false)
    (hanswer : visit.answer s statics = some a) :
    (visit.configuredFields s).Subperm a.passedFields ↔
      visit.response.additonalHeaders = [] ∨
        visit.response.statusCode ≠ 0 ∧ ((visit.configuredFields s).map Prod.fst).Nodup := by
  have hnone : visit.configuredFields s = [] ↔ visit.response.additonalHeaders = [] :=
    producePairs_eq_nil_iff s visit.response.additonalHeaders (visit.msg, visit.source)
  have hstatusCode := statusCode_of_answer hlua hanswer
  rw [← hnone, ← hstatusCode]
  by_cases hstatus : a.statusCode = 0
  · rw [passedFields_of_status_eq_zero hstatus, List.subperm_nil]
    simp [hstatus]
  · rw [passedFields_of_status_ne_zero hstatus, configuredFields_subperm_headerMap_iff hlua hanswer]
    refine ⟨fun hnames ↦ Or.inr ⟨hstatus, hnames⟩, ?_⟩
    rintro (hempty | ⟨-, hnames⟩)
    · rw [hempty]
      exact List.nodup_nil
    · exact hnames

/-- The configuration of a header field without placeholders. -/
def plainHeader (text : Bytes) : SchemaTemplate where
  text := text
  placeholder := []
  arguments := []

/-- A visit to a response with given header fields and without a script. -/
def headerVisit (additonalHeaders : List Template) : Visit Unit Unit where
  response := { bareResponse 0 with additonalHeaders := additonalHeaders }
  msg := Visit.bareMessage
  source := ()
  number := 0
  script := none

theorem configuredFields_subperm_twoNames :
    ∃ a, (headerVisit [⟨[ascii "a:1"], []⟩, ⟨[ascii "b:2"], []⟩]).answer Visit.plainSurroundings
        HandlerStatics.initial = some a ∧
      ((headerVisit [⟨[ascii "a:1"], []⟩, ⟨[ascii "b:2"], []⟩]).configuredFields
        Visit.plainSurroundings).Subperm a.passedFields :=
  ⟨_, rfl, (configuredFields_subperm_iff Visit.plainSurroundings rfl rfl).mpr
    (Or.inr ⟨by decide, by decide⟩)⟩

/-- Of two cookies only the first is passed on. -/
theorem not_configuredFields_subperm_twoCookies :
    ∃ first second a, headerOfSchema (plainHeader (ascii "set-cookie:a=1")) = some first ∧
      headerOfSchema (plainHeader (ascii "set-cookie:b=2")) = some second ∧
      (headerVisit [first, second]).answer Visit.plainSurroundings HandlerStatics.initial =
        some a ∧
      a.passedFields = [(ascii "set-cookie", ascii "a=1")] ∧
      ¬ ((headerVisit [first, second]).configuredFields
        Visit.plainSurroundings).Subperm a.passedFields :=
  ⟨⟨[ascii "set-cookie:a=1"], []⟩, ⟨[ascii "set-cookie:b=2"], []⟩, _, by decide +kernel,
    by decide +kernel, rfl, by decide, by decide⟩

end Maock.Worker
