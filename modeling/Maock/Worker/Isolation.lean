import Maock.Worker.RequestHandler

/-!
# What earlier requests leave behind

Two histories of a worker thread and a next request whose own inputs are the same after both. What
the request handler passes to the stream can depend on the histories in two ways only: through the
throttle ratio that the thread has kept, which is that of the first request of the history whose
response has a positive one, and through the trailers of the last script that the handler has run.

`serve_eq` computes what a history leaves in the static variables, by what one request leaves
behind the requests before it. `passed_eq_iff` says, on the requests of the two histories, exactly
when the stream of the next request gets the same.
-/

set_option autoImplicit false
set_option relaxedAutoImplicit false

namespace Maock.Worker

open Foundation Foundation.OrderedContainer Foundation.Bytes Answering Http
open Matching (RequestMessage)

variable {Document σ : Type}

/-- The static variables after a history of requests. -/
def serve (s : Surroundings Document σ) (history : List (Visit Document σ)) : HandlerStatics :=
  history.foldl (fun statics visit ↦ (visit.handle s statics).1) HandlerStatics.initial

/-! ### What a history leaves -/

/-- The calls of `is_response_throttled` in a history. -/
def throttleCalls (history : List (Visit Document σ)) : List (H2ServerResponse × ℕ) :=
  history.map fun visit ↦ (visit.response, visit.number)

namespace Visit

/-- A request behind a history is throttled: its response has a positive ratio, and the number is
below the scaled ratio of the first such response. -/
def ThrottledBehind (history : List (Visit Document σ)) (visit : Visit Document σ) : Prop :=
  visit.response.isThrottling ∧ visit.number < ratioBehind (throttleCalls history) visit.response

instance (history : List (Visit Document σ)) (visit : Visit Document σ) :
    Decidable (visit.ThrottledBehind history) :=
  inferInstanceAs (Decidable (_ ∧ _))

/-- What the script of a request leaves on the stack when the handler itself runs it. -/
def inlineValues (s : Surroundings Document σ) (visit : Visit Document σ) :
    Option (List LuaValue) :=
  if visit.response.hasLuaState ∧ visit.response.luaOffload = false then visit.scriptValues s
  else none

/-- What the last script that the handler runs in the course of a history leaves on the stack, when
the history stands behind other requests. -/
def lastScriptValues (s : Surroundings Document σ) :
    List (Visit Document σ) → List (Visit Document σ) → Option (List LuaValue)
  | _, [] => none
  | before, visit :: rest =>
    (lastScriptValues s (before ++ [visit]) rest).or
      (if visit.ThrottledBehind before then none else visit.inlineValues s)

/-- The trailers of the last script that the handler has run, none if it has run none. -/
def trailersBehind (s : Surroundings Document σ) (history : List (Visit Document σ)) : StringMap :=
  ((lastScriptValues s [] history).map scriptTrailers).getD (OrderedSet.empty _)

/-- A request is throttled by what the requests before it have left. -/
theorem isThrottled_keptRatio (history : List (Visit Document σ)) (visit : Visit Document σ)
    (trailers : StringMap) :
    visit.isThrottled ⟨trailers, keptRatio (throttleCalls history)⟩ =
      decide (visit.ThrottledBehind history) :=
  isResponseThrottled_keptRatio_fst (throttleCalls history) visit.response visit.number

/-- The trailers that a request leaves: those of its script if the handler runs it, else the ones
from before. -/
theorem trailerHeaders_handle (s : Surroundings Document σ) (visit : Visit Document σ)
    (statics : HandlerStatics) :
    (visit.handle s statics).1.trailerHeaders =
      if visit.isThrottled statics then statics.trailerHeaders
      else ((visit.inlineValues s).map scriptTrailers).getD statics.trailerHeaders := by
  unfold handle isThrottled inlineValues
  dsimp only
  cases (visit.response.isResponseThrottled visit.number statics.scaledThrottleRatio).1 with
  | true => rfl
  | false =>
    cases hlua : visit.response.hasLuaState with
    | false => simp
    | true =>
      cases hoffload : visit.response.luaOffload with
      | true => simp
      | false =>
        have hupdated := updateResponseWithLua_produce s visit statics.trailerHeaders
        simp only [Bool.false_eq_true, if_false, if_true, true_and]
        rw [hupdated]
        unfold updated
        cases visit.scriptValues s with
        | none => rfl
        | some values => exact trailers_applyValues values _

/-- What one request leaves behind the requests before it. -/
theorem handle_behind (s : Surroundings Document σ) (before : List (Visit Document σ))
    (visit : Visit Document σ) (trailers : StringMap) :
    (visit.handle s ⟨trailers, keptRatio (throttleCalls before)⟩).1 =
      { trailerHeaders :=
          if visit.ThrottledBehind before then trailers
          else ((visit.inlineValues s).map scriptTrailers).getD trailers
        scaledThrottleRatio := keptRatio (throttleCalls (before ++ [visit])) } := by
  have hratio :
      (visit.handle s ⟨trailers, keptRatio (throttleCalls before)⟩).1.scaledThrottleRatio =
        keptRatio (throttleCalls (before ++ [visit])) := by
    have hkept := isResponseThrottled_keptRatio_snd (throttleCalls before) visit.response
      visit.number
    have hcalls : throttleCalls (before ++ [visit]) =
        throttleCalls before ++ [(visit.response, visit.number)] := List.map_append
    rw [hcalls, ← hkept]
    unfold handle
    dsimp only
    split_ifs <;> rfl
  have htrailers := trailerHeaders_handle s visit ⟨trailers, keptRatio (throttleCalls before)⟩
  simp only [isThrottled_keptRatio, decide_eq_true_eq] at htrailers
  rw [← hratio, ← htrailers]

/-- What a history leaves behind the requests before it. -/
theorem foldl_handle_behind (s : Surroundings Document σ) (before history : List (Visit Document σ))
    (trailers : StringMap) :
    history.foldl (fun statics visit ↦ (visit.handle s statics).1)
        ⟨trailers, keptRatio (throttleCalls before)⟩ =
      { trailerHeaders := ((lastScriptValues s before history).map scriptTrailers).getD trailers
        scaledThrottleRatio := keptRatio (throttleCalls (before ++ history)) } := by
  induction history generalizing before trailers with
  | nil => rw [List.append_nil]; rfl
  | cons visit rest ih =>
    rw [List.foldl_cons, handle_behind, ih, List.append_assoc, List.singleton_append,
      lastScriptValues]
    cases lastScriptValues s (before ++ [visit]) rest with
    | some values => rfl
    | none =>
      rw [Option.none_or]
      split_ifs <;> rfl

/-- A thread is left by a history with the trailers of the last script that the handler has run, and
with the scaled ratio of the first response with a positive one. -/
theorem serve_eq (s : Surroundings Document σ) (history : List (Visit Document σ)) :
    serve s history = ⟨trailersBehind s history, keptRatio (throttleCalls history)⟩ :=
  foldl_handle_behind s [] history (OrderedSet.empty _)

/-! ### What the stream of a request gets -/

/-- What the stream of a request gets. -/
def passed (s : Surroundings Document σ) (visit : Visit Document σ) (statics : HandlerStatics) :
    Option StreamCalls :=
  (visit.answer s statics).bind Answer.calls

/-- Two requests with the same selected response, the same drawn number, the same values of their
arguments and the same outcome of the script. -/
structure SameInputs (s : Surroundings Document σ) (visit visit' : Visit Document σ) : Prop where
  response : visit.response = visit'.response
  number : visit.number = visit'.number
  produced : ∀ trailers, visit.produce s trailers = visit'.produce s trailers
  scriptValues : visit.scriptValues s = visit'.scriptValues s

/-! ### Dependence on the trailers -/

/-- The arguments of `send_response` for a request that is not throttled. -/
def answerWith (s : Surroundings Document σ) (visit : Visit Document σ) (trailers : StringMap) :
    Answer :=
  if visit.response.hasLuaState then
    if visit.response.luaOffload then
      { scriptAnswer visit.response.statusCode (visit.updated s trailers) with
        trailers := OrderedSet.empty _ }
    else scriptAnswer visit.response.statusCode (visit.updated s trailers)
  else
    ⟨visit.response.statusCode, (visit.produce s trailers).headers,
      (visit.produce s trailers).body, trailers⟩

theorem answer_eq_answerWith {s : Surroundings Document σ} {visit : Visit Document σ}
    {statics : HandlerStatics} (hthrottled : visit.isThrottled statics = false) :
    visit.answer s statics = some (visit.answerWith s statics.trailerHeaders) := by
  unfold answerWith
  cases hlua : visit.response.hasLuaState with
  | false => exact answer_of_not_lua hthrottled hlua
  | true =>
    cases hoffload : visit.response.luaOffload with
    | false => exact answer_of_inline hthrottled hlua hoffload
    | true => exact answer_of_offload hthrottled hlua hoffload

/-- The handler sends the trailers that it finds in `trailer_headers`: there is no script, or the
handler runs it and it is no function. -/
def readsTrailers (s : Surroundings Document σ) (visit : Visit Document σ) : Prop :=
  visit.response.hasLuaState = false ∨
    visit.response.luaOffload = false ∧ visit.scriptValues s = none

/-- Header fields and payload do not depend on the trailers from before. -/
theorem answerWith_of_readsTrailers {s : Surroundings Document σ} {visit : Visit Document σ}
    (hreads : visit.readsTrailers s) (trailers : StringMap) :
    visit.answerWith s trailers =
      { visit.answerWith s (OrderedSet.empty _) with
        trailers := trailers } := by
  unfold answerWith updated
  rcases hreads with hlua | ⟨hoffload, hvalues⟩
  · simp only [hlua, Bool.false_eq_true, if_false]
    rfl
  · simp only [hoffload, hvalues, Bool.false_eq_true, if_false]
    cases visit.response.hasLuaState <;> rfl

/-- Otherwise nothing depends on them. -/
theorem answerWith_of_not_readsTrailers {s : Surroundings Document σ} {visit : Visit Document σ}
    (hreads : ¬ visit.readsTrailers s) (trailers : StringMap) :
    visit.answerWith s trailers = visit.answerWith s (OrderedSet.empty _) := by
  unfold readsTrailers at hreads
  rw [not_or, Bool.not_eq_false] at hreads
  obtain ⟨hlua, hreads⟩ := hreads
  unfold answerWith
  rw [if_pos hlua, if_pos hlua]
  cases hvalues : visit.scriptValues s with
  | some values => rw [updated_eq_of_some hvalues trailers (OrderedSet.empty _)]
  | none =>
    have hoffload : visit.response.luaOffload = true := by
      refine (Bool.not_eq_false _).mp fun h ↦ hreads ⟨h, hvalues⟩
    rw [if_pos hoffload, if_pos hoffload]
    unfold updated
    rw [hvalues]
    rfl

/-- The status of the answer to a request that is not throttled: that of the response, or the one
that its script has put in its place. -/
def ownStatus (s : Surroundings Document σ) (visit : Visit Document σ) : ℕ :=
  if visit.response.hasLuaState then
    finalStatus visit.response.statusCode (visit.updated s (OrderedSet.empty _)).headers
  else visit.response.statusCode

/-- The trailers from before do not change the status. -/
theorem statusCode_answerWith (s : Surroundings Document σ) (visit : Visit Document σ)
    (trailers : StringMap) : (visit.answerWith s trailers).statusCode = visit.ownStatus s := by
  have hempty : (visit.answerWith s (OrderedSet.empty _)).statusCode = visit.ownStatus s := by
    unfold answerWith ownStatus
    split_ifs <;> rfl
  rw [← hempty]
  by_cases hreads : visit.readsTrailers s
  · rw [answerWith_of_readsTrailers hreads]
  · rw [answerWith_of_not_readsTrailers hreads]

/-- The request is closed without a response: it is throttled, or its status is 0. -/
def closes (s : Surroundings Document σ) (visit : Visit Document σ) (statics : HandlerStatics) :
    Prop :=
  visit.isThrottled statics = true ∨ visit.ownStatus s = 0

theorem passed_eq_none_iff (s : Surroundings Document σ) (visit : Visit Document σ)
    (statics : HandlerStatics) : visit.passed s statics = none ↔ visit.closes s statics := by
  unfold passed closes
  cases hthrottled : visit.isThrottled statics with
  | true => simp [answer_of_throttled hthrottled]
  | false =>
    rw [answer_eq_answerWith hthrottled, Option.bind_some,
      ← statusCode_answerWith s visit statics.trailerHeaders]
    unfold Answer.calls
    by_cases hstatus : (visit.answerWith s statics.trailerHeaders).statusCode = 0 <;> simp [hstatus]

theorem passed_of_not_closes {s : Surroundings Document σ} {visit : Visit Document σ}
    {statics : HandlerStatics} (hcloses : ¬ visit.closes s statics) :
    visit.passed s statics = some
      { statusCode := (visit.answerWith s statics.trailerHeaders).statusCode
        headers := (visit.answerWith s statics.trailerHeaders).headerMap
        payload := (visit.answerWith s statics.trailerHeaders).payload
        trailers := toHeaderMap (visit.answerWith s statics.trailerHeaders).trailers } := by
  unfold closes at hcloses
  rw [not_or, Bool.not_eq_true] at hcloses
  unfold passed Answer.calls
  rw [answer_eq_answerWith hcloses.1, Option.bind_some, if_neg]
  rw [statusCode_answerWith]
  exact hcloses.2

/-- Requests with the same inputs are served alike by the same thread. -/
theorem SameInputs.passed_eq {s : Surroundings Document σ} {visit visit' : Visit Document σ}
    (hsame : SameInputs s visit visit') (statics : HandlerStatics) :
    visit.passed s statics = visit'.passed s statics := by
  have hthrottled : visit.isThrottled statics = visit'.isThrottled statics := by
    unfold isThrottled
    rw [hsame.response, hsame.number]
  have hanswer : visit.answerWith s = visit'.answerWith s := by
    funext trailers
    unfold answerWith updated
    rw [hsame.response, hsame.scriptValues, hsame.produced]
  unfold passed
  cases h : visit'.isThrottled statics with
  | true => rw [answer_of_throttled h, answer_of_throttled (hthrottled.trans h)]
  | false =>
    rw [answer_eq_answerWith h, answer_eq_answerWith (hthrottled.trans h), hanswer]

/-! ### Two histories -/

/-- At two states of the static variables the stream gets the same exactly when both or neither
close it and, if it is answered with the trailers that are there, these are the same. -/
theorem passed_eq_passed_iff (s : Surroundings Document σ) (visit : Visit Document σ)
    (first second : HandlerStatics) :
    visit.passed s first = visit.passed s second ↔
      (visit.closes s first ↔ visit.closes s second) ∧
        (¬ visit.closes s first → visit.readsTrailers s →
          first.trailerHeaders = second.trailerHeaders) := by
  by_cases hfirst : visit.closes s first
  · rw [(passed_eq_none_iff s visit first).mpr hfirst, eq_comm, passed_eq_none_iff]
    simp [hfirst]
  by_cases hsecond : visit.closes s second
  · rw [(passed_eq_none_iff s visit second).mpr hsecond, passed_eq_none_iff]
    simp [hfirst, hsecond]
  rw [passed_of_not_closes hfirst, passed_of_not_closes hsecond, Option.some_inj,
    StreamCalls.mk.injEq]
  refine ⟨fun h ↦ ⟨iff_of_false hfirst hsecond, fun _ hreads ↦ ?_⟩, fun h ↦ ?_⟩
  · have htrailers := toHeaderMap_injective h.2.2.2
    rwa [answerWith_of_readsTrailers hreads first.trailerHeaders,
      answerWith_of_readsTrailers hreads second.trailerHeaders] at htrailers
  · have hanswer : visit.answerWith s first.trailerHeaders =
        visit.answerWith s second.trailerHeaders := by
      by_cases hreads : visit.readsTrailers s
      · rw [h.2 hfirst hreads]
      · rw [answerWith_of_not_readsTrailers hreads first.trailerHeaders,
          answerWith_of_not_readsTrailers hreads second.trailerHeaders]
    rw [hanswer]
    exact ⟨rfl, rfl, rfl, rfl⟩

/-- **What earlier requests have an influence on.** After two histories the stream of a next request
gets the same exactly when the request has the status 0; or its number lies on the same side of the
throttle ratios that the first requests with one have left in the two histories, if its own response
has one, and it is throttled or does not send the trailers of the thread, or the last scripts that
the handler has run in the two histories leave the same trailers. -/
theorem passed_eq_iff (s : Surroundings Document σ) (history history' : List (Visit Document σ))
    {visit visit' : Visit Document σ} (hsame : SameInputs s visit visit') :
    visit.passed s (serve s history) = visit'.passed s (serve s history') ↔
      visit.ownStatus s = 0 ∨
        (visit.response.isThrottling →
            SameSide visit.number (ratioBehind (throttleCalls history) visit.response)
              (ratioBehind (throttleCalls history') visit.response)) ∧
          (¬ visit.ThrottledBehind history → visit.readsTrailers s →
            trailersBehind s history = trailersBehind s history') := by
  have hsides : (visit.ThrottledBehind history ↔ visit.ThrottledBehind history') ↔
      (visit.response.isThrottling →
        SameSide visit.number (ratioBehind (throttleCalls history) visit.response)
          (ratioBehind (throttleCalls history') visit.response)) :=
    and_congr_right_iff
  rw [← hsame.passed_eq (serve s history'), serve_eq, serve_eq, passed_eq_passed_iff, ← hsides]
  unfold closes
  simp only [isThrottled_keptRatio, decide_eq_true_eq]
  by_cases hstatus : visit.ownStatus s = 0
  · simp [hstatus]
  · simp [hstatus]

/-- A request for a bare response. -/
def bareVisit : Visit Unit Unit where
  response := bareResponse 0
  msg := bareMessage
  source := ()
  number := 0
  script := none

theorem sameInputs_refl (s : Surroundings Document σ) (visit : Visit Document σ) :
    SameInputs s visit visit :=
  ⟨rfl, rfl, fun _ ↦ rfl, rfl⟩

/-- A script that leaves one table has no influence on the next response. -/
theorem passed_eq_afterOneTable :
    bareVisit.passed plainSurroundings
        (serve plainSurroundings [scriptVisit [.table [(ascii "h", ascii "1")]]]) =
      bareVisit.passed plainSurroundings (serve plainSurroundings []) := by
  refine (passed_eq_iff plainSurroundings [scriptVisit [.table [(ascii "h", ascii "1")]]] []
    (sameInputs_refl plainSurroundings bareVisit)).mpr (Or.inr ⟨fun hratio ↦ ?_, fun _ _ ↦ ?_⟩)
  · exact absurd hratio (by decide +kernel)
  · exact OrderedSet.ext (by decide +kernel)

/-- The trailers that a script leaves go out with the next response, which has no script. -/
theorem passed_ne_afterTwoTables :
    bareVisit.passed plainSurroundings
        (serve plainSurroundings
          [scriptVisit [.table [(ascii "t", ascii "1")], .table [(ascii "h", ascii "1")]]]) ≠
      bareVisit.passed plainSurroundings (serve plainSurroundings []) := by
  intro h
  have htrailers := congrArg (Option.map fun calls ↦ calls.trailers.entries.length) h
  exact absurd htrailers (by decide)

end Visit

end Maock.Worker
