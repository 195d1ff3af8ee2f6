import Maock.Answering.ScriptResults
import Maock.Worker.RequestHandler

/-!
# Requests that are answered by a script

The handler's part behind `update_response_with_lua`: the status comes from the field `:status` of
the response header fields, if the script has set it, and the field is taken out. `scripts_applied`
puts this together with the loop over the stack, for any number of requests that are answered one
after another by the script of one Lua state.
-/

set_option autoImplicit false
set_option relaxedAutoImplicit false

namespace Maock.Worker

open Foundation Foundation.OrderedContainer Foundation.Bytes Foundation.LuaStack Answering

variable {Document σ γ : Type}

/-- A request with the response selected for it, as it comes to the handler. -/
structure ScriptedRequest (Document σ : Type) where
  visit : Visit Document σ
  statics : HandlerStatics

namespace ScriptedRequest

/-- What `update_response_with_lua` is called with. -/
def update (s : Surroundings Document σ) (request : ScriptedRequest Document σ) :
    ScriptUpdate where
  statusCode := request.visit.response.statusCode
  reqHeaders := request.visit.msg.headers
  reqBody := request.visit.msg.rawPayload
  resp := request.visit.produce s request.statics.trailerHeaders

/-- The request, when the call of the script ends in some way. -/
def ended (result : Except Value (List Value)) (request : ScriptedRequest Document σ) :
    Visit Document σ :=
  { request.visit with script := some fun _ ↦ (leftOnStack result).map readAs }

/-- The arguments that `send_response` gets. -/
def answer (s : Surroundings Document σ) (result : Except Value (List Value))
    (request : ScriptedRequest Document σ) : Option Answer :=
  (request.ended result).answer s request.statics

/-- The request runs the script of its response, at once or on an offload thread. -/
structure RunsScript (request : ScriptedRequest Document σ) : Prop where
  lua : request.visit.response.hasLuaState = true
  notThrottled : request.visit.isThrottled request.statics = false

/-- Documented results are sent, with either way to run the script. -/
theorem answer_of_documented (s : Surroundings Document σ) {request : ScriptedRequest Document σ}
    (hruns : request.RunsScript) (r : DocumentedResult) :
    request.answer s r.returned =
      some (scriptAnswer request.visit.response.statusCode r.produced) := by
  have hupdated (trailers : StringMap) :
      (request.ended r.returned).updated s trailers = r.produced := rfl
  cases hoffload : request.visit.response.luaOffload with
  | true =>
    refine (@Visit.answer_of_offload _ _ s (request.ended r.returned) _ hruns.notThrottled hruns.lua
      hoffload).trans ?_
    rw [hupdated]
    rfl
  | false =>
    refine (@Visit.answer_of_inline _ _ s (request.ended r.returned) _ hruns.notThrottled hruns.lua
      hoffload).trans ?_
    rw [hupdated]
    rfl

end ScriptedRequest

/-! ### The status field -/

/-- A field that the header fields have gives the status. -/
theorem finalStatus_of_mem {headers : StringMap} {value : Bytes} (hmem : (status, value) ∈ headers)
    (statusCode : ℕ) : finalStatus statusCode headers = atoiUnsigned value := by
  rw [finalStatus, OrderedMap.lookup_eq_some_iff.mpr ⟨status, hmem, Equivalent.refl bytesLess _⟩]

theorem finalStatus_of_forall {headers : StringMap} (hnone : ∀ value, (status, value) ∉ headers)
    (statusCode : ℕ) : finalStatus statusCode headers = statusCode := by
  have hlookup : OrderedMap.lookup headers status = none := by
    refine Option.eq_none_iff_forall_ne_some.mpr fun value hfound ↦ ?_
    obtain ⟨known, hmem, hequiv⟩ := OrderedMap.lookup_eq_some_iff.mp hfound
    rw [equivalent_bytesLess] at hequiv
    exact hnone value (hequiv ▸ hmem)
  rw [finalStatus, hlookup]

/-! ### Documented results in the handler -/

/-- What documented results make of a response and of what is sent for a request. -/
structure AppliedExactly (s : Surroundings Document σ) (request : ScriptedRequest Document σ)
    (r : DocumentedResult) : Prop where
  headers : ∀ name value, (name, value) ∈ r.produced.headers ↔
    (Atom.string name, Atom.string value) ∈ r.fields.entries
  body : r.produced.body = r.body
  trailers : r.produced.trailers.elems = []
  sent : request.RunsScript → ∃ a, request.answer s r.returned = some a ∧
    (∀ name value, (name, value) ∈ a.headers ↔
      (Atom.string name, Atom.string value) ∈ r.fields.entries ∧ name ≠ status) ∧
    a.payload = r.body ∧ a.trailers.elems = [] ∧
    (∀ value, (Atom.string status, Atom.string value) ∈ r.fields.entries →
      a.statusCode = atoiUnsigned value) ∧
    (∀ n < 2 ^ 32, (Atom.string status, Atom.string (decimal n)) ∈ r.fields.entries →
      a.statusCode = n) ∧
    ((∀ value, (Atom.string status, Atom.string value) ∉ r.fields.entries) →
      a.statusCode = request.visit.response.statusCode)

theorem appliedExactly (s : Surroundings Document σ) (request : ScriptedRequest Document σ)
    (r : DocumentedResult) : AppliedExactly s request r where
  headers := r.mem_headers_produced
  body := rfl
  trailers := rfl
  sent := by
    intro hruns
    have hstatus (value : Bytes)
        (hentry : (Atom.string status, Atom.string value) ∈ r.fields.entries) :
        finalStatus request.visit.response.statusCode r.produced.headers = atoiUnsigned value :=
      finalStatus_of_mem ((r.mem_headers_produced status value).mpr hentry) _
    refine ⟨_, ScriptedRequest.answer_of_documented s hruns r, fun name value ↦ ?_, rfl, rfl,
      hstatus, fun n hn hentry ↦ (hstatus _ hentry).trans (atoiUnsigned_decimal hn),
      fun hnone ↦ finalStatus_of_forall (fun value hmem ↦ hnone value ?_) _⟩
    · rw [← r.mem_headers_produced, ne_comm, ne_eq, ← equivalent_bytesLess]
      exact OrderedMap.mem_eraseKey
    · exact (r.mem_headers_produced status value).mp hmem

/-- **Documented results.** When every call of a sequence on one Lua state returns a table of header
fields and a body, `update_response_with_lua` returns true each time, applies them as they are and
leaves the stack empty, and the handler sends them with the status that they name. -/
theorem scripts_applied (s : Surroundings Document σ) {interpreter : Interpreter γ} {heap : γ}
    {requests : List (ScriptedRequest Document σ)} {results : List DocumentedResult}
    (hdocumented : DocumentedRuns interpreter heap
      (requests.map (ScriptedRequest.update s)) results) :
    (∃ enough final, ∀ fuel, enough ≤ fuel →
      runScripts interpreter fuel (requests.map (ScriptedRequest.update s)) ⟨heap, []⟩ =
        .ok (results.map fun r ↦ (true, r.produced, []), ⟨final, []⟩)) ∧
      List.Forall₂ (AppliedExactly s) requests results := by
  have hlength := hdocumented.length_eq
  rw [List.length_map] at hlength
  exact ⟨runScripts_of_documented hdocumented,
    List.forall₂_iff_get.mpr ⟨hlength, fun _ _ _ ↦ appliedExactly s _ _⟩⟩

/-- The results of a call that sets the status and counts the calls before it. -/
def countedResult (calls : ℕ) : DocumentedResult where
  fields :=
    { entries := [(.string status, .string (ascii "404")),
        (.string (ascii "x-calls"), .string (decimal calls))]
      nodup := by
        show [Atom.string status, Atom.string (ascii "x-calls")].Nodup
        decide }
  strings := by
    intro entry hentry
    simp only [List.mem_cons, List.not_mem_nil, or_false] at hentry
    rcases hentry with rfl | rfl <;> exact ⟨rfl, rfl⟩
  body := decimal calls

/-- A script that counts its calls. -/
def countingScript : Interpreter ℕ where
  getGlobal _ _ := .atom (.reference 0)
  isFunction _ _ := true
  call calls _ _ := (calls + 1, (countedResult calls).returned)

/-- A request for a response with a script. -/
def scriptedRequest : ScriptedRequest Unit Unit where
  visit := Visit.scriptVisit []
  statics := HandlerStatics.initial

theorem scripts_applied_twice :
    (∃ enough final, ∀ fuel, enough ≤ fuel →
      runScripts countingScript fuel
          ([scriptedRequest, scriptedRequest].map
            (ScriptedRequest.update Visit.plainSurroundings)) ⟨0, []⟩ =
        .ok ([countedResult 0, countedResult 1].map fun r ↦ (true, r.produced, []),
          ⟨final, []⟩)) ∧
      List.Forall₂ (AppliedExactly Visit.plainSurroundings) [scriptedRequest, scriptedRequest]
        [countedResult 0, countedResult 1] :=
  scripts_applied Visit.plainSurroundings (.cons rfl rfl (.cons rfl rfl (.nil 2)))

end Maock.Worker
