import Maock.Answering.ScriptStack

/-!
# What the results of a script make of a response

The two ends of a call of `customize_response`. The documented results are a table of header fields
and a string, the body: `updateWithState_of_documented` says that they are applied as they are, and
`runScripts_of_documented` that this goes on for any number of calls on one Lua state. An error
value stands alone on the stack and is read as if it were a result: `leavesIntact_iff` says for
which error values the response is left as it was.
-/

set_option autoImplicit false
set_option relaxedAutoImplicit false

namespace Maock.Answering

open Foundation Foundation.OrderedContainer Foundation.Bytes Foundation.LuaStack

variable {γ : Type} {interpreter : Interpreter γ} {heap after : γ} {u : ScriptUpdate}

/-! ### Errors -/

/-- The function returns false, with the header fields and the body that were passed in and an empty
stack. -/
def LeavesIntact (interpreter : Interpreter γ) (heap : γ) (u : ScriptUpdate) : Prop :=
  ∃ fuel resp after,
    updateWithState interpreter fuel u ⟨heap, []⟩ = .ok (false, resp, ⟨after, []⟩) ∧
    resp.headers = u.resp.headers ∧ resp.body = u.resp.body

/-- Reading a table never makes the function fail. -/
theorem retCode_of_popResult_table {fuel : ℕ} {t : Table} {retCode : Bool} {resp : Produced}
    {stack : Stack} {popped : Bool × Produced × Stack}
    (hpopped : popResult fuel (retCode, resp, .table t :: stack) = .ok popped) :
    popped.1 = retCode := by
  have hmap (m : StringMap) (f : StringMap × Stack → Bool × Produced × Stack)
      (hf : ∀ read, (f read).1 = retCode)
      (h : (readEntries fuel m (.nil :: .table t :: stack)).map f = .ok popped) :
      popped.1 = retCode := by
    cases hread : readEntries fuel m (.nil :: .table t :: stack) with
    | error failure => rw [hread] at h; exact absurd h (by simp [Except.map])
    | ok read =>
      rw [hread] at h
      obtain rfl : f read = popped := Except.ok.inj h
      exact hf read
  unfold popResult at hpopped
  dsimp only [List.head?_cons, Option.map_some, Option.getD_some, Value.type] at hpopped
  split_ifs at hpopped with hempty
  · exact hmap resp.trailers _ (fun _ ↦ rfl) hpopped
  · exact hmap resp.headers _ (fun _ ↦ rfl) hpopped

/-- A value that stands alone on the stack and is neither a string nor a table takes the header
fields away and nothing else. -/
theorem applyValues_other (resp : Produced) :
    applyValues [.other] resp = (false, ⟨OrderedSet.empty _, OrderedSet.empty _, resp.body⟩) :=
  rfl

section Errors

variable {value : Value} (hfunction : DefinesFunction interpreter heap)
  (herror : u.call interpreter heap = (after, .error value))

include hfunction herror

/-- An error value that the loop over the stack can read. -/
theorem updateWithState_of_error {fuel : ℕ} (hreadable : Readable fuel value) :
    updateWithState interpreter fuel u ⟨heap, []⟩ =
      .ok ((applyValues [readAs value] u.resp).1, (applyValues [readAs value] u.resp).2,
        ⟨after, []⟩) := by
  have hleft : leftOnStack (u.call interpreter heap).2 = [value] := by
    rw [herror]
    rfl
  rw [updateWithState_eq hfunction (by simpa [hleft] using hreadable), hleft, herror]
  rfl

theorem leavesIntact_of_other (hreadable : ∀ fuel, Readable fuel value)
    (hread : readAs value = .other) :
    LeavesIntact interpreter heap u ↔ u.resp.headers.elems = [] := by
  have hrun (fuel : ℕ) := updateWithState_of_error hfunction herror (hreadable fuel)
  rw [hread, applyValues_other] at hrun
  constructor
  · rintro ⟨fuel, resp, final, hresult, hheaders, -⟩
    rw [hrun fuel] at hresult
    cases hresult
    exact congrArg OrderedSet.elems hheaders.symm
  · intro hempty
    exact ⟨0, _, _, hrun 0, OrderedSet.ext hempty.symm, rfl⟩

theorem not_leavesIntact_of_string {str : Bytes} (hvalue : value = .atom (.string str)) :
    ¬ LeavesIntact interpreter heap u := by
  subst hvalue
  rintro ⟨fuel, resp, final, hresult, -⟩
  rw [updateWithState_of_error hfunction herror trivial] at hresult
  cases hresult

theorem not_leavesIntact_of_table {t : Table} (hvalue : value = .table t) :
    ¬ LeavesIntact interpreter heap u := by
  subst hvalue
  rintro ⟨fuel, resp, final, hresult, -⟩
  have hone (popped : Bool × Produced × Stack) :
      popResults fuel 1 popped = popResult fuel popped := by
    rw [popResults]
    cases popResult fuel popped <;> rfl
  rw [updateWithState_of_function hfunction, herror,
    show leftOnStack (Except.error (Value.table t)) = [.table t] from rfl, List.length_singleton,
    hone] at hresult
  cases hpopped : popResult fuel (true, u.resp.cleared, [.table t]) with
  | error failure =>
    rw [hpopped] at hresult
    cases hresult
  | ok popped =>
    have hcode := retCode_of_popResult_table hpopped
    obtain ⟨retCode, produced, stack⟩ := popped
    rw [hpopped] at hresult
    cases hresult
    cases hcode

/-- **A failing script.** The response is left intact exactly when the error value is neither a
string nor a table and there were no header fields. -/
theorem leavesIntact_iff :
    LeavesIntact interpreter heap u ↔
      value.type ≠ .string ∧ value.type ≠ .table ∧ u.resp.headers.elems = [] := by
  cases hvalue : value with
  | nil =>
    subst hvalue
    rw [leavesIntact_of_other hfunction herror (fun _ ↦ trivial) rfl]
    simp [Value.type]
  | table t =>
    refine iff_of_false (not_leavesIntact_of_table hfunction herror hvalue) ?_
    simp [Value.type]
  | atom a =>
    cases ha : a with
    | string str =>
      subst ha
      refine iff_of_false (not_leavesIntact_of_string hfunction herror hvalue) ?_
      simp [Value.type, Atom.type]
    | boolean b =>
      subst ha hvalue
      rw [leavesIntact_of_other hfunction herror (fun _ ↦ trivial) rfl]
      simp [Value.type, Atom.type]
    | number id text =>
      subst ha hvalue
      rw [leavesIntact_of_other hfunction herror (fun _ ↦ trivial) rfl]
      simp [Value.type, Atom.type]
    | reference id =>
      subst ha hvalue
      rw [leavesIntact_of_other hfunction herror (fun _ ↦ trivial) rfl]
      simp [Value.type, Atom.type]

end Errors

/-- A script whose function raises a value. -/
def raising (value : Value) : Interpreter Unit where
  getGlobal _ _ := .atom (.reference 0)
  isFunction _ _ := true
  call _ _ _ := ((), .error value)

/-- An update of a response with given header fields, for a request without any. -/
def plainUpdate (headers : StringMap) : ScriptUpdate where
  statusCode := 200
  reqHeaders := OrderedMultimap.empty Bytes bytesLess
  reqBody := []
  resp := ⟨headers, OrderedSet.empty _, ascii "body"⟩

theorem leavesIntact_raisedNil :
    LeavesIntact (raising .nil) () (plainUpdate (OrderedSet.empty _)) :=
  (@leavesIntact_iff Unit (raising .nil) () () _ .nil rfl rfl).mpr ⟨by decide, by decide, rfl⟩

/-- An error message becomes the body. -/
theorem not_leavesIntact_raisedMessage :
    ¬ LeavesIntact (raising (.atom (.string (ascii "boom")))) ()
      (plainUpdate (assign (OrderedSet.empty _) (ascii "server", ascii "maock"))) :=
  not_leavesIntact_of_string rfl rfl rfl

/-! ### Documented results -/

/-- Assignments to different keys all stay. -/
theorem mem_foldl_assign {fields : List (Bytes × Bytes)} (hnodup : (fields.map Prod.fst).Nodup)
    {m : StringMap} {entry : Bytes × Bytes} :
    entry ∈ fields.foldl assign m ↔
      entry ∈ fields ∨ entry ∈ m ∧ entry.1 ∉ fields.map Prod.fst := by
  induction fields generalizing m with
  | nil => simp
  | cons field rest ih =>
    rw [List.map_cons, List.nodup_cons] at hnodup
    rw [List.foldl_cons, ih hnodup.2, mem_assign, List.mem_cons, List.map_cons, List.mem_cons]
    constructor
    · rintro (hrest | ⟨rfl | ⟨hold, hne⟩, hnew⟩)
      · exact Or.inl (Or.inr hrest)
      · exact Or.inl (Or.inl rfl)
      · exact Or.inr ⟨hold, not_or.mpr ⟨Ne.symm hne, hnew⟩⟩
    · rintro ((rfl | hrest) | ⟨hold, hnew⟩)
      · exact Or.inr ⟨Or.inl rfl, hnodup.1⟩
      · exact Or.inl hrest
      · obtain ⟨hne, hnew⟩ := not_or.mp hnew
        exact Or.inr ⟨Or.inr ⟨hold, Ne.symm hne⟩, hnew⟩

/-- The texts of a table from strings to strings are its entries. -/
theorem mem_texts {t : Table} (hstrings : t.IsStringTable) {name value : Bytes} :
    (name, value) ∈ t.texts ↔ (Atom.string name, Atom.string value) ∈ t.entries := by
  rw [Table.texts, List.mem_map]
  constructor
  · rintro ⟨entry, hentry, htexts⟩
    obtain ⟨hkey, hvalue⟩ := hstrings entry hentry
    obtain ⟨rfl, rfl⟩ := Prod.mk.inj htexts
    rw [← Atom.eq_string_of_type hkey, ← Atom.eq_string_of_type hvalue]
    exact hentry
  · intro hentry
    exact ⟨_, hentry, rfl⟩

theorem nodup_names_texts {t : Table} (hstrings : t.IsStringTable) :
    (t.texts.map Prod.fst).Nodup := by
  have hkeys : (t.texts.map Prod.fst).map Atom.string = t.entries.map Prod.fst := by
    rw [Table.texts, List.map_map, List.map_map]
    exact List.map_congr_left fun entry hentry ↦
      (Atom.eq_string_of_type (hstrings entry hentry).1).symm
  exact List.Nodup.of_map Atom.string (hkeys ▸ t.nodup)

/-- The results that the documentation asks for: a table of header fields and a body. -/
structure DocumentedResult where
  fields : Table
  strings : fields.IsStringTable
  body : Bytes

/-- The results as the call returns them. -/
def DocumentedResult.returned (r : DocumentedResult) : Except Value (List Value) :=
  .ok [.table r.fields, .atom (.string r.body)]

/-- What documented results make of a response: the header fields are the entries of the table. -/
def DocumentedResult.produced (r : DocumentedResult) : Produced where
  headers := r.fields.texts.foldl assign (OrderedSet.empty _)
  trailers := OrderedSet.empty _
  body := r.body

theorem DocumentedResult.mem_headers_produced (r : DocumentedResult) (name value : Bytes) :
    (name, value) ∈ r.produced.headers ↔
      (Atom.string name, Atom.string value) ∈ r.fields.entries := by
  have hmem := @mem_foldl_assign _ (nodup_names_texts r.strings) (OrderedSet.empty _) (name, value)
  rw [mem_texts r.strings] at hmem
  exact hmem.trans (or_iff_left fun h ↦ OrderedSet.not_mem_empty _ h.1)

/-- Documented results are applied as they are, and leave the stack empty. -/
theorem updateWithState_of_documented (hfunction : DefinesFunction interpreter heap)
    {r : DocumentedResult} (hresult : u.call interpreter heap = (after, r.returned)) {fuel : ℕ}
    (hfuel : r.fields.entries.length < fuel) :
    updateWithState interpreter fuel u ⟨heap, []⟩ = .ok (true, r.produced, ⟨after, []⟩) := by
  have hleft : leftOnStack (u.call interpreter heap).2 =
      [.atom (.string r.body), .table r.fields] := by
    rw [hresult]
    rfl
  have hreadable : ∀ value ∈ leftOnStack (u.call interpreter heap).2, Readable fuel value := by
    rw [hleft]
    simp only [List.forall_mem_cons, List.not_mem_nil, false_imp_iff, implies_true, and_true]
    exact ⟨trivial, fun entry hentry ↦ (r.strings entry hentry).1, hfuel⟩
  rw [updateWithState_eq hfunction hreadable, hleft, hresult]
  rfl

/-! ### Many calls on one Lua state -/

/-- Calls of `update_response_with_lua` one after another, each with its return code, the response
that it leaves and the stack behind it. -/
def runScripts (interpreter : Interpreter γ) (fuel : ℕ) :
    List ScriptUpdate → LuaState γ →
      Except Failure (List (Bool × Produced × Stack) × LuaState γ)
  | [], L => .ok ([], L)
  | u :: rest, L => do
    let (retCode, resp, L) ← updateWithState interpreter fuel u L
    let (results, final) ← runScripts interpreter fuel rest L
    return ((retCode, resp, L.stack) :: results, final)

/-- Every one of the calls finds a function, which returns documented results. -/
inductive DocumentedRuns (interpreter : Interpreter γ) :
    γ → List ScriptUpdate → List DocumentedResult → Prop
  | nil (heap : γ) : DocumentedRuns interpreter heap [] []
  | cons {heap after : γ} {u : ScriptUpdate} {r : DocumentedResult} {rest : List ScriptUpdate}
      {results : List DocumentedResult} (hfunction : DefinesFunction interpreter heap)
      (hresult : u.call interpreter heap = (after, r.returned))
      (hrest : DocumentedRuns interpreter after rest results) :
      DocumentedRuns interpreter heap (u :: rest) (r :: results)

theorem DocumentedRuns.length_eq {updates : List ScriptUpdate} {results : List DocumentedResult}
    (hdocumented : DocumentedRuns interpreter heap updates results) :
    updates.length = results.length := by
  induction hdocumented with
  | nil heap => rfl
  | cons _ _ _ ih => exact congrArg Nat.succ ih

/-- All documented results are applied as they are, and the stack is empty behind each call. -/
theorem runScripts_of_documented {updates : List ScriptUpdate} {results : List DocumentedResult}
    (hdocumented : DocumentedRuns interpreter heap updates results) :
    ∃ enough final, ∀ fuel, enough ≤ fuel → runScripts interpreter fuel updates ⟨heap, []⟩ =
      .ok (results.map fun r ↦ (true, r.produced, []), ⟨final, []⟩) := by
  induction hdocumented with
  | nil heap => exact ⟨0, heap, fun _ _ ↦ rfl⟩
  | @cons heap after u r rest results hfunction hresult hrest ih =>
    obtain ⟨enough, final, hruns⟩ := ih
    refine ⟨max enough (r.fields.entries.length + 1), final, fun fuel hfuel ↦ ?_⟩
    obtain ⟨henough, hentries⟩ := max_le_iff.mp hfuel
    have hfirst := updateWithState_of_documented hfunction hresult hentries
    rw [runScripts, hfirst]
    show (runScripts interpreter fuel rest ⟨after, []⟩ >>= fun x ↦
      pure ((true, r.produced, []) :: x.1, x.2)) = _
    rw [hruns fuel henough]
    rfl

end Maock.Answering
