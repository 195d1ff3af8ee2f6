import Maock.Answering.Template

/-!
# The Lua script of a response

`H2Server_Response::update_response_with_lua`: the script function gets the request and the response
that was produced for it, and the values that it leaves on the stack replace header fields, trailers
and body of the response.

What the script does is not known here: it is a function from its arguments to the values that stand
on the stack after `lua_pcall`, which are two results or the one error value.
-/

set_option autoImplicit false
set_option relaxedAutoImplicit false

namespace Maock.Answering

open Foundation Foundation.OrderedContainer Foundation.Bytes

/-! ### The script -/

/-- A value on the stack of Lua. The entries of a table are the pairs that `lua_next` visits, with
key and value as `lua_tolstring` gives them. -/
inductive LuaValue where
  | string (value : Bytes)
  | table (entries : List (Bytes × Bytes))
  | other

/-- The arguments of the script function. -/
structure ScriptCall where
  reqHeaders : StringMap
  reqBody : Bytes
  respHeaders : StringMap
  respBody : Bytes

/-- The global `customize_response`: the values that a call leaves on the stack, from its top, or
nothing if the global is no function. -/
abbrev Script :=
  Option (ScriptCall → List LuaValue)

/-- The name of the status among the header fields. -/
def status : Bytes := ascii ":status"

/-- `m[key] = value`. -/
def assign (m : StringMap) (entry : Bytes × Bytes) : StringMap :=
  OrderedSet.insert entry (OrderedMap.eraseKey entry.1 m)

/-- The values of the fields with one name, with semicolons between them. -/
def joinValues (values : List Bytes) : Bytes :=
  values.foldl (fun headerValues value ↦
    if headerValues = [] then value else headerValues ++ ascii ";" ++ value) []

/-- The table of request header fields. -/
def requestTable (reqHeaders : OrderedMultimap Bytes bytesLess) : StringMap :=
  (OrderedSet.empty _).insertAll <|
    ((OrderedSet.empty bytesLess).insertAll (reqHeaders.entries.map Prod.fst)).elems.map
      fun name ↦ (name, joinValues (reqHeaders.equalRange name))

/-! ### The response -/

/-- The parts of a response that the script may replace. -/
structure Produced where
  headers : StringMap
  trailers : StringMap
  body : Bytes

/-- What the script is called with. -/
def scriptCall (statusCode : ℕ) (reqHeaders : OrderedMultimap Bytes bytesLess) (reqBody : Bytes)
    (resp : Produced) : ScriptCall where
  reqHeaders := requestTable reqHeaders
  reqBody := reqBody
  respHeaders := assign resp.headers (status, decimal statusCode)
  respBody := resp.body

/-- One turn of the loop over the stack, with the return code. A table goes to the trailers while
they are empty. -/
def popValue : Bool × Produced → LuaValue → Bool × Produced
  | (retCode, resp), .string value => (retCode, { resp with body := value })
  | (retCode, resp), .table entries =>
    if resp.trailers.elems = [] then
      (retCode, { resp with trailers := entries.foldl assign resp.trailers })
    else (retCode, { resp with headers := entries.foldl assign resp.headers })
  | (_, resp), .other => (false, resp)

/-- What is left of a response when its parts are cleared for the results of the script. -/
def Produced.cleared (resp : Produced) : Produced where
  headers := OrderedSet.empty _
  trailers := OrderedSet.empty _
  body := resp.body

/-- The end of the function: without header fields the trailers take their place. -/
def Produced.swapped (resp : Produced) : Produced :=
  if resp.headers.elems = [] then
    { resp with
      headers := resp.trailers
      trailers := resp.headers }
  else resp

/-- What the values on the stack make of a response. -/
def applyValues (values : List LuaValue) (resp : Produced) : Bool × Produced :=
  let popped := values.foldl popValue (true, resp.cleared)
  (popped.1, popped.2.swapped)

/-- `update_response_with_lua`, for a response with a script. -/
def updateResponseWithLua (script : Script) (statusCode : ℕ)
    (reqHeaders : OrderedMultimap Bytes bytesLess) (reqBody : Bytes) (resp : Produced) :
    Bool × Produced :=
  match script with
  | none => (false, resp)
  | some customizeResponse =>
    applyValues (customizeResponse (scriptCall statusCode reqHeaders reqBody resp)) resp

/-! ### Two tables -/

/-- A value is a table with entries. -/
def LuaValue.isFilledTable : LuaValue → Bool
  | .table entries => !entries.isEmpty
  | .string _ | .other => false

theorem mem_assign {m : StringMap} {entry other : Bytes × Bytes} :
    other ∈ assign m entry ↔ other = entry ∨ other ∈ m ∧ entry.1 ≠ other.1 := by
  have hequiv (a b : Bytes × Bytes) : Equivalent (keyLess bytesLess) a b ↔ a.1 = b.1 :=
    equivalent_bytesLess a.1 b.1
  have hnew : ∀ known ∈ OrderedMap.eraseKey entry.1 m,
      ¬ Equivalent (keyLess bytesLess) entry known := by
    intro known hknown
    exact (OrderedMap.mem_eraseKey.mp hknown).2
  rw [assign, OrderedSet.mem_insert, OrderedMap.mem_eraseKey, equivalent_bytesLess]
  constructor
  · rintro (hold | ⟨rfl, -⟩)
    · exact Or.inr hold
    · exact Or.inl rfl
  · rintro (rfl | hold)
    · exact Or.inr ⟨rfl, hnew⟩
    · exact Or.inl hold

theorem lookup_assign (m : StringMap) (entry : Bytes × Bytes) (key : Bytes) :
    OrderedMap.lookup (assign m entry) key =
      if key = entry.1 then some entry.2 else m.lookup key := by
  rw [assign, lookup_insert, lookup_eraseKey, lookup_eraseKey, if_pos rfl]
  split_ifs <;> rfl

theorem assign_ne_nil (m : StringMap) (entry : Bytes × Bytes) : (assign m entry).elems ≠ [] := by
  have hmem := OrderedSet.exists_equivalent_insert entry (OrderedMap.eraseKey entry.1 m)
  obtain ⟨known, hknown, -⟩ := hmem
  exact List.ne_nil_of_mem hknown

theorem foldl_assign_eq_nil_iff (entries : List (Bytes × Bytes)) (m : StringMap) :
    (entries.foldl assign m).elems = [] ↔ entries = [] ∧ m.elems = [] := by
  induction entries generalizing m with
  | nil => simp
  | cons entry rest ih =>
    rw [List.foldl_cons, ih]
    simp [assign_ne_nil]

/-- Trailers and header fields by the number of tables with entries that were popped. -/
structure Filled (tables : ℕ) (resp : Produced) : Prop where
  trailers : resp.trailers.elems = [] ↔ tables = 0
  headers : resp.headers.elems = [] ↔ tables ≤ 1

theorem filled_popValue {tables : ℕ} {retCode : Bool} {resp : Produced}
    (hfilled : Filled tables resp)
    (value : LuaValue) :
    Filled (tables + if value.isFilledTable then 1 else 0) (popValue (retCode, resp) value).2 := by
  obtain ⟨htrailers, hheaders⟩ := hfilled
  cases value with
  | string value => exact ⟨htrailers, hheaders⟩
  | other => exact ⟨htrailers, hheaders⟩
  | table entries =>
    unfold popValue LuaValue.isFilledTable
    by_cases hempty : resp.trailers.elems = []
    · have hzero := htrailers.mp hempty
      subst hzero
      simp only [if_pos hempty]
      refine ⟨?_, ?_⟩
      · rw [foldl_assign_eq_nil_iff]
        cases entries <;> simp [hempty]
      · rw [show (resp.headers.elems = []) = True from eq_true (hheaders.mpr (Nat.zero_le 1))]
        cases entries <;> simp
    · have hpos := Nat.pos_of_ne_zero fun h ↦ hempty (htrailers.mpr h)
      simp only [if_neg hempty]
      refine ⟨?_, ?_⟩
      · rw [htrailers]
        exact ⟨fun h ↦ absurd h (Nat.ne_of_gt hpos), fun h ↦ (Nat.add_eq_zero_iff.mp h).1⟩
      · rw [foldl_assign_eq_nil_iff, hheaders]
        cases entries with
        | nil => simp
        | cons entry rest =>
          simp only [reduceCtorEq, false_and, List.isEmpty_cons, Bool.not_false, if_true, false_iff]
          omega

theorem filled_popValues (values : List LuaValue) {tables : ℕ} {popped : Bool × Produced}
    (hfilled : Filled tables popped.2) :
    Filled (tables + values.countP LuaValue.isFilledTable) (values.foldl popValue popped).2 := by
  induction values generalizing tables popped with
  | nil => exact hfilled
  | cons value rest ih =>
    rw [List.foldl_cons, List.countP_cons, Nat.add_comm (rest.countP _), ← Nat.add_assoc]
    exact ih (filled_popValue hfilled value)

/-- The script leaves trailers exactly when it leaves two tables with entries. -/
theorem trailers_applyValues_eq_nil_iff (values : List LuaValue) (resp : Produced) :
    (applyValues values resp).2.trailers.elems = [] ↔
      values.countP LuaValue.isFilledTable ≤ 1 := by
  have hcleared : Filled 0 resp.cleared := ⟨by simp [Produced.cleared], by simp [Produced.cleared]⟩
  have hfilled : Filled (values.countP LuaValue.isFilledTable)
      (values.foldl popValue (true, resp.cleared)).2 :=
    Nat.zero_add (values.countP LuaValue.isFilledTable) ▸ filled_popValues values hcleared
  show (Produced.swapped _).trailers.elems = [] ↔ _
  unfold Produced.swapped
  by_cases hheaders : (values.foldl popValue (true, resp.cleared)).2.headers.elems = []
  · rw [if_pos hheaders]
    exact ⟨fun _ ↦ hfilled.headers.mp hheaders, fun _ ↦ hheaders⟩
  · rw [if_neg hheaders, hfilled.trailers]
    have hlt := fun h ↦ hheaders (hfilled.headers.mpr h)
    exact ⟨fun h ↦ h ▸ Nat.zero_le 1, fun h ↦ absurd h hlt⟩

/-- The first of the values that is a table with entries, as a map. -/
def firstTable (values : List LuaValue) : StringMap :=
  match values.find? LuaValue.isFilledTable with
  | some (.table entries) => entries.foldl assign (OrderedSet.empty _)
  | some (.string _) | some .other | none => OrderedSet.empty _

/-- The trailers that the values on the stack leave: the first table with entries, when there is
another one behind it. -/
def scriptTrailers (values : List LuaValue) : StringMap :=
  if values.countP LuaValue.isFilledTable ≤ 1 then OrderedSet.empty _ else firstTable values

/-- Trailers that are there stay. -/
theorem trailers_popValues_of_ne_nil (values : List LuaValue) {popped : Bool × Produced}
    (htrailers : popped.2.trailers.elems ≠ []) :
    (values.foldl popValue popped).2.trailers = popped.2.trailers := by
  induction values generalizing popped with
  | nil => rfl
  | cons value rest ih =>
    have hvalue : (popValue popped value).2.trailers = popped.2.trailers := by
      cases value with
      | string value => rfl
      | other => rfl
      | table entries =>
        obtain ⟨retCode, resp⟩ := popped
        simp only [popValue, if_neg htrailers]
    rw [List.foldl_cons, ih (by rwa [hvalue]), hvalue]

/-- From empty trailers the first table with entries goes to the trailers. -/
theorem trailers_popValues_of_eq_nil (values : List LuaValue) {popped : Bool × Produced}
    (htrailers : popped.2.trailers = OrderedSet.empty _) :
    (values.foldl popValue popped).2.trailers = firstTable values := by
  induction values generalizing popped with
  | nil => exact htrailers
  | cons value rest ih =>
    rw [List.foldl_cons]
    cases value with
    | string value => exact ih htrailers
    | other => exact ih htrailers
    | table entries =>
      have hvalue : (popValue popped (.table entries)).2.trailers =
          entries.foldl assign (OrderedSet.empty _) := by
        obtain ⟨retCode, resp⟩ := popped
        have hempty : resp.trailers.elems = [] := congrArg OrderedSet.elems htrailers
        simp only [popValue, if_pos hempty]
        rw [show resp.trailers = OrderedSet.empty _ from htrailers]
      cases entries with
      | nil => exact ih hvalue
      | cons entry others =>
        rw [trailers_popValues_of_ne_nil rest, hvalue]
        · rfl
        · rw [hvalue, Ne, foldl_assign_eq_nil_iff]
          exact fun h ↦ List.cons_ne_nil entry others h.1

/-- The trailers of a response behind its script do not depend on the response. -/
theorem trailers_applyValues (values : List LuaValue) (resp : Produced) :
    (applyValues values resp).2.trailers = scriptTrailers values := by
  have hnil := trailers_applyValues_eq_nil_iff values resp
  unfold scriptTrailers
  split_ifs with htables
  · exact OrderedSet.ext (hnil.mpr htables)
  · have hne := fun h ↦ htables (hnil.mp h)
    have hpopped : (values.foldl popValue (true, resp.cleared)).2.trailers = firstTable values :=
      trailers_popValues_of_eq_nil values rfl
    rw [← hpopped]
    unfold applyValues Produced.swapped at hne ⊢
    dsimp only at hne ⊢
    split_ifs at hne ⊢ with hheaders
    · exact absurd hheaders hne
    · rfl

end Maock.Answering
