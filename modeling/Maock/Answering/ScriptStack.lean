import Maock.Answering.Script
import Maock.Foundation.Fuel
import Maock.Foundation.LuaStack

/-!
# The stack under the Lua script

`H2Server_Response::update_response_with_lua` with all that it does to the stack of the Lua state:
the function and its four arguments are pushed, `lua_pcall` replaces them by two results or by one
error value, and a loop pops what stands there and reads it by its type. The inner loop over a table
takes the key that `lua_tolstring` may have converted back to `lua_next`.

`updateWithState_eq` connects this with `updateResponseWithLua`, for which the script is a function
from its arguments to the values that it leaves.
-/

set_option autoImplicit false
set_option relaxedAutoImplicit false

namespace Maock.Answering

open Foundation Foundation.OrderedContainer Foundation.Bytes Foundation.LuaStack

variable {γ : Type}

/-! ### The arguments -/

/-- The name of the function that the script defines. -/
def customizeResponse : Bytes := ascii "customize_response"

/-- What `update_response_with_lua` is called with. `statusCode` is that of the response. -/
structure ScriptUpdate where
  statusCode : ℕ
  reqHeaders : OrderedMultimap Bytes bytesLess
  reqBody : Bytes
  resp : Produced

/-- A turn of the loops that fill a table: name, value and `lua_rawset(L, -3)`. -/
def pushField (stack : Stack) (field : Bytes × Bytes) : Stack :=
  ((stack.pushString field.1).pushString field.2).rawSet

/-- `lua_createtable` with the loop that fills the table. -/
def pushTable (fields : List (Bytes × Bytes)) (stack : Stack) : Stack :=
  fields.foldl pushField stack.createTable

namespace ScriptUpdate

/-- The fields of the first table: the request header names, each with its values joined. -/
def requestFields (u : ScriptUpdate) : List (Bytes × Bytes) :=
  ((OrderedSet.empty bytesLess).insertAll (u.reqHeaders.entries.map Prod.fst)).elems.map
    fun name ↦ (name, joinValues (u.reqHeaders.equalRange name))

/-- The fields of the second table: the response header fields, and then the status. -/
def responseFields (u : ScriptUpdate) : List (Bytes × Bytes) :=
  u.resp.headers.elems ++ [(status, decimal u.statusCode)]

/-- What is pushed on top of the function. -/
def pushArguments (u : ScriptUpdate) (stack : Stack) : Stack :=
  (pushTable u.responseFields ((pushTable u.requestFields stack).pushString u.reqBody)).pushString
    u.resp.body

end ScriptUpdate

/-! ### The results -/

/-- The loop `while (lua_next(L, -2) != 0)`, which assigns what it reads to a map. -/
def readEntries : ℕ → StringMap → Stack → Except Failure (StringMap × Stack)
  | 0, _, _ => .error .outOfTurns
  | fuel + 1, fields, stack =>
    match stack.next with
    | .error failure => .error failure
    | .ok (false, stack) => .ok (fields, stack)
    | .ok (true, stack) =>
      let (key, stack) := stack.toLString 2
      let (value, stack) := stack.toLString 1
      readEntries fuel (assign fields (key, value)) (stack.pop 1)

/-- One turn of the loop over the stack, with the return code. -/
def popResult (fuel : ℕ) : Bool × Produced × Stack → Except Failure (Bool × Produced × Stack)
  | (retCode, resp, stack) =>
    match (stack.head?.map Value.type).getD .other with
    | .string =>
      let (str, stack) := stack.toLString 1
      .ok (retCode, { resp with body := str }, stack.pop 1)
    | .table =>
      if resp.trailers.elems = [] then
        (readEntries fuel resp.trailers (.nil :: stack)).map fun (fields, stack) ↦
          (retCode, { resp with trailers := fields }, stack.pop 1)
      else
        (readEntries fuel resp.headers (.nil :: stack)).map fun (fields, stack) ↦
          (retCode, { resp with headers := fields }, stack.pop 1)
    | _ => .ok (false, resp, stack.pop 1)

/-- The loop over the stack, for the number of turns that `lua_gettop` gives. -/
def popResults (fuel : ℕ) :
    ℕ → Bool × Produced × Stack → Except Failure (Bool × Produced × Stack)
  | 0, popped => .ok popped
  | turns + 1, popped => popResult fuel popped >>= popResults fuel turns

/-- `update_response_with_lua` on the Lua state of the response. -/
def updateWithState (interpreter : Interpreter γ) (fuel : ℕ) (u : ScriptUpdate) (L : LuaState γ) :
    Except Failure (Bool × Produced × LuaState γ) :=
  let function := interpreter.getGlobal L.heap customizeResponse
  if interpreter.isFunction L.heap function then
    let L := { L with stack := u.pushArguments (function :: L.stack) }.pcall interpreter 4 2
    (popResults fuel L.stack.length (true, u.resp.cleared, L.stack)).map
      fun (retCode, resp, stack) ↦ (retCode, resp.swapped, { L with stack := stack })
  else .ok (false, u.resp, { L with stack := [] })

/-! ### Tables on the stack -/

/-- A field set in a table. -/
def setField (t : Table) (field : Bytes × Bytes) : Table :=
  t.rawSet (.string field.1) (.string field.2)

theorem foldl_pushField (fields : List (Bytes × Bytes)) (t : Table) (stack : Stack) :
    fields.foldl pushField (.table t :: stack) = .table (fields.foldl setField t) :: stack := by
  induction fields generalizing t with
  | nil => rfl
  | cons field rest ih => exact ih (setField t field)

/-- Filling a table leaves the stack below it. -/
theorem pushTable_eq (fields : List (Bytes × Bytes)) (stack : Stack) :
    pushTable fields stack = .table (fields.foldl setField Table.empty) :: stack :=
  foldl_pushField fields Table.empty stack

/-- The arguments that the function gets. -/
def ScriptUpdate.arguments (u : ScriptUpdate) : List Value :=
  [.table (u.requestFields.foldl setField Table.empty), .atom (.string u.reqBody),
    .table (u.responseFields.foldl setField Table.empty), .atom (.string u.resp.body)]

theorem ScriptUpdate.pushArguments_eq (u : ScriptUpdate) (stack : Stack) :
    u.pushArguments stack = u.arguments.reverse ++ stack := by
  rw [pushArguments, pushTable_eq, pushTable_eq]
  rfl

/-! ### Tables among the results -/

/-- The keys of a table are strings, which `lua_tolstring` leaves as they are. -/
def HasStringKeys (t : Table) : Prop :=
  ∀ entry ∈ t.entries, entry.1.type = .string

/-- A turn that reads an entry whose key is a string. -/
theorem readEntries_succ {t : Table} {key : Value} {entry : Atom × Atom}
    (hnext : t.next key = some (some entry)) (hkey : entry.1.type = .string) (fuel : ℕ)
    (fields : StringMap) (below : Stack) :
    readEntries (fuel + 1) fields (key :: .table t :: below) =
      readEntries fuel (assign fields (entry.1.text, entry.2.text))
        (.atom entry.1 :: .table t :: below) := by
  have hconverted : entry.1.converted = entry.1 := by
    rw [Atom.eq_string_of_type hkey]
    rfl
  have hread : (Stack.toLString 2 (.atom entry.2 :: .atom entry.1 :: .table t :: below)) =
      (entry.1.text, .atom entry.2 :: .atom entry.1 :: .table t :: below) := by
    show (entry.1.text, [.atom entry.2, .atom entry.1.converted] ++ .table t :: below) = _
    rw [hconverted]
    rfl
  rw [readEntries, Stack.next, hnext]
  simp only [hread]
  rfl

/-- The loop from a key on, where `rest` are the entries that it has not visited. -/
theorem readEntries_rest {t : Table} (hkeys : HasStringKeys t) {before rest : List (Atom × Atom)}
    (hentries : t.entries = before ++ rest) {key : Value} (hnext : t.next key = some rest.head?)
    {fuel : ℕ} (hfuel : rest.length < fuel) (fields : StringMap) (below : Stack) :
    readEntries fuel fields (key :: .table t :: below) =
      .ok ((rest.map fun entry ↦ (entry.1.text, entry.2.text)).foldl assign fields,
        .table t :: below) := by
  induction rest generalizing before key fuel fields with
  | nil =>
    obtain ⟨fuel, rfl⟩ := Nat.exists_eq_succ_of_ne_zero (Nat.ne_of_gt hfuel)
    simp only [readEntries, Stack.next, hnext, List.head?_nil, List.map_nil, List.foldl_nil]
  | cons entry rest ih =>
    obtain ⟨fuel, rfl⟩ := Nat.exists_eq_succ_of_ne_zero (Nat.ne_of_gt (Nat.zero_lt_of_lt hfuel))
    have hkey := hkeys entry (hentries ▸ List.mem_append_right _ List.mem_cons_self)
    have hvisited : t.entries = (before ++ [entry]) ++ rest := by
      rw [hentries, List.append_assoc, List.singleton_append]
    rw [readEntries_succ hnext hkey]
    exact ih hvisited (Table.next_of_entries hentries) (Nat.lt_of_succ_lt_succ hfuel) _

/-- The loop over a table whose keys are strings assigns all entries and leaves the table. -/
theorem readEntries_of_stringKeys {t : Table} (hkeys : HasStringKeys t) {fuel : ℕ}
    (hfuel : t.entries.length < fuel) (fields : StringMap) (below : Stack) :
    readEntries fuel fields (.nil :: .table t :: below) =
      .ok (t.texts.foldl assign fields, .table t :: below) :=
  readEntries_rest hkeys (List.nil_append t.entries).symm rfl hfuel fields below

/-! ### The loop over the stack -/

/-- What the loop over the stack takes a value for. -/
def readAs : Value → LuaValue
  | .atom (.string s) => .string s
  | .atom (.boolean _) => .other
  | .atom (.number _ _) => .other
  | .atom (.reference _) => .other
  | .nil => .other
  | .table t => .table t.texts

/-- The turns suffice for the inner loop over a value, and its keys do not disturb it. -/
def Readable (fuel : ℕ) : Value → Prop
  | .table t => HasStringKeys t ∧ t.entries.length < fuel
  | .atom _ => True
  | .nil => True

theorem popResult_of_readable {fuel : ℕ} {value : Value} (hreadable : Readable fuel value)
    (retCode : Bool) (resp : Produced) (stack : Stack) :
    popResult fuel (retCode, resp, value :: stack) =
      .ok ((popValue (retCode, resp) (readAs value)).1,
        (popValue (retCode, resp) (readAs value)).2, stack) := by
  cases value with
  | nil => rfl
  | atom a => cases a <;> rfl
  | table t =>
    obtain ⟨hkeys, hfuel⟩ := hreadable
    have hread (fields : StringMap) := readEntries_of_stringKeys hkeys hfuel fields stack
    show (if _ then _ else _) = _
    simp only [hread, readAs, popValue]
    split_ifs <;> rfl

/-- The loop empties the stack. -/
theorem popResults_of_readable {fuel : ℕ} {values : List Value}
    (hreadable : ∀ value ∈ values, Readable fuel value) (popped : Bool × Produced) :
    popResults fuel values.length (popped.1, popped.2, values) =
      .ok (((values.map readAs).foldl popValue popped).1,
        ((values.map readAs).foldl popValue popped).2, []) := by
  induction values generalizing popped with
  | nil => rfl
  | cons value rest ih =>
    rw [List.forall_mem_cons] at hreadable
    rw [List.length_cons, popResults, popResult_of_readable hreadable.1]
    exact ih hreadable.2 (popValue popped (readAs value))

/-! ### The whole function -/

/-- The function that `lua_getglobal` finds is called with the arguments. -/
def ScriptUpdate.call (u : ScriptUpdate) (interpreter : Interpreter γ) (heap : γ) :
    γ × Except Value (List Value) :=
  interpreter.call heap (interpreter.getGlobal heap customizeResponse) u.arguments

/-- The values that a call leaves on an empty stack, from its top. -/
def leftOnStack : Except Value (List Value) → List Value
  | .ok results => (adjust 2 results).reverse
  | .error value => [value]

/-- The script defines the function. -/
def DefinesFunction (interpreter : Interpreter γ) (heap : γ) : Prop :=
  interpreter.isFunction heap (interpreter.getGlobal heap customizeResponse) = true

theorem pcall_pushArguments (interpreter : Interpreter γ) (u : ScriptUpdate) (heap : γ) :
    (LuaState.mk heap (u.pushArguments [interpreter.getGlobal heap customizeResponse])).pcall
        interpreter 4 2 =
      ⟨(u.call interpreter heap).1, leftOnStack (u.call interpreter heap).2⟩ := by
  rw [u.pushArguments_eq]
  cases hcall : u.call interpreter heap with
  | mk after result =>
    cases result with
    | ok results =>
      exact (LuaState.pcall_of_ok 2 hcall).trans (congrArg (LuaState.mk after) (List.append_nil _))
    | error value => exact LuaState.pcall_of_error 2 hcall

/-- With a function the values that its call leaves are popped. -/
theorem updateWithState_of_function {interpreter : Interpreter γ} {heap : γ}
    (hfunction : DefinesFunction interpreter heap) (fuel : ℕ) (u : ScriptUpdate) :
    updateWithState interpreter fuel u ⟨heap, []⟩ =
      (popResults fuel (leftOnStack (u.call interpreter heap).2).length
        (true, u.resp.cleared, leftOnStack (u.call interpreter heap).2)).map
        fun (retCode, resp, stack) ↦
          (retCode, resp.swapped, ⟨(u.call interpreter heap).1, stack⟩) := by
  unfold updateWithState
  dsimp only
  rw [if_pos (show interpreter.isFunction heap _ = true from hfunction), pcall_pushArguments]

/-- **The loop over the stack.** When the keys of the tables left there are strings, the function
returns, with the response that `applyValues` makes of the values and with an empty stack. -/
theorem updateWithState_eq {interpreter : Interpreter γ} {heap : γ}
    (hfunction : DefinesFunction interpreter heap) {fuel : ℕ} {u : ScriptUpdate}
    (hreadable : ∀ value ∈ leftOnStack (u.call interpreter heap).2, Readable fuel value) :
    updateWithState interpreter fuel u ⟨heap, []⟩ =
      .ok ((applyValues ((leftOnStack (u.call interpreter heap).2).map readAs) u.resp).1,
        (applyValues ((leftOnStack (u.call interpreter heap).2).map readAs) u.resp).2,
        ⟨(u.call interpreter heap).1, []⟩) := by
  rw [updateWithState_of_function hfunction,
    popResults_of_readable hreadable (true, u.resp.cleared)]
  rfl

end Maock.Answering
