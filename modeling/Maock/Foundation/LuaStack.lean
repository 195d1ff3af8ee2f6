import Mathlib.Data.List.Nodup
import Mathlib.Tactic.Common
import Maock.Foundation.Bytes

/-!
# The stack between C and Lua

The part of the C interface of Lua that works on the stack: values, tables and the functions that
push, read and pop them. `Stack` is a list whose first element is the top, so that the index -1 is
the position 0.

A program in Lua is not modelled. An `Interpreter` says what the globals of a state are and what a
call of a function returns or raises, for some type of heaps that a call may change.

`next_of_entries` is the rule for a loop over a table: from a key of the table `lua_next` goes on to
the entry behind it.
-/

set_option autoImplicit false
set_option relaxedAutoImplicit false

namespace Maock.Foundation.LuaStack

open Bytes

/-! ### Values -/

/-- A value that can stand in a table. Functions, userdata, threads and the tables in a table are
references here. A number has the text that it is converted to. -/
inductive Atom where
  | boolean (b : Bool)
  | number (id : ℕ) (text : Bytes)
  | string (s : Bytes)
  | reference (id : ℕ)
  deriving DecidableEq

/-- A table with its entries in the order of `lua_next`. No key occurs twice. -/
structure Table where
  entries : List (Atom × Atom)
  nodup : (entries.map Prod.fst).Nodup

/-- A value on the stack. -/
inductive Value where
  | nil
  | atom (a : Atom)
  | table (t : Table)

/-- The types that `lua_type` tells apart. -/
inductive LuaType where
  | nil
  | boolean
  | number
  | string
  | table
  | other
  deriving DecidableEq

namespace Atom

/-- `lua_type` of an atom. -/
def type : Atom → LuaType
  | .boolean _ => .boolean
  | .number _ _ => .number
  | .string _ => .string
  | .reference _ => .other

/-- What `lua_tolstring` gives. A value that is neither a string nor a number gives the null pointer
with the length 0, from which C++ makes the empty string. -/
def text : Atom → Bytes
  | .string s => s
  | .number _ text => text
  | .boolean _ => []
  | .reference _ => []

/-- What `lua_tolstring` leaves in the place of a value: a number becomes a string. -/
def converted : Atom → Atom
  | .number _ text => .string text
  | a => a

end Atom

namespace Value

/-- `lua_type`. -/
def type : Value → LuaType
  | .nil => .nil
  | .atom a => a.type
  | .table _ => .table

/-- What `lua_tolstring` gives. -/
def text : Value → Bytes
  | .atom a => a.text
  | .nil => []
  | .table _ => []

/-- What `lua_tolstring` leaves in the place of a value. -/
def converted : Value → Value
  | .atom a => .atom a.converted
  | .nil => .nil
  | .table t => .table t

end Value

/-! ### Tables -/

namespace Table

/-- A new table. -/
def empty : Table where
  entries := []
  nodup := List.nodup_nil

/-- A raw assignment of a value that is not nil: in place for a key of the table, else behind the
entries. -/
def rawSet (key value : Atom) (t : Table) : Table where
  entries :=
    if key ∈ t.entries.map Prod.fst then
      t.entries.map fun entry ↦ if entry.1 = key then (key, value) else entry
    else t.entries ++ [(key, value)]
  nodup := by
    split_ifs with hknown
    · have hkeys : (t.entries.map fun entry ↦ if entry.1 = key then (key, value) else entry).map
          Prod.fst = t.entries.map Prod.fst := by
        rw [List.map_map]
        refine List.map_congr_left fun entry _ ↦ ?_
        show (if entry.1 = key then (key, value) else entry).1 = entry.1
        split_ifs with hkey
        · exact hkey.symm
        · rfl
      rw [hkeys]
      exact t.nodup
    · rw [List.map_append, List.nodup_append]
      refine ⟨t.nodup, List.nodup_singleton key, fun a ha b hb ↦ ?_⟩
      rintro rfl
      have hkey : a = key := List.mem_singleton.mp hb
      exact hknown (hkey ▸ ha)

/-- The entry behind a key, if the key is there. -/
def nextEntry (key : Atom) : List (Atom × Atom) → Option (Option (Atom × Atom))
  | [] => none
  | entry :: rest => if entry.1 = key then some rest.head? else nextEntry key rest

/-- The entry that `lua_next` goes on to. Nothing is an error: the key is not in the table. -/
def next (t : Table) : Value → Option (Option (Atom × Atom))
  | .nil => some t.entries.head?
  | .atom key => nextEntry key t.entries
  | .table _ => none

theorem nextEntry_append {before after : List (Atom × Atom)} {entry : Atom × Atom}
    (hnew : entry.1 ∉ before.map Prod.fst) :
    nextEntry entry.1 (before ++ entry :: after) = some after.head? := by
  induction before with
  | nil => exact if_pos rfl
  | cons first rest ih =>
    rw [List.map_cons, List.mem_cons, not_or] at hnew
    exact (if_neg fun h ↦ hnew.1 h.symm).trans (ih hnew.2)

/-- From a key of the table `lua_next` goes on to the entry behind it. -/
theorem next_of_entries {t : Table} {before after : List (Atom × Atom)} {entry : Atom × Atom}
    (hentries : t.entries = before ++ entry :: after) :
    t.next (.atom entry.1) = some after.head? := by
  have hnodup := t.nodup
  rw [hentries, List.map_append, List.map_cons, List.nodup_append] at hnodup
  show nextEntry entry.1 t.entries = _
  rw [hentries]
  exact nextEntry_append fun hmem ↦ hnodup.2.2 _ hmem _ List.mem_cons_self rfl

/-- A table from strings to strings. -/
def IsStringTable (t : Table) : Prop :=
  ∀ entry ∈ t.entries, entry.1.type = .string ∧ entry.2.type = .string

instance (t : Table) : Decidable t.IsStringTable :=
  inferInstanceAs (Decidable (∀ entry ∈ t.entries, _))

/-- The entries as pairs of the strings that `lua_tolstring` gives. -/
def texts (t : Table) : List (Bytes × Bytes) :=
  t.entries.map fun entry ↦ (entry.1.text, entry.2.text)

end Table

theorem Atom.eq_string_of_type {a : Atom} (h : a.type = .string) : a = .string a.text := by
  cases a with
  | string s => rfl
  | boolean b => exact absurd h (by simp [Atom.type])
  | number id text => exact absurd h (by simp [Atom.type])
  | reference id => exact absurd h (by simp [Atom.type])

/-! ### The stack -/

/-- The stack, from its top. -/
abbrev Stack := List Value

/-- Why a function of the interface does not return: the loop ran out of turns here, or it raised an
error outside of a protected call, at which Lua ends the program. -/
inductive Failure where
  | outOfTurns
  | invalidKey
  | notATable
  deriving DecidableEq

namespace Stack

/-- `lua_pop(L, n)`. -/
def pop (n : ℕ) (stack : Stack) : Stack :=
  stack.drop n

/-- `lua_pushlstring`. -/
def pushString (s : Bytes) (stack : Stack) : Stack :=
  .atom (.string s) :: stack

/-- `lua_createtable`. -/
def createTable (stack : Stack) : Stack :=
  .table Table.empty :: stack

/-- `lua_tolstring` at the `depth`-th position from the top, the top being the first. -/
def toLString (depth : ℕ) (stack : Stack) : Bytes × Stack :=
  ((stack[depth - 1]?.map Value.text).getD [], stack.modify (depth - 1) Value.converted)

/-- `lua_rawset(L, -3)`: value and key from the top go into the table below them. -/
def rawSet : Stack → Stack
  | .atom value :: .atom key :: .table t :: rest => .table (t.rawSet key value) :: rest
  | stack => stack

/-- `lua_next(L, -2)`: the key on the top is replaced by the next key and its value, or popped at
the end of the table below it. -/
def next : Stack → Except Failure (Bool × Stack)
  | key :: .table t :: rest =>
    match t.next key with
    | none => .error .invalidKey
    | some none => .ok (false, .table t :: rest)
    | some (some (k, v)) => .ok (true, .atom v :: .atom k :: .table t :: rest)
  | _ => .error .notATable

end Stack

/-! ### Calls -/

/-- What the program in a Lua state does: its globals, which of the values are functions, and what
their calls return or raise. -/
structure Interpreter (γ : Type) where
  getGlobal : γ → Bytes → Value
  isFunction : γ → Value → Bool
  call : γ → Value → List Value → γ × Except Value (List Value)

/-- A Lua state. -/
structure LuaState (γ : Type) where
  heap : γ
  stack : Stack

/-- Results cut or filled up with nil to the number that the caller wants. -/
def adjust (nresults : ℕ) (results : List Value) : List Value :=
  (results ++ List.replicate nresults Value.nil).take nresults

/-- `lua_pcall(L, nargs, nresults, 0)`: the results or the error value take the place of the
function and its arguments. -/
def LuaState.pcall {γ : Type} (interpreter : Interpreter γ) (nargs nresults : ℕ) (L : LuaState γ) :
    LuaState γ :=
  let below := L.stack.drop (nargs + 1)
  match interpreter.call L.heap ((L.stack[nargs]?).getD Value.nil) (L.stack.take nargs).reverse with
  | (heap, .ok results) => ⟨heap, (adjust nresults results).reverse ++ below⟩
  | (heap, .error value) => ⟨heap, value :: below⟩

section Calls

variable {γ : Type} {interpreter : Interpreter γ} {nargs : ℕ} {L : LuaState γ} {heap : γ}

theorem LuaState.pcall_of_ok {results : List Value} (nresults : ℕ)
    (hcall : interpreter.call L.heap ((L.stack[nargs]?).getD Value.nil)
      (L.stack.take nargs).reverse = (heap, .ok results)) :
    L.pcall interpreter nargs nresults =
      ⟨heap, (adjust nresults results).reverse ++ L.stack.drop (nargs + 1)⟩ := by
  unfold LuaState.pcall
  rw [hcall]

theorem LuaState.pcall_of_error {value : Value} (nresults : ℕ)
    (hcall : interpreter.call L.heap ((L.stack[nargs]?).getD Value.nil)
      (L.stack.take nargs).reverse = (heap, .error value)) :
    L.pcall interpreter nargs nresults = ⟨heap, value :: L.stack.drop (nargs + 1)⟩ := by
  unfold LuaState.pcall
  rw [hcall]

end Calls

end Maock.Foundation.LuaStack
