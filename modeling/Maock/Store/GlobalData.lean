import Mathlib.Data.Fin.Basic
import Maock.Answering.Script
import Maock.Foundation.LuaStack

/-!
# The data that the Lua states share

`store_value`, `get_value` and `delete_value` of `common_lua.cc`, the functions through which
scripts share data: `global_datas`, a table of 256 rows of 256 maps, where row and column come from
the sum of the bytes of the key.

A function gets its arguments on a stack of its own and says how many of the values on the top it
returns. With another number of arguments than it wants it writes a complaint and empties the stack,
and then goes on with an empty key. An index outside of the table is kept as `none` here;
`shard_lt` says that there is none.
-/

set_option autoImplicit false
set_option relaxedAutoImplicit false

namespace Maock.Store

open Foundation Foundation.OrderedContainer Foundation.Bytes Foundation.LuaStack
open Answering (StringMap assign)

/-! ### Shards -/

/-- `get_u16_sum(key)`: the sum is carried as an `int`, goes through a `uint16_t` before each byte,
and is returned as one. -/
def getU16Sum (key : Bytes) : ℕ :=
  key.foldl (fun sum c ↦ sum % 2 ^ 16 + c.toNat) 0 % 2 ^ 16

/-- `uint8_t row = sum >> 16`. -/
def row (key : Bytes) : ℕ :=
  (getU16Sum key >>> 16) % 2 ^ 8

/-- `uint8_t col = sum & 0xFF`. -/
def col (key : Bytes) : ℕ :=
  (getU16Sum key &&& 0xFF) % 2 ^ 8

/-- The narrowing before each byte does not change the sum modulo 2^16. -/
theorem getU16Sum_eq (key : Bytes) : getU16Sum key = (key.map UInt8.toNat).sum % 2 ^ 16 := by
  have hfold (start : ℕ) : key.foldl (fun sum c ↦ sum % 2 ^ 16 + c.toNat) start % 2 ^ 16 =
      (start + (key.map UInt8.toNat).sum) % 2 ^ 16 := by
    induction key generalizing start with
    | nil => rfl
    | cons c rest ih =>
      rw [List.foldl_cons, ih, List.map_cons, List.sum_cons, Nat.add_assoc, Nat.mod_add_mod]
  rw [getU16Sum, hfold, Nat.zero_add]

/-- Row and column lie inside the table. -/
theorem shard_lt (key : Bytes) : row key < 0x100 ∧ col key < 0x100 :=
  ⟨Nat.mod_lt _ (by decide), Nat.mod_lt _ (by decide)⟩

/-- `global_datas`: the maps by row and column. -/
abbrev GlobalDatas := Fin 0x100 × Fin 0x100 → StringMap

/-- Maps without entries. -/
def noDatas : GlobalDatas :=
  fun _ ↦ OrderedSet.empty _

/-- The part of a function under the lock: it works on the map of the key. -/
def atShard {α : Type} (key : Bytes) (f : StringMap → α × StringMap) (datas : GlobalDatas) :
    Option (α × GlobalDatas) :=
  if h : row key < 0x100 ∧ col key < 0x100 then
    let shard : Fin 0x100 × Fin 0x100 := (⟨row key, h.1⟩, ⟨col key, h.2⟩)
    let (answer, globalData) := f (datas shard)
    some (answer, Function.update datas shard globalData)
  else none

/-- The shard of a key. -/
def shardOf (key : Bytes) : Fin 0x100 × Fin 0x100 :=
  (⟨row key, (shard_lt key).1⟩, ⟨col key, (shard_lt key).2⟩)

/-- No index is outside of the table. -/
theorem atShard_eq {α : Type} (key : Bytes) (f : StringMap → α × StringMap) (datas : GlobalDatas) :
    atShard key f datas =
      some ((f (datas (shardOf key))).1,
        Function.update datas (shardOf key) (f (datas (shardOf key))).2) :=
  dif_pos (shard_lt key)

/-! ### The functions -/

/-- What a function leaves: the number that it returns, its stack, and what it has written to
`std::cerr`. -/
structure Return where
  results : ℕ
  stack : Stack
  cerr : Bytes

namespace Return

/-- The values that Lua gets. -/
def values (ret : Return) : List Value :=
  (ret.stack.take ret.results).reverse

/-- `lua_pushlstring` with `return 1`. -/
def withString (s : Bytes) (ret : Return) : Return :=
  { ret with
    results := 1
    stack := ret.stack.pushString s }

end Return

/-- What a function writes when the number of its arguments is wrong. -/
def invalidArguments (function : String) : Bytes :=
  ascii function ++ ascii " invalid arguments" ++ [10]

/-- The arguments of `store_value`: the value stands above the key. -/
def storeArguments (stack : Stack) : Bytes × Bytes × Return :=
  if stack.length = 2 then
    let (value, stack) := stack.toLString 1
    let stack := stack.pop 1
    let (key, stack) := stack.toLString 1
    (key, value, ⟨0, stack.pop 1, []⟩)
  else ([], [], ⟨0, [], invalidArguments "store_value"⟩)

/-- The argument of `get_value` and `delete_value`. -/
def keyArgument (function : String) (stack : Stack) : Bytes × Return :=
  if stack.length = 1 then
    let (key, stack) := stack.toLString 1
    (key, ⟨0, stack.pop 1, []⟩)
  else ([], ⟨0, [], invalidArguments function⟩)

/-- `store_value(L)`. -/
def storeValue (stack : Stack) (datas : GlobalDatas) : Option (Return × GlobalDatas) :=
  let (key, value, ret) := storeArguments stack
  atShard key (fun globalData ↦ (ret, assign globalData (key, value))) datas

/-- `get_value(L)`. -/
def getValue (stack : Stack) (datas : GlobalDatas) : Option (Return × GlobalDatas) :=
  let (key, ret) := keyArgument "get_value" stack
  atShard key (fun globalData ↦
    match OrderedMap.lookup globalData key with
    | some value => (ret.withString value, globalData)
    | none => (ret, globalData)) datas

/-- `delete_value(L)`. -/
def deleteValue (stack : Stack) (datas : GlobalDatas) : Option (Return × GlobalDatas) :=
  let (key, ret) := keyArgument "delete_value" stack
  atShard key (fun globalData ↦
    match OrderedMap.lookup globalData key with
    | some value => (ret.withString value, OrderedMap.eraseKey key globalData)
    | none => (ret, globalData)) datas

/-- The functions that scripts call. -/
inductive ApiFunction where
  | storeValue
  | getValue
  | deleteValue
  deriving DecidableEq

namespace ApiFunction

/-- The number of arguments that a function wants. -/
def arguments : ApiFunction → ℕ
  | storeValue => 2
  | getValue => 1
  | deleteValue => 1

/-- A call with these arguments on the stack. -/
def invoke : ApiFunction → Stack → GlobalDatas → Option (Return × GlobalDatas)
  | storeValue => Store.storeValue
  | getValue => Store.getValue
  | deleteValue => Store.deleteValue

end ApiFunction

/-! ### What they do -/

theorem storeArguments_strings (key value : Bytes) :
    storeArguments [.atom (.string value), .atom (.string key)] = (key, value, ⟨0, [], []⟩) := rfl

theorem keyArgument_string (function : String) (key : Bytes) :
    keyArgument function [.atom (.string key)] = (key, ⟨0, [], []⟩) := rfl

namespace Return

/-- The return of a function that has looked for a value. -/
def withValue (value : Option Bytes) (ret : Return) : Return :=
  match value with
  | some s => ret.withString s
  | none => ret

end Return

/-- A key that is not there is not removed. -/
theorem eraseKey_of_lookup_eq_none {m : StringMap} {key : Bytes}
    (hnone : OrderedMap.lookup m key = none) : OrderedMap.eraseKey key m = m := by
  refine OrderedMap.eraseKey_of_forall fun entry hentry hequiv ↦ ?_
  obtain rfl := (equivalent_bytesLess _ _).mp hequiv
  rw [lookup_eq_some_iff.mpr hentry] at hnone
  exact absurd hnone (by simp)

section Functions

variable {stack : Stack} {key value : Bytes} {ret : Return}

/-- `store_value` sets the value in the map of the key. -/
theorem storeValue_eq (harguments : storeArguments stack = (key, value, ret))
    (datas : GlobalDatas) :
    storeValue stack datas = some (ret, Function.update datas (shardOf key)
      (assign (datas (shardOf key)) (key, value))) := by
  rw [storeValue, harguments]
  exact atShard_eq key _ datas

/-- `get_value` leaves the tables as they are. -/
theorem getValue_eq (hargument : keyArgument "get_value" stack = (key, ret)) (datas : GlobalDatas) :
    getValue stack datas =
      some (ret.withValue (OrderedMap.lookup (datas (shardOf key)) key), datas) := by
  rw [getValue, hargument]
  refine (atShard_eq key _ datas).trans ?_
  cases OrderedMap.lookup (datas (shardOf key)) key with
  | none => exact congrArg some (Prod.ext rfl (Function.update_eq_self _ _))
  | some value => exact congrArg some (Prod.ext rfl (Function.update_eq_self _ _))

/-- `delete_value` removes the value that it returns. -/
theorem deleteValue_eq (hargument : keyArgument "delete_value" stack = (key, ret))
    (datas : GlobalDatas) :
    deleteValue stack datas =
      some (ret.withValue (OrderedMap.lookup (datas (shardOf key)) key),
        Function.update datas (shardOf key) (OrderedMap.eraseKey key (datas (shardOf key)))) := by
  rw [deleteValue, hargument]
  refine (atShard_eq key _ datas).trans ?_
  cases hknown : OrderedMap.lookup (datas (shardOf key)) key with
  | none =>
    dsimp only
    rw [eraseKey_of_lookup_eq_none hknown]
    rfl
  | some value => rfl

end Functions

end Maock.Store
