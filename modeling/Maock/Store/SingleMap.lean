import Maock.Foundation.ShardedMap
import Maock.Store.GlobalData

/-!
# The shared data is one map

Scripts in any number of Lua states call the functions of the store, in any order, each call alone
under the lock of its shard. What they get is what one map from strings to strings would give them,
called in the same order (`performAll_eq_single`).

A call is an `Access` to the map of its key, and `contents` are the tables as shards of one map, so
this is `answers_onShards` at these tables.
-/

set_option autoImplicit false
set_option relaxedAutoImplicit false

namespace Maock.Store

open Foundation Foundation.OrderedContainer Foundation.Bytes Foundation.LuaStack
open Foundation.ShardedMap
open Answering (StringMap assign lookup_assign)

/-! ### Calls -/

/-- A call with the right number of strings. -/
inductive Call where
  | storeValue (key value : Bytes)
  | getValue (key : Bytes)
  | deleteValue (key : Bytes)

namespace Call

/-- The function that is called. -/
def function : Call → ApiFunction
  | storeValue _ _ => .storeValue
  | getValue _ => .getValue
  | deleteValue _ => .deleteValue

/-- The stack on which the function finds its arguments, the last one on the top. -/
def stack : Call → Stack
  | storeValue key value => [.atom (.string value), .atom (.string key)]
  | getValue key => [.atom (.string key)]
  | deleteValue key => [.atom (.string key)]

/-- A call, with the values that it returns to Lua. -/
def perform (call : Call) (datas : GlobalDatas) : Option (List Value × GlobalDatas) :=
  (call.function.invoke call.stack datas).map fun (ret, datas) ↦ (ret.values, datas)

end Call

/-- The calls of some Lua states, one after the other, with what each state gets. -/
def performAll {ι : Type} :
    List (ι × Call) → GlobalDatas → Option (List (ι × List Value) × GlobalDatas)
  | [], datas => some ([], datas)
  | (luaState, call) :: rest, datas => do
    let (results, datas) ← call.perform datas
    let (answers, datas) ← performAll rest datas
    return ((luaState, results) :: answers, datas)

/-! ### A single map -/

/-- The value of a key as the results of a call: the string, or nothing. -/
def results (value : Option Bytes) : List Value :=
  value.toList.map fun s ↦ .atom (.string s)

/-- What a call does to a single map: it stores the value of its key, gets it, or deletes it. -/
def Call.access : Call → Access Bytes Bytes (List Value)
  | storeValue key value => ⟨key, fun _ ↦ ([], some value)⟩
  | getValue key => ⟨key, fun known ↦ (results known, known)⟩
  | deleteValue key => ⟨key, fun known ↦ (results known, none)⟩

/-- The same for a call of a Lua state, which gets the results. -/
def accessOf {ι : Type} (event : ι × Call) : Access Bytes Bytes (ι × List Value) where
  key := event.2.access.key
  act := fun known ↦ ((event.1, (event.2.access.act known).1), (event.2.access.act known).2)

/-- What the Lua states get from a single map without entries. -/
def singleAnswers {ι : Type} (events : List (ι × Call)) : List (ι × List Value) :=
  answers Access.onMap (fun _ ↦ none) (events.map accessOf)

/-! ### The tables as shards -/

/-- The tables as partial maps. -/
def contents (datas : GlobalDatas) : Fin 0x100 × Fin 0x100 → Bytes → Option Bytes :=
  fun shard key ↦ OrderedMap.lookup (datas shard) key

theorem contents_update (datas : GlobalDatas) (shard : Fin 0x100 × Fin 0x100) (m : StringMap) :
    contents (Function.update datas shard m) =
      Function.update (contents datas) shard fun key ↦ OrderedMap.lookup m key := by
  funext other key
  by_cases hshard : other = shard
  · subst hshard
    simp [contents]
  · simp [contents, hshard]

/-- What is returned for a value that was looked for, on an empty stack. -/
theorem values_withValue (value : Option Bytes) :
    (Return.withValue value ⟨0, [], []⟩).values = results value := by
  cases value <;> rfl

/-- A call does to the tables what its access does to the shards. -/
theorem perform_eq (call : Call) (datas : GlobalDatas) :
    ∃ datas', call.perform datas =
        some ((call.access.onShards shardOf (contents datas)).1, datas') ∧
      contents datas' = (call.access.onShards shardOf (contents datas)).2 := by
  cases call with
  | storeValue key value =>
    have hstore := storeValue_eq (storeArguments_strings key value) datas
    refine ⟨_, congrArg (Option.map _) hstore, ?_⟩
    rw [contents_update]
    refine congrArg (Function.update _ _) (funext fun other ↦ ?_)
    rw [lookup_assign]
    exact (Function.update_apply _ _ _ _).symm
  | getValue key =>
    have hget := getValue_eq (keyArgument_string "get_value" key) datas
    refine ⟨datas, (congrArg (Option.map _) hget).trans ?_, ?_⟩
    · exact congrArg (fun values ↦ some (values, datas)) (values_withValue _)
    · refine (Function.update_eq_self_iff.mpr ?_).symm
      exact Function.update_eq_self _ _
  | deleteValue key =>
    have hdelete := deleteValue_eq (keyArgument_string "delete_value" key) datas
    set left := Function.update datas (shardOf key) (OrderedMap.eraseKey key (datas (shardOf key)))
      with hleft
    refine ⟨left, (congrArg (Option.map _) hdelete).trans ?_, ?_⟩
    · exact congrArg (fun values ↦ some (values, left)) (values_withValue _)
    · rw [hleft, contents_update]
      refine congrArg (Function.update _ _) (funext fun other ↦ ?_)
      rw [lookup_eraseKey]
      exact (Function.update_apply _ _ _ _).symm

/-- Calls in any order give what the accesses to the shards give. -/
theorem performAll_eq {ι : Type} (events : List (ι × Call)) (datas : GlobalDatas) :
    (performAll events datas).map Prod.fst =
      some (answers (Access.onShards shardOf) (contents datas) (events.map accessOf)) := by
  induction events generalizing datas with
  | nil => rfl
  | cons event rest ih =>
    obtain ⟨luaState, call⟩ := event
    obtain ⟨datas', hperform, hcontents⟩ := perform_eq call datas
    have hrest := ih datas'
    rw [hcontents] at hrest
    obtain ⟨⟨given, final⟩, hfinal, hgiven⟩ := Option.map_eq_some_iff.mp hrest
    simp only [performAll, hperform, hfinal, Option.bind_eq_bind, Option.bind_some, Option.pure_def,
      Option.map_some]
    rw [show given = _ from hgiven]
    rfl

/-- **The sharded store is one map.** Whatever calls the Lua states make, in whatever order, they
get what a single map would give them, and no key has a shard outside of the table. -/
theorem performAll_eq_single {ι : Type} (events : List (ι × Call)) :
    (performAll events noDatas).map Prod.fst = some (singleAnswers events) ∧
      ∀ key : Bytes, getU16Sum key = (key.map UInt8.toNat).sum % 2 ^ 16 ∧
        row key < 0x100 ∧ col key < 0x100 := by
  refine ⟨?_, fun key ↦ ⟨getU16Sum_eq key, shard_lt key⟩⟩
  rw [performAll_eq]
  exact congrArg some (answers_onShards (represents_empty shardOf) _)

end Maock.Store
