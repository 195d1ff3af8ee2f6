import Maock.Foundation.LockedShards
import Maock.Store.SingleMap

/-!
# The store and its locks

The worker threads call the functions of the store at the same time. A function holds the mutex of
its shard while it uses the map, but what it does there are several steps: `get_value` and
`delete_value` look for the key and then use the iterator, `global_data[key] = value` first makes
an entry with an empty string and then assigns to it. An iterator or a reference to an entry that is
gone is an action that is not defined.

`locked_store` says that the threads get what one map gives them whose operations happen at one
instant between call and return, in every interleaving of the steps; that no two threads use one map
at a time and no action is undefined; and that every call returns. The steps are those of
`LockedShards` at the code of the store (`realises_storeCode`).
-/

set_option autoImplicit false
set_option relaxedAutoImplicit false

namespace Maock.Store

open Foundation Foundation.OrderedContainer Foundation.Bytes Foundation.LuaStack
open Foundation.ShardedMap Foundation.LockedShards Foundation.TransitionSystem
open Answering (StringMap assign lookup_assign)

/-! ### Under the lock -/

/-- The variables of a function: its strings, whether its iterator is not `end()`, and what it
returns. -/
structure Locals where
  key : Bytes
  value : Bytes
  found : Bool
  ret : Return

namespace Locals

/-- `global_data.find(key)`. -/
def find (l : Locals) (globalData : StringMap) : Option (Locals × StringMap) :=
  some ({ l with found := (OrderedMap.lookup globalData l.key).isSome }, globalData)

/-- `lua_pushlstring(L, it->second.c_str(), it->second.size())`, where the key was found. -/
def pushFound (l : Locals) (globalData : StringMap) : Option (Locals × StringMap) :=
  if l.found then
    (OrderedMap.lookup globalData l.key).map fun s ↦
      ({ l with ret := l.ret.withString s }, globalData)
  else some (l, globalData)

/-- `global_data.erase(it)`, where the key was found. -/
def eraseFound (l : Locals) (globalData : StringMap) : Option (Locals × StringMap) :=
  if l.found then
    (OrderedMap.lookup globalData l.key).map fun _ ↦ (l, OrderedMap.eraseKey l.key globalData)
  else some (l, globalData)

/-- `global_data[key]`. -/
def subscript (l : Locals) (globalData : StringMap) : Option (Locals × StringMap) :=
  some (l, if (OrderedMap.lookup globalData l.key).isSome then globalData
    else assign globalData (l.key, []))

/-- `= value`, to the entry that the subscript refers to. -/
def assignValue (l : Locals) (globalData : StringMap) : Option (Locals × StringMap) :=
  (OrderedMap.lookup globalData l.key).map fun _ ↦ (l, assign globalData (l.key, l.value))

end Locals

namespace Call

/-- The variables when the lock is taken. -/
def locals (call : Call) : Locals :=
  match call with
  | storeValue .. =>
    let (key, value, ret) := storeArguments call.stack
    ⟨key, value, false, ret⟩
  | getValue _ =>
    let (key, ret) := keyArgument "get_value" call.stack
    ⟨key, [], false, ret⟩
  | deleteValue _ =>
    let (key, ret) := keyArgument "delete_value" call.stack
    ⟨key, [], false, ret⟩

/-- What a function does under the lock. -/
def actions : Call → List (Action Locals StringMap)
  | storeValue .. => [Locals.subscript, Locals.assignValue]
  | getValue _ => [Locals.find, Locals.pushFound]
  | deleteValue _ => [Locals.find, Locals.pushFound, Locals.eraseFound]

end Call

/-- The functions with the mutexes of `global_data_mutexes`. -/
def storeCode : Code Call (Fin 0x100 × Fin 0x100) StringMap Locals (List Value) where
  shardOf call := shardOf call.locals.key
  start := Call.locals
  actions := Call.actions
  answer l := l.ret.values

/-! ### One map -/

/-- A call of one map that takes no time. -/
def performOnMap (call : Call) (m : Bytes → Option Bytes) :
    List Value × (Bytes → Option Bytes) :=
  call.access.onMap m

/-- The actions of a call do to its map what its access does. -/
theorem performActions_actions (call : Call) (globalData : StringMap) :
    ∃ final, performActions call.actions call.locals globalData = some final ∧
      final.1.ret.values = (call.access.act (OrderedMap.lookup globalData call.access.key)).1 ∧
      ∀ key, OrderedMap.lookup final.2 key =
        Function.update (OrderedMap.lookup globalData) call.access.key
          (call.access.act (OrderedMap.lookup globalData call.access.key)).2 key := by
  cases call with
  | storeValue key value =>
    set entered := (if (OrderedMap.lookup globalData key).isSome then globalData
      else assign globalData (key, [])) with hentered
    have hknown : (OrderedMap.lookup entered key).isSome := by
      rw [hentered]
      split_ifs with hknown
      · exact hknown
      · simp [lookup_assign]
    obtain ⟨old, hold⟩ := Option.isSome_iff_exists.mp hknown
    refine ⟨(⟨key, value, false, ⟨0, [], []⟩⟩, assign entered (key, value)), ?_, rfl,
      fun other ↦ ?_⟩
    · show (Locals.assignValue ⟨key, value, false, ⟨0, [], []⟩⟩ entered).bind _ = _
      rw [Locals.assignValue, hold]
      rfl
    · show _ = Function.update (OrderedMap.lookup globalData) key (some value) other
      rw [lookup_assign, Function.update_apply]
      by_cases hother : other = key
      · simp [hother]
      · rw [if_neg hother, if_neg hother, hentered]
        split_ifs
        · rfl
        · rw [lookup_assign, if_neg hother]
  | getValue key =>
    refine ⟨(⟨key, [], (OrderedMap.lookup globalData key).isSome,
      Return.withValue (OrderedMap.lookup globalData key) ⟨0, [], []⟩⟩, globalData), ?_,
      values_withValue _, fun other ↦ congrFun (Function.update_eq_self key _).symm other⟩
    show (Locals.pushFound ⟨key, [], (OrderedMap.lookup globalData key).isSome, ⟨0, [], []⟩⟩
      globalData).bind _ = _
    unfold Locals.pushFound
    cases hknown : OrderedMap.lookup globalData key with
    | none => rfl
    | some value =>
      simp only [Option.isSome_some, if_true]
      rfl
  | deleteValue key =>
    refine ⟨(⟨key, [], (OrderedMap.lookup globalData key).isSome,
      Return.withValue (OrderedMap.lookup globalData key) ⟨0, [], []⟩⟩,
      OrderedMap.eraseKey key globalData), ?_, values_withValue _, fun other ↦ ?_⟩
    · show (Locals.pushFound ⟨key, [], (OrderedMap.lookup globalData key).isSome, ⟨0, [], []⟩⟩
        globalData).bind _ = _
      unfold Locals.pushFound
      cases hknown : OrderedMap.lookup globalData key with
      | none =>
        rw [eraseKey_of_lookup_eq_none hknown]
        rfl
      | some value =>
        simp only [Option.isSome_some, if_true]
        show (Locals.eraseFound ⟨key, [], true, Return.withString value ⟨0, [], []⟩⟩
          globalData).bind _ = _
        simp only [Locals.eraseFound, if_true, hknown]
        rfl
    · show _ = Function.update (OrderedMap.lookup globalData) key none other
      rw [lookup_eraseKey, Function.update_apply]

/-- The maps stand for one map from keys to values. -/
def StandsFor (datas : GlobalDatas) (m : Bytes → Option Bytes) : Prop :=
  Represents shardOf (contents datas) m

theorem realises_storeCode : Realises storeCode StandsFor performOnMap := by
  intro call datas m hstands
  obtain ⟨hanswer, hrest⟩ := represents_access hstands call.access
  have hkey : storeCode.shardOf call = shardOf call.access.key := by cases call <;> rfl
  obtain ⟨final, hfinal, hvalues, hlookup⟩ :=
    performActions_actions call (datas (shardOf call.access.key))
  refine ⟨final, by rw [hkey]; exact hfinal, hvalues.trans hanswer, ?_⟩
  unfold StandsFor
  rw [hkey, contents_update, show OrderedMap.lookup final.2 = _ from funext hlookup]
  exact hrest

/-- No map has an entry and the one map has none. -/
theorem standsFor_noDatas : StandsFor noDatas fun _ ↦ none :=
  represents_empty shardOf

/-! ### Every interleaving -/

/-- A thread uses the map of a shard. -/
def Uses {τ : Type} (st : State τ (Fin 0x100 × Fin 0x100) StringMap Locals Call (List Value))
    (t : τ) (shard : Fin 0x100 × Fin 0x100) : Prop :=
  occupied storeCode (st.activity t) = some shard

/-- **The store behind its locks is one map.** In every interleaving of the steps of any number of
threads, the calls and returns are those of a map whose operations happen at one instant, no two
threads use the map of one shard, a thread that uses one finds every entry that it refers to, and
when no more calls are made each step is one of those that were left to do, so that all threads
return, after as many steps as they had before them. -/
theorem locked_store {τ : Type} [DecidableEq τ] [Fintype τ] {events : List (Event τ Call)}
    {st : State τ (Fin 0x100 × Fin 0x100) StringMap Locals Call (List Value)}
    (hrun : run (step storeCode) (State.initial noDatas) events = some st) :
    (∃ ast, Reaches (atomicStep performOnMap) (AtomicState.initial fun _ ↦ none) ast ∧
      ast.history = st.history) ∧
    (∀ t t' shard, Uses st t shard → Uses st t' shard → t = t') ∧
    (∀ t op action rest l, st.activity t = .inside op (action :: rest) l →
      (step storeCode st (.act t)).isSome) ∧
    (∀ internal final, (∀ event ∈ internal, event.Internal) →
      run (step storeCode) st internal = some final →
      final.work storeCode + internal.length = st.work storeCode ∧
        ((∀ event : Event τ Call, event.Internal → step storeCode final event = none) →
          (∀ t, final.activity t = .idle) ∧ internal.length = st.work storeCode)) := by
  obtain ⟨ast, hreaches, hmatches⟩ := refines_atomic realises_storeCode standsFor_noDatas hrun
  exact ⟨⟨ast, hreaches, hmatches.history.symm⟩,
    fun t t' shard ht ht' ↦ hmatches.exclusive.eq_of_occupied ht ht',
    fun t op action rest l hinside ↦ isSome_act hmatches hinside,
    fun internal final hinternal hfinal ↦ ⟨run_internal hinternal hfinal, fun hend ↦
      all_return realises_storeCode standsFor_noDatas hrun hinternal hfinal hend⟩⟩

/-- A thread stores a value while another waits for it. -/
def storeAndGet : List (Event Bool Call) :=
  [.call true (.storeValue (ascii "k") (ascii "v")), .lock true, .act true,
    .call false (.getValue (ascii "k")), .act true, .unlock true, .lock false, .act false,
    .ret true, .act false, .unlock false, .ret false]

theorem locked_store_storeAndGet :
    ∃ st, run (step storeCode) (State.initial noDatas) storeAndGet = some st ∧
      ∃ ast, Reaches (atomicStep performOnMap) (AtomicState.initial fun _ ↦ none) ast ∧
        ast.history = st.history := by
  have hrun : ∃ st, run (step storeCode) (State.initial noDatas) storeAndGet = some st :=
    ⟨_, rfl⟩
  obtain ⟨st, hrun⟩ := hrun
  exact ⟨st, hrun, (locked_store hrun).1⟩

end Maock.Store
