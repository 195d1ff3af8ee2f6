import Maock.Store.GlobalData

/-!
# Calls with a wrong number of arguments

The check of the arguments only complains. The function then goes on with an empty key, and
`store_value` with an empty value, so what it does depends on what the empty key has in its map. The
tables remain and nothing is returned exactly when `EmptyKeyHarmless` says so (`unaffected_iff`).
-/

set_option autoImplicit false
set_option relaxedAutoImplicit false

namespace Maock.Store

open Foundation Foundation.OrderedContainer Foundation.Bytes Foundation.LuaStack
open Answering (StringMap assign mem_assign lookup_assign)

/-! ### Assignments that change nothing -/

/-- A map that has the entry already is not changed by its assignment. -/
theorem assign_eq_self_iff {m : StringMap} {key value : Bytes} :
    assign m (key, value) = m ↔ OrderedMap.lookup m key = some value := by
  constructor
  · intro hsame
    have hlookup := lookup_assign m (key, value) key
    rw [hsame, if_pos rfl] at hlookup
    exact hlookup
  · intro hknown
    have hmem := lookup_eq_some_iff.mp hknown
    refine OrderedSet.ext (OrderedSet.eq_of_perm_of_sorted (OrderedSet.sorted _) m.sorted ?_)
    refine (List.perm_ext_iff_of_nodup (OrderedSet.nodup _) m.nodup).mpr fun other ↦ ?_
    refine mem_assign.trans ⟨?_, fun hother ↦ ?_⟩
    · rintro (rfl | ⟨hother, -⟩)
      · exact hmem
      · exact hother
    · by_cases hkey : key = other.1
      · -- a key has one value
        refine Or.inl (Prod.ext hkey.symm ?_)
        have hfound := lookup_eq_some_iff.mpr (show (key, other.2) ∈ m from hkey ▸ hother)
        exact Option.some.inj (hfound.symm.trans hknown)
      · exact Or.inr ⟨hother, hkey⟩

/-! ### Malformed calls -/

/-- The tables after a call are those before it, and a value is returned by none but
`store_value`. -/
def Unaffected (function : ApiFunction) (stack : Stack) (datas : GlobalDatas) : Prop :=
  ∃ ret, function.invoke stack datas = some (ret, datas) ∧
    (function ≠ .storeValue → ret.values = [])

/-- What the empty key has does no harm: the empty string for `store_value`, which sets it to that,
and nothing for the others. -/
def EmptyKeyHarmless (function : ApiFunction) (datas : GlobalDatas) : Prop :=
  OrderedMap.lookup (datas (shardOf [])) [] =
    match function with
    | .storeValue => some []
    | .getValue => none
    | .deleteValue => none

section Malformed

variable {stack : Stack} (datas : GlobalDatas)

theorem storeValue_unaffected_iff (hlength : stack.length ≠ 2) :
    Unaffected .storeValue stack datas ↔ EmptyKeyHarmless .storeValue datas := by
  have hstore := storeValue_eq (if_neg hlength) datas
  refine Iff.trans ?_ ((@Function.update_eq_self_iff _ _ _ datas (shardOf []) _).trans
    assign_eq_self_iff)
  constructor
  · rintro ⟨ret, hret, -⟩
    exact (Prod.mk.inj (Option.some.inj (hstore.symm.trans hret))).2
  · intro hsame
    rw [hsame] at hstore
    exact ⟨_, hstore, fun h ↦ absurd rfl h⟩

theorem values_withValue_eq_nil_iff (value : Option Bytes) (cerr : Bytes) :
    (Return.withValue value ⟨0, [], cerr⟩).values = [] ↔ value = none := by
  cases value <;> simp [Return.withValue, Return.withString, Return.values, Stack.pushString]

theorem getValue_unaffected_iff (hlength : stack.length ≠ 1) :
    Unaffected .getValue stack datas ↔ EmptyKeyHarmless .getValue datas := by
  have hget := getValue_eq (if_neg hlength) datas
  refine Iff.trans ?_ (values_withValue_eq_nil_iff _ (invalidArguments "get_value"))
  constructor
  · rintro ⟨ret, hret, hnone⟩
    obtain ⟨rfl, -⟩ := Prod.mk.inj (Option.some.inj (hget.symm.trans hret))
    exact hnone (by simp)
  · exact fun hnone ↦ ⟨_, hget, fun _ ↦ hnone⟩

theorem deleteValue_unaffected_iff (hlength : stack.length ≠ 1) :
    Unaffected .deleteValue stack datas ↔ EmptyKeyHarmless .deleteValue datas := by
  have hdelete := deleteValue_eq (if_neg hlength) datas
  refine Iff.trans ?_ (values_withValue_eq_nil_iff _ (invalidArguments "delete_value"))
  constructor
  · rintro ⟨ret, hret, hnone⟩
    obtain ⟨rfl, -⟩ := Prod.mk.inj (Option.some.inj (hdelete.symm.trans hret))
    exact hnone (by simp)
  · intro hnone
    have hempty := (values_withValue_eq_nil_iff _ _).mp hnone
    rw [eraseKey_of_lookup_eq_none hempty, Function.update_eq_self] at hdelete
    exact ⟨_, hdelete, fun _ ↦ hnone⟩

/-- **A call with a wrong number of arguments leaves the shared data unchanged** exactly when the
empty key does no harm, for every state of the tables. -/
theorem unaffected_iff {function : ApiFunction} (hlength : stack.length ≠ function.arguments) :
    Unaffected function stack datas ↔ EmptyKeyHarmless function datas := by
  cases function with
  | storeValue => exact storeValue_unaffected_iff datas hlength
  | getValue => exact getValue_unaffected_iff datas hlength
  | deleteValue => exact deleteValue_unaffected_iff datas hlength

end Malformed

/-- The tables that have the value `1` under `a`. -/
def oneValue : GlobalDatas :=
  Function.update noDatas (shardOf (ascii "a"))
    (assign (noDatas (shardOf (ascii "a"))) (ascii "a", ascii "1"))

/-- `get_value("a", "b")` leaves these tables and returns nothing. -/
theorem unaffected_getValue :
    OrderedMap.lookup (oneValue (shardOf (ascii "a"))) (ascii "a") = some (ascii "1") ∧
      Unaffected .getValue [.atom (.string (ascii "b")), .atom (.string (ascii "a"))] oneValue := by
  have hvalue : OrderedMap.lookup (oneValue (shardOf (ascii "a"))) (ascii "a") =
      some (ascii "1") := by
    rw [oneValue, Function.update_self, lookup_assign, if_pos rfl]
  have hempty : EmptyKeyHarmless .getValue oneValue := by
    show OrderedMap.lookup (oneValue (shardOf [])) [] = none
    by_cases hshard : shardOf [] = shardOf (ascii "a")
    · rw [oneValue, hshard, Function.update_self, lookup_assign, if_neg (by decide)]
      rfl
    · rw [oneValue, Function.update_of_ne hshard]
      rfl
  exact ⟨hvalue, (@unaffected_iff [.atom (.string (ascii "b")), .atom (.string (ascii "a"))]
    oneValue .getValue (by decide)).mpr hempty⟩

/-- `store_value("x")` on tables without entries. -/
theorem not_unaffected_storeValue :
    ¬ Unaffected .storeValue [.atom (.string (ascii "x"))] noDatas := fun h ↦
  absurd ((@storeValue_unaffected_iff [.atom (.string (ascii "x"))] noDatas (by decide)).mp h)
    (by simp [EmptyKeyHarmless, noDatas, OrderedMap.lookup])

end Maock.Store
