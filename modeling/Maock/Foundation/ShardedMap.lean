import Mathlib.Logic.Function.Basic
import Mathlib.Tactic.Common

/-!
# One map kept in shards

A partial map that is kept as a family of maps, where a function of the key says in which of them
the key lives. An `Access` is an operation that concerns one key. On the family it goes to the
shard of its key, on the single map it goes to the key.

`Represents` is the invariant: every shard has, of the single map, the keys that live in it and no
others. One access keeps it and gives the same answer on both sides (`represents_access`), so any
sequence of accesses gives the same answers (`answers_onShards`), through the general rule
`answers_eq_of_simulation`.
-/

set_option autoImplicit false
set_option relaxedAutoImplicit false

namespace Maock.Foundation.ShardedMap

/-! ### Answers of a machine -/

section Answers

variable {σ τ ε ω : Type*}

/-- What a machine answers to some events, one after the other. -/
def answers (step : ε → σ → ω × σ) : σ → List ε → List ω
  | _, [] => []
  | state, event :: events =>
    (step event state).1 :: answers step (step event state).2 events

/-- Machines whose steps answer the same and keep a relation give the same answers. -/
theorem answers_eq_of_simulation {step : ε → σ → ω × σ} {step' : ε → τ → ω × τ} {R : σ → τ → Prop}
    (hstep : ∀ event state state', R state state' →
      (step event state).1 = (step' event state').1 ∧ R (step event state).2 (step' event state').2)
    {state : σ} {state' : τ} (hstart : R state state') (events : List ε) :
    answers step state events = answers step' state' events := by
  induction events generalizing state state' with
  | nil => rfl
  | cons event events ih =>
    obtain ⟨hanswer, hnext⟩ := hstep event state state' hstart
    rw [answers, answers, hanswer, ih hnext]

end Answers

/-! ### Accesses -/

variable {κ υ ς ω : Type*}

/-- An operation on a map that concerns one key: what it makes of the value there, and its
answer. -/
structure Access (κ υ ω : Type*) where
  key : κ
  act : Option υ → ω × Option υ

/-- An access to a single map. -/
def Access.onMap [DecidableEq κ] (access : Access κ υ ω) (m : κ → Option υ) : ω × (κ → Option υ) :=
  ((access.act (m access.key)).1, Function.update m access.key (access.act (m access.key)).2)

/-- An access to the shard in which its key lives. -/
def Access.onShards [DecidableEq κ] [DecidableEq ς] (shardOf : κ → ς) (access : Access κ υ ω)
    (shards : ς → κ → Option υ) :
    ω × (ς → κ → Option υ) :=
  ((access.onMap (shards (shardOf access.key))).1,
    Function.update shards (shardOf access.key) (access.onMap (shards (shardOf access.key))).2)

/-- The shards are the single map, and a key lives in its own shard only. -/
def Represents [DecidableEq ς] (shardOf : κ → ς) (shards : ς → κ → Option υ)
    (m : κ → Option υ) : Prop :=
  ∀ shard key, shards shard key = if shard = shardOf key then m key else none

theorem represents_empty [DecidableEq ς] (shardOf : κ → ς) :
    Represents shardOf (fun _ _ ↦ none) (fun _ ↦ (none : Option υ)) :=
  fun _ _ ↦ (ite_self none).symm

section Access

variable [DecidableEq ς] {shardOf : κ → ς} {shards : ς → κ → Option υ} {m : κ → Option υ}

/-- The shard of a key knows of it what the single map knows. -/
theorem Represents.own (h : Represents shardOf shards m) (key : κ) :
    shards (shardOf key) key = m key :=
  (h (shardOf key) key).trans (if_pos rfl)

variable [DecidableEq κ]

/-- An access gives the same answer, and the shards remain the single map. -/
theorem represents_access (h : Represents shardOf shards m) (access : Access κ υ ω) :
    (access.onShards shardOf shards).1 = (access.onMap m).1 ∧
      Represents shardOf (access.onShards shardOf shards).2 (access.onMap m).2 := by
  have hvalue := h.own access.key
  refine ⟨by rw [Access.onShards, Access.onMap, Access.onMap, hvalue], fun shard key ↦ ?_⟩
  dsimp only [Access.onShards, Access.onMap]
  rw [hvalue]
  by_cases hkey : key = access.key
  · subst hkey
    by_cases hshard : shard = shardOf access.key
    · rw [hshard, Function.update_self, Function.update_self, Function.update_self, if_pos rfl]
    · rw [Function.update_of_ne hshard, h, if_neg hshard, if_neg hshard]
  · rw [Function.update_of_ne hkey]
    by_cases hshard : shard = shardOf access.key
    · rw [hshard, Function.update_self, Function.update_of_ne hkey, h]
    · rw [Function.update_of_ne hshard, h]

/-- Any sequence of accesses gives the answers that it gives on the single map. -/
theorem answers_onShards (h : Represents shardOf shards m) (accesses : List (Access κ υ ω)) :
    answers (Access.onShards shardOf) shards accesses = answers Access.onMap m accesses :=
  @answers_eq_of_simulation _ _ _ _ _ _ (Represents shardOf)
    (fun access _ _ hR ↦ represents_access hR access) _ _ h accesses

end Access

end Maock.Foundation.ShardedMap
