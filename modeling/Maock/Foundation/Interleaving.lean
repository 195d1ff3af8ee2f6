import Mathlib.Data.List.Basic
import Mathlib.Tactic.Common

/-!
# Projections of interleaved runs

A machine that serves many keys at once: a step takes an event, goes to the next state and may give
an output. `Projection` says that a part of the state, such as what belongs to one key, steps on its
own under the events that concern it, and `outputs_filter` that the outputs of any interleaved run
which belong to these events are those of the part on its own events alone.
-/

set_option autoImplicit false
set_option relaxedAutoImplicit false

namespace Maock.Foundation.Interleaving

variable {σ ν ε ω : Type*}

/-! ### Runs with outputs -/

/-- The state after a list of events. -/
def finalState (step : σ → ε → σ × Option ω) (state : σ) (events : List ε) : σ :=
  events.foldl (fun state event ↦ (step state event).1) state

/-- The outputs of a run, each with the event that gives it. -/
def outputs (step : σ → ε → σ × Option ω) : σ → List ε → List (ε × ω)
  | _, [] => []
  | state, event :: events =>
    (step state event).2.toList.map (fun output ↦ (event, output)) ++
      outputs step (step state event).1 events

section Runs

variable {step : σ → ε → σ × Option ω}

theorem outputs_append (state : σ) (first second : List ε) :
    outputs step state (first ++ second) =
      outputs step state first ++ outputs step (finalState step state first) second := by
  induction first generalizing state with
  | nil => rfl
  | cons event rest ih =>
    rw [List.cons_append, outputs, ih, outputs, List.append_assoc]
    rfl

/-- Events that give no output and after which no such event gives one have no outputs. -/
theorem outputs_eq_nil {silent : ε → Prop}
    (hsilent : ∀ state event, silent event → (step state event).2 = none) (state : σ)
    {events : List ε} (hevents : ∀ event ∈ events, silent event) :
    outputs step state events = [] := by
  induction events generalizing state with
  | nil => rfl
  | cons event rest ih =>
    rw [outputs, hsilent state event (hevents event List.mem_cons_self),
      ih _ fun e he ↦ hevents e (List.mem_cons_of_mem event he)]
    rfl

/-- An output belongs to an event that can give one. -/
theorem exists_step_of_mem_outputs {state : σ} {events : List ε} {event : ε} {output : ω}
    (h : (event, output) ∈ outputs step state events) :
    ∃ before, (step before event).2 = some output := by
  induction events generalizing state with
  | nil => exact absurd h List.not_mem_nil
  | cons first rest ih =>
    rcases List.mem_append.mp h with hfirst | hrest
    · obtain ⟨given, hgiven, heq⟩ := List.mem_map.mp hfirst
      obtain ⟨rfl, rfl⟩ := Prod.mk.inj heq
      exact ⟨state, by simpa using hgiven⟩
    · exact ih hrest

end Runs

/-! ### Projections -/

/-- The part `view` of a state steps on its own under the events that concern it, with the same
outputs, and the other events leave it as it is. -/
structure Projection (step : σ → ε → σ × Option ω) (viewStep : ν → ε → ν × Option ω)
    (view : σ → ν) (concerns : ε → Bool) : Prop where
  inside : ∀ state event, concerns event = true →
    viewStep (view state) event = (view (step state event).1, (step state event).2)
  outside : ∀ state event, concerns event = false → view (step state event).1 = view state

/-- **The outputs of an interleaved run that concern a part** are those of the part, run on its own
events. -/
theorem Projection.outputs_filter {step : σ → ε → σ × Option ω} {viewStep : ν → ε → ν × Option ω}
    {view : σ → ν} {concerns : ε → Bool} (h : Projection step viewStep view concerns) (state : σ)
    (events : List ε) :
    (outputs step state events).filter (fun output ↦ concerns output.1) =
      outputs viewStep (view state) (events.filter concerns) := by
  induction events generalizing state with
  | nil => rfl
  | cons event rest ih =>
    rw [outputs, List.filter_append, ih]
    cases hconcerns : concerns event with
    | true =>
      have hinside := h.inside state event hconcerns
      rw [List.filter_cons_of_pos hconcerns, outputs, hinside]
      congr 1
      refine List.filter_eq_self.mpr fun output houtput ↦ ?_
      obtain ⟨_, _, rfl⟩ := List.mem_map.mp houtput
      exact hconcerns
    | false =>
      have hnone : ((step state event).2.toList.map fun output ↦ (event, output)).filter
          (fun output ↦ concerns output.1) = [] := by
        refine List.filter_eq_nil_iff.mpr fun output houtput ↦ ?_
        obtain ⟨_, _, rfl⟩ := List.mem_map.mp houtput
        simp [hconcerns]
      rw [hnone, List.nil_append, h.outside state event hconcerns,
        List.filter_cons_of_neg (by simp [hconcerns])]

end Maock.Foundation.Interleaving
