import Mathlib.Tactic.Common

/-!
# Runs of a partial step function

A transition system given by a step function that may refuse an event. `run` takes a list of events
one after another, and `Reaches` says that some list leads to a state. `invariant_run` packages the
induction over a run once, and `invariant_run_of_meets` the induction over the runs whose steps all
meet a condition on the state before the step and the event. `everyState_iff_runMeets` is for a
property that a step keeps exactly when it meets the condition.
-/

set_option autoImplicit false
set_option relaxedAutoImplicit false

namespace Maock.Foundation.TransitionSystem

variable {σ ε : Type*} {step : σ → ε → Option σ}

/-- The state after a list of events, when none of them is refused. -/
def run (step : σ → ε → Option σ) (state : σ) : List ε → Option σ
  | [] => some state
  | event :: events => (step state event).bind fun next ↦ run step next events

@[simp] theorem run_nil (state : σ) : run step state [] = some state := rfl

theorem run_cons_eq_some {state final : σ} {event : ε} {events : List ε} :
    run step state (event :: events) = some final ↔
      ∃ next, step state event = some next ∧ run step next events = some final := by
  simp [run, Option.bind_eq_some_iff]

theorem run_append {state : σ} {first second : List ε} :
    run step state (first ++ second) =
      (run step state first).bind fun middle ↦ run step middle second := by
  induction first generalizing state with
  | nil => rfl
  | cons event rest ih =>
    simp only [List.cons_append, run]
    cases step state event with
    | none => rfl
    | some next => exact ih

/-- Some events lead from a state to another. -/
def Reaches (step : σ → ε → Option σ) (state final : σ) : Prop :=
  ∃ events, run step state events = some final

theorem reaches_refl (state : σ) : Reaches step state state :=
  ⟨[], rfl⟩

theorem Reaches.trans {state middle final : σ} (h : Reaches step state middle)
    (h' : Reaches step middle final) : Reaches step state final := by
  obtain ⟨first, hfirst⟩ := h
  obtain ⟨second, hsecond⟩ := h'
  refine ⟨first ++ second, ?_⟩
  rw [run_append, hfirst, Option.bind_some, hsecond]

theorem reaches_of_step {state next : σ} {event : ε} (hstep : step state event = some next) :
    Reaches step state next :=
  ⟨[event], run_cons_eq_some.mpr ⟨next, hstep, rfl⟩⟩

/-- Forward simulation: when each step of one system leads, from related states, to a state related
to one that the other system reaches, so does every run. -/
theorem simulation_run {σ' ε' : Type*} {step' : σ' → ε' → Option σ'} {related : σ → σ' → Prop}
    (hstep : ∀ state event next state', related state state' → step state event = some next →
      ∃ next', Reaches step' state' next' ∧ related next next')
    {state final : σ} {state' : σ'} {events : List ε} (hinit : related state state')
    (hrun : run step state events = some final) :
    ∃ final', Reaches step' state' final' ∧ related final final' := by
  induction events generalizing state state' with
  | nil =>
    rw [run_nil, Option.some_inj] at hrun
    exact ⟨state', reaches_refl state', hrun ▸ hinit⟩
  | cons event rest ih =>
    obtain ⟨next, hnext, hrest⟩ := run_cons_eq_some.mp hrun
    obtain ⟨next', hreaches, hrelated⟩ := hstep state event next state' hinit hnext
    obtain ⟨final', hfinal, hend⟩ := ih hrelated hrest
    exact ⟨final', hreaches.trans hfinal, hend⟩

/-- A property that every step preserves holds at the end of every run that starts with it. -/
theorem invariant_run {inv : σ → Prop}
    (hstep : ∀ state event next, inv state → step state event = some next → inv next)
    {state final : σ} {events : List ε} (hinit : inv state)
    (hrun : run step state events = some final) : inv final := by
  induction events generalizing state with
  | nil =>
    rw [run_nil, Option.some_inj] at hrun
    exact hrun ▸ hinit
  | cons event rest ih =>
    obtain ⟨next, hnext, hrest⟩ := run_cons_eq_some.mp hrun
    exact ih (hstep state event next hinit hnext) hrest

/-- Every step of a run meets a condition on the state before it and its event. -/
def RunMeets (step : σ → ε → Option σ) (meets : σ → ε → Prop) (state : σ) : List ε → Prop
  | [] => True
  | event :: events =>
    meets state event ∧ ∀ next, step state event = some next → RunMeets step meets next events

/-- A condition on what an optional value is, decided on the value. -/
instance decidableForallSome {α : Type*} (o : Option α) (p : α → Prop) [DecidablePred p] :
    Decidable (∀ a, o = some a → p a) :=
  match o with
  | none => isTrue fun _ h ↦ absurd h (by simp)
  | some a => decidable_of_iff (p a) ⟨fun h _ heq ↦ Option.some_inj.mp heq ▸ h, fun h ↦ h a rfl⟩

instance decidableRunMeets (meets : σ → ε → Prop) [∀ state event, Decidable (meets state event)] :
    ∀ (state : σ) (events : List ε), Decidable (RunMeets step meets state events)
  | _, [] => isTrue trivial
  | state, event :: events =>
    have : DecidablePred fun next ↦ RunMeets step meets next events :=
      fun next ↦ decidableRunMeets meets next events
    inferInstanceAs (Decidable (meets state event ∧
      ∀ next, step state event = some next → RunMeets step meets next events))

/-- A property preserved by every step that meets a condition holds at the end of every run whose
steps all meet it. -/
theorem invariant_run_of_meets {inv : σ → Prop} {meets : σ → ε → Prop}
    (hstep : ∀ state event next, inv state → meets state event → step state event = some next →
      inv next)
    {state final : σ} {events : List ε} (hinit : inv state)
    (hmeets : RunMeets step meets state events) (hrun : run step state events = some final) :
    inv final := by
  induction events generalizing state with
  | nil =>
    rw [run_nil, Option.some_inj] at hrun
    exact hrun ▸ hinit
  | cons event rest ih =>
    obtain ⟨next, hnext, hrest⟩ := run_cons_eq_some.mp hrun
    exact ih (hstep state event next hinit hmeets.1 hnext) (hmeets.2 next hnext) hrest

/-- A property holds in every state of a run, the first one included. -/
def EveryState (step : σ → ε → Option σ) (P : σ → Prop) (state : σ) : List ε → Prop
  | [] => P state
  | event :: events =>
    P state ∧ ∀ next, step state event = some next → EveryState step P next events

theorem EveryState.head {P : σ → Prop} {state : σ} {events : List ε}
    (h : EveryState step P state events) : P state := by
  cases events with
  | nil => exact h
  | cons event rest => exact h.1

/-- When a step keeps a property exactly if it meets a condition, the property holds in every state
of a run exactly if all its steps meet the condition. -/
theorem everyState_iff_runMeets {inv P : σ → Prop} {meets : σ → ε → Prop}
    (hinv : ∀ state event next, inv state → step state event = some next → inv next)
    (hstep : ∀ state event next, inv state → P state → step state event = some next →
      (P next ↔ meets state event))
    {state final : σ} {events : List ε} (hinit : inv state) (hfirst : P state)
    (hrun : run step state events = some final) :
    EveryState step P state events ↔ RunMeets step meets state events := by
  induction events generalizing state with
  | nil => exact iff_of_true hfirst trivial
  | cons event rest ih =>
    obtain ⟨next, hnext, hrest⟩ := run_cons_eq_some.mp hrun
    have hkeeps := hstep state event next hinit hfirst hnext
    have hafter := hinv state event next hinit hnext
    constructor
    · rintro ⟨-, hevery⟩
      have hevery' := hevery next hnext
      refine ⟨hkeeps.mp hevery'.head, fun other hother ↦ ?_⟩
      obtain rfl := Option.some.inj (hnext.symm.trans hother)
      exact (ih hafter hevery'.head hrest).mp hevery'
    · rintro ⟨hmeets, hmeetsRest⟩
      have hnextP := hkeeps.mpr hmeets
      refine ⟨hfirst, fun other hother ↦ ?_⟩
      obtain rfl := Option.some.inj (hnext.symm.trans hother)
      exact (ih hafter hnextP hrest).mpr (hmeetsRest next hnext)

end Maock.Foundation.TransitionSystem
