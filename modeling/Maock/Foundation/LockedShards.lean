import Mathlib.Algebra.BigOperators.Group.Finset.Basic
import Mathlib.Logic.Function.Basic
import Maock.Foundation.TransitionSystem

/-!
# Objects behind locks

Threads call operations on an object that is kept in shards, each with a lock of its own. An
operation works on one shard: it takes the lock, performs its actions one by one, and releases the
lock. The actions of different threads interleave in every way, and an action sees whatever the
shard is when it comes.

`refines_atomic` says that the calls and returns of every run are calls and returns of an object
whose operations happen at one instant between call and return: the operation happens when the lock
is taken, since what its actions will make of the shard is settled from then on (`settled`).
`Exclusive` is the invariant that the lock of a shard is held by the thread inside of it and by no
other. `exists_internal_step` says that a call that has not returned leaves some thread a step, and
`run_internal` that the steps without new calls come to an end after as many as there is `work`.
-/

set_option autoImplicit false
set_option relaxedAutoImplicit false

namespace Maock.Foundation.LockedShards

open TransitionSystem

variable {τ ς σ Λ Op ω Object : Type*}

/-! ### The threads and the shards -/

/-- An action of an operation on its local data and on the shard; `none` where it is not defined. -/
abbrev Action (Λ σ : Type*) := Λ → σ → Option (Λ × σ)

/-- The code of the operations: the shard, the local data at the start, what is done under the
lock, and what is returned. -/
structure Code (Op ς σ Λ ω : Type*) where
  shardOf : Op → ς
  start : Op → Λ
  actions : Op → List (Action Λ σ)
  answer : Λ → ω

/-- Actions one after the other. -/
def performActions : List (Action Λ σ) → Λ → σ → Option (Λ × σ)
  | [], l, s => some (l, s)
  | action :: rest, l, s => (action l s).bind fun next ↦ performActions rest next.1 next.2

/-- Where a thread is: outside of all operations, before the lock, under the lock with actions to
perform, or behind the lock. -/
inductive Activity (Op Λ σ ω : Type*) where
  | idle
  | waiting (op : Op)
  | inside (op : Op) (rest : List (Action Λ σ)) (l : Λ)
  | leaving (answer : ω)

/-- What is seen of a run from outside. -/
inductive Visible (τ Op ω : Type*) where
  | called (t : τ) (op : Op)
  | returned (t : τ) (answer : ω)

structure State (τ ς σ Λ Op ω : Type*) where
  shards : ς → σ
  holder : ς → Option τ
  activity : τ → Activity Op Λ σ ω
  history : List (Visible τ Op ω)

/-- The steps of the threads. -/
inductive Event (τ Op : Type*) where
  | call (t : τ) (op : Op)
  | lock (t : τ)
  | act (t : τ)
  | unlock (t : τ)
  | ret (t : τ)

/-- Nobody has called anything. -/
def State.initial (shards : ς → σ) : State τ ς σ Λ Op ω where
  shards := shards
  holder _ := none
  activity _ := .idle
  history := []

variable [DecidableEq τ] [DecidableEq ς]

/-- A lock is taken when nobody holds it; an action that is not defined is not performed. -/
def step (code : Code Op ς σ Λ ω) (st : State τ ς σ Λ Op ω) :
    Event τ Op → Option (State τ ς σ Λ Op ω)
  | .call t op =>
    match st.activity t with
    | .idle => some { st with
        activity := Function.update st.activity t (.waiting op)
        history := st.history ++ [.called t op] }
    | _ => none
  | .lock t =>
    match st.activity t with
    | .waiting op =>
      match st.holder (code.shardOf op) with
      | none => some { st with
          holder := Function.update st.holder (code.shardOf op) (some t)
          activity := Function.update st.activity t
            (.inside op (code.actions op) (code.start op)) }
      | some _ => none
    | _ => none
  | .act t =>
    match st.activity t with
    | .inside op (action :: rest) l =>
      (action l (st.shards (code.shardOf op))).map fun next ↦ { st with
        shards := Function.update st.shards (code.shardOf op) next.2
        activity := Function.update st.activity t (.inside op rest next.1) }
    | _ => none
  | .unlock t =>
    match st.activity t with
    | .inside op [] l => some { st with
        holder := Function.update st.holder (code.shardOf op) none
        activity := Function.update st.activity t (.leaving (code.answer l)) }
    | _ => none
  | .ret t =>
    match st.activity t with
    | .leaving answer => some { st with
        activity := Function.update st.activity t .idle
        history := st.history ++ [.returned t answer] }
    | _ => none

/-! ### The object without locks -/

/-- Where a thread is that calls an object whose operations take no time. -/
inductive AtomicActivity (Op ω : Type*) where
  | idle
  | waiting (op : Op)
  | leaving (answer : ω)

structure AtomicState (τ Object Op ω : Type*) where
  object : Object
  activity : τ → AtomicActivity Op ω
  history : List (Visible τ Op ω)

inductive AtomicEvent (τ Op : Type*) where
  | call (t : τ) (op : Op)
  | perform (t : τ)
  | ret (t : τ)

def AtomicState.initial (object : Object) : AtomicState τ Object Op ω where
  object := object
  activity _ := .idle
  history := []

/-- An operation happens at one instant between its call and its return. -/
def atomicStep (perform : Op → Object → ω × Object) (st : AtomicState τ Object Op ω) :
    AtomicEvent τ Op → Option (AtomicState τ Object Op ω)
  | .call t op =>
    match st.activity t with
    | .idle => some { st with
        activity := Function.update st.activity t (.waiting op)
        history := st.history ++ [.called t op] }
    | _ => none
  | .perform t =>
    match st.activity t with
    | .waiting op => some { st with
        object := (perform op st.object).2
        activity := Function.update st.activity t (.leaving (perform op st.object).1) }
    | _ => none
  | .ret t =>
    match st.activity t with
    | .leaving answer => some { st with
        activity := Function.update st.activity t .idle
        history := st.history ++ [.returned t answer] }
    | _ => none

/-! ### What a thread inside has settled -/

/-- What a shard will be when the thread inside has performed its actions. -/
def settled (st : State τ ς σ Λ Op ω) (shard : ς) : σ :=
  match st.holder shard with
  | none => st.shards shard
  | some t =>
    match st.activity t with
    | .inside _ rest l =>
      ((performActions rest l (st.shards shard)).map Prod.snd).getD (st.shards shard)
    | _ => st.shards shard

/-- The shard that a thread is inside of. -/
def occupied (code : Code Op ς σ Λ ω) : Activity Op Λ σ ω → Option ς
  | .inside op _ _ => some (code.shardOf op)
  | _ => none

/-- The lock of a shard is held by the thread inside. -/
def Exclusive (code : Code Op ς σ Λ ω) (st : State τ ς σ Λ Op ω) : Prop :=
  ∀ shard t, st.holder shard = some t ↔ occupied code (st.activity t) = some shard

/-- Where a thread is, seen from the object without locks: inside, its operation has happened. -/
def SeenAs (code : Code Op ς σ Λ ω) (shards : ς → σ) :
    Activity Op Λ σ ω → AtomicActivity Op ω → Prop
  | .idle, seen => seen = .idle
  | .waiting op, seen => seen = .waiting op
  | .inside op rest l, seen =>
    ∃ final, performActions rest l (shards (code.shardOf op)) = some final ∧
      seen = .leaving (code.answer final.1)
  | .leaving answer, seen => seen = .leaving answer

/-- A state and a state of the object without locks that has the same history. `R` says which shards
stand for which object. -/
structure Matches (code : Code Op ς σ Λ ω) (R : (ς → σ) → Object → Prop)
    (st : State τ ς σ Λ Op ω) (ast : AtomicState τ Object Op ω) : Prop where
  exclusive : Exclusive code st
  seen : ∀ t, SeenAs code st.shards (st.activity t) (ast.activity t)
  object : R (settled st) ast.object
  history : st.history = ast.history

/-- Under the lock an operation does what the object does at once. -/
def Realises (code : Code Op ς σ Λ ω) (R : (ς → σ) → Object → Prop)
    (perform : Op → Object → ω × Object) : Prop :=
  ∀ op shards object, R shards object →
    ∃ final,
      performActions (code.actions op) (code.start op) (shards (code.shardOf op)) = some final ∧
      code.answer final.1 = (perform op object).1 ∧
      R (Function.update shards (code.shardOf op) final.2) (perform op object).2

/-! ### What the steps do -/

section Steps

variable {code : Code Op ς σ Λ ω} {st next : State τ ς σ Λ Op ω}

theorem step_call {t : τ} {op : Op} (h : step code st (.call t op) = some next) :
    st.activity t = .idle ∧ next = { st with
      activity := Function.update st.activity t (.waiting op)
      history := st.history ++ [.called t op] } := by
  simp only [step] at h
  cases hactivity : st.activity t with
  | idle =>
    rw [hactivity] at h
    exact ⟨rfl, (Option.some_inj.mp h).symm⟩
  | _ => simp [hactivity] at h

theorem step_lock {t : τ} (h : step code st (.lock t) = some next) :
    ∃ op, st.activity t = .waiting op ∧ st.holder (code.shardOf op) = none ∧ next = { st with
      holder := Function.update st.holder (code.shardOf op) (some t)
      activity :=
        Function.update st.activity t (.inside op (code.actions op) (code.start op)) } := by
  simp only [step] at h
  cases hactivity : st.activity t with
  | waiting op =>
    rw [hactivity] at h
    cases hholder : st.holder (code.shardOf op) with
    | none =>
      simp only [hholder] at h
      exact ⟨op, rfl, hholder, (Option.some_inj.mp h).symm⟩
    | some other => simp [hholder] at h
  | _ => simp [hactivity] at h

theorem step_act {t : τ} (h : step code st (.act t) = some next) :
    ∃ op action rest l after, st.activity t = .inside op (action :: rest) l ∧
      action l (st.shards (code.shardOf op)) = some after ∧ next = { st with
        shards := Function.update st.shards (code.shardOf op) after.2
        activity := Function.update st.activity t (.inside op rest after.1) } := by
  simp only [step] at h
  cases hactivity : st.activity t with
  | inside op rest l =>
    rw [hactivity] at h
    cases rest with
    | nil => simp at h
    | cons action rest =>
      obtain ⟨after, hafter, rfl⟩ := Option.map_eq_some_iff.mp h
      exact ⟨op, action, rest, l, after, rfl, hafter, rfl⟩
  | _ => simp [hactivity] at h

theorem step_unlock {t : τ} (h : step code st (.unlock t) = some next) :
    ∃ op l, st.activity t = .inside op [] l ∧ next = { st with
      holder := Function.update st.holder (code.shardOf op) none
      activity := Function.update st.activity t (.leaving (code.answer l)) } := by
  simp only [step] at h
  cases hactivity : st.activity t with
  | inside op rest l =>
    rw [hactivity] at h
    cases rest with
    | nil => exact ⟨op, l, rfl, (Option.some_inj.mp h).symm⟩
    | cons action rest => simp at h
  | _ => simp [hactivity] at h

theorem step_ret {t : τ} (h : step code st (.ret t) = some next) :
    ∃ answer, st.activity t = .leaving answer ∧ next = { st with
      activity := Function.update st.activity t .idle
      history := st.history ++ [.returned t answer] } := by
  simp only [step] at h
  cases hactivity : st.activity t with
  | leaving answer =>
    rw [hactivity] at h
    exact ⟨answer, rfl, (Option.some_inj.mp h).symm⟩
  | _ => simp [hactivity] at h

end Steps

/-! ### The steps keep the object -/

section Simulation

variable {code : Code Op ς σ Λ ω} {st next : State τ ς σ Λ Op ω}
  {R : (ς → σ) → Object → Prop} {perform : Op → Object → ω × Object}
  {ast : AtomicState τ Object Op ω}

omit [DecidableEq τ] [DecidableEq ς] in
theorem settled_of_free {shard : ς} (hfree : st.holder shard = none) :
    settled st shard = st.shards shard := by
  rw [settled, hfree]

omit [DecidableEq τ] [DecidableEq ς] in
theorem settled_of_held {shard : ς} {t : τ} {op : Op} {rest : List (Action Λ σ)} {l : Λ}
    {final : Λ × σ} (hholder : st.holder shard = some t)
    (hinside : st.activity t = .inside op rest l)
    (hfinal : performActions rest l (st.shards shard) = some final) :
    settled st shard = final.2 := by
  simp [settled, hholder, hinside, hfinal]

omit [DecidableEq τ] [DecidableEq ς] in
/-- No two threads are inside of one shard. -/
theorem Exclusive.eq_of_occupied (h : Exclusive code st) {t t' : τ} {shard : ς}
    (ht : occupied code (st.activity t) = some shard)
    (ht' : occupied code (st.activity t') = some shard) : t = t' :=
  Option.some_inj.mp (((h shard t).mpr ht).symm.trans ((h shard t').mpr ht'))

omit [DecidableEq ς] in
/-- A thread goes on without passing a lock. -/
theorem Exclusive.update (h : Exclusive code st) {t : τ} {a : Activity Op Λ σ ω}
    (hsame : occupied code a = occupied code (st.activity t)) (shards : ς → σ)
    (history : List (Visible τ Op ω)) :
    Exclusive code ⟨shards, st.holder, Function.update st.activity t a, history⟩ := by
  intro shard t'
  refine (h shard t').trans ?_
  by_cases ht : t' = t
  · subst ht
    simp [hsame]
  · simp [Function.update_of_ne ht]

/-- A thread passes the lock of a shard that nobody is inside of. -/
theorem Exclusive.lock (h : Exclusive code st) {t : τ} {a : Activity Op Λ σ ω} {shard : ς}
    (hfree : st.holder shard = none) (hbefore : occupied code (st.activity t) = none)
    (hafter : occupied code a = some shard) :
    Exclusive code { st with
      holder := Function.update st.holder shard (some t)
      activity := Function.update st.activity t a } := by
  intro other t'
  have hother := h other t'
  by_cases hshard : other = shard
  · subst hshard
    by_cases ht : t' = t
    · subst ht
      simp [hafter]
    · have hnot : occupied code (st.activity t') ≠ some other := fun hin ↦ by
        rw [hfree] at hother
        exact absurd (hother.mpr hin) (by simp)
      simp [Function.update_of_ne ht, hnot, Ne.symm ht]
  · by_cases ht : t' = t
    · subst ht
      rw [hbefore] at hother
      simp [Function.update_of_ne hshard, hother, hafter, Ne.symm hshard]
    · simp [Function.update_of_ne hshard, Function.update_of_ne ht, hother]

/-- The thread inside leaves. -/
theorem Exclusive.unlock (h : Exclusive code st) {t : τ} {a : Activity Op Λ σ ω} {shard : ς}
    (hbefore : occupied code (st.activity t) = some shard) (hafter : occupied code a = none) :
    Exclusive code { st with
      holder := Function.update st.holder shard none
      activity := Function.update st.activity t a } := by
  intro other t'
  have hother := h other t'
  by_cases ht : t' = t
  · subst ht
    by_cases hshard : other = shard
    · subst hshard
      simp [hafter]
    · rw [hbefore] at hother
      simp [Function.update_of_ne hshard, hother, hafter, Ne.symm hshard]
  · by_cases hshard : other = shard
    · subst hshard
      have hnot : occupied code (st.activity t') ≠ some other := fun hin ↦
        ht (h.eq_of_occupied hin hbefore)
      simp [Function.update_of_ne ht, hnot]
    · simp [Function.update_of_ne hshard, Function.update_of_ne ht, hother]

omit [DecidableEq τ] [DecidableEq ς] in
/-- What a shard will be is up to its lock, the shard and the thread inside. -/
theorem settled_congr {shard : ς} (hshards : next.shards shard = st.shards shard)
    (hholder : next.holder shard = st.holder shard)
    (hactivity : ∀ t, st.holder shard = some t → next.activity t = st.activity t) :
    settled next shard = settled st shard := by
  unfold settled
  rw [hshards, hholder]
  cases hheld : st.holder shard with
  | none => rfl
  | some t => simp only [hactivity t hheld]

omit [DecidableEq ς] in
theorem settled_outside (h : Exclusive code st) {t : τ} (a : Activity Op Λ σ ω)
    (hbefore : occupied code (st.activity t) = none) (history : List (Visible τ Op ω)) :
    settled ⟨st.shards, st.holder, Function.update st.activity t a, history⟩ = settled st := by
  funext shard
  refine settled_congr rfl rfl fun t' hheld ↦ Function.update_of_ne (fun heq ↦ ?_) _ _
  have hin := (h shard t').mp hheld
  rw [heq, hbefore] at hin
  simp at hin

omit [DecidableEq τ] [DecidableEq ς] in
theorem SeenAs.congr {shards shards' : ς → σ} {a : Activity Op Λ σ ω} {seen : AtomicActivity Op ω}
    (hshards : ∀ shard, occupied code a = some shard → shards' shard = shards shard)
    (h : SeenAs code shards a seen) : SeenAs code shards' a seen := by
  cases a with
  | inside op rest l =>
    obtain ⟨final, hfinal, hseen⟩ := h
    exact ⟨final, by rwa [hshards (code.shardOf op) rfl], hseen⟩
  | _ => exact h

omit [DecidableEq ς] in
theorem seen_update {shards : ς → σ} {t : τ} {a : Activity Op Λ σ ω} {seen : AtomicActivity Op ω}
    (hseen : ∀ t, SeenAs code shards (st.activity t) (ast.activity t))
    (ht : SeenAs code shards a seen) (t' : τ) :
    SeenAs code shards (Function.update st.activity t a t')
      (Function.update ast.activity t seen t') := by
  by_cases hsame : t' = t
  · subst hsame
    simpa using ht
  · rw [Function.update_of_ne hsame, Function.update_of_ne hsame]
    exact hseen t'

theorem matches_call (h : Matches code R st ast) {t : τ} {op : Op}
    (hstep : step code st (.call t op) = some next) :
    ∃ anext, atomicStep perform ast (.call t op) = some anext ∧ Matches code R next anext := by
  obtain ⟨hidle, rfl⟩ := step_call hstep
  have hseen : ast.activity t = .idle := by
    have hseen := h.seen t
    rwa [hidle] at hseen
  have hbefore : occupied code (st.activity t) = none := by rw [hidle]; rfl
  refine ⟨_, by rw [atomicStep, hseen], ?_⟩
  exact {
    exclusive := h.exclusive.update (by rw [hbefore]; rfl) _ _
    seen := seen_update h.seen rfl
    object := by
      rw [settled_outside h.exclusive _ hbefore]
      exact h.object
    history := congrArg (· ++ _) h.history }

theorem matches_ret (h : Matches code R st ast) {t : τ}
    (hstep : step code st (.ret t) = some next) :
    ∃ anext, atomicStep perform ast (.ret t) = some anext ∧ Matches code R next anext := by
  obtain ⟨answer, hleaving, rfl⟩ := step_ret hstep
  have hseen : ast.activity t = .leaving answer := by
    have hseen := h.seen t
    rwa [hleaving] at hseen
  have hbefore : occupied code (st.activity t) = none := by rw [hleaving]; rfl
  refine ⟨_, by rw [atomicStep, hseen], ?_⟩
  exact {
    exclusive := h.exclusive.update (by rw [hbefore]; rfl) _ _
    seen := seen_update h.seen rfl
    object := by
      rw [settled_outside h.exclusive _ hbefore]
      exact h.object
    history := congrArg (· ++ _) h.history }

/-- With the lock the operation happens. -/
theorem matches_lock (hcode : Realises code R perform) (h : Matches code R st ast) {t : τ}
    (hstep : step code st (.lock t) = some next) :
    ∃ anext, atomicStep perform ast (.perform t) = some anext ∧ Matches code R next anext := by
  obtain ⟨op, hwaiting, hfree, rfl⟩ := step_lock hstep
  have hseen : ast.activity t = .waiting op := by
    have hseen := h.seen t
    rwa [hwaiting] at hseen
  have hbefore : occupied code (st.activity t) = none := by rw [hwaiting]; rfl
  obtain ⟨final, hfinal, hanswer, hobject⟩ := hcode op _ _ h.object
  rw [settled_of_free hfree] at hfinal
  refine ⟨_, by rw [atomicStep, hseen], ?_⟩
  exact {
    exclusive := h.exclusive.lock hfree hbefore rfl
    seen := seen_update h.seen ⟨final, hfinal, by rw [hanswer]⟩
    object := by
      refine (congrArg (fun shards ↦ R shards _) (funext fun shard ↦ ?_)).mpr hobject
      by_cases hshard : shard = code.shardOf op
      · subst hshard
        rw [Function.update_self]
        exact settled_of_held (Function.update_self ..) (Function.update_self ..) hfinal
      · rw [Function.update_of_ne hshard]
        refine settled_congr rfl (Function.update_of_ne hshard _ _) fun t' hheld ↦ ?_
        refine Function.update_of_ne (fun heq ↦ ?_) _ _
        have hin := (h.exclusive shard t').mp hheld
        rw [heq, hbefore] at hin
        simp at hin
    history := h.history }

/-- An action changes nothing that was not settled. -/
theorem matches_act (h : Matches code R st ast) {t : τ}
    (hstep : step code st (.act t) = some next) : Matches code R next ast := by
  obtain ⟨op, action, rest, l, after, hinside, hafter, rfl⟩ := step_act hstep
  have hin : occupied code (st.activity t) = some (code.shardOf op) := by rw [hinside]; rfl
  have hholder : st.holder (code.shardOf op) = some t := (h.exclusive _ t).mpr hin
  obtain ⟨final, hfinal, hseen⟩ : SeenAs code st.shards (.inside op (action :: rest) l) _ :=
    hinside ▸ h.seen t
  have hrest : performActions rest after.1 after.2 = some final := by
    rwa [performActions, hafter, Option.bind_some] at hfinal
  refine ⟨h.exclusive.update (by rw [hin]; rfl) _ _, fun t' ↦ ?_, ?_, h.history⟩
  · dsimp only
    by_cases ht : t' = t
    · subst ht
      rw [Function.update_self]
      exact ⟨final, by rw [Function.update_self]; exact hrest, hseen⟩
    · rw [Function.update_of_ne ht]
      refine (h.seen t').congr fun shard hother ↦ Function.update_of_ne (fun heq ↦ ?_) _ _
      exact ht (h.exclusive.eq_of_occupied hother (heq ▸ hin))
  · refine (congrArg (fun shards ↦ R shards _) (funext fun shard ↦ ?_)).mpr h.object
    by_cases hshard : shard = code.shardOf op
    · subst hshard
      rw [settled_of_held hholder hinside hfinal]
      refine settled_of_held hholder (Function.update_self ..) ?_
      dsimp only
      rwa [Function.update_self]
    · refine settled_congr (Function.update_of_ne hshard _ _) rfl fun t' hheld ↦ ?_
      refine Function.update_of_ne (fun heq ↦ ?_) _ _
      have hother := (h.exclusive shard t').mp hheld
      rw [heq, hin] at hother
      exact hshard (Option.some_inj.mp hother).symm

theorem matches_unlock (h : Matches code R st ast) {t : τ}
    (hstep : step code st (.unlock t) = some next) : Matches code R next ast := by
  obtain ⟨op, l, hinside, rfl⟩ := step_unlock hstep
  have hin : occupied code (st.activity t) = some (code.shardOf op) := by rw [hinside]; rfl
  have hholder : st.holder (code.shardOf op) = some t := (h.exclusive _ t).mpr hin
  obtain ⟨final, hfinal, hseen⟩ : SeenAs code st.shards (.inside op [] l) _ :=
    hinside ▸ h.seen t
  obtain rfl := Option.some_inj.mp hfinal
  refine ⟨h.exclusive.unlock hin rfl, fun t' ↦ ?_, ?_, h.history⟩
  · dsimp only
    by_cases ht : t' = t
    · subst ht
      rw [Function.update_self]
      exact hseen
    · rw [Function.update_of_ne ht]
      exact h.seen t'
  · refine (congrArg (fun shards ↦ R shards _) (funext fun shard ↦ ?_)).mpr h.object
    by_cases hshard : shard = code.shardOf op
    · subst hshard
      rw [settled_of_held hholder hinside hfinal]
      exact settled_of_free (Function.update_self ..)
    · refine settled_congr rfl (Function.update_of_ne hshard _ _) fun t' hheld ↦ ?_
      refine Function.update_of_ne (fun heq ↦ ?_) _ _
      have hother := (h.exclusive shard t').mp hheld
      rw [heq, hin] at hother
      exact hshard (Option.some_inj.mp hother).symm

/-- **Behind locks the operations happen at one instant each.** Every run makes the calls and the
returns of a run of the object without locks. -/
theorem refines_atomic (hcode : Realises code R perform) {shards : ς → σ} {object : Object}
    (hobject : R shards object) {events : List (Event τ Op)} {final : State τ ς σ Λ Op ω}
    (hrun : run (step code) (State.initial shards) events = some final) :
    ∃ afinal, Reaches (atomicStep perform) (AtomicState.initial object) afinal ∧
      Matches code R final afinal := by
  have hinit : Matches code R (State.initial shards : State τ ς σ Λ Op ω)
      (AtomicState.initial object) :=
    ⟨fun shard t ↦ by simp [State.initial, occupied], fun t ↦ rfl, hobject, rfl⟩
  refine simulation_run (fun st event next ast hmatches hstep ↦ ?_) hinit hrun
  cases event with
  | call t op =>
    obtain ⟨anext, hanext, hnext⟩ := matches_call hmatches hstep
    exact ⟨anext, reaches_of_step hanext, hnext⟩
  | lock t =>
    obtain ⟨anext, hanext, hnext⟩ := matches_lock hcode hmatches hstep
    exact ⟨anext, reaches_of_step hanext, hnext⟩
  | act t => exact ⟨ast, reaches_refl ast, matches_act hmatches hstep⟩
  | unlock t => exact ⟨ast, reaches_refl ast, matches_unlock hmatches hstep⟩
  | ret t =>
    obtain ⟨anext, hanext, hnext⟩ := matches_ret hmatches hstep
    exact ⟨anext, reaches_of_step hanext, hnext⟩

/-! ### Every call returns -/

/-- An event other than a call. -/
def Event.Internal : Event τ Op → Prop
  | .call .. => False
  | _ => True

/-- No action is undefined. -/
theorem isSome_act (h : Matches code R st ast) {t : τ} {op : Op} {action : Action Λ σ}
    {rest : List (Action Λ σ)} {l : Λ} (hinside : st.activity t = .inside op (action :: rest) l) :
    (step code st (.act t)).isSome := by
  obtain ⟨final, hfinal, -⟩ : SeenAs code st.shards (.inside op (action :: rest) l) _ :=
    hinside ▸ h.seen t
  obtain ⟨after, hafter, -⟩ := Option.bind_eq_some_iff.mp hfinal
  simp [step, hinside, hafter]

/-- A thread inside can go on. -/
theorem exists_step_of_inside (h : Matches code R st ast) {t : τ} {op : Op}
    {rest : List (Action Λ σ)} {l : Λ} (hinside : st.activity t = .inside op rest l) :
    ∃ event : Event τ Op, event.Internal ∧ (step code st event).isSome := by
  cases rest with
  | nil => exact ⟨.unlock t, trivial, by simp [step, hinside]⟩
  | cons action rest => exact ⟨.act t, trivial, isSome_act h hinside⟩

/-- **No deadlock.** While a call has not returned, some thread can go on. -/
theorem exists_internal_step (h : Matches code R st ast) {t : τ}
    (hbusy : st.activity t ≠ .idle) :
    ∃ event : Event τ Op, event.Internal ∧ (step code st event).isSome := by
  cases hactivity : st.activity t with
  | idle => exact absurd hactivity hbusy
  | waiting op =>
    cases hholder : st.holder (code.shardOf op) with
    | none => exact ⟨.lock t, trivial, by simp [step, hactivity, hholder]⟩
    | some t' =>
      -- the thread that holds the lock is inside
      have hin := (h.exclusive _ t').mp hholder
      cases hinside : st.activity t' with
      | inside op' rest l => exact exists_step_of_inside h hinside
      | _ => simp [hinside, occupied] at hin
  | inside op rest l => exact exists_step_of_inside h hactivity
  | leaving answer => exact ⟨.ret t, trivial, by simp [step, hactivity]⟩

/-- The steps that a thread has before it until it returns. -/
def Activity.work (code : Code Op ς σ Λ ω) : Activity Op Λ σ ω → ℕ
  | .idle => 0
  | .waiting op => (code.actions op).length + 3
  | .inside _ rest _ => rest.length + 2
  | .leaving _ => 1

variable [Fintype τ]

/-- The steps that are before all threads. -/
def State.work (code : Code Op ς σ Λ ω) (st : State τ ς σ Λ Op ω) : ℕ :=
  ∑ t, (st.activity t).work code

omit [DecidableEq ς] in
theorem work_update (activity : τ → Activity Op Λ σ ω) (t : τ) {a : Activity Op Λ σ ω}
    (hwork : a.work code + 1 = (activity t).work code) :
    ∑ t', (Function.update activity t a t').work code + 1 = ∑ t', (activity t').work code := by
  have hothers : ∑ t' ∈ Finset.univ.erase t, (Function.update activity t a t').work code =
      ∑ t' ∈ Finset.univ.erase t, (activity t').work code := by
    refine Finset.sum_congr rfl fun t' ht' ↦ ?_
    rw [Function.update_of_ne (Finset.ne_of_mem_erase ht')]
  rw [← Finset.add_sum_erase _ _ (Finset.mem_univ t),
    ← Finset.add_sum_erase _ _ (Finset.mem_univ t), hothers, Function.update_self]
  omega

/-- A step that is not a call is one step less to do. -/
theorem work_step {event : Event τ Op} (hinternal : event.Internal)
    (hstep : step code st event = some next) : next.work code + 1 = st.work code := by
  cases event with
  | call t op => exact absurd hinternal id
  | lock t =>
    obtain ⟨op, hwaiting, -, rfl⟩ := step_lock hstep
    exact work_update st.activity t (by rw [hwaiting]; rfl)
  | act t =>
    obtain ⟨op, action, rest, l, after, hinside, -, rfl⟩ := step_act hstep
    refine work_update st.activity t ?_
    rw [hinside, Activity.work, Activity.work, List.length_cons]
  | unlock t =>
    obtain ⟨op, l, hinside, rfl⟩ := step_unlock hstep
    exact work_update st.activity t (by rw [hinside]; rfl)
  | ret t =>
    obtain ⟨answer, hleaving, rfl⟩ := step_ret hstep
    exact work_update st.activity t (by rw [hleaving]; rfl)

/-- The steps without new calls come to an end. -/
theorem run_internal {events : List (Event τ Op)} (hinternal : ∀ event ∈ events, event.Internal)
    {final : State τ ς σ Λ Op ω} (hrun : run (step code) st events = some final) :
    final.work code + events.length = st.work code := by
  induction events generalizing st with
  | nil =>
    obtain rfl := Option.some_inj.mp hrun
    rfl
  | cons event rest ih =>
    obtain ⟨next, hnext, hrest⟩ := run_cons_eq_some.mp hrun
    have hstep := work_step (hinternal event (by simp)) hnext
    have hafter := ih (fun e he ↦ hinternal e (List.mem_cons_of_mem _ he)) hrest
    rw [List.length_cons]
    omega

/-- **Every call returns.** Steps without new calls that cannot go on leave all threads outside, and
there are as many of them as there was work. -/
theorem all_return (hcode : Realises code R perform) {shards : ς → σ} {object : Object}
    (hobject : R shards object) {events internal : List (Event τ Op)}
    (hrun : run (step code) (State.initial shards) events = some st)
    (hinternal : ∀ event ∈ internal, event.Internal) {final : State τ ς σ Λ Op ω}
    (hfinal : run (step code) st internal = some final)
    (hend : ∀ event : Event τ Op, event.Internal → step code final event = none) :
    (∀ t, final.activity t = .idle) ∧ internal.length = st.work code := by
  have hwhole : run (step code) (State.initial shards) (events ++ internal) = some final := by
    rw [run_append, hrun]
    exact hfinal
  obtain ⟨afinal, -, hmatches⟩ := refines_atomic hcode hobject hwhole
  have hidle : ∀ t, final.activity t = .idle := by
    intro t
    by_contra hbusy
    obtain ⟨event, hevent, hstep⟩ := exists_internal_step hmatches hbusy
    simp [hend event hevent] at hstep
  have hwork : final.work code = 0 :=
    Finset.sum_eq_zero fun t _ ↦ by rw [hidle t]; rfl
  have hsteps := run_internal hinternal hfinal
  exact ⟨hidle, by omega⟩

end Simulation

end Maock.Foundation.LockedShards
