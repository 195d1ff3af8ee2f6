import Mathlib.Order.Bounds.Basic
import Maock.Response.StartsOnce
import Maock.Response.Streaming

/-!
# The recorded payload size

`end(data)` and `send_data_no_eos(data)` record the size of their string before they ask whether the
response still takes a body. So the body in effect is that of the first completion
(`generator_run`) and the recorded size that of the last one (`payloadSize_run`), and the two agree
exactly when these have the same length.
-/

set_option autoImplicit false
set_option relaxedAutoImplicit false

namespace Maock.Response

open Foundation Foundation.Bytes Http
open Http1 (expectResponseBody stringGenerator)
open Http1.AsioServerResponse (toInt32)
open AsioServerResponse

variable {δ : Type}

/-! ### Bodies in total -/

/-- The most bytes that reads of a response return. -/
def DeliversInTotal (env : Environment δ) (res : AsioServerResponse δ) (n : ℕ) : Prop :=
  IsGreatest (Set.range fun lens ↦ (returned env lens res).length) n

theorem deliversInTotal_iff {env : Environment δ} {res : AsioServerResponse δ} {n : ℕ}
    (h : DeliversInTotal env res n) (m : ℕ) : DeliversInTotal env res m ↔ m = n :=
  ⟨fun hm ↦ hm.unique h, fun hm ↦ hm ▸ h⟩

/-- A string is delivered whole, by reads of one byte for instance. -/
theorem deliversInTotal_of_string {env : Environment δ} {res : AsioServerResponse δ} {data : Bytes}
    (hgenerator : res.generator = some (.library (stringGenerator data))) :
    DeliversInTotal env res data.length := by
  have hleft : res.withLeft data data.length = res := withLeft_of_generator hgenerator
  rw [← hleft]
  constructor
  · refine ⟨List.replicate data.length 1, ?_⟩
    have hfit : ReadsFit data (List.replicate data.length 1) := by
      intro before len hpart
      have hone := List.eq_of_mem_replicate
        (hpart.subset (List.mem_append_right before (List.mem_singleton.mpr rfl)))
      omega
    dsimp only
    rw [returned_of_fit hfit, List.sum_replicate_nat, Nat.mul_one, List.take_length]
  · rintro _ ⟨lens, rfl⟩
    exact (length_returned_le lens).trans (Nat.min_le_right _ _)

/-- A response that still waits for its body defers every read. -/
theorem callRead_of_deferred {env : Environment δ} {res : AsioServerResponse δ}
    (hgenerator : res.generator = some (.library .deferred)) (len : ℕ) :
    res.callRead env len 0 = ⟨[], toInt32 Http1.errDeferred, 0, res⟩ := by
  have hsame : { res with generator := some (.library .deferred) } = res := by rw [← hgenerator]
  have heof : (0 : UInt32) &&& Http1.dataFlagEof = 0 := by decide
  simp only [callRead, hgenerator, GeneratorCb.call, Http1.Generator.call, Bool.false_eq_true,
    if_false, heof, ne_eq, not_true_eq_false, false_and, hsame]

/-- So it delivers nothing. -/
theorem deliversInTotal_of_deferred {env : Environment δ} {res : AsioServerResponse δ}
    (hgenerator : res.generator = some (.library .deferred)) : DeliversInTotal env res 0 := by
  have hnone (lens : List ℕ) : returned env lens res = [] := by
    induction lens with
    | nil => rfl
    | cons len lens ih =>
      rw [returned, callRead_of_deferred hgenerator, ih, List.append_nil]
      exact List.take_nil
  refine ⟨⟨[], rfl⟩, ?_⟩
  rintro _ ⟨lens, rfl⟩
  dsimp only
  rw [hnone, List.length_nil]

/-! ### Completions -/

/-- The string with which a call completes a response. -/
def AsioServerResponse.Op.completion? : Op δ → Option Bytes
  | .endString data => some data
  | .sendDataNoEos data => some data
  | .writeHead _ _ => none
  | .endGenerator _ => none
  | .writeTrailer _ => none
  | .pushPromiseSent => none
  | .callRead _ _ => none

/-- The call is `write_head`, `end(data)` or `send_data_no_eos(data)`. -/
def AsioServerResponse.Op.isWrite : Op δ → Bool
  | .writeHead _ _ => true
  | .endString _ => true
  | .sendDataNoEos _ => true
  | .endGenerator _ => false
  | .writeTrailer _ => false
  | .pushPromiseSent => false
  | .callRead _ _ => false

/-- The strings of the completions, in their order. -/
def completions (ops : List (Op δ)) : List Bytes :=
  ops.filterMap Op.completion?

theorem completions_concat (ops : List (Op δ)) (op : Op δ) :
    completions (ops ++ [op]) = completions ops ++ op.completion?.toList := by
  rw [completions, List.filterMap_append]
  cases hop : op.completion? <;> simp [hop, completions]

/-- A call that completes a response does what `end(data)` does. -/
structure Completes (op : Op δ) (data : Bytes) : Prop where
  completion : op.completion? = some data
  generator : op.generator? = some (some (.library (stringGenerator data)))
  head : op.head? = some (200, noFields)
  promise : op.isPromise = false
  step : ∀ (env : Environment δ) (res : AsioServerResponse δ),
    step env res op = res.endString env data

theorem isWrite_cases {op : Op δ} (hwrite : op.isWrite = true) :
    (∃ statusCode h, op = .writeHead statusCode h) ∨ ∃ data, Completes op data := by
  cases op with
  | writeHead statusCode h => exact Or.inl ⟨statusCode, h, rfl⟩
  | endString data => exact Or.inr ⟨data, rfl, rfl, rfl, rfl, fun _ _ ↦ rfl⟩
  | sendDataNoEos data => exact Or.inr ⟨data, rfl, rfl, rfl, rfl, fun _ _ ↦ rfl⟩
  | endGenerator cb => exact absurd hwrite (by simp [Op.isWrite])
  | writeTrailer h => exact absurd hwrite (by simp [Op.isWrite])
  | pushPromiseSent => exact absurd hwrite (by simp [Op.isWrite])
  | callRead len flags => exact absurd hwrite (by simp [Op.isWrite])

/-- Calls that write, seen from the last one. -/
inductive Writes : List (Op δ) → Prop
  | nil : Writes []
  | writeHead {ops : List (Op δ)} (h : Writes ops) (statusCode : ℕ) (header : HeaderMap) :
    Writes (ops ++ [.writeHead statusCode header])
  | completion {ops : List (Op δ)} (h : Writes ops) {op : Op δ} {data : Bytes}
    (hop : Completes op data) : Writes (ops ++ [op])

theorem writes_of_forall {ops : List (Op δ)} (hwrites : ∀ op ∈ ops, op.isWrite = true) :
    Writes ops := by
  induction ops using List.reverseRecOn with
  | nil => exact .nil
  | append_singleton ops op ih =>
    have hbefore := ih fun other hother ↦ hwrites other (List.mem_append_left _ hother)
    have hop := hwrites op (List.mem_append_right _ (List.mem_singleton.mpr rfl))
    rcases isWrite_cases hop with ⟨statusCode, h, rfl⟩ | ⟨data, hcompletes⟩
    · exact hbefore.writeHead statusCode h
    · exact hbefore.completion hcompletes

theorem completions_writeHead (ops : List (Op δ)) (statusCode : ℕ) (h : HeaderMap) :
    completions (ops ++ [.writeHead statusCode h]) = completions ops :=
  (completions_concat ops _).trans (List.append_nil _)

theorem Completes.completions {op : Op δ} {data : Bytes} (h : Completes op data)
    (ops : List (Op δ)) : completions (ops ++ [op]) = completions ops ++ [data] := by
  rw [completions_concat, h.completion]
  rfl

/-! ### The recorded size -/

/-- The size of a string, if there is one. -/
def sizeOf? (data : Option Bytes) : ℕ :=
  (data.map List.length).getD 0

theorem payloadSize_writeHead (env : Environment δ) (statusCode : ℕ) (h : HeaderMap)
    (res : AsioServerResponse δ) :
    (res.writeHead env statusCode h).payloadSize = res.payloadSize := by
  by_cases hinitial : res.state = .initial
  · rw [writeHead_of_initial hinitial]
  · rw [writeHead_of_ne hinitial]

theorem generator_writeHead (env : Environment δ) (statusCode : ℕ) (h : HeaderMap)
    (res : AsioServerResponse δ) : (res.writeHead env statusCode h).generator = res.generator := by
  by_cases hinitial : res.state = .initial
  · rw [writeHead_of_initial hinitial]
  · rw [writeHead_of_ne hinitial]

theorem payloadSize_endGenerator (env : Environment δ) (cb : Option (GeneratorCb δ))
    (res : AsioServerResponse δ) : (res.endGenerator env cb).payloadSize = res.payloadSize := by
  cases hstate : res.state with
  | initial => rw [endGenerator_of_initial hstate]
  | headerDone => rw [endGenerator_of_headerDone hstate]
  | bodyStarted => rw [endGenerator_of_bodyStarted hstate]

theorem payloadSize_endString (env : Environment δ) (data : Bytes) (res : AsioServerResponse δ) :
    (res.endString env data).payloadSize = data.length :=
  payloadSize_endGenerator env _ _

section Run

variable (env : Environment δ) (isPushed : Bool) {ops : List (Op δ)}

/-- The recorded size is that of the last completion. -/
theorem payloadSize_run (hwrites : Writes ops) :
    (run env isPushed ops).payloadSize = sizeOf? (completions ops).getLast? := by
  induction hwrites with
  | nil => rfl
  | writeHead _ statusCode h ih =>
    rw [run_concat, step, payloadSize_writeHead, ih, completions_writeHead]
  | completion _ hop ih =>
    rw [run_concat, hop.step, payloadSize_endString, hop.completions, List.getLast?_concat]
    rfl

/-! ### The body in effect -/

theorem hasEnd_eq_false_iff (hwrites : Writes ops) : hasEnd ops = false ↔ completions ops = [] := by
  induction hwrites with
  | nil => exact iff_of_true rfl rfl
  | writeHead _ statusCode h ih =>
    rw [hasEnd_concat, completions_writeHead]
    exact (Bool.or_false _).symm ▸ ih
  | completion _ hop ih =>
    rw [hasEnd_concat, hop.generator, hop.completions]
    simp

theorem tracks_of_writes (hwrites : Writes ops) : Tracks isPushed ops (run env isPushed ops) := by
  induction hwrites with
  | nil => exact tracks_initial isPushed
  | writeHead _ statusCode h ih =>
    rw [run_concat]
    exact tracks_writeHead ih env statusCode h
  | completion _ hop ih =>
    rw [run_concat]
    exact tracks_step ih env fun hpromise ↦ absurd hpromise (by simp [hop.promise])

/-- A completion keeps the status, be it given or the default. -/
theorem statusCode_run_completion (hwrites : Writes ops) {op : Op δ} {data : Bytes}
    (hop : Completes op data) :
    (run env isPushed (ops ++ [op])).statusCode = (run env isPushed ops).statusCode := by
  have hbefore := (tracks_of_writes env isPushed hwrites).head
  have hafter := (tracks_of_writes env isPushed (hwrites.completion hop)).head
  rw [headOf_concat, hop.head] at hafter
  cases hhead : headOf ops with
  | none =>
    rw [hhead] at hbefore hafter
    exact (Prod.mk.inj (hafter.trans hbefore.symm)).1
  | some head =>
    rw [hhead] at hbefore hafter
    exact (Prod.mk.inj (hafter.trans hbefore.symm)).1

theorem state_of_completions_ne_nil (hwrites : Writes ops) (hsome : completions ops ≠ []) :
    (run env isPushed ops).state = .bodyStarted := by
  refine (tracks_of_writes env isPushed hwrites).ended (Bool.not_eq_false _ ▸ fun hnone ↦ ?_)
  exact hsome ((hasEnd_eq_false_iff hwrites).mp hnone)

/-- Before `end` a response waits for its body. -/
theorem generator_run_of_completions_eq_nil (hwrites : Writes ops) (hnone : completions ops = []) :
    (run env isPushed ops).generator = some (.library .deferred) := by
  induction hwrites with
  | nil => rfl
  | writeHead _ statusCode h ih =>
    rw [completions_writeHead] at hnone
    rw [run_concat, step, generator_writeHead, ih hnone]
  | completion _ hop ih =>
    rw [hop.completions] at hnone
    exact absurd hnone (by simp)

/-- The generator of the body that the first of these strings brings. -/
def bodyGenerator (completions : List Bytes) : Http1.Generator :=
  match completions.head? with
  | some data => stringGenerator data
  | none => .deferred

/-- The body in effect is that of the first completion. -/
theorem generator_run (hwrites : Writes ops)
    (hexpect : expectResponseBody env.method (run env isPushed ops).statusCode = true) :
    (run env isPushed ops).generator = some (.library (bodyGenerator (completions ops))) := by
  induction hwrites with
  | nil => rfl
  | @writeHead ops hwrites statusCode h ih =>
    rw [completions_writeHead]
    by_cases hnone : completions ops = []
    · rw [generator_run_of_completions_eq_nil env isPushed (hwrites.writeHead statusCode h)
        ((completions_writeHead ops statusCode h).trans hnone), hnone]
      rfl
    · have hstate := state_of_completions_ne_nil env isPushed hwrites hnone
      have hsame : run env isPushed (ops ++ [.writeHead statusCode h]) = run env isPushed ops :=
        (run_concat env isPushed ops _).trans (writeHead_of_ne (by simp [hstate]) env statusCode h)
      rw [hsame] at hexpect ⊢
      exact ih hexpect
  | @completion ops hwrites op data hop ih =>
    rw [statusCode_run_completion env isPushed hwrites hop] at hexpect
    rw [hop.completions]
    by_cases hnone : completions ops = []
    · rw [run_concat, hnone]
      refine generator_step_of_end (fun hstate ↦ ?_) env hop.generator
      have hno := awaitsEnd_run env isPushed ops ((hasEnd_eq_false_iff hwrites).mpr hnone) hstate
      exact absurd (hexpect.symm.trans hno) (by simp)
    · have hstate := state_of_completions_ne_nil env isPushed hwrites hnone
      rw [run_concat, generator_step_of_bodyStarted hstate env (by simp [hop.head]), ih hexpect,
        bodyGenerator, bodyGenerator, List.head?_append_of_ne_nil _ hnone]

end Run

/-- What a response delivers that was completed in turn by these strings. -/
theorem deliversInTotal_run (env : Environment δ) (isPushed : Bool) {ops : List (Op δ)}
    (hwrites : Writes ops)
    (hexpect : expectResponseBody env.method (run env isPushed ops).statusCode = true) :
    DeliversInTotal env (run env isPushed ops) (sizeOf? (completions ops).head?) := by
  have hgenerator := generator_run env isPushed hwrites hexpect
  unfold bodyGenerator at hgenerator
  cases hhead : (completions ops).head? with
  | none =>
    rw [hhead] at hgenerator
    exact deliversInTotal_of_deferred hgenerator
  | some data =>
    rw [hhead] at hgenerator
    exact deliversInTotal_of_string hgenerator

/-- **The recorded payload size is the size of the body** exactly when the last completion brings as
many bytes as the first one, for every sequence of heads and completions. -/
theorem delivers_payloadSize_iff (env : Environment δ) (isPushed : Bool) (ops : List (Op δ))
    (hwrites : ∀ op ∈ ops, op.isWrite = true)
    (hexpect : expectResponseBody env.method (run env isPushed ops).statusCode = true) :
    DeliversInTotal env (run env isPushed ops) (run env isPushed ops).payloadSize ↔
      sizeOf? (completions ops).getLast? = sizeOf? (completions ops).head? := by
  have hwritten := writes_of_forall hwrites
  rw [deliversInTotal_iff (deliversInTotal_run env isPushed hwritten hexpect),
    payloadSize_run env isPushed hwritten]

theorem delivers_payloadSize_twice :
    DeliversInTotal getEnvironment
      (run getEnvironment false
        [.writeHead 200 noFields, .endString (ascii "hello"), .sendDataNoEos (ascii "again")]) 5 :=
  (delivers_payloadSize_iff getEnvironment false
    [.writeHead 200 noFields, .endString (ascii "hello"), .sendDataNoEos (ascii "again")]
    (by decide) (by decide)).mpr (by decide)

/-- A response that is completed a second time, by a shorter string. -/
def completedShorter : List (Op Unit) :=
  [.writeHead 200 noFields, .endString (ascii "hello"), .endString (ascii "hi")]

theorem not_delivers_payloadSize_completedShorter :
    ¬ DeliversInTotal getEnvironment (run getEnvironment false completedShorter)
      (run getEnvironment false completedShorter).payloadSize := by
  have hdelivers : DeliversInTotal getEnvironment (run getEnvironment false completedShorter) 5 :=
    @deliversInTotal_of_string _ _ _ (ascii "hello") rfl
  rw [deliversInTotal_iff hdelivers]
  decide

end Maock.Response
