import Mathlib.Data.List.Induction
import Maock.Response.Lifecycle

/-!
# A response starts once

Whatever calls a response gets, in any order, it calls `start_response` of its handler at most once:
as soon as it has a head and, if it is pushed, the push promise is sent. The head is that of the
first call that gives one (`headOf`), and calls that come later change neither the head nor the
generator that the first `end` has installed.

`Tracks` says what the calls so far have made of a response, `tracks_step` that one more call keeps
it, and `starts_once` is what follows for every sequence of calls.
-/

set_option autoImplicit false
set_option relaxedAutoImplicit false

namespace Maock.Response

open Foundation Foundation.Bytes Http
open Http1 (ResponseState expectResponseBody stringGenerator)
open AsioServerResponse

variable {δ : Type}

/-! ### What the calls give -/

/-- The head that a call gives to a response that has none. -/
def AsioServerResponse.Op.head? : Op δ → Option (ℕ × HeaderMap)
  | .writeHead statusCode h => some (statusCode, h)
  | .endGenerator _ => some (200, noFields)
  | .endString _ => some (200, noFields)
  | .sendDataNoEos _ => some (200, noFields)
  | .writeTrailer _ => none
  | .pushPromiseSent => none
  | .callRead _ _ => none

/-- The generator that a call of `end` brings. -/
def AsioServerResponse.Op.generator? : Op δ → Option (Option (GeneratorCb δ))
  | .endGenerator cb => some cb
  | .endString data => some (some (.library (stringGenerator data)))
  | .sendDataNoEos data => some (some (.library (stringGenerator data)))
  | .writeHead _ _ => none
  | .writeTrailer _ => none
  | .pushPromiseSent => none
  | .callRead _ _ => none

/-- The call is `push_promise_sent()`. -/
def AsioServerResponse.Op.isPromise : Op δ → Bool
  | .pushPromiseSent => true
  | .writeHead _ _ => false
  | .endGenerator _ => false
  | .endString _ => false
  | .sendDataNoEos _ => false
  | .writeTrailer _ => false
  | .callRead _ _ => false

/-- The head of the first call that gives one. -/
def headOf (ops : List (Op δ)) : Option (ℕ × HeaderMap) :=
  ops.findSome? Op.head?

/-- One of the calls is `end`. -/
def hasEnd (ops : List (Op δ)) : Bool :=
  ops.any fun op ↦ op.generator?.isSome

/-- A push promise is not needed or has been sent. -/
def released (pushed : Bool) (ops : List (Op δ)) : Bool :=
  !pushed || ops.any Op.isPromise

/-- The heads with which a response is started by some calls: one or none. -/
def startedWith (pushed : Bool) (ops : List (Op δ)) : List (ℕ × HeaderMap) :=
  if released pushed ops then (headOf ops).toList else []

/-! ### The single calls -/

namespace AsioServerResponse

theorem starts_append (res : AsioServerResponse δ) (calls : List HandlerCall) :
    { res with calls := res.calls ++ calls }.starts =
      res.starts ++ calls.filterMap HandlerCall.start? :=
  List.filterMap_append

theorem start?_startCalls (env : Environment δ) (statusCode : ℕ) (header : HeaderMap) :
    (startCalls env statusCode header).filterMap HandlerCall.start? = [(statusCode, header)] := by
  unfold startCalls
  split_ifs <;> rfl

/-- What later calls find of the head of a response is the same. -/
structure KeepsHead (res res' : AsioServerResponse δ) : Prop where
  pushed : res'.pushed = res.pushed
  promised : res'.pushPromiseSent = res.pushPromiseSent
  state : res'.state = res.state
  statusCode : res'.statusCode = res.statusCode
  header : res'.header = res.header
  starts : res'.starts = res.starts

theorem KeepsHead.sendTrailer {res res' : AsioServerResponse δ} (h : KeepsHead res res') :
    KeepsHead res res'.sendTrailer := by
  rw [sendTrailer_eq]
  refine ⟨h.pushed, h.promised, h.state, h.statusCode, h.header, ?_⟩
  have hnone : (trailerCalls res'.trailers).filterMap HandlerCall.start? = [] := by
    unfold trailerCalls
    split_ifs <;> rfl
  refine List.filterMap_append.trans ?_
  rw [hnone, List.append_nil]
  exact h.starts

theorem keepsHead_writeTrailer (h : HeaderMap) (res : AsioServerResponse δ) :
    KeepsHead res (res.writeTrailer h) := by
  have hwritten : KeepsHead res { res with trailers := h } := ⟨rfl, rfl, rfl, rfl, rfl, rfl⟩
  unfold writeTrailer
  dsimp only
  split_ifs
  · exact hwritten.sendTrailer
  · exact hwritten

theorem keepsHead_callRead (env : Environment δ) (len : ℕ) (flags : UInt32)
    (res : AsioServerResponse δ) : KeepsHead res (res.callRead env len flags).response := by
  have hread (generator : Option (GeneratorCb δ)) :
      KeepsHead res { res with generator := generator } := ⟨rfl, rfl, rfl, rfl, rfl, rfl⟩
  unfold callRead
  cases res.generator with
  | none =>
    dsimp only
    split_ifs
    · exact KeepsHead.sendTrailer ⟨rfl, rfl, rfl, rfl, rfl, rfl⟩
    · exact ⟨rfl, rfl, rfl, rfl, rfl, rfl⟩
  | some generator =>
    dsimp only
    split_ifs
    · exact (hread none).sendTrailer
    · exact (hread _).sendTrailer
    · exact hread none
    · exact hread _

end AsioServerResponse

/-! ### The invariant -/

/-- What some calls have made of a response. -/
structure Tracks (isPushed : Bool) (ops : List (Op δ)) (res : AsioServerResponse δ) : Prop where
  pushed : res.pushed = isPushed
  promised : res.pushPromiseSent = ops.any Op.isPromise
  initial : res.state = .initial ↔ headOf ops = none
  head : (res.statusCode, res.header) = (headOf ops).getD (200, noFields)
  ended : hasEnd ops = true → res.state = .bodyStarted
  starts : res.starts = startedWith isPushed ops

theorem tracks_initial (isPushed : Bool) :
    Tracks isPushed [] (initial isPushed : AsioServerResponse δ) where
  pushed := rfl
  promised := rfl
  initial := ⟨fun _ ↦ rfl, fun _ ↦ rfl⟩
  head := rfl
  ended := fun h ↦ absurd h (by simp [hasEnd])
  starts := by cases isPushed <;> rfl

section Step

variable {isPushed : Bool} {ops : List (Op δ)} {res : AsioServerResponse δ}

theorem headOf_concat (ops : List (Op δ)) (op : Op δ) :
    headOf (ops ++ [op]) = (headOf ops).or op.head? := by
  rw [headOf, List.findSome?_append]
  cases hhead : op.head? <;> simp [hhead, headOf]

/-- A call that gives no head, no generator and no promise. -/
theorem Tracks.of_keepsHead (h : Tracks isPushed ops res) {res' : AsioServerResponse δ}
    (hkeeps : KeepsHead res res') {op : Op δ} (hhead : op.head? = none)
    (hgenerator : op.generator? = none) (hpromise : op.isPromise = false) :
    Tracks isPushed (ops ++ [op]) res' := by
  have hheadOf : headOf (ops ++ [op]) = headOf ops := by
    rw [headOf_concat, hhead, Option.or_none]
  have hpromised : (ops ++ [op]).any Op.isPromise = ops.any Op.isPromise := by
    simp [hpromise]
  have hended : hasEnd (ops ++ [op]) = hasEnd ops := by
    simp [hasEnd, hgenerator]
  constructor
  case pushed => exact hkeeps.pushed.trans h.pushed
  case promised => rw [hkeeps.promised, h.promised, hpromised]
  case initial => rw [hkeeps.state, h.initial, hheadOf]
  case head => rw [hkeeps.statusCode, hkeeps.header, h.head, hheadOf]
  case ended => rw [hkeeps.state, hended]; exact h.ended
  case starts => rw [hkeeps.starts, h.starts, startedWith, startedWith, released, released, hheadOf,
    hpromised]

theorem Tracks.state_ne (h : Tracks isPushed ops res) {head : ℕ × HeaderMap}
    (hhead : headOf ops = some head) : res.state ≠ .initial := fun hinitial ↦ by
  rw [h.initial.mp hinitial] at hhead
  exact absurd hhead (by simp)

theorem hasEnd_concat (ops : List (Op δ)) (op : Op δ) :
    hasEnd (ops ++ [op]) = (hasEnd ops || op.generator?.isSome) := by
  simp [hasEnd]

theorem any_isPromise_concat {op : Op δ} (hpromise : op.isPromise = false) (ops : List (Op δ)) :
    (ops ++ [op]).any Op.isPromise = ops.any Op.isPromise := by
  simp [hpromise]

/-- The first call that gives a head starts a response that is released. -/
theorem Tracks.of_newHead (h : Tracks isPushed ops res) (hnone : headOf ops = none) {op : Op δ}
    {env : Environment δ} {statusCode : ℕ} {header : HeaderMap}
    (hhead : op.head? = some (statusCode, header)) (hpromise : op.isPromise = false)
    {generator : Option (GeneratorCb δ)} {state : ResponseState}
    (hstate : state ≠ .initial) (hended : op.generator?.isSome = true → state = .bodyStarted) :
    Tracks isPushed (ops ++ [op])
      { res with
        statusCode := statusCode
        header := header
        generator := generator
        state := state
        calls := res.calls ++ res.headCalls env statusCode header } := by
  have hheadOf : headOf (ops ++ [op]) = some (statusCode, header) := by
    rw [headOf_concat, hnone, Option.none_or, hhead]
  have hnoEnd : hasEnd ops = false := by
    refine Bool.eq_false_iff.mpr fun hend ↦ ?_
    have hboth := (h.ended hend).symm.trans (h.initial.mpr hnone)
    exact absurd hboth (by simp)
  have hnotStarted : res.starts = [] := by
    rw [h.starts, startedWith, hnone]
    split_ifs <;> rfl
  constructor
  case pushed => exact h.pushed
  case promised => exact h.promised.trans (any_isPromise_concat hpromise ops).symm
  case initial => exact iff_of_false hstate (by simp [hheadOf])
  case head => rw [hheadOf]; rfl
  case ended => rw [hasEnd_concat, hnoEnd, Bool.false_or]; exact hended
  case starts =>
    refine (starts_append res _).trans ?_
    rw [hnotStarted, List.nil_append, startedWith, hheadOf, released, any_isPromise_concat hpromise,
      ← h.promised, ← h.pushed, headCalls]
    cases res.pushed <;> cases res.pushPromiseSent <;>
      simp [start?_startCalls]

/-- A call that would give a head, behind the first one. -/
theorem Tracks.of_oldHead (h : Tracks isPushed ops res) {head : ℕ × HeaderMap}
    (hsome : headOf ops = some head) {op : Op δ} (hpromise : op.isPromise = false)
    {res' : AsioServerResponse δ} (hpushed : res'.pushed = res.pushed)
    (hpromised : res'.pushPromiseSent = res.pushPromiseSent) (hstate : res'.state ≠ .initial)
    (hhead : (res'.statusCode, res'.header) = (res.statusCode, res.header))
    (hended : hasEnd (ops ++ [op]) = true → res'.state = .bodyStarted)
    (hstarts : res'.starts = res.starts) : Tracks isPushed (ops ++ [op]) res' := by
  have hheadOf : headOf (ops ++ [op]) = headOf ops := by
    rw [headOf_concat, hsome]
    rfl
  constructor
  case pushed => exact hpushed.trans h.pushed
  case promised => exact hpromised.trans (h.promised.trans (any_isPromise_concat hpromise ops).symm)
  case initial => exact iff_of_false hstate (by simp [hheadOf, hsome])
  case head => rw [hhead, h.head, hheadOf]
  case ended => exact hended
  case starts => rw [hstarts, h.starts, startedWith, startedWith, released, released, hheadOf,
    any_isPromise_concat hpromise]

theorem stateAfterStart_ne {env : Environment δ} {statusCode : ℕ} {state : ResponseState}
    (hstate : state ≠ .initial) : stateAfterStart env statusCode state ≠ .initial := by
  unfold stateAfterStart
  split_ifs
  · exact hstate
  · simp

theorem stateAfterStart_of_bodyStarted {env : Environment δ} {statusCode : ℕ}
    {state : ResponseState} (hstate : state = .bodyStarted) :
    stateAfterStart env statusCode state = .bodyStarted := by
  unfold stateAfterStart
  split_ifs
  · exact hstate
  · rfl

theorem tracks_writeHead (h : Tracks isPushed ops res) (env : Environment δ) (statusCode : ℕ)
    (header : HeaderMap) :
    Tracks isPushed (ops ++ [.writeHead statusCode header])
      (res.writeHead env statusCode header) := by
  cases hhead : headOf ops with
  | none =>
    rw [writeHead_of_initial (h.initial.mpr hhead)]
    refine h.of_newHead hhead rfl rfl ?_ (fun hend ↦ absurd hend (by simp [Op.generator?]))
    unfold stateAfterStart
    split_ifs <;> simp
  | some head =>
    have hstate := h.state_ne hhead
    rw [writeHead_of_ne hstate]
    refine h.of_oldHead hhead rfl rfl rfl hstate rfl (fun hend ↦ h.ended ?_) rfl
    simpa [hasEnd_concat, Op.generator?] using hend

theorem tracks_endGenerator (h : Tracks isPushed ops res) (env : Environment δ) {op : Op δ}
    (hhead : op.head? = some (200, noFields)) (hpromise : op.isPromise = false)
    (cb : Option (GeneratorCb δ)) : Tracks isPushed (ops ++ [op]) (res.endGenerator env cb) := by
  cases hheadOf : headOf ops with
  | none =>
    have hcode : res.statusCode = 200 := by
      have hboth := h.head
      rw [hheadOf] at hboth
      exact (Prod.mk.inj hboth).1
    rw [← hcode] at hhead
    rw [endGenerator_of_initial (h.initial.mpr hheadOf)]
    exact h.of_newHead hheadOf hhead hpromise (by simp) fun _ ↦ rfl
  | some head =>
    cases hstate : res.state with
    | initial => exact absurd hstate (h.state_ne hheadOf)
    | headerDone =>
      rw [endGenerator_of_headerDone hstate]
      refine h.of_oldHead hheadOf hpromise rfl rfl (by simp) rfl (fun _ ↦ rfl) ?_
      exact (starts_append _ [.resume]).trans (List.append_nil _)
    | bodyStarted =>
      rw [endGenerator_of_bodyStarted hstate]
      exact h.of_oldHead hheadOf hpromise rfl rfl (by simp [hstate]) rfl (fun _ ↦ hstate) rfl

theorem Tracks.withPayloadSize (h : Tracks isPushed ops res) (payloadSize : ℕ) :
    Tracks isPushed ops { res with payloadSize := payloadSize } :=
  ⟨h.pushed, h.promised, h.initial, h.head, h.ended, h.starts⟩

theorem headOf_promise (ops : List (Op δ)) : headOf (ops ++ [.pushPromiseSent]) = headOf ops :=
  (headOf_concat ops _).trans Option.or_none

theorem hasEnd_promise (ops : List (Op δ)) : hasEnd (ops ++ [.pushPromiseSent]) = hasEnd ops :=
  (hasEnd_concat ops _).trans (Bool.or_false _)

theorem any_isPromise_promise (ops : List (Op δ)) :
    (ops ++ [Op.pushPromiseSent]).any Op.isPromise = true := by
  simp [Op.isPromise]

/-- The promise releases a response that has a head. -/
theorem startedWith_promise (isPushed : Bool) (ops : List (Op δ)) :
    startedWith isPushed (ops ++ [.pushPromiseSent]) = (headOf ops).toList := by
  rw [startedWith, released, any_isPromise_promise, headOf_promise, Bool.or_true, if_pos rfl]

theorem Tracks.promiseSent_again (h : Tracks isPushed ops res) (hsent : res.pushPromiseSent = true)
    (env : Environment δ) : Tracks isPushed (ops ++ [.pushPromiseSent]) (res.promiseSent env) := by
  have hreleased : released isPushed ops = true := by
    rw [released, ← h.promised, hsent, Bool.or_true]
  rw [promiseSent_of_sent hsent]
  constructor
  case pushed => exact h.pushed
  case promised => exact hsent.trans (any_isPromise_promise ops).symm
  case initial => rw [headOf_promise]; exact h.initial
  case head => rw [headOf_promise]; exact h.head
  case ended => rw [hasEnd_promise]; exact h.ended
  case starts => rw [h.starts, startedWith_promise, startedWith, if_pos hreleased]

/-- A pushed response has not started before its promise is sent. -/
theorem Tracks.starts_eq_nil (h : Tracks true ops res) (hnot : res.pushPromiseSent = false) :
    res.starts = [] := by
  rw [h.starts, startedWith, released, ← h.promised, hnot]
  rfl

theorem Tracks.promiseSent_initial (h : Tracks true ops res) (hnot : res.pushPromiseSent = false)
    (hnone : headOf ops = none) (env : Environment δ) :
    Tracks true (ops ++ [.pushPromiseSent]) (res.promiseSent env) := by
  rw [promiseSent_of_initial hnot (h.initial.mpr hnone)]
  constructor
  case pushed => exact h.pushed
  case promised => exact (any_isPromise_promise ops).symm
  case initial => rw [headOf_promise]; exact h.initial
  case head => rw [headOf_promise]; exact h.head
  case ended => rw [hasEnd_promise]; exact h.ended
  case starts =>
    rw [startedWith_promise, hnone]
    exact h.starts_eq_nil hnot

theorem Tracks.promiseSent_head (h : Tracks true ops res) (hnot : res.pushPromiseSent = false)
    {head : ℕ × HeaderMap} (hhead : headOf ops = some head) (env : Environment δ) :
    Tracks true (ops ++ [.pushPromiseSent]) (res.promiseSent env) := by
  have hstate := h.state_ne hhead
  have hgiven : (res.statusCode, res.header) = head := by
    rw [h.head, hhead]
    rfl
  rw [promiseSent_of_head hnot hstate]
  constructor
  case pushed => exact h.pushed
  case promised => exact (any_isPromise_promise ops).symm
  case initial =>
    rw [headOf_promise, hhead]
    exact iff_of_false (stateAfterStart_ne hstate) (by simp)
  case head => rw [headOf_promise]; exact h.head
  case ended =>
    rw [hasEnd_promise]
    exact fun hend ↦ stateAfterStart_of_bodyStarted (h.ended hend)
  case starts =>
    refine (starts_append _ _).trans ?_
    rw [start?_startCalls, startedWith_promise, hhead]
    show res.starts ++ [(res.statusCode, res.header)] = [head]
    rw [h.starts_eq_nil hnot, hgiven]
    rfl

theorem tracks_promiseSent (h : Tracks true ops res) (env : Environment δ) :
    Tracks true (ops ++ [.pushPromiseSent]) (res.promiseSent env) := by
  cases hsent : res.pushPromiseSent with
  | true => exact h.promiseSent_again hsent env
  | false =>
    cases hhead : headOf ops with
    | none => exact h.promiseSent_initial hsent hhead env
    | some head => exact h.promiseSent_head hsent hhead env

/-- One more call. A promise is sent for pushed responses only. -/
theorem tracks_step (h : Tracks isPushed ops res) (env : Environment δ) {op : Op δ}
    (hpromise : op.isPromise = true → isPushed = true) :
    Tracks isPushed (ops ++ [op]) (step env res op) := by
  cases op with
  | writeHead statusCode header => exact tracks_writeHead h env statusCode header
  | endGenerator cb => exact tracks_endGenerator h env rfl rfl cb
  | endString data => exact tracks_endGenerator (h.withPayloadSize data.length) env rfl rfl _
  | sendDataNoEos data => exact tracks_endGenerator (h.withPayloadSize data.length) env rfl rfl _
  | writeTrailer header => exact h.of_keepsHead (keepsHead_writeTrailer header res) rfl rfl rfl
  | pushPromiseSent =>
    obtain rfl := hpromise rfl
    exact tracks_promiseSent h env
  | callRead len flags => exact h.of_keepsHead (keepsHead_callRead env len flags res) rfl rfl rfl

end Step

theorem run_concat (env : Environment δ) (isPushed : Bool) (ops : List (Op δ)) (op : Op δ) :
    run env isPushed (ops ++ [op]) = step env (run env isPushed ops) op := by
  rw [run, List.foldl_append]
  rfl

/-- The invariant holds after every sequence of calls. -/
theorem tracks_run (env : Environment δ) {isPushed : Bool} (ops : List (Op δ))
    (hpromise : ∀ op ∈ ops, op.isPromise = true → isPushed = true) :
    Tracks isPushed ops (run env isPushed ops) := by
  induction ops using List.reverseRecOn with
  | nil => exact tracks_initial isPushed
  | append_singleton ops op ih =>
    rw [run_concat]
    exact tracks_step (ih fun other hother ↦ hpromise other (List.mem_append_left _ hother)) env
      (hpromise op (List.mem_append_right _ (List.mem_singleton.mpr rfl)))

/-! ### The first end -/

/-- A response without `end` has started its body only if it has none. -/
def AwaitsEnd (env : Environment δ) (ops : List (Op δ)) (res : AsioServerResponse δ) : Prop :=
  hasEnd ops = false → res.state = .bodyStarted →
    expectResponseBody env.method res.statusCode = false

theorem expect_of_stateAfterStart {env : Environment δ} {statusCode : ℕ} {state : ResponseState}
    (hstate : state = .bodyStarted → expectResponseBody env.method statusCode = false)
    (hafter : stateAfterStart env statusCode state = .bodyStarted) :
    expectResponseBody env.method statusCode = false := by
  unfold stateAfterStart at hafter
  split_ifs at hafter with hexpect
  · exact hstate hafter
  · exact Bool.eq_false_iff.mpr hexpect

theorem awaitsEnd_step {env : Environment δ} {ops : List (Op δ)} {res : AsioServerResponse δ}
    (h : AwaitsEnd env ops res) (op : Op δ) : AwaitsEnd env (ops ++ [op]) (step env res op) := by
  intro hnoEnd
  rw [hasEnd_concat, Bool.or_eq_false_iff] at hnoEnd
  have hbefore := h hnoEnd.1
  have hkeeps {res' : AsioServerResponse δ} (hkeeps : KeepsHead res res') :
      res'.state = .bodyStarted → expectResponseBody env.method res'.statusCode = false := by
    rw [hkeeps.state, hkeeps.statusCode]
    exact hbefore
  cases op with
  | endGenerator cb => exact absurd hnoEnd.2 (by simp [Op.generator?])
  | endString data => exact absurd hnoEnd.2 (by simp [Op.generator?])
  | sendDataNoEos data => exact absurd hnoEnd.2 (by simp [Op.generator?])
  | writeTrailer header => exact hkeeps (keepsHead_writeTrailer header res)
  | callRead len flags => exact hkeeps (keepsHead_callRead env len flags res)
  | writeHead statusCode header =>
    show (res.writeHead env statusCode header).state = .bodyStarted → _
    by_cases hinitial : res.state = .initial
    · rw [step, writeHead_of_initial hinitial]
      dsimp only
      split_ifs
      · exact fun hstate ↦ absurd hstate (by simp)
      · exact expect_of_stateAfterStart fun hstate ↦ absurd hstate (by simp)
    · rw [step, writeHead_of_ne hinitial]
      exact hbefore
  | pushPromiseSent =>
    show (res.promiseSent env).state = .bodyStarted → _
    cases hsent : res.pushPromiseSent with
    | true =>
      rw [step, promiseSent_of_sent hsent]
      exact hbefore
    | false =>
      by_cases hinitial : res.state = .initial
      · rw [step, promiseSent_of_initial hsent hinitial]
        exact hbefore
      · rw [step, promiseSent_of_head hsent hinitial]
        exact expect_of_stateAfterStart hbefore

theorem awaitsEnd_run (env : Environment δ) (isPushed : Bool) (ops : List (Op δ)) :
    AwaitsEnd env ops (run env isPushed ops) := by
  induction ops using List.reverseRecOn with
  | nil => exact fun _ hstate ↦ absurd hstate (by simp [run, initial])
  | append_singleton ops op ih =>
    rw [run_concat]
    exact awaitsEnd_step ih op

/-- A call of `end` that is not ignored installs its generator. -/
theorem generator_endGenerator {res : AsioServerResponse δ} (hstate : res.state ≠ .bodyStarted)
    (env : Environment δ) (cb : Option (GeneratorCb δ)) :
    (res.endGenerator env cb).generator = cb := by
  cases hcases : res.state with
  | initial => rw [endGenerator_of_initial hcases]
  | headerDone => rw [endGenerator_of_headerDone hcases]
  | bodyStarted => exact absurd hcases hstate

theorem generator_step_of_end {res : AsioServerResponse δ} (hstate : res.state ≠ .bodyStarted)
    (env : Environment δ) {op : Op δ} {cb : Option (GeneratorCb δ)}
    (hop : op.generator? = some cb) :
    (step env res op).generator = cb := by
  cases op with
  | endGenerator other =>
    obtain rfl := Option.some.inj hop
    exact generator_endGenerator hstate env _
  | endString data =>
    obtain rfl := Option.some.inj hop
    exact @generator_endGenerator _ { res with payloadSize := data.length } hstate env _
  | sendDataNoEos data =>
    obtain rfl := Option.some.inj hop
    exact @generator_endGenerator _ { res with payloadSize := data.length } hstate env _
  | writeHead statusCode header => exact absurd hop (by simp [Op.generator?])
  | writeTrailer header => exact absurd hop (by simp [Op.generator?])
  | pushPromiseSent => exact absurd hop (by simp [Op.generator?])
  | callRead len flags => exact absurd hop (by simp [Op.generator?])

/-- Behind `end` neither a head nor another generator is taken. -/
theorem generator_step_of_bodyStarted {res : AsioServerResponse δ}
    (hstate : res.state = .bodyStarted) (env : Environment δ) {op : Op δ}
    (hop : op.head?.isSome = true) :
    (step env res op).generator = res.generator := by
  cases op with
  | writeHead statusCode header =>
    exact congrArg generator (writeHead_of_ne (by simp [hstate]) env statusCode header)
  | endGenerator cb => exact congrArg generator (endGenerator_of_bodyStarted hstate env cb)
  | endString data =>
    show ({ res with payloadSize := data.length }.endGenerator env _).generator = _
    rw [@endGenerator_of_bodyStarted _ { res with payloadSize := data.length } hstate]
  | sendDataNoEos data =>
    show ({ res with payloadSize := data.length }.endGenerator env _).generator = _
    rw [@endGenerator_of_bodyStarted _ { res with payloadSize := data.length } hstate]
  | writeTrailer header => exact absurd hop (by simp [Op.head?])
  | pushPromiseSent => exact absurd hop (by simp [Op.head?])
  | callRead len flags => exact absurd hop (by simp [Op.head?])

/-! ### Every sequence of calls -/

/-- The response after some calls has started at most once, when it had a head and was released, and
the head and the generator stay as the first calls have given them. -/
structure StartsOnce (env : Environment δ) (isPushed : Bool) (ops : List (Op δ)) : Prop where
  atMostOnce : (run env isPushed ops).starts.length ≤ 1
  started_iff : (run env isPushed ops).starts ≠ [] ↔
    headOf ops ≠ none ∧ (isPushed = true → ∃ op ∈ ops, op.isPromise = true)
  startedWithFirst : ∀ head ∈ (run env isPushed ops).starts, headOf ops = some head
  head : ∀ head, headOf ops = some head →
    ((run env isPushed ops).statusCode, (run env isPushed ops).header) = head
  keepsHead : headOf ops ≠ none → ∀ op : Op δ, op.head?.isSome = true →
    ((run env isPushed (ops ++ [op])).statusCode, (run env isPushed (ops ++ [op])).header) =
      ((run env isPushed ops).statusCode, (run env isPushed ops).header)
  installs : hasEnd ops = false →
    expectResponseBody env.method (run env isPushed ops).statusCode = true →
    ∀ (op : Op δ) (cb : Option (GeneratorCb δ)), op.generator? = some cb →
      (run env isPushed (ops ++ [op])).generator = cb
  keepsGenerator : hasEnd ops = true → ∀ op : Op δ, op.head?.isSome = true →
    (run env isPushed (ops ++ [op])).generator = (run env isPushed ops).generator

/-- **A response starts once and the first completion wins**, for every sequence of calls in which
a push promise is sent for a pushed response only. -/
theorem starts_once (env : Environment δ) {isPushed : Bool} (ops : List (Op δ))
    (hpromise : ∀ op ∈ ops, op.isPromise = true → isPushed = true) :
    StartsOnce env isPushed ops := by
  have htracks := tracks_run env ops hpromise
  constructor
  case atMostOnce =>
    rw [htracks.starts, startedWith]
    split_ifs
    · cases headOf ops <;> simp
    · exact Nat.zero_le 1
  case started_iff =>
    rw [htracks.starts, startedWith]
    cases headOf ops <;> cases isPushed <;> simp [released]
  case startedWithFirst =>
    intro head hhead
    rw [htracks.starts, startedWith] at hhead
    split_ifs at hhead
    · exact Option.mem_toList.mp hhead
    · exact absurd hhead List.not_mem_nil
  case head =>
    intro head hhead
    rw [htracks.head, hhead]
    rfl
  case keepsHead =>
    intro hsome op hop
    obtain ⟨head, hhead⟩ := Option.ne_none_iff_exists'.mp hsome
    have hnotPromise : op.isPromise = false := by
      cases op <;> first | rfl | exact absurd hop (by simp [Op.head?])
    have hafter := @tracks_step δ isPushed ops _ htracks env op fun h ↦
      absurd h (by simp [hnotPromise])
    rw [run_concat, hafter.head, htracks.head, headOf_concat, hhead]
    rfl
  case installs =>
    intro hnoEnd hexpect op cb hop
    rw [run_concat]
    refine generator_step_of_end (fun hstate ↦ ?_) env hop
    have hnone := awaitsEnd_run env isPushed ops hnoEnd hstate
    exact absurd (hexpect.symm.trans hnone) (by simp)
  case keepsGenerator =>
    intro hend op hop
    rw [run_concat]
    exact generator_step_of_bodyStarted (htracks.ended hend) env hop

/-- A pushed response that is completed twice before its promise is sent. -/
def completedTwice : List (Op Unit) :=
  [.writeHead 404 noFields, .endString (ascii "gone"), .writeHead 200 noFields,
    .endString (ascii "here"), .pushPromiseSent, .callRead 2 0, .pushPromiseSent]

theorem starts_once_completedTwice :
    (run getEnvironment true completedTwice).starts = [(404, noFields)] ∧
      StartsOnce getEnvironment true completedTwice :=
  ⟨rfl, starts_once getEnvironment completedTwice fun _ _ _ ↦ rfl⟩

end Maock.Response
