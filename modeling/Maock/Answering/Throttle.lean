import Maock.Answering.Template

/-!
# Throttled responses

`is_response_throttled`: a response with a positive throttle ratio is dropped when a drawn number is
below the ratio, scaled to the range of the numbers. The scaled ratio is a thread-local variable of
the function, which the first call that reaches it initialises for all responses.

`throttledAsConfigured_iff` says exactly which sequences of calls follow each response's own ratio,
and `throttlesAsConfigured_iff` for which configurations all sequences do.
-/

set_option autoImplicit false
set_option relaxedAutoImplicit false

namespace Maock.Answering

open Foundation

/-- `max_range * scale`: the drawn numbers are smaller. -/
def drawnNumbers : ℕ := 1000000

namespace H2ServerResponse

/-- `throttle_ratio > 0.` -/
def isThrottling (response : H2ServerResponse) : Prop :=
  0 < response.throttleRatio

instance (response : H2ServerResponse) : Decidable response.isThrottling :=
  inferInstanceAs (Decidable (0 < response.throttleRatio))

/-- `static_cast<uint64_t>(throttle_ratio * scale)`. -/
def scaledRatio (response : H2ServerResponse) : ℕ :=
  (response.throttleRatio * 10000).toUInt64.toNat

/-- `is_response_throttled()` with the number that it draws, and what it leaves in
`scaled_throttle_ratio`, which is empty before the first initialisation. -/
def isResponseThrottled (response : H2ServerResponse) (number : ℕ)
    (scaledThrottleRatio : Option ℕ) : Bool × Option ℕ :=
  if response.isThrottling then
    let ratio := scaledThrottleRatio.getD response.scaledRatio
    (decide (number < ratio), some ratio)
  else (false, scaledThrottleRatio)

/-- What the configuration of the response says about a number. -/
def throttledByOwnRatio (response : H2ServerResponse) (number : ℕ) : Bool :=
  decide (response.isThrottling ∧ number < response.scaledRatio)

end H2ServerResponse

open H2ServerResponse

/-- Every call of a sequence on one thread, a response with its drawn number each, returns what the
configuration of its response says. -/
def ThrottledAsConfigured (scaledThrottleRatio : Option ℕ) : List (H2ServerResponse × ℕ) → Prop
  | [] => True
  | (response, number) :: calls =>
    (response.isResponseThrottled number scaledThrottleRatio).1 =
        response.throttledByOwnRatio number ∧
      ThrottledAsConfigured (response.isResponseThrottled number scaledThrottleRatio).2 calls

/-- A number lies on the same side of two scaled ratios. -/
def SameSide (number ratio ratio' : ℕ) : Prop :=
  number < ratio ↔ number < ratio'

/-- With an initialised ratio, a call follows the configuration exactly when its number does not lie
between that ratio and the response's own. -/
theorem isResponseThrottled_some_iff (response : H2ServerResponse) (number ratio : ℕ) :
    (response.isResponseThrottled number (some ratio)).1 = response.throttledByOwnRatio number ↔
      (response.isThrottling → SameSide number ratio response.scaledRatio) := by
  unfold isResponseThrottled throttledByOwnRatio SameSide
  by_cases hratio : response.isThrottling <;> simp [hratio]

/-- A call leaves an initialised ratio as it is. -/
theorem isResponseThrottled_snd_some (response : H2ServerResponse) (number ratio : ℕ) :
    (response.isResponseThrottled number (some ratio)).2 = some ratio := by
  unfold isResponseThrottled
  by_cases hratio : response.isThrottling
  · rw [if_pos hratio]
    rfl
  · rw [if_neg hratio]

theorem throttledAsConfigured_some_iff (ratio : ℕ) (calls : List (H2ServerResponse × ℕ)) :
    ThrottledAsConfigured (some ratio) calls ↔
      ∀ call ∈ calls, call.1.isThrottling → SameSide call.2 ratio call.1.scaledRatio := by
  induction calls with
  | nil => simp [ThrottledAsConfigured]
  | cons call rest ih =>
    obtain ⟨response, number⟩ := call
    rw [ThrottledAsConfigured, isResponseThrottled_snd_some, isResponseThrottled_some_iff, ih,
      List.forall_mem_cons]

/-- The first call of a sequence that checks a positive ratio. -/
def firstThrottling (calls : List (H2ServerResponse × ℕ)) : Option H2ServerResponse :=
  (calls.find? fun call ↦ decide call.1.isThrottling).map Prod.fst

/-- The calls on a thread follow each response's own ratio exactly when every number drawn for a
response with a positive ratio lies on the same side of its scaled ratio and of the scaled ratio of
the first such response. -/
theorem throttledAsConfigured_iff (calls : List (H2ServerResponse × ℕ)) :
    ThrottledAsConfigured none calls ↔
      ∀ first ∈ firstThrottling calls, ∀ call ∈ calls, call.1.isThrottling →
        SameSide call.2 first.scaledRatio call.1.scaledRatio := by
  induction calls with
  | nil => simp [ThrottledAsConfigured, firstThrottling]
  | cons call rest ih =>
    obtain ⟨response, number⟩ := call
    rw [ThrottledAsConfigured, firstThrottling]
    by_cases hratio : response.isThrottling
    · have hsnd : (response.isResponseThrottled number none).2 = some response.scaledRatio := by
        rw [isResponseThrottled, if_pos hratio]
        rfl
      have hfst : (response.isResponseThrottled number none).1 =
          response.throttledByOwnRatio number := by
        simp [isResponseThrottled, throttledByOwnRatio, hratio]
      rw [hsnd, hfst, throttledAsConfigured_some_iff,
        List.find?_cons_of_pos (by simpa using hratio)]
      simp [SameSide]
    · have hsnd : (response.isResponseThrottled number none).2 = none := by
        rw [isResponseThrottled, if_neg hratio]
      have hfst : (response.isResponseThrottled number none).1 =
          response.throttledByOwnRatio number := by
        simp [isResponseThrottled, throttledByOwnRatio, hratio]
      rw [hsnd, hfst, ih, List.find?_cons_of_neg (by simpa using hratio), firstThrottling]
      simp [hratio]

/-! ### What a sequence of calls leaves -/

/-- What a sequence of calls leaves in `scaled_throttle_ratio`. -/
def keptRatio (calls : List (H2ServerResponse × ℕ)) : Option ℕ :=
  (firstThrottling calls).map scaledRatio

/-- The scaled ratio that a call compares its number with, behind a sequence of calls: that of the
first response with a positive ratio, and its own when there is none before it. -/
def ratioBehind (calls : List (H2ServerResponse × ℕ)) (response : H2ServerResponse) : ℕ :=
  ((firstThrottling calls).getD response).scaledRatio

theorem firstThrottling_append_singleton (calls : List (H2ServerResponse × ℕ))
    (call : H2ServerResponse × ℕ) :
    firstThrottling (calls ++ [call]) =
      (firstThrottling calls).or (if call.1.isThrottling then some call.1 else none) := by
  unfold firstThrottling
  rw [List.find?_append]
  cases calls.find? fun call ↦ decide call.1.isThrottling with
  | some first => rfl
  | none =>
    by_cases hratio : call.1.isThrottling
    · rw [List.find?_cons_of_pos (by simpa using hratio), if_pos hratio]
      rfl
    · rw [List.find?_cons_of_neg (by simpa using hratio), if_neg hratio]
      rfl

/-- A call behind others compares with the ratio of the first one. -/
theorem isResponseThrottled_keptRatio_fst (calls : List (H2ServerResponse × ℕ))
    (response : H2ServerResponse) (number : ℕ) :
    (response.isResponseThrottled number (keptRatio calls)).1 =
      decide (response.isThrottling ∧ number < ratioBehind calls response) := by
  unfold isResponseThrottled keptRatio ratioBehind
  by_cases hratio : response.isThrottling
  · cases firstThrottling calls <;> simp [hratio]
  · simp [hratio]

/-- A call behind others leaves what the whole sequence leaves. -/
theorem isResponseThrottled_keptRatio_snd (calls : List (H2ServerResponse × ℕ))
    (response : H2ServerResponse) (number : ℕ) :
    (response.isResponseThrottled number (keptRatio calls)).2 =
      keptRatio (calls ++ [(response, number)]) := by
  unfold isResponseThrottled keptRatio
  rw [firstThrottling_append_singleton]
  by_cases hratio : response.isThrottling
  · cases firstThrottling calls <;> simp [hratio]
  · cases firstThrottling calls <;> simp [hratio]

/-- A response without header fields and payload that has a throttle ratio. -/
def bareResponse (throttleRatio : Float) : H2ServerResponse where
  statusCode := 200
  additonalHeaders := []
  payload := ⟨[[]], []⟩
  hasLuaState := false
  luaOffload := false
  throttleRatio := throttleRatio
  weight := 1

/-- A call on a response that drops half of the requests makes a response that should drop one in a
hundred drop half of them, too. -/
theorem not_throttledAsConfigured_halfBefore :
    ¬ ∀ calls : List (H2ServerResponse × ℕ), (∀ call ∈ calls, call.2 < drawnNumbers) →
      ThrottledAsConfigured none calls := by
  intro h
  have hcalls := h [(bareResponse 50, 999999), (bareResponse 1, 20000)] (by decide)
  exact absurd hcalls.2.1 (by decide +kernel)

/-! ### Configurations -/

/-- Every drawn number lies on the same side of two ratios exactly when the ratios agree on the
range of the numbers. -/
theorem sameSide_iff (ratio ratio' : ℕ) :
    (∀ number < drawnNumbers, SameSide number ratio ratio') ↔
      min ratio drawnNumbers = min ratio' drawnNumbers := by
  unfold SameSide
  constructor
  · intro h
    rcases Nat.lt_trichotomy (min ratio drawnNumbers) (min ratio' drawnNumbers) with
      hlt | heq | hlt
    · have hside := h (min ratio drawnNumbers) (by omega)
      omega
    · exact heq
    · have hside := h (min ratio' drawnNumbers) (by omega)
      omega
  · intro h number hnumber
    omega

/-- All sequences of calls on the responses of a configuration follow each response's own ratio
exactly when all positive ratios of the configuration agree after scaling. -/
theorem throttlesAsConfigured_iff (responses : List H2ServerResponse) :
    (∀ calls : List (H2ServerResponse × ℕ),
      (∀ call ∈ calls, call.1 ∈ responses ∧ call.2 < drawnNumbers) →
        ThrottledAsConfigured none calls) ↔
      ∀ first ∈ responses, first.isThrottling → ∀ response ∈ responses, response.isThrottling →
        min first.scaledRatio drawnNumbers = min response.scaledRatio drawnNumbers := by
  constructor
  · intro h first hfirst hthrottling response hresponse hratio
    refine (sameSide_iff _ _).mp fun number hnumber ↦ ?_
    have hcalls := h [(first, 0), (response, number)] fun call hcall ↦ ?_
    · have hsnd : (first.isResponseThrottled 0 none).2 = some first.scaledRatio := by
        rw [isResponseThrottled, if_pos hthrottling]
        rfl
      have hrest := hcalls.2
      rw [hsnd, throttledAsConfigured_some_iff] at hrest
      exact hrest (response, number) List.mem_cons_self hratio
    · rcases List.mem_cons.mp hcall with rfl | hcall
      · exact ⟨hfirst, Nat.succ_pos _⟩
      · obtain rfl := List.mem_singleton.mp hcall
        exact ⟨hresponse, hnumber⟩
  · intro h calls hcalls
    induction calls with
    | nil => trivial
    | cons call rest ih =>
      obtain ⟨response, number⟩ := call
      obtain ⟨hcall, hrest⟩ := List.forall_mem_cons.mp hcalls
      rw [ThrottledAsConfigured]
      by_cases hratio : response.isThrottling
      · refine ⟨by simp [isResponseThrottled, throttledByOwnRatio, hratio], ?_⟩
        rw [isResponseThrottled, if_pos hratio]
        refine (throttledAsConfigured_some_iff _ _).mpr fun later hlater hthrottling ↦ ?_
        exact (sameSide_iff _ _).mpr
          (h response hcall.1 hratio later.1 (hrest later hlater).1 hthrottling)
          later.2 (hrest later hlater).2
      · rw [isResponseThrottled, if_neg hratio]
        exact ⟨by simp [throttledByOwnRatio, hratio], ih hrest⟩

end Maock.Answering
