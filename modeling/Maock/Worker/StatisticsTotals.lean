import Maock.Foundation.Narrowing
import Maock.Worker.Statistics

/-!
# The totals of the statistics

The loop of `start_statistic_thread`: in every period the counters of all threads are added up, the
totals are compared with those of the last period, and what has changed is reported.

The sums go through `std::accumulate` with the initial value `0`, which is an `int`. So a total is
the sum of its counters exactly when the ranges of an `int` that are lost on the way add up to a
multiple of 2^64 (`get_totals_iff`), and the loop counts right in every period exactly when this
holds in every period (`statsFunc_right_iff`).
-/

set_option autoImplicit false
set_option relaxedAutoImplicit false

namespace Maock.Worker

open Foundation Foundation.Bytes Foundation.Narrowing Foundation.RaggedTable

/-! ### The counters of all threads -/

/-- What the loop reads in a period: the counters of every thread, and those of every response by
request, response and thread. -/
structure Counters where
  totalReqsReceived : List ℕ
  totalUnMatchedResponses : List ℕ
  respStats : List (List (List ResponseStatistics))

/-- The values with `_till_now`, which the next period keeps as those with `_till_last`. -/
structure Totals where
  respSent : List (List ℕ)
  respThrottled : List (List ℕ)
  totalReqReceived : ℕ
  totalRespSent : ℕ
  totalRespThrottled : ℕ
  totalUnmatchedResponses : ℕ

/-- `uint64_t total = std::accumulate(counters.begin(), counters.end(), 0)`. -/
def accumulateInt (counters : List ℕ) : ℕ :=
  toUnsigned (2 ^ 64) (accumulate (2 ^ 64) (2 ^ 32) counters)

/-- One counter of all responses, added up over the threads. -/
def respTotals (counter : ResponseCounter) (respStats : List (List (List ResponseStatistics))) :
    List (List ℕ) :=
  respStats.map fun responses ↦ responses.map fun threads ↦
    accumulateInt (threads.map fun cell ↦ cell.value counter)

/-- The totals of a period. The loops over the responses add up what they have got for each. -/
def Counters.totals (c : Counters) : Totals where
  respSent := respTotals .responseSent c.respStats
  respThrottled := respTotals .responseThrottled c.respStats
  totalReqReceived := accumulateInt c.totalReqsReceived
  totalRespSent := sumModulo (2 ^ 64) (respTotals .responseSent c.respStats).flatten
  totalRespThrottled := sumModulo (2 ^ 64) (respTotals .responseThrottled c.respStats).flatten
  totalUnmatchedResponses := accumulateInt c.totalUnMatchedResponses

/-! ### Reports -/

/-- A difference of two `uint64_t`. -/
def difference (now last : ℕ) : ℕ :=
  toUnsigned (2 ^ 64) (now - last)

/-- `((now - last) * std::milli::den) / period_duration`. -/
def perSecond (now last periodDuration : ℕ) : ℕ :=
  difference now last * 1000 % 2 ^ 64 / periodDuration

/-- A line of a report. The throttled columns of the last one have no numbers. -/
structure Row where
  reqName : Bytes
  respName : Bytes
  msgTotal : ℕ
  throttledTotal : Option ℕ
  rps : ℕ
  throttledRps : Option ℕ

/-- A report: whether the line with the names of the columns stands first, and the lines. -/
structure Report where
  header : Bool
  responses : List Row
  sum : Row
  unmatched : Row

/-- The names in the configuration: those of the requests, each with those of its responses. -/
abbrev ServiceNames := List (Bytes × List Bytes)

/-- The line of a response. -/
def responseRow (last now : Totals) (periodDuration : ℕ) (reqName respName : Bytes)
    (reqIndex respIndex : ℕ) : Row :=
  let value (table : List (List ℕ)) : ℕ := (cell? table reqIndex respIndex).getD 0
  { reqName := reqName
    respName := respName
    msgTotal := value now.respSent
    throttledTotal := some (value now.respThrottled)
    rps := perSecond (value now.respSent) (value last.respSent) periodDuration
    throttledRps :=
      some (perSecond (value now.respThrottled) (value last.respThrottled) periodDuration) }

/-- The report of a period that took this many milliseconds. -/
def report (service : ServiceNames) (counter : ℕ) (last now : Totals) (periodDuration : ℕ) :
    Report where
  header := counter % 10 = 0
  responses := service.zipIdx.flatMap fun (request, reqIndex) ↦
    request.2.zipIdx.map fun (respName, respIndex) ↦
      responseRow last now periodDuration request.1 respName reqIndex respIndex
  sum :=
    { reqName := ascii "SUM"
      respName := ascii "SUM"
      msgTotal := now.totalRespSent
      throttledTotal := some now.totalRespThrottled
      rps := perSecond now.totalRespSent last.totalRespSent periodDuration
      throttledRps :=
        some (perSecond now.totalRespThrottled last.totalRespThrottled periodDuration) }
  unmatched :=
    { reqName := ascii "UNMATCHED"
      respName := ascii "---"
      msgTotal := now.totalUnmatchedResponses
      throttledTotal := none
      rps := perSecond now.totalUnmatchedResponses last.totalUnmatchedResponses periodDuration
      throttledRps := none }

/-- What a period leaves: the totals of the last one and its own, and a report if something was
received or answered. -/
structure Period where
  last : Totals
  now : Totals
  report : Option Report

/-- One turn of the loop. -/
def period (service : ServiceNames) (counter : ℕ) (last : Totals) (c : Counters)
    (periodDuration : ℕ) : Period :=
  let now := c.totals
  let deltaReqReceived := difference now.totalReqReceived last.totalReqReceived
  let deltaResp := toUnsigned (2 ^ 64) (now.totalRespSent + now.totalRespThrottled -
    last.totalRespSent - last.totalRespThrottled)
  { last := last
    now := now
    report :=
      if deltaReqReceived = 0 ∧ deltaResp = 0 then none
      else some (report service counter last now periodDuration) }

/-- The loop, for the counters that it reads in each period and the time that the period takes. -/
def periodsFrom (service : ServiceNames) : ℕ → Totals → List (Counters × ℕ) → List Period
  | _, _, [] => []
  | counter, last, (c, periodDuration) :: rest =>
    period service counter last c periodDuration ::
      periodsFrom service ((counter + 1) % 2 ^ 64) c.totals rest

/-- The totals before the first period. -/
def noTotals (service : ServiceNames) : Totals where
  respSent := constant 0 (service.map fun request ↦ request.2.length)
  respThrottled := constant 0 (service.map fun request ↦ request.2.length)
  totalReqReceived := 0
  totalRespSent := 0
  totalRespThrottled := 0
  totalUnmatchedResponses := 0

/-- `stats_func`. -/
def statsFunc (service : ServiceNames) (snapshots : List (Counters × ℕ)) : List Period :=
  periodsFrom service 0 (noTotals service) snapshots

/-! ### Totals and sums -/

/-- The totals of a period. -/
inductive TotalKind where
  | received
  | unmatched
  | sent
  | throttled
  deriving DecidableEq

/-- A total of a period. -/
def Totals.get (totals : Totals) : TotalKind → ℕ
  | .received => totals.totalReqReceived
  | .unmatched => totals.totalUnmatchedResponses
  | .sent => totals.totalRespSent
  | .throttled => totals.totalRespThrottled

namespace Counters

/-- One counter of every response, each by thread. -/
def responseCounters (c : Counters) (counter : ResponseCounter) : List (List ℕ) :=
  c.respStats.flatten.map fun threads ↦ threads.map fun cell ↦ cell.value counter

/-- The counters of a total, in the groups that `std::accumulate` adds up. -/
def groups (c : Counters) : TotalKind → List (List ℕ)
  | .received => [c.totalReqsReceived]
  | .unmatched => [c.totalUnMatchedResponses]
  | .sent => c.responseCounters .responseSent
  | .throttled => c.responseCounters .responseThrottled

/-- The counters of a total. -/
def counters (c : Counters) (kind : TotalKind) : List ℕ :=
  (c.groups kind).flatten

/-- The ranges of an `int` that the groups of a total pass, each counted from the middle of a range,
are a multiple of 2^32. -/
def Exact (c : Counters) (kind : TotalKind) : Prop :=
  2 ^ 32 ∣ ((c.groups kind).map fun group ↦ (group.sum + 2 ^ 31) / 2 ^ 32).sum

instance (c : Counters) (kind : TotalKind) : Decidable (c.Exact kind) :=
  inferInstanceAs (Decidable (_ ∣ _))

end Counters

theorem accumulateInt_eq (counters : List ℕ) :
    accumulateInt counters = narrowed (2 ^ 64) (2 ^ 32) counters.sum := by
  rw [accumulateInt, accumulate_eq (Nat.pow_dvd_pow 2 (by decide)), narrowed]

theorem sumModulo_singleton (counters : List ℕ) :
    sumModulo (2 ^ 64) [accumulateInt counters] = accumulateInt counters := by
  rw [sumModulo_eq, List.sum_singleton]
  refine Nat.mod_eq_of_lt ?_
  unfold accumulateInt toUnsigned
  omega

theorem flatten_respTotals (c : Counters) (counter : ResponseCounter) :
    (respTotals counter c.respStats).flatten =
      (c.responseCounters counter).map accumulateInt := by
  rw [respTotals, Counters.responseCounters, List.map_flatten, List.map_flatten]
  simp [Function.comp_def]

/-- A total adds up its groups, each of which went through an `int`. -/
theorem get_totals (c : Counters) (kind : TotalKind) :
    c.totals.get kind = sumModulo (2 ^ 64) ((c.groups kind).map accumulateInt) := by
  cases kind with
  | received => exact (sumModulo_singleton _).symm
  | unmatched => exact (sumModulo_singleton _).symm
  | sent => exact congrArg _ (flatten_respTotals c .responseSent)
  | throttled => exact congrArg _ (flatten_respTotals c .responseThrottled)

/-- The ranges of an `int` that a sum passes. -/
theorem bdiv_eq (sum : ℕ) : (sum : ℤ).bdiv (2 ^ 32) = ((sum + 2 ^ 31) / 2 ^ 32 : ℕ) := by
  unfold Int.bdiv
  rw [if_neg (by omega)]
  dsimp only
  split_ifs <;> omega

theorem lost_eq (sums : List ℕ) :
    lost (2 ^ 32) sums = ((sums.map fun sum ↦ (sum + 2 ^ 31) / 2 ^ 32).sum : ℕ) := by
  induction sums with
  | nil => rfl
  | cons sum sums ih =>
    have hlost : lost (2 ^ 32) (sum :: sums) = (sum : ℤ).bdiv (2 ^ 32) + lost (2 ^ 32) sums :=
      List.sum_cons
    rw [hlost, bdiv_eq, ih, List.map_cons, List.sum_cons, Int.natCast_add]

/-- A total is the sum of its counters modulo 2^64 exactly when nothing of it is lost. -/
theorem get_totals_iff (c : Counters) (kind : TotalKind) :
    c.totals.get kind = (c.counters kind).sum % 2 ^ 64 ↔ c.Exact kind := by
  have hsums : (c.groups kind).map accumulateInt =
      ((c.groups kind).map List.sum).map (narrowed (2 ^ 64) (2 ^ 32)) := by
    rw [List.map_map]
    refine List.map_congr_left fun group _ ↦ ?_
    rw [accumulateInt_eq, Function.comp_apply]
  have hsum : (c.counters kind).sum = ((c.groups kind).map List.sum).sum := List.sum_flatten
  rw [get_totals, hsums, hsum, sumModulo_narrowed_iff (Nat.two_pow_pos 64), lost_eq, List.map_map,
    Counters.Exact]
  have hwide : (2 : ℕ) ^ 64 = 2 ^ 32 * 2 ^ 32 := Nat.pow_add 2 32 32
  rw [← Int.natCast_mul, Int.natCast_dvd_natCast, hwide]
  exact Nat.mul_dvd_mul_iff_left (Nat.two_pow_pos 32)

/-! ### Period after period -/

/-- What a period has to do behind another one: its totals are the sums of the counters modulo 2^64,
and for counters that have not decreased, with sums below 2^64, no total decreases and every
difference is the sum of the increments. -/
structure CountsRight (last now : Counters) (p : Period) : Prop where
  totals : ∀ kind, p.now.get kind = (now.counters kind).sum % 2 ^ 64
  increments : (∀ kind, List.Forall₂ (· ≤ ·) (last.counters kind) (now.counters kind)) →
    (∀ kind, (now.counters kind).sum < 2 ^ 64) →
    ∀ kind, p.last.get kind ≤ p.now.get kind ∧
      difference (p.now.get kind) (p.last.get kind) =
        (List.zipWith (· - ·) (now.counters kind) (last.counters kind)).sum

/-- Every period counts right, the first one behind the counters at the start. -/
def RunCountsRight (service : ServiceNames) (start : Counters) (snapshots : List (Counters × ℕ)) :
    Prop :=
  List.Forall₂ (fun lastAndNow p ↦ CountsRight lastAndNow.1 lastAndNow.2 p)
    ((start :: snapshots.map Prod.fst).zip (snapshots.map Prod.fst)) (statsFunc service snapshots)

/-- The increments of counters that do not decrease are the difference of their sums. -/
theorem sum_le_and_sum_zipWith {last now : List ℕ} (hle : List.Forall₂ (· ≤ ·) last now) :
    last.sum ≤ now.sum ∧ (List.zipWith (· - ·) now last).sum = now.sum - last.sum := by
  induction hle with
  | nil => exact ⟨Nat.le_refl 0, rfl⟩
  | cons hcounter _ ih =>
    rw [List.zipWith_cons_cons, List.sum_cons, List.sum_cons, List.sum_cons]
    omega

theorem difference_of_le {now last : ℕ} (hle : last ≤ now) (hlt : now < 2 ^ 64) :
    difference now last = now - last := by
  unfold difference toUnsigned
  omega

/-- Totals that are the sums give the increments. -/
theorem countsRight_of_totals {last now : Counters} {p : Period}
    (hlast : ∀ kind, p.last.get kind = (last.counters kind).sum % 2 ^ 64)
    (hnow : ∀ kind, p.now.get kind = (now.counters kind).sum % 2 ^ 64) :
    CountsRight last now p where
  totals := hnow
  increments := by
    intro hle hlt kind
    obtain ⟨hsum, hincrements⟩ := sum_le_and_sum_zipWith (hle kind)
    have hnowSum := Nat.mod_eq_of_lt (hlt kind)
    have hlastSum := Nat.mod_eq_of_lt (Nat.lt_of_le_of_lt hsum (hlt kind))
    rw [hnow, hlast, hnowSum, hlastSum, hincrements]
    exact ⟨hsum, difference_of_le hsum (hlt kind)⟩

/-- Behind right totals, all periods count right exactly when none of them loses something. -/
theorem periodsFrom_countsRight_iff (service : ServiceNames) (counter : ℕ) (last : Counters)
    (lastTotals : Totals) (hlast : ∀ kind, lastTotals.get kind = (last.counters kind).sum % 2 ^ 64)
    (snapshots : List (Counters × ℕ)) :
    List.Forall₂ (fun lastAndNow p ↦ CountsRight lastAndNow.1 lastAndNow.2 p)
        ((last :: snapshots.map Prod.fst).zip (snapshots.map Prod.fst))
        (periodsFrom service counter lastTotals snapshots) ↔
      ∀ snapshot ∈ snapshots, ∀ kind, snapshot.1.Exact kind := by
  induction snapshots generalizing counter last lastTotals with
  | nil => simp [periodsFrom]
  | cons snapshot rest ih =>
    obtain ⟨now, periodDuration⟩ := snapshot
    rw [List.forall_mem_cons, List.map_cons, List.zip_cons_cons, periodsFrom, List.forall₂_cons]
    constructor
    · rintro ⟨hright, hrest⟩
      exact ⟨fun kind ↦ (get_totals_iff now kind).mp (hright.totals kind),
        (ih _ now now.totals hright.totals).mp hrest⟩
    · rintro ⟨hexact, hrest⟩
      have hnow (kind : TotalKind) := (get_totals_iff now kind).mpr (hexact kind)
      exact ⟨countsRight_of_totals hlast hnow, (ih _ now now.totals hnow).mpr hrest⟩

/-- **The statistics count right in every period** exactly when no total of any period loses
something in an `int`. -/
theorem statsFunc_right_iff (service : ServiceNames) {start : Counters}
    (hstart : ∀ kind, ∀ n ∈ start.counters kind, n = 0) (snapshots : List (Counters × ℕ)) :
    RunCountsRight service start snapshots ↔
      ∀ snapshot ∈ snapshots, ∀ kind, snapshot.1.Exact kind := by
  refine periodsFrom_countsRight_iff service 0 start (noTotals service) (fun kind ↦ ?_) snapshots
  have hzero : (start.counters kind).sum = 0 := List.sum_eq_zero (hstart kind)
  rw [hzero]
  cases kind <;> rfl

/-- The counters of two threads that have received this many requests each, and of one response. -/
def twoThreads (received : ℕ) : Counters where
  totalReqsReceived := [received, received]
  totalUnMatchedResponses := [0, 0]
  respStats := [[[⟨received, 0⟩, ⟨received, 0⟩]]]

theorem statsFunc_right_twoThreads :
    RunCountsRight [(ascii "req", [ascii "resp"])] (twoThreads 0)
      [(twoThreads 5, 1000), (twoThreads 7, 1000)] := by
  refine (@statsFunc_right_iff _ (twoThreads 0) ?_ _).mpr ?_
  · intro kind
    cases kind <;> decide
  · intro snapshot hsnapshot kind
    rcases List.mem_pair.mp hsnapshot with rfl | rfl
    · cases kind <;> decide
    · cases kind <;> decide

/-- 2^30 requests for each thread are 2^31 together. -/
theorem not_statsFunc_right_twoThreads :
    (twoThreads (2 ^ 30)).totals.totalReqReceived = 2 ^ 64 - 2 ^ 31 ∧
      ¬ RunCountsRight [(ascii "req", [ascii "resp"])] (twoThreads 0)
        [(twoThreads (2 ^ 30), 1000)] := by
  refine ⟨by decide, fun h ↦ ?_⟩
  have htotal := (List.forall₂_cons.mp h).1.totals .received
  have hexact := (get_totals_iff (twoThreads (2 ^ 30)) .received).mp htotal
  exact absurd hexact (by decide)

end Maock.Worker
