import KoordQueue.JobExt.Conditions
import KoordQueue.Lib.Machine
import Mathlib.Algebra.Order.Ring.Int

namespace KoordQueue.JobExt.Backoff

open Api Records
open Conditions (Features second)

abbrev Duration := Int64

def defaultBackoffBase : Duration := 10000000000
def maxBackoffDuration : Duration := 900000000000

/-- The loop of `backoffDelay`, with the number of rounds that it has left. -/
def doubled : Nat → Duration → Duration
  | 0, delay => delay
  | n + 1, delay => if delay * 2 ≥ maxBackoffDuration then delay * 2 else doubled n (delay * 2)

def factors : Nat → Duration → List Duration
  | 0, _ => []
  | n + 1, delay => delay :: if delay * 2 ≥ maxBackoffDuration then [] else factors n (delay * 2)

/-- `jitter` is the random share. -/
def backoffDelay (base : Duration) (attempt : Int32) (jitter : Duration) : Duration :=
  let base := if base ≤ 0 then defaultBackoffBase else base
  let delay := doubled (attempt.toInt - 1).toNat base
  let delay := if delay > maxBackoffDuration then maxBackoffDuration else delay
  let delay := delay + jitter
  if delay ≤ 0 then base else delay

def recordQueueUnitRequeueState (f : Features) (base : Duration) (now : Time) (jitter : Duration)
    (qu : JobUnit) : JobUnit × Duration :=
  if f.queueUnitRequeueState then
    let attempt : Int32 := (qu.requeueState.map (fun r => r.count + 1)).getD 1
    let delay := backoffDelay base attempt jitter
    ({ qu with requeueState := some { count := attempt, requeueAt := some (now + delay.toInt) } }, delay)
  else (qu, 0)

/-- `Time.Sub`, which stays within a duration. -/
def sub (t u : Time) : Duration := Int64.ofInt (max (-2 ^ 63) (min (t - u) (2 ^ 63 - 1)))

def zeroTime : Time := -62135596800 * second

def queueUnitRequeueBackoffElapsed (f : Features) (flatBackoff : Duration) (now : Time) (qu : JobUnit) :
    Bool × Duration :=
  match f.queueUnitRequeueState, qu.requeueState.bind RequeueState.requeueAt with
  | true, some requeueAt => if now < requeueAt then (false, sub requeueAt now) else (true, 0)
  | _, _ =>
    let waited := sub now (qu.status.lastUpdateTime.getD zeroTime)
    if waited ≥ flatBackoff then (true, 0) else (false, flatBackoff - waited)

def recordAll (f : Features) (base : Duration) (calls : List (Time × Duration)) (qu : JobUnit) : JobUnit :=
  calls.foldl (fun qu call => (recordQueueUnitRequeueState f base call.1 call.2 qu).1) qu

/-- The delay of the `n`-th backoff without the jitter. -/
def nominal (base : Int) (n : Nat) : Int := min (base * 2 ^ (n - 1)) Conditions.maxBackoffDuration

theorem toInt_maxBackoffDuration : maxBackoffDuration.toInt = Conditions.maxBackoffDuration := rfl

theorem toInt_double {delay : Duration} (hpos : 0 < delay.toInt) (hlt : delay.toInt < 2 ^ 62) :
    (delay * 2).toInt = 2 * delay.toInt := by
  rw [Machine.toInt_mul_of_fits]
  all_goals
    have htwo : (2 : Int64).toInt = 2 := rfl
    rw [htwo]
    omega

theorem ge_maxBackoffDuration (delay : Duration) :
    delay ≥ maxBackoffDuration ↔ delay.toInt ≥ Conditions.maxBackoffDuration := by
  rw [← toInt_maxBackoffDuration]
  exact Int64.le_iff_toInt_le

theorem toInt_doubled (n : Nat) {delay : Duration} (hpos : 0 < delay.toInt) (hlt : delay.toInt < 2 ^ 62) :
    (doubled n delay).toInt = Conditions.doubled n delay.toInt ∧
      ∀ d ∈ factors n delay, (d * 2).toInt = 2 * d.toInt := by
  induction n generalizing delay with
  | zero => exact ⟨rfl, fun d hd => by cases hd⟩
  | succ n ih =>
    have hdouble := toInt_double hpos hlt
    rw [doubled, factors, Conditions.doubled]
    simp only [ge_maxBackoffDuration, hdouble, List.forall_mem_cons]
    split
    next => exact ⟨hdouble, trivial, fun d hd => by cases hd⟩
    next hmax =>
      have hnext : (delay * 2).toInt < 2 ^ 62 := by
        rw [hdouble]
        rw [Conditions.maxBackoffDuration, second] at hmax
        omega
      obtain ⟨hsame, hfactors⟩ := ih (by omega) hnext
      rw [hdouble] at hsame
      exact ⟨hsame, trivial, hfactors⟩

theorem min_doubled (n : Nat) {delay : Int} (hpos : 0 < delay) :
    min (Conditions.doubled n delay) Conditions.maxBackoffDuration =
      min (delay * 2 ^ n) Conditions.maxBackoffDuration := by
  induction n generalizing delay with
  | zero => rw [Conditions.doubled, pow_zero, mul_one]
  | succ n ih =>
    have hpow : delay * 2 ^ (n + 1) = 2 * delay * 2 ^ n := by
      rw [pow_succ', ← mul_assoc, mul_comm delay]
    rw [Conditions.doubled, hpow]
    split
    next hmax =>
      have hle : 2 * delay ≤ 2 * delay * 2 ^ n := le_mul_of_one_le_right (by omega) (one_le_pow₀ (by omega))
      rw [min_eq_right hmax, min_eq_right (hmax.trans hle)]
    next => exact ih (by omega)

def baseOrDefault (base : Duration) : Duration := if base ≤ 0 then defaultBackoffBase else base

theorem baseOrDefault_bounds {base : Duration} (hlt : base.toInt < 2 ^ 62) :
    0 < (baseOrDefault base).toInt ∧ (baseOrDefault base).toInt < 2 ^ 62 := by
  rw [baseOrDefault]
  split
  next => decide
  next hbase =>
    rw [Int64.le_iff_toInt_le, Int64.toInt_zero] at hbase
    exact ⟨by omega, hlt⟩

theorem toInt_baseOrDefault (base : Duration) :
    (baseOrDefault base).toInt = if base.toInt ≤ 0 then Conditions.defaultBackoffBase else base.toInt := by
  rw [baseOrDefault]
  simp only [Int64.le_iff_toInt_le, Int64.toInt_zero]
  split <;> rfl

theorem nominal_bounds {base : Int} (hpos : 0 < base) (n : Nat) :
    0 < nominal base n ∧ nominal base n ≤ Conditions.maxBackoffDuration :=
  ⟨lt_min (mul_pos hpos (pow_pos (by omega) _)) (by decide), min_le_right _ _⟩

def capped (delay : Duration) : Duration := if delay > maxBackoffDuration then maxBackoffDuration else delay

theorem backoffDelay_eq (base : Duration) (attempt : Int32) (jitter : Duration) :
    backoffDelay base attempt jitter =
      if capped (doubled (attempt.toInt - 1).toNat (baseOrDefault base)) + jitter ≤ 0 then baseOrDefault base
      else capped (doubled (attempt.toInt - 1).toNat (baseOrDefault base)) + jitter := rfl

theorem toInt_capped (delay : Duration) : (capped delay).toInt = min delay.toInt Conditions.maxBackoffDuration := by
  rw [capped, ← toInt_maxBackoffDuration]
  split
  next h => rw [min_eq_right (Int64.lt_iff_toInt_lt.mp h).le]
  next h => rw [min_eq_left (Int64.le_iff_toInt_le.mp (Int64.not_lt.mp h))]

theorem unbounded_backoffDelay {base jitter first : Int} {attempt : Int32}
    (hfirst : first = if base ≤ 0 then Conditions.defaultBackoffBase else base)
    (hjitter : 10 * |jitter| ≤ nominal first attempt.toInt.toNat) :
    Conditions.backoffDelay base attempt jitter = nominal first attempt.toInt.toNat + jitter := by
  have hpos : 0 < first := by
    rw [hfirst]
    split
    next => decide
    next h => omega
  obtain ⟨hnominal, -⟩ := nominal_bounds hpos attempt.toInt.toNat
  have hrounds : (attempt.toInt - 1).toNat = attempt.toInt.toNat - 1 := by omega
  have hdelay : min (Conditions.doubled (attempt.toInt - 1).toNat first) Conditions.maxBackoffDuration =
      nominal first attempt.toInt.toNat := by
    rw [min_doubled _ hpos, hrounds]
    rfl
  have hlow := neg_abs_le jitter
  have hpositive : ¬ nominal first attempt.toInt.toNat + jitter ≤ 0 := by omega
  rw [Conditions.backoffDelay, ← hfirst]
  simp only [hdelay]
  exact if_neg hpositive

section

variable {base : Duration} {attempt : Int32} {jitter : Duration} (hlt : base.toInt < 2 ^ 62)
  (hjitter : 10 * |jitter.toInt| ≤ nominal (baseOrDefault base).toInt attempt.toInt.toNat)

include hlt hjitter

theorem toInt_backoffDelay :
    (backoffDelay base attempt jitter).toInt =
      nominal (baseOrDefault base).toInt attempt.toInt.toNat + jitter.toInt := by
  obtain ⟨hpos, hbase⟩ := baseOrDefault_bounds hlt
  obtain ⟨hnominal, hmax⟩ := nominal_bounds hpos attempt.toInt.toNat
  rw [Conditions.maxBackoffDuration, second] at hmax
  have hrounds : (attempt.toInt - 1).toNat = attempt.toInt.toNat - 1 := by omega
  have hdelay : (capped (doubled (attempt.toInt - 1).toNat (baseOrDefault base))).toInt =
      nominal (baseOrDefault base).toInt attempt.toInt.toNat := by
    rw [toInt_capped, (toInt_doubled _ hpos hbase).1, min_doubled _ hpos, hrounds]
    rfl
  have hlow := neg_abs_le jitter.toInt
  have hhigh := le_abs_self jitter.toInt
  have hsum := Machine.toInt_add_of_fits
    (a := capped (doubled (attempt.toInt - 1).toNat (baseOrDefault base))) (b := jitter)
    (by rw [hdelay]; omega) (by rw [hdelay]; omega)
  rw [hdelay] at hsum
  rw [backoffDelay_eq, if_neg, hsum]
  rw [Int64.le_iff_toInt_le, Int64.toInt_zero, hsum]
  omega

theorem backoffDelay_refines :
    (backoffDelay base attempt jitter).toInt = Conditions.backoffDelay base.toInt attempt jitter.toInt := by
  rw [toInt_backoffDelay hlt hjitter, unbounded_backoffDelay (toInt_baseOrDefault base) hjitter]

end

def backoffs (qu : JobUnit) : Int32 := (qu.requeueState.map RequeueState.count).getD 0

theorem attempt_eq (qu : JobUnit) : (qu.requeueState.map (fun r => r.count + 1)).getD 1 = backoffs qu + 1 := by
  rw [backoffs]
  cases qu.requeueState <;> rfl

section

variable {f : Features} (hf : f.queueUnitRequeueState = true)

include hf

theorem record_enabled (base : Duration) (now : Time) (jitter : Duration) (qu : JobUnit) :
    recordQueueUnitRequeueState f base now jitter qu =
      ({ qu with
          requeueState :=
            some ⟨backoffs qu + 1, some (now + (backoffDelay base (backoffs qu + 1) jitter).toInt)⟩ },
        backoffDelay base (backoffs qu + 1) jitter) := by
  rw [recordQueueUnitRequeueState, if_pos hf, attempt_eq]

theorem backoffs_recordAll (base : Duration) (calls : List (Time × Duration)) (qu : JobUnit) :
    backoffs (recordAll f base calls qu) = backoffs qu + Int32.ofNat calls.length := by
  induction calls generalizing qu with
  | nil => exact (Int32.add_zero _).symm
  | cons call calls ih =>
    have hcall : backoffs (recordQueueUnitRequeueState f base call.1 call.2 qu).1 = backoffs qu + 1 := by
      rw [record_enabled hf]
      rfl
    rw [recordAll, List.foldl_cons, ← recordAll, ih, hcall, List.length_cons, Nat.add_comm calls.length,
      Int32.ofNat_add, ← Int32.add_assoc]
    rfl

theorem elapsed_enabled (flatBackoff : Duration) (t : Time) {qu : JobUnit} {count : Int32} {requeueAt : Time}
    (hqu : qu.requeueState = some { count, requeueAt := some requeueAt }) :
    queueUnitRequeueBackoffElapsed f flatBackoff t qu =
      if t < requeueAt then (false, sub requeueAt t) else (true, 0) := by
  rw [queueUnitRequeueBackoffElapsed, hf, hqu]
  rfl

end

variable {base : Duration} {t : Int} {qu : JobUnit}

theorem toInt_sub_of_lt {u : Int} (h : u < t) : (sub t u).toInt = min (t - u) (2 ^ 63 - 1) := by
  have hpos : 0 < min (t - u) (2 ^ 63 - 1) := lt_min (by omega) (by omega)
  have hle : min (t - u) (2 ^ 63 - 1) ≤ 2 ^ 63 - 1 := min_le_right _ _
  rw [sub, max_eq_right (by omega)]
  exact Int64.toInt_ofInt_of_le (by omega) (by omega)

theorem wait_le {now : Int} (h : now ≤ t) (delay : Int) : now + delay - t ≤ delay := by
  omega

theorem record_refines (f : Features) (hlt : base.toInt < 2 ^ 62) (now : Time) {jitter : Duration}
    (hjitter : 10 * |jitter.toInt| ≤ nominal (baseOrDefault base).toInt (backoffs qu + 1).toInt.toNat) :
    (recordQueueUnitRequeueState f base now jitter qu).1 =
      Conditions.recordQueueUnitRequeueState f base.toInt now jitter.toInt qu := by
  rw [recordQueueUnitRequeueState, Conditions.recordQueueUnitRequeueState, attempt_eq]
  split
  next =>
    dsimp only
    rw [← backoffDelay_refines hlt hjitter]
  next => rfl

theorem elapsed_refines {f : Features} (hf : f.queueUnitRequeueState = true) (flatBackoff : Duration) (t : Time)
    {count : Int32} {requeueAt : Time} (hqu : qu.requeueState = some { count, requeueAt := some requeueAt }) :
    (queueUnitRequeueBackoffElapsed f flatBackoff t qu).1 =
      Conditions.queueUnitRequeueBackoffElapsed f flatBackoff.toInt t qu := by
  have hend : Conditions.backoffEnd f flatBackoff.toInt qu = some requeueAt := by
    rw [Conditions.backoffEnd, hf, hqu]
    rfl
  rw [elapsed_enabled hf flatBackoff t hqu, Conditions.queueUnitRequeueBackoffElapsed, hend]
  split
  next h => exact (decide_eq_false (not_le.mpr h)).symm
  next h => exact (decide_eq_true (not_lt.mp h)).symm

theorem baseOrDefault_of_pos (hpos : 0 < base.toInt) : baseOrDefault base = base := by
  rw [baseOrDefault, if_neg]
  rw [Int64.le_iff_toInt_le, Int64.toInt_zero]
  omega

/-- The last of `n` calls in a row records the count `n` and a delay within a tenth of the base doubled
`n - 1` times, or of the cap. No product overflows. The wait is over at the recorded moment and not
before, and until then the answer is what is left of it, as far as a duration goes. -/
theorem backoff_grows_to_cap (f : Features) (hf : f.queueUnitRequeueState = true) (base : Duration)
    (hpos : 0 < base.toInt) (hbase : base.toInt < 2 ^ 62) (qu : JobUnit) (hqu : qu.requeueState = none)
    (earlier : List (Time × Duration)) (n : Nat) (hn : n = earlier.length + 1) (hcount : n < 2 ^ 31)
    (now : Time) (jitter : Duration) (hjitter : 10 * |jitter.toInt| ≤ nominal base.toInt n) :
    ∃ (recorded : JobUnit) (delay : Duration) (count : Int32) (requeueAt : Time),
      recordQueueUnitRequeueState f base now jitter (recordAll f base earlier qu) = (recorded, delay) ∧
      recorded.requeueState = some { count, requeueAt := some requeueAt } ∧
      count.toInt = n ∧ requeueAt = now + delay.toInt ∧
      10 * |delay.toInt - nominal base.toInt n| ≤ nominal base.toInt n ∧ 0 < delay.toInt ∧
      (∀ d ∈ factors (n - 1) base, (d * 2).toInt = 2 * d.toInt) ∧
      ∀ (flatBackoff : Duration) (t : Time),
        (t < requeueAt →
          (queueUnitRequeueBackoffElapsed f flatBackoff t recorded).1 = false ∧
          (queueUnitRequeueBackoffElapsed f flatBackoff t recorded).2.toInt =
            min (requeueAt - t) (2 ^ 63 - 1) ∧
          (now ≤ t → (queueUnitRequeueBackoffElapsed f flatBackoff t recorded).2.toInt = requeueAt - t)) ∧
        (requeueAt ≤ t → queueUnitRequeueBackoffElapsed f flatBackoff t recorded = (true, 0)) := by
  have hattempt : backoffs (recordAll f base earlier qu) + 1 = Int32.ofNat n := by
    rw [backoffs_recordAll hf, backoffs, hqu, hn, Int32.ofNat_add]
    exact congrArg (· + 1) (Int32.zero_add _)
  have hn32 : (Int32.ofNat n).toInt = n := Int32.toInt_ofNat_of_lt hcount
  have hdelay : (backoffDelay base (Int32.ofNat n) jitter).toInt = nominal base.toInt n + jitter.toInt := by
    have h := @toInt_backoffDelay base (Int32.ofNat n) jitter hbase
    rw [hn32, Int.toNat_natCast, baseOrDefault_of_pos hpos] at h
    exact h hjitter
  have hlow := neg_abs_le jitter.toInt
  have hhigh := le_abs_self jitter.toInt
  obtain ⟨hnominal, hmax⟩ := nominal_bounds hpos n
  rw [Conditions.maxBackoffDuration, second] at hmax
  refine ⟨_, _, Int32.ofNat n, now + (backoffDelay base (Int32.ofNat n) jitter).toInt,
    record_enabled hf base now jitter _, by rw [hattempt], hn32, by rw [hattempt], ?_, ?_,
    (toInt_doubled (n - 1) hpos hbase).2, ?_⟩
  · rw [hattempt, hdelay, add_sub_cancel_left]
    exact hjitter
  · rw [hattempt, hdelay]
    omega
  · intro flatBackoff t
    rw [elapsed_enabled hf flatBackoff t (by rw [hattempt])]
    refine ⟨fun ht => ?_, fun ht => if_neg (not_lt.mpr ht)⟩
    rw [if_pos ht, toInt_sub_of_lt ht]
    refine ⟨rfl, rfl, fun hnow => min_eq_left ((wait_le hnow _).trans ?_)⟩
    rw [hdelay]
    omega

theorem third_backoff_waits :
    ∃ (recorded : JobUnit) (delay : Duration) (count : Int32) (requeueAt : Time),
      recordQueueUnitRequeueState {} 10000000000 (100 * second) (-3000000000)
        (recordAll {} 10000000000 [(0, 0), (50 * second, 2000000000)] {}) = (recorded, delay) ∧
      recorded.requeueState = some { count, requeueAt := some requeueAt } ∧ count.toInt = 3 ∧
      0 < delay.toInt ∧ queueUnitRequeueBackoffElapsed {} 0 requeueAt recorded = (true, 0) := by
  obtain ⟨recorded, delay, count, requeueAt, hrecord, hstate, hcount, -, -, hdelay, -, helapsed⟩ :=
    backoff_grows_to_cap {} rfl 10000000000 (by decide) (by decide) {} rfl [(0, 0), (50 * second, 2000000000)] 3 rfl
      (by decide) (100 * second) (-3000000000) (by decide)
  exact ⟨recorded, delay, count, requeueAt, hrecord, hstate, hcount, hdelay, (helapsed 0 requeueAt).2 le_rfl⟩

end KoordQueue.JobExt.Backoff
