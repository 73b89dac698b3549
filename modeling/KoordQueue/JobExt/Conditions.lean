import KoordQueue.JobExt.Records

namespace KoordQueue.JobExt.Conditions

open Api Records

/-- The feature gates that the controllers read. -/
structure Features where
  queueUnitConditions : Bool := true
  queueUnitActive : Bool := true
  queueUnitRequeueState : Bool := true
  maximumExecutionTime : Bool := true
deriving DecidableEq

def second : Time := 1000000000

/-- A time as the API server keeps it. -/
def wholeSeconds (t : Int) : Int := t / second * second

def queueUnitQuotaReserved : String := "QuotaReserved"
def queueUnitAdmitted : String := "Admitted"
def queueUnitPodsReady : String := "PodsReady"
def queueUnitFinished : String := "Finished"
def queueUnitEvicted : String := "Evicted"

def queueUnitEvictedByDeactivation : String := "Deactivated"
def queueUnitEvictedByBackoffTimeout : String := "BackoffTimeout"
def queueUnitEvictedByMaximumExecutionTimeExceeded : String := "MaximumExecutionTimeExceeded"

/-- The first condition of that type is brought up to date, and one is appended
when there is none. The time changes only when the status does, and is read
back only once it has been stored. -/
def setCondition (now : Time) (cond : Condition) : List Condition → List Condition
  | [] => [{ cond with lastTransitionTime := wholeSeconds now }]
  | existing :: rest =>
    if existing.type ≠ cond.type then existing :: setCondition now cond rest
    else
      { existing with
        status := cond.status
        reason := cond.reason
        message := cond.message
        lastTransitionTime :=
          if existing.status ≠ cond.status then wholeSeconds now else existing.lastTransitionTime } :: rest

def setConditionIfPresent (now : Time) (cond : Condition) (conditions : List Condition) : List Condition :=
  if conditions.any (fun c => decide (c.type = cond.type)) then setCondition now cond conditions else conditions

def trueCondition (condType reason message : String) : Condition :=
  { type := condType, status := .conditionTrue, reason, message }

def falseCondition (condType reason message : String) : Condition :=
  { type := condType, status := .conditionFalse, reason, message }

def findQueueUnitCondition (condType : String) (conditions : List Condition) : Option Condition :=
  conditions.find? (fun c => decide (c.type = condType))

def quotaReserved : Condition :=
  trueCondition queueUnitQuotaReserved "QuotaReserved" "Quota is reserved in the queue"

def admitted : Condition :=
  trueCondition queueUnitAdmitted "Admitted" "The queue unit is admitted and the job is released"

def mirror (now : Time) (phase : QueueUnitPhase) (message : String) (conditions : List Condition) : List Condition :=
  let evicted := queueUnitEvictedByBackoffTimeout
  match phase with
  | .enqueued =>
    setConditionIfPresent now (falseCondition queueUnitEvicted "Requeued" "The queue unit is queued again")
      (setConditionIfPresent now (falseCondition queueUnitPodsReady "Pending" "The pods of the job are not running")
        (setCondition now (falseCondition queueUnitAdmitted "Pending" "The queue unit is not admitted yet")
          (setCondition now (falseCondition queueUnitQuotaReserved "Pending" "The queue unit is waiting in its queue")
            conditions)))
  | .reserved =>
    setCondition now (falseCondition queueUnitAdmitted "WaitingForAdmissionChecks"
        "Waiting for all admission checks to be ready")
      (setCondition now quotaReserved conditions)
  | .dequeued | .schedReady | .schedSucceed =>
    setCondition now admitted (setCondition now quotaReserved conditions)
  | .running =>
    setCondition now (trueCondition queueUnitPodsReady "PodsRunning" "The pods of the job are running")
      (setCondition now admitted (setCondition now quotaReserved conditions))
  | .succeed => setCondition now (trueCondition queueUnitFinished "Succeeded" "The job succeeded") conditions
  | .failed => setCondition now (trueCondition queueUnitFinished "Failed" "The job failed") conditions
  | .backoff =>
    setCondition now (trueCondition queueUnitEvicted evicted message)
      (setConditionIfPresent now (falseCondition queueUnitPodsReady evicted "The pods of the job are not running")
        (setCondition now (falseCondition queueUnitAdmitted evicted "The queue unit is no longer admitted")
          (setCondition now
            (falseCondition queueUnitQuotaReserved evicted "The reservation is released while backing off")
            conditions)))
  | .schedFailed => setCondition now (falseCondition queueUnitAdmitted "SchedulingFailed" message) conditions
  | _ => conditions

def syncQueueUnitConditions (f : Features) (now : Time) (qu : JobUnit) : JobUnit :=
  if f.queueUnitConditions then
    { qu with
      conditions := mirror now qu.status.phase qu.status.message qu.conditions
      requeueState := if qu.status.phase = .running then none else qu.requeueState }
  else qu

def setQueueUnitEvictedCondition (f : Features) (now : Time) (reason message : String) (qu : JobUnit) : JobUnit :=
  if f.queueUnitConditions then
    { qu with
      conditions := setCondition now (falseCondition queueUnitAdmitted reason message)
        (setCondition now (trueCondition queueUnitEvicted reason message) qu.conditions) }
  else qu

def stopQueueUnitExecutionClock (now : Time) (qu : JobUnit) : JobUnit :=
  { qu with
    conditions := setConditionIfPresent now
      (falseCondition queueUnitPodsReady "Pending" "The pods of the job are not running") qu.conditions }

def defaultBackoffBase : Time := 10 * second
def maxBackoffDuration : Time := 900 * second

def doubled : Nat → Time → Time
  | 0, delay => delay
  | n + 1, delay => if 2 * delay ≥ maxBackoffDuration then 2 * delay else doubled n (2 * delay)

/-- `jitter` is the random share that is added to the delay, at most a tenth of
it either way. -/
def backoffDelay (base : Time) (attempt : Int32) (jitter : Time) : Time :=
  let base := if base ≤ 0 then defaultBackoffBase else base
  let delay := min (doubled (attempt.toInt - 1).toNat base) maxBackoffDuration + jitter
  if delay ≤ 0 then base else delay

def recordQueueUnitRequeueState (f : Features) (base now jitter : Time) (qu : JobUnit) : JobUnit :=
  if f.queueUnitRequeueState then
    let attempt : Int32 := (qu.requeueState.map (fun r => r.count + 1)).getD 1
    { qu with
      requeueState := some { count := attempt, requeueAt := some (now + backoffDelay base attempt jitter) } }
  else qu

/-- When the backoff is over: the recorded moment, and without one so long
after the last update. A unit that was never updated waits for nothing. -/
def backoffEnd (f : Features) (flatBackoff : Time) (qu : JobUnit) : Option Time :=
  match f.queueUnitRequeueState, qu.requeueState.bind RequeueState.requeueAt with
  | true, some requeueAt => some requeueAt
  | _, _ => qu.status.lastUpdateTime.map (· + flatBackoff)

def queueUnitRequeueBackoffElapsed (f : Features) (flatBackoff now : Time) (qu : JobUnit) : Bool :=
  match backoffEnd f flatBackoff qu with
  | none => true
  | some deadline => decide (deadline ≤ now)

def podsReadySince (conditions : List Condition) : Option Time :=
  (findQueueUnitCondition queueUnitPodsReady conditions).bind (fun podsReady =>
    if podsReady.status = .conditionTrue then some podsReady.lastTransitionTime else none)

def seconds (d : Time) : Int32 := Int32.ofInt (d.tdiv second)

def accumulateExecutionTime (f : Features) (now : Time) (qu : JobUnit) : JobUnit :=
  if f.maximumExecutionTime then
    match podsReadySince qu.conditions with
    | none => qu
    | some start =>
      if seconds (now - start) ≤ 0 then qu
      else
        { qu with
          accumulatedPastExecutionTimeSeconds :=
            some (qu.accumulatedPastExecutionTimeSeconds.getD 0 + seconds (now - start)) }
  else qu

/-- What `UpdateQueueUnitStatus` sends. -/
def updateQueueUnitStatus (f : Features) (now : Time) (phase : QueueUnitPhase) (msg : String) (qu : JobUnit) :
    JobUnit :=
  syncQueueUnitConditions f now
    { qu with
      status := { qu.status with
        phase, message := msg, lastUpdateTime := some now,
        admissions := if phase = .succeed ∨ phase = .failed then [] else qu.status.admissions } }

theorem find_setCondition (now : Time) (cond : Condition) (condType : String) (conditions : List Condition)
    (h : cond.type ≠ condType) :
    findQueueUnitCondition condType (setCondition now cond conditions) =
      findQueueUnitCondition condType conditions := by
  induction conditions with
  | nil => simp [setCondition, findQueueUnitCondition, h]
  | cons c cs ih =>
    rw [setCondition]
    split
    next =>
      rw [findQueueUnitCondition, findQueueUnitCondition, List.find?_cons, List.find?_cons]
      exact match decide (c.type = condType) with
        | true => rfl
        | false => ih
    next hc =>
      have hne : c.type ≠ condType := fun hd => h ((not_not.mp hc).symm.trans hd)
      simp [findQueueUnitCondition, hne]

theorem find_setConditionIfPresent (now : Time) (cond : Condition) (condType : String) (conditions : List Condition)
    (h : cond.type ≠ condType) :
    findQueueUnitCondition condType (setConditionIfPresent now cond conditions) =
      findQueueUnitCondition condType conditions := by
  rw [setConditionIfPresent]
  split
  next => exact find_setCondition now cond condType conditions h
  next => rfl

theorem since_setCondition_of_ne (now : Time) (cond : Condition) (conditions : List Condition)
    (h : cond.type ≠ queueUnitPodsReady) :
    podsReadySince (setCondition now cond conditions) = podsReadySince conditions := by
  rw [podsReadySince, find_setCondition now cond _ conditions h, podsReadySince]

theorem since_setConditionIfPresent_of_ne (now : Time) (cond : Condition) (conditions : List Condition)
    (h : cond.type ≠ queueUnitPodsReady) :
    podsReadySince (setConditionIfPresent now cond conditions) = podsReadySince conditions := by
  rw [podsReadySince, find_setConditionIfPresent now cond _ conditions h, podsReadySince]

theorem since_cons_of_ne {c : Condition} (conditions : List Condition) (h : c.type ≠ queueUnitPodsReady) :
    podsReadySince (c :: conditions) = podsReadySince conditions := by
  simp [podsReadySince, findQueueUnitCondition, h]

theorem since_setCondition (now : Time) {cond : Condition} (conditions : List Condition)
    (h : cond.type = queueUnitPodsReady) :
    podsReadySince (setCondition now cond conditions) =
      if cond.status = .conditionTrue then some ((podsReadySince conditions).getD (wholeSeconds now)) else none := by
  induction conditions with
  | nil => simp [setCondition, podsReadySince, findQueueUnitCondition, h]
  | cons c cs ih =>
    rw [setCondition]
    split
    next hc =>
      have hne : c.type ≠ queueUnitPodsReady := fun hd => hc (hd.trans h.symm)
      rw [since_cons_of_ne _ hne, since_cons_of_ne _ hne, ih]
    next hc =>
      have he : c.type = queueUnitPodsReady := (not_not.mp hc).trans h
      by_cases hs : cond.status = .conditionTrue <;> by_cases hs' : c.status = .conditionTrue <;>
        simp [podsReadySince, findQueueUnitCondition, he, hs, hs']

theorem since_start (now : Time) (reason message : String) (conditions : List Condition) :
    podsReadySince (setCondition now (trueCondition queueUnitPodsReady reason message) conditions) =
      some ((podsReadySince conditions).getD (wholeSeconds now)) := since_setCondition now conditions rfl

theorem since_stop (now : Time) (reason message : String) (conditions : List Condition) :
    podsReadySince (setConditionIfPresent now (falseCondition queueUnitPodsReady reason message) conditions) =
      none := by
  rw [setConditionIfPresent]
  split
  next => exact since_setCondition now conditions rfl
  next h =>
    have hnone : findQueueUnitCondition queueUnitPodsReady conditions = none := by
      rw [findQueueUnitCondition, List.find?_eq_none]
      intro c hc hd
      exact h (List.any_eq_true.mpr ⟨c, hc, hd⟩)
    rw [podsReadySince, hnone]
    rfl

/-- What the phase does to the clock: `Enqueued` and `Backoff` stop it, `Running` starts it, and
every other phase leaves it as it is. -/
def clockOf (now : Time) (phase : QueueUnitPhase) (since : Option Time) : Option Time :=
  match phase with
  | .enqueued | .backoff => none
  | .running => some (since.getD (wholeSeconds now))
  | _ => since

theorem since_mirror (now : Time) (phase : QueueUnitPhase) (message : String) (conditions : List Condition) :
    podsReadySince (mirror now phase message conditions) = clockOf now phase (podsReadySince conditions) := by
  cases phase with
  | enqueued =>
    rw [mirror, since_setConditionIfPresent_of_ne _ _ _ (by decide), since_stop]
    rfl
  | backoff =>
    rw [mirror, since_setCondition_of_ne _ _ _ (by decide : queueUnitEvicted ≠ queueUnitPodsReady), since_stop]
    rfl
  | running =>
    rw [mirror, since_start, since_setCondition_of_ne _ _ _ (by decide), since_setCondition_of_ne _ _ _ (by decide)]
    rfl
  | reserved | dequeued | schedReady | schedSucceed =>
    rw [mirror, since_setCondition_of_ne _ _ _ (by decide), since_setCondition_of_ne _ _ _ (by decide)]
    rfl
  | succeed | failed =>
    rw [mirror, since_setCondition_of_ne _ _ _ (by decide)]
    rfl
  | schedFailed =>
    rw [mirror, since_setCondition_of_ne _ _ _ (by decide : queueUnitAdmitted ≠ queueUnitPodsReady)]
    rfl
  | unset | preempted | other => rfl

theorem since_sync {f : Features} (hf : f.queueUnitConditions = true) (now : Time) (qu : JobUnit) :
    podsReadySince (syncQueueUnitConditions f now qu).conditions =
      clockOf now qu.status.phase (podsReadySince qu.conditions) := by
  rw [syncQueueUnitConditions, if_pos hf, since_mirror]

theorem sync_status (f : Features) (now : Time) (qu : JobUnit) :
    (syncQueueUnitConditions f now qu).toQueueUnit = qu.toQueueUnit := by
  rw [syncQueueUnitConditions]
  split <;> rfl

theorem sync_accumulated (f : Features) (now : Time) (qu : JobUnit) :
    (syncQueueUnitConditions f now qu).accumulatedPastExecutionTimeSeconds =
      qu.accumulatedPastExecutionTimeSeconds := by
  rw [syncQueueUnitConditions]
  split <;> rfl

theorem sync_checks (f : Features) (now : Time) (qu : JobUnit) :
    (syncQueueUnitConditions f now qu).admissionChecks = qu.admissionChecks := by
  rw [syncQueueUnitConditions]
  split <;> rfl

theorem record_eq (f : Features) (base now jitter : Time) (qu : JobUnit) :
    ∃ r, recordQueueUnitRequeueState f base now jitter qu = { qu with requeueState := r } := by
  rw [recordQueueUnitRequeueState]
  split
  next => exact ⟨_, rfl⟩
  next => exact ⟨qu.requeueState, rfl⟩

theorem since_evicted (f : Features) (now : Time) (reason message : String) (qu : JobUnit) :
    podsReadySince (setQueueUnitEvictedCondition f now reason message qu).conditions =
      podsReadySince qu.conditions := by
  rw [setQueueUnitEvictedCondition]
  split
  next =>
    exact (since_setCondition_of_ne _ _ _ (by decide : queueUnitAdmitted ≠ queueUnitPodsReady)).trans
      (since_setCondition_of_ne _ _ _ (by decide : queueUnitEvicted ≠ queueUnitPodsReady))
  next => rfl

theorem since_stopped (now : Time) (qu : JobUnit) :
    podsReadySince (stopQueueUnitExecutionClock now qu).conditions = none := since_stop now _ _ _

theorem evicted_status (f : Features) (now : Time) (reason message : String) (qu : JobUnit) :
    (setQueueUnitEvictedCondition f now reason message qu).toQueueUnit = qu.toQueueUnit := by
  rw [setQueueUnitEvictedCondition]
  split <;> rfl

theorem phase_updateQueueUnitStatus (f : Features) (now : Time) (phase : QueueUnitPhase) (msg : String)
    (qu : JobUnit) : (updateQueueUnitStatus f now phase msg qu).status.phase = phase := by
  rw [updateQueueUnitStatus, sync_status]

end KoordQueue.JobExt.Conditions
