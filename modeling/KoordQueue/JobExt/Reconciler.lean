import KoordQueue.JobExt.Conditions
import KoordQueue.JobExt.Reporter
import Mathlib.Data.List.TakeWhile

namespace KoordQueue.JobExt.Reconciler

open Api UnitStatus Records Conditions

/-- What a reconcile asks of the job extension and of the API server. -/
inductive Call
  | enqueue
  | suspend
  | resume
  | createQueueUnit (qu : JobUnit)
  | deleteQueueUnit
  | update (qu : JobUnit)
  | updateStatus (qu : JobUnit)
deriving DecidableEq

structure Result where
  requeue : Bool := false
  requeueAfter : Time := 0
deriving DecidableEq

/-- The calls in the order in which they are made. One that fails ends the
reconcile, so the calls that took effect are a beginning of this list. -/
structure Outcome where
  calls : List Call := []
  res : Result := {}
deriving DecidableEq

/-- How the process was started. -/
structure Settings where
  features : Features := {}
  paiEnv : Bool := false
  enableReservation : Bool := false
deriving DecidableEq

def defaultRequeuePeriod : Time := 60 * second

def wait : Outcome := { res := { requeueAfter := defaultRequeuePeriod } }

def defaultContainer (ct : Container) : Container :=
  if ct.requests.getD ∅ = ∅ ∧ ct.limits.getD ∅ ≠ ∅ then { ct with requests := ct.limits } else ct

def defaultRequests (ps : PodSet) : PodSet :=
  { ps with
    template := { ps.template with
      containers := ps.template.containers.map defaultContainer
      initContainers := ps.template.initContainers.map defaultContainer } }

def createQueueUnit (now : Time) (job : Job) (phase : QueueUnitPhase) (msg : String) : JobUnit :=
  { spec :=
      { resource := job.resources, request := job.resources, priority := job.priority,
        podSets := job.podSet.map defaultRequests, active := job.active }
    status := { phase, message := msg, lastUpdateTime := some now }
    priorityClassName := job.priorityClassName
    maximumExecutionTimeSeconds := job.maximumExecutionTime }

def updateQueueUnitReplicas (job : Job) (qu : JobUnit) : Option JobUnit :=
  if job.podSet.any (fun ps => decide (((Reporter.counts qu.spec.podSets).lookup ps.name).getD 0 ≠ ps.count)) then
    some { qu with
      spec := { qu.spec with
        podSets := job.podSet.map defaultRequests
        resource := if qu.status.phase ≠ .running then job.resources else qu.spec.resource } }
  else none

def priorityEqual (a b : Option (Ptr Int32)) : Bool := decide (a.map Ptr.val = b.map Ptr.val)

def updateQueueUnitPriority (job : Job) (qu : JobUnit) : Option JobUnit :=
  if priorityEqual qu.spec.priority job.priority ∧ qu.priorityClassName = job.priorityClassName then none
  else some { qu with
    spec := { qu.spec with priority := job.priority }, priorityClassName := job.priorityClassName }

section

variable (f : Features) (now : Time)

def syncQueueUnitActivation (job : Job) (qu : JobUnit) : Option JobUnit :=
  let active := if f.queueUnitActive ∧ job.active ≠ none then job.active else qu.spec.active
  let maximum := if f.maximumExecutionTime then job.maximumExecutionTime else qu.maximumExecutionTimeSeconds
  if active = qu.spec.active ∧ maximum = qu.maximumExecutionTimeSeconds then none
  else some { qu with spec := { qu.spec with active }, maximumExecutionTimeSeconds := maximum }

def isBeingReclaimed (qu : JobUnit) : Bool :=
  qu.status.admissions.any (fun ad => ad.reclaimState.any (fun rs => decide (rs.replicas > 0)))

def deactivated (qu : JobUnit) : JobUnit :=
  let message := "Evicted because the queue unit is deactivated"
  setQueueUnitEvictedCondition f now queueUnitEvictedByDeactivation message
    (syncQueueUnitConditions f now (accumulateExecutionTime f now
      { qu with status := { qu.status with phase := .enqueued, message, lastUpdateTime := some now } }))

/-- `none` when the reconcile goes on. -/
def reconcileDeactivation (handle : JobHandle) (qu : JobUnit) : Option (List Call) :=
  if f.queueUnitActive = false ∨ isQueueUnitActive qu.toQueueUnit = true then none
  else if handle.requeueJobExtension = false then none
  else if qu.status.phase = .succeed ∨ qu.status.phase = .failed then none
  else if isBeingReclaimed qu then some []
  else if isQueueUnitReservedAnyResource qu.toQueueUnit = false ∧ qu.status.phase = .enqueued then some []
  else some [.suspend, .updateStatus (deactivated f now qu)]

def remainingBudget (qu : JobUnit) : Option Time :=
  if f.maximumExecutionTime = false ∨ isQueueUnitActive qu.toQueueUnit = false then none
  else
    (podsReadySince qu.conditions).bind (fun start =>
      qu.maximumExecutionTimeSeconds.map (fun budget =>
        budget.toInt * second - (qu.accumulatedPastExecutionTimeSeconds.getD 0).toInt * second - (now - start)))

def exhausted (qu : JobUnit) : JobUnit :=
  let message := "Evicted because the maximum execution time was exceeded"
  setQueueUnitEvictedCondition f now queueUnitEvictedByMaximumExecutionTimeExceeded message
    (stopQueueUnitExecutionClock now
      { qu with
        accumulatedPastExecutionTimeSeconds := none
        status := { qu.status with message, lastUpdateTime := some now } })

def setActive (active : Bool) (qu : JobUnit) : JobUnit := { qu with spec := { qu.spec with active := some active } }

def reconcileMaxExecutionTime (qu : JobUnit) : Time × List Call :=
  match remainingBudget f now qu with
  | none => (0, [])
  | some remaining =>
    if remaining > 0 then (remaining, [])
    else (0, [.update (setActive false qu), .updateStatus (exhausted f now (setActive false qu))])

def tightenRequeue (res : Result) (after : Time) : Result :=
  if res.requeue then res
  else if res.requeueAfter = 0 ∨ res.requeueAfter > after then { res with requeueAfter := after }
  else res

def setStatus (phase : QueueUnitPhase) (msg : String) (qu : JobUnit) : Call :=
  .updateStatus (updateQueueUnitStatus f now phase msg qu)

def untilBackoffEnd (handle : JobHandle) (qu : JobUnit) : Outcome :=
  { res := { requeueAfter := (backoffEnd f handle.backoffTime qu).getD now - now } }

def whenQueuing (handle : JobHandle) (qu : JobUnit) : Outcome :=
  match qu.status.phase with
  | .preempted =>
    { calls := [setStatus f now .enqueued "Enqueued after preempted" (accumulateExecutionTime f now qu)]
      res := { requeue := true, requeueAfter := defaultRequeuePeriod } }
  | .schedSucceed | .dequeued => { calls := [.resume], res := { requeueAfter := handle.runningTimeout } }
  | .backoff =>
    if queueUnitRequeueBackoffElapsed f handle.backoffTime now qu then
      { wait with calls := [setStatus f now .enqueued "Enqueued because backoff timeout" qu] }
    else untilBackoffEnd f now handle qu
  | _ => wait

variable (jitter : Time)

def timedOut (handle : JobHandle) (qu : JobUnit) : JobUnit :=
  updateQueueUnitStatus f now .backoff "Backoff due to running timeout"
    (recordQueueUnitRequeueState f handle.backoffTime now jitter (accumulateExecutionTime f now qu))

def backoffAfter (handle : JobHandle) (qu : JobUnit) : Time :=
  match (timedOut f now jitter handle qu).requeueState.bind RequeueState.requeueAt with
  | some requeueAt => if f.queueUnitRequeueState then requeueAt - now else handle.backoffTime
  | none => handle.backoffTime

def whenPending (handle : JobHandle) (qu : JobUnit) : Outcome :=
  if qu.status.phase = .schedFailed ∨ qu.status.phase = .schedSucceed then wait
  else if handle.requeueJobExtension = false then wait
  else if qu.status.phase = .preempted then
    { calls := [.suspend, setStatus f now .enqueued "Enqueued after preempted" (accumulateExecutionTime f now qu)]
      res := { requeue := true, requeueAfter := defaultRequeuePeriod } }
  else if handle.runningTimeout = 0 then wait
  else match qu.status.phase with
    | .dequeued =>
      let duration := now - qu.status.lastUpdateTime.getD now
      if duration ≥ handle.runningTimeout then
        { calls := [.updateStatus (timedOut f now jitter handle qu), .suspend]
          res := { requeue := true, requeueAfter := backoffAfter f now jitter handle qu } }
      else { res := { requeueAfter := handle.runningTimeout - duration } }
    | .backoff =>
      if queueUnitRequeueBackoffElapsed f handle.backoffTime now qu then
        { wait with calls := [.suspend, setStatus f now .enqueued "Enqueued because backoff timeout" qu] }
      else { untilBackoffEnd f now handle qu with calls := [.suspend] }
    | .running =>
      if handle.enableRunningToPending then
        { wait with calls := [setStatus f now .dequeued "Job is in Pending state" qu] }
      else wait
    | _ => wait

def whenRunning (enableReservation : Bool) (handle : JobHandle) (qu : JobUnit) : Outcome :=
  if (enableReservation ∧ handle.reservationJobExtension) ∧
      (qu.status.phase = .schedReady ∨ qu.status.phase = .schedFailed) then wait
  else if qu.status.phase ≠ .running then { calls := [setStatus f now .running "Running" qu] }
  else {}

def whenFinished (phase : QueueUnitPhase) (msg : String) (qu : JobUnit) : Outcome :=
  if qu.status.phase ≠ phase then { calls := [setStatus f now phase msg qu] } else {}

def byJobStatus (enableReservation : Bool) (handle : JobHandle) (job : Job) (qu : JobUnit) : Outcome :=
  match job.status with
  | .queuing => whenQueuing f now handle qu
  | .pending => whenPending f now jitter handle qu
  | .running => whenRunning f now enableReservation handle qu
  | .succeeded => whenFinished f now .succeed "Succeeded" qu
  | .failed => whenFinished f now .failed "Failed" qu
  | .created | .other _ => wait

def Call.writesUnit : Call → Bool
  | .update _ | .updateStatus _ => true
  | _ => false

/-- Once the budget is used up the unit at hand is out of date, so that the
next write of it meets a conflict and ends the reconcile. -/
def afterActivation (enableReservation : Bool) (handle : JobHandle) (job : Job) (qu : JobUnit) : Outcome :=
  let budget := reconcileMaxExecutionTime f now qu
  let rest := byJobStatus f now jitter enableReservation handle job qu
  { calls := if budget.2 = [] then rest.calls else budget.2 ++ rest.calls.takeWhile (fun c => !c.writesUnit)
    res := if budget.1 > 0 then tightenRequeue rest.res budget.1 else rest.res }

end

def reconcileUnit (s : Settings) (now jitter : Time) (handle : JobHandle) (job : Job) (qu : JobUnit) : Outcome :=
  match updateQueueUnitReplicas job qu with
  | some updated => { calls := [.update updated], res := { requeue := true } }
  | none =>
    match if s.paiEnv then none else updateQueueUnitPriority job qu with
    | some updated => { calls := [.update updated], res := { requeue := true } }
    | none =>
      match syncQueueUnitActivation s.features job qu with
      | some updated => { calls := [.update updated], res := { requeue := true } }
      | none =>
        match reconcileDeactivation s.features now handle qu with
        | some calls => { wait with calls }
        | none => afterActivation s.features now jitter s.enableReservation handle job qu

def reconcileMissing (now : Time) (job : Job) : Outcome :=
  match job.status with
  | .succeeded | .failed => {}
  | .queuing => { wait with calls := [.createQueueUnit (createQueueUnit now job .enqueued "Enqueued")] }
  | _ => { wait with calls := [.createQueueUnit (createQueueUnit now job .dequeued "Deuqueued")] }

/-- `leftover` tells whether there is a unit under the name that the clean-up looks for. -/
def reconcile (s : Settings) (now jitter : Time) (leftover : Bool) (handle : JobHandle) (job : Option Job) : Outcome :=
  match job with
  | none => { calls := if leftover then [.deleteQueueUnit] else [] }
  | some job =>
    if job.deleted then { calls := if leftover then [.deleteQueueUnit] else [] }
    else if job.managedByQueue = false then {}
    else if job.status = .created then
      { wait with calls := [.enqueue, .createQueueUnit (createQueueUnit now job .enqueued "Enqueued")] }
    else match job.queueUnit with
      | none => reconcileMissing now job
      | some queueUnit => reconcileUnit s now jitter handle job queueUnit

def store (stored : JobUnit) : Call → JobUnit
  | .update qu => stored.storeSpec qu
  | .updateStatus qu => stored.storeStatus qu
  | .enqueue | .suspend | .resume | .createQueueUnit _ | .deleteQueueUnit => stored

def written : List Call → Option JobUnit
  | [] => none
  | .updateStatus qu :: calls => some ((written calls).getD qu)
  | .update _ :: calls | .enqueue :: calls | .suspend :: calls | .resume :: calls | .createQueueUnit _ :: calls
  | .deleteQueueUnit :: calls => written calls

def statusOnly (qu : JobUnit) : JobUnit := JobUnit.storeStatus {} qu

theorem foldl_store (calls : List Call) (qu : JobUnit) :
    statusOnly (calls.foldl store qu) = statusOnly ((written calls).getD qu) := by
  induction calls generalizing qu with
  | nil => rfl
  | cons c calls ih =>
    rw [List.foldl_cons, ih (store qu c)]
    cases c with
    | updateStatus | update => cases hw : written calls <;> simp only [written, hw] <;> rfl
    | enqueue | suspend | resume | createQueueUnit | deleteQueueUnit => rfl

theorem mem_of_written {calls : List Call} {qu : JobUnit} (h : written calls = some qu) : .updateStatus qu ∈ calls := by
  induction calls with
  | nil => cases h
  | cons c calls ih =>
    cases c with
    | updateStatus qu' =>
      rw [written, Option.some.injEq] at h
      cases hw : written calls with
      | none =>
        rw [hw] at h
        exact h ▸ List.mem_cons_self
      | some last =>
        rw [hw] at h
        exact List.mem_cons_of_mem _ (ih (hw.trans (congrArg some h)))
    | update | enqueue | suspend | resume | createQueueUnit | deleteQueueUnit =>
      exact List.mem_cons_of_mem _ (ih h)

inductive Moved (f : Features) (now jitter : Time) (handle : JobHandle) (status : JobStatus) (qu : JobUnit) :
    JobUnit → Prop
  | deactivated (hf : f.queueUnitActive = true) (ha : isQueueUnitActive qu.toQueueUnit = false)
      (hs : qu.status.phase ≠ .succeed) (hd : qu.status.phase ≠ .failed) :
      Moved f now jitter handle status qu (deactivated f now qu)
  | exhausted {remaining : Time} (hr : remainingBudget f now qu = some remaining) (h0 : remaining ≤ 0) :
      Moved f now jitter handle status qu (exhausted f now (setActive false qu))
  | preempted (hp : qu.status.phase = .preempted) :
      Moved f now jitter handle status qu
        (updateQueueUnitStatus f now .enqueued "Enqueued after preempted" (accumulateExecutionTime f now qu))
  | backoffOver (hp : qu.status.phase = .backoff)
      (he : queueUnitRequeueBackoffElapsed f handle.backoffTime now qu = true) :
      Moved f now jitter handle status qu (updateQueueUnitStatus f now .enqueued "Enqueued because backoff timeout" qu)
  | timedOut (hp : qu.status.phase = .dequeued) : Moved f now jitter handle status qu (timedOut f now jitter handle qu)
  | backToPending (hp : qu.status.phase = .running) (he : handle.enableRunningToPending = true)
      (hj : status = .pending) :
      Moved f now jitter handle status qu (updateQueueUnitStatus f now .dequeued "Job is in Pending state" qu)
  | running (hp : qu.status.phase ≠ .running) (hj : status = .running) :
      Moved f now jitter handle status qu (updateQueueUnitStatus f now .running "Running" qu)
  | finished {phase : QueueUnitPhase} {msg : String} (hp : phase = .succeed ∨ phase = .failed)
      (hj : status = .succeeded ∨ status = .failed) :
      Moved f now jitter handle status qu (updateQueueUnitStatus f now phase msg qu)

section

variable {f : Features} {now jitter : Time} {handle : JobHandle} {status : JobStatus} {qu qu' : JobUnit}

theorem moved_whenQueuing (h : .updateStatus qu' ∈ (whenQueuing f now handle qu).calls) :
    Moved f now jitter handle status qu qu' := by
  rw [whenQueuing] at h
  split at h
  next hp =>
    cases List.mem_singleton.mp h
    exact .preempted hp
  next => simp at h
  next => simp at h
  next hp =>
    split at h
    next he =>
      cases List.mem_singleton.mp h
      exact .backoffOver hp he
    next => simp [untilBackoffEnd] at h
  next => simp [wait] at h

theorem moved_whenPending (h : .updateStatus qu' ∈ (whenPending f now jitter handle qu).calls) :
    Moved f now jitter handle .pending qu qu' := by
  rw [whenPending] at h
  split at h
  next => simp [wait] at h
  split at h
  next => simp [wait] at h
  split at h
  next hp =>
    simp only [setStatus, List.mem_cons, reduceCtorEq, false_or, List.not_mem_nil, or_false] at h
    cases h
    exact .preempted hp
  split at h
  next => simp [wait] at h
  split at h
  next hp =>
    dsimp only at h
    split at h
    next =>
      simp only [List.mem_cons, reduceCtorEq, List.not_mem_nil, or_false] at h
      cases h
      exact .timedOut hp
    next => simp at h
  next hp =>
    split at h
    next he =>
      simp only [setStatus, List.mem_cons, reduceCtorEq, false_or, List.not_mem_nil, or_false] at h
      cases h
      exact .backoffOver hp he
    next => simp at h
  next hp =>
    split at h
    next he =>
      cases List.mem_singleton.mp h
      exact .backToPending hp he rfl
    next => simp [wait] at h
  next => simp [wait] at h

theorem moved_byJobStatus {enableReservation : Bool} {job : Job}
    (h : .updateStatus qu' ∈ (byJobStatus f now jitter enableReservation handle job qu).calls) :
    Moved f now jitter handle job.status qu qu' := by
  rw [byJobStatus] at h
  split at h
  next => exact moved_whenQueuing h
  next hj => exact hj ▸ moved_whenPending h
  next hj =>
    rw [whenRunning] at h
    split at h
    next => simp [wait] at h
    split at h
    next hp =>
      cases List.mem_singleton.mp h
      exact .running hp hj
    next => simp at h
  next hj =>
    rw [whenFinished] at h
    split at h
    next =>
      cases List.mem_singleton.mp h
      exact .finished (.inl rfl) (.inl hj)
    next => simp at h
  next hj =>
    rw [whenFinished] at h
    split at h
    next =>
      cases List.mem_singleton.mp h
      exact .finished (.inr rfl) (.inr hj)
    next => simp at h
  next => simp [wait] at h
  next => simp [wait] at h

theorem moved_deactivation {calls : List Call} (hc : reconcileDeactivation f now handle qu = some calls)
    (h : .updateStatus qu' ∈ calls) : Moved f now jitter handle status qu qu' := by
  rw [reconcileDeactivation] at hc
  split at hc
  next => cases hc
  next ha =>
    split at hc
    next => cases hc
    split at hc
    next => cases hc
    next hp =>
      split at hc
      next =>
        cases hc
        cases h
      split at hc
      next =>
        cases hc
        cases h
      next =>
        cases hc
        simp only [List.mem_cons, reduceCtorEq, false_or, List.not_mem_nil, or_false] at h
        cases h
        simp only [not_or, Bool.not_eq_false, Bool.not_eq_true] at ha hp
        exact .deactivated ha.1 ha.2 hp.1 hp.2

theorem moved_maxExecutionTime (h : .updateStatus qu' ∈ (reconcileMaxExecutionTime f now qu).2) :
    Moved f now jitter handle status qu qu' := by
  rw [reconcileMaxExecutionTime] at h
  split at h
  next => cases h
  next remaining hr =>
    split at h
    next => cases h
    next h0 =>
      simp only [List.mem_cons, reduceCtorEq, false_or, List.not_mem_nil, or_false] at h
      cases h
      exact .exhausted hr (not_lt.mp h0)

theorem moved_of_mem {s : Settings} {job : Job}
    (h : .updateStatus qu' ∈ (reconcileUnit s now jitter handle job qu).calls) :
    Moved s.features now jitter handle job.status qu qu' := by
  rw [reconcileUnit] at h
  split at h
  next => simp at h
  split at h
  next => simp at h
  split at h
  next => simp at h
  split at h
  next calls hc => exact moved_deactivation hc h
  next =>
    rw [afterActivation] at h
    dsimp only at h
    split at h
    next => exact moved_byJobStatus h
    next =>
      rcases List.mem_append.mp h with h | h
      · exact moved_maxExecutionTime h
      · exact absurd (List.mem_takeWhile_imp h) Bool.false_ne_true

theorem stored_cases (s : Settings) (now jitter : Time) (handle : JobHandle) (job : Job) (qu : JobUnit) (made : Nat) :
    statusOnly (((reconcileUnit s now jitter handle job qu).calls.take made).foldl store qu) = statusOnly qu ∨
      ∃ qu', written ((reconcileUnit s now jitter handle job qu).calls.take made) = some qu' ∧
        Moved s.features now jitter handle job.status qu qu' ∧
        statusOnly (((reconcileUnit s now jitter handle job qu).calls.take made).foldl store qu) = statusOnly qu' := by
  have hstored := foldl_store ((reconcileUnit s now jitter handle job qu).calls.take made) qu
  cases hw : written ((reconcileUnit s now jitter handle job qu).calls.take made) with
  | none =>
    rw [hw] at hstored
    exact .inl hstored
  | some qu' =>
    rw [hw] at hstored
    exact .inr ⟨qu', rfl, moved_of_mem (List.mem_of_mem_take (mem_of_written hw)), hstored⟩

end

end KoordQueue.JobExt.Reconciler
