import KoordQueue.JobExt.Backoff
import KoordQueue.JobExt.ExecutionBudget

namespace KoordQueue.JobExt.BackoffCount

open Api Records Conditions Reconciler
open Backoff (backoffs)
open ExecutionBudget (Action act)
open Scheduler.AdmissionChecks (dequeue overwrite)

/-- A unit with the number of times that it entered `TimeoutBackoff`, since it
last entered `Running` and altogether. -/
structure World where
  unit : JobUnit
  sinceRunning : Nat := 0
  total : Nat := 0
deriving DecidableEq

def Entered (phase : QueueUnitPhase) (qu qu' : JobUnit) : Prop := qu.status.phase ≠ phase ∧ qu'.status.phase = phase
deriving Decidable

def step (s : Settings) (w : World) (a : Action) : Option World :=
  some
    { unit := act s w.unit a
      sinceRunning :=
        if Entered .running w.unit (act s w.unit a) then 0
        else if Entered .backoff w.unit (act s w.unit a) then w.sinceRunning + 1
        else w.sinceRunning
      total := if Entered .backoff w.unit (act s w.unit a) then w.total + 1 else w.total }

/-- Only the reconcilers put a unit into `TimeoutBackoff` or `Running`, and the
scheduler writes from a copy that has the stored requeue state. -/
def ThroughReconcilers (w : World) : Action → Prop
  | .dequeue _ _ _ cached _ _ => cached.requeueState = w.unit.requeueState
  | .setPhase _ phase => phase ≠ .backoff ∧ phase ≠ .running
  | .reconcile .. | .check .. | .respec .. | .report .. => True

instance decidableThroughReconcilers (w : World) (a : Action) : Decidable (ThroughReconcilers w a) := by
  delta ThroughReconcilers
  induction a using ExecutionBudget.Action.casesOn <;> infer_instance

inductive Advance (f : Features) (qu qu' : JobUnit) : Prop
  | kept (hr : ¬ Entered .running qu qu') (hb : ¬ Entered .backoff qu qu') (h : backoffs qu' = backoffs qu)
  | backedOff (hp : Entered .backoff qu qu') (h : backoffs qu' = backoffs qu + 1)
  | ran (hp : Entered .running qu qu') (h : backoffs qu' = if f.queueUnitConditions then 0 else backoffs qu)

section

variable {f : Features} {qu qu' : JobUnit}

theorem advance_of_phase (hr : qu'.status.phase ≠ .running) (hb : qu'.status.phase ≠ .backoff)
    (h : qu'.requeueState = qu.requeueState) : Advance f qu qu' :=
  .kept (fun he => hr he.2) (fun he => hb he.2) (by rw [backoffs, h]; rfl)

theorem advance_of_same (hp : qu'.status.phase = qu.status.phase) (h : qu'.requeueState = qu.requeueState) :
    Advance f qu qu' :=
  .kept (fun he => he.1 (hp.symm.trans he.2)) (fun he => he.1 (hp.symm.trans he.2)) (by rw [backoffs, h]; rfl)

theorem requeueState_sync (f : Features) (now : Time) (qu : JobUnit) :
    (syncQueueUnitConditions f now qu).requeueState =
      if f.queueUnitConditions ∧ qu.status.phase = .running then none else qu.requeueState := by
  rw [syncQueueUnitConditions]
  split
  next hf => simp only [hf, true_and]
  next hf => simp only [hf, Bool.false_eq_true, false_and, if_false]

theorem requeueState_update (f : Features) (now : Time) (phase : QueueUnitPhase) (msg : String) (qu : JobUnit) :
    (updateQueueUnitStatus f now phase msg qu).requeueState =
      if f.queueUnitConditions ∧ phase = .running then none else qu.requeueState := by
  rw [updateQueueUnitStatus, requeueState_sync]

theorem requeueState_evicted (f : Features) (now : Time) (reason message : String) (qu : JobUnit) :
    (setQueueUnitEvictedCondition f now reason message qu).requeueState = qu.requeueState := by
  rw [setQueueUnitEvictedCondition]
  split <;> rfl

theorem requeueState_accumulate (f : Features) (now : Time) (qu : JobUnit) :
    (accumulateExecutionTime f now qu).requeueState = qu.requeueState := by
  rw [RunningClock.accumulate_eq]

theorem backoffs_record (hf : f.queueUnitRequeueState = true) (base now jitter : Time) (qu : JobUnit) :
    backoffs (recordQueueUnitRequeueState f base now jitter qu) = backoffs qu + 1 := by
  rw [recordQueueUnitRequeueState, if_pos hf, ← Backoff.attempt_eq]
  rfl

theorem advance_congr {qu'' : JobUnit} (he : statusOnly qu'' = statusOnly qu') (h : Advance f qu qu') :
    Advance f qu qu'' := by
  have hphase := congrArg (fun u : JobUnit => u.status.phase) he
  have hcount := congrArg backoffs he
  change qu''.status.phase = qu'.status.phase at hphase
  change backoffs qu'' = backoffs qu' at hcount
  cases h with
  | kept hr hb h => exact .kept (by rwa [Entered, hphase]) (by rwa [Entered, hphase]) (hcount.trans h)
  | backedOff hp h => exact .backedOff (by rwa [Entered, hphase]) (hcount.trans h)
  | ran hp h => exact .ran (by rwa [Entered, hphase]) (hcount.trans h)

theorem phase_sync (now : Time) (qu : JobUnit) : (syncQueueUnitConditions f now qu).status.phase = qu.status.phase := by
  rw [sync_status]

variable {strict : Bool} {qu₁ : JobUnit} {jitter now : Time}

theorem advance_sync (now : Time) (hr : qu₁.status.phase ≠ .running)
    (hb : qu₁.status.phase ≠ .backoff) (h : qu₁.requeueState = qu.requeueState) :
    Advance f qu (syncQueueUnitConditions f now qu₁) := by
  refine advance_of_phase ?_ ?_ ?_
  · rwa [phase_sync]
  · rwa [phase_sync]
  · rw [requeueState_sync, if_neg (fun hc => hr hc.2), h]

theorem advance_update {phase : QueueUnitPhase} (hr : phase ≠ .running) (hb : phase ≠ .backoff) (now : Time)
    (msg : String) (h : qu₁.requeueState = qu.requeueState) :
    Advance f qu (updateQueueUnitStatus f now phase msg qu₁) :=
  advance_sync now hr hb h

theorem advance_moved (hf : f.queueUnitRequeueState = true) {handle : JobHandle}
    {status : JobStatus} (hm : Moved f now jitter handle status qu qu') : Advance f qu qu' := by
  cases hm with
  | deactivated =>
    have hphase : (deactivated f now qu).status.phase = .enqueued := by
      rw [deactivated, evicted_status, sync_status, RunningClock.accumulate_eq]
    refine advance_of_phase (by simp [hphase]) (by simp [hphase]) ?_
    rw [deactivated, requeueState_evicted, requeueState_sync, RunningClock.accumulate_eq]
    exact if_neg (by simp)
  | exhausted =>
    refine advance_of_same ?_ ?_
    · rw [exhausted, evicted_status]
      rfl
    · rw [exhausted, requeueState_evicted]
      rfl
  | preempted => exact advance_update (by simp) (by simp) now _ (requeueState_accumulate f now qu)
  | backoffOver => exact advance_update (by simp) (by simp) now _ rfl
  | timedOut hp =>
    refine .backedOff ⟨by simp [hp], phase_updateQueueUnitStatus ..⟩ ?_
    rw [backoffs, timedOut, requeueState_update, if_neg (by simp), ← backoffs, backoffs_record hf, backoffs,
      requeueState_accumulate]
    rfl
  | backToPending => exact advance_update (by simp) (by simp) now _ rfl
  | running hp =>
    refine .ran ⟨hp, phase_updateQueueUnitStatus ..⟩ ?_
    rw [backoffs, requeueState_update]
    cases f.queueUnitConditions <;> simp [backoffs]
  | finished hp =>
    rcases hp with rfl | rfl
    · exact advance_update (by simp) (by simp) now _ rfl
    · exact advance_update (by simp) (by simp) now _ rfl

theorem advance_check (hf : f.queueUnitRequeueState = true)
    (h : Controllers.QueueUnitController.reconcile f strict now jitter qu = some qu') : Advance f qu qu' := by
  rw [Controllers.QueueUnitController.reconcile] at h
  split at h
  next => cases h
  next hp =>
    have hreserved := not_not.mp hp
    obtain ⟨qu₁, hu, rfl⟩ := Option.map_eq_some_iff.mp h
    rw [Controllers.QueueUnitController.updateQueueUnitStatus] at hu
    cases hs : Controllers.QueueUnitController.scan .stateReady qu.admissionChecks with
    | stateRejected | stateRetry =>
      rw [hs] at hu
      cases hu
      obtain ⟨r, hr⟩ := record_eq f 0 now jitter { qu with
        status := { qu.status with
          phase := .backoff, lastUpdateTime := some now, message := "admission check failed" } }
      have hphase := congrArg (fun u : JobUnit => u.status.phase) hr
      refine .backedOff ⟨by simp [hreserved], (phase_sync now _).trans hphase⟩ ?_
      rw [backoffs, requeueState_sync, if_neg (fun hc => by simp [hr] at hc), ← backoffs, backoffs_record hf]
      rfl
    | stateReady =>
      rw [hs] at hu
      cases hu
      cases strict with
      | false => exact advance_sync now (by simp) (by simp) rfl
      | true => exact advance_sync now (by simp) (by simp) rfl
    | statePending =>
      rw [hs] at hu
      cases hu

theorem advance_dequeue {small : Bool} {cached : JobUnit}
    {admissions : List UnitStatus.FrameworkAdmission} {matched : List String}
    (hfresh : cached.requeueState = qu.requeueState) :
    Advance f qu (overwrite f now qu (dequeue strict small now cached admissions matched)) := by
  have hphase : (qu.storeStatus (dequeue strict small now cached admissions matched)).status.phase ∈
      [QueueUnitPhase.reserved, .schedReady, .dequeued] := Scheduler.DequeueWrite.phase_newStatus ..
  have hstatus (qu₁ : JobUnit) : statusOnly (qu.storeStatus qu₁) = statusOnly qu₁ := rfl
  rw [overwrite]
  split
  next => exact advance_of_same rfl rfl
  next =>
    have hsync : Advance f qu (syncQueueUnitConditions f now
        (qu.storeStatus (dequeue strict small now cached admissions matched))) := by
      refine advance_sync now ?_ ?_ hfresh
      · intro he
        simp [he] at hphase
      · intro he
        simp [he] at hphase
    exact advance_congr (hstatus _) hsync

end

variable {a : Action} {s : Settings} {w : World}

theorem advance_act (hf : s.features.queueUnitRequeueState = true)
    (h : ThroughReconcilers w a) : Advance s.features w.unit (act s w.unit a) := by
  cases a with
  | reconcile now jitter handle job made =>
    rcases stored_cases s now jitter handle job w.unit made with hs | ⟨qu', -, hm, hs⟩
    · exact advance_congr hs (advance_of_same rfl rfl)
    · exact advance_congr hs (advance_moved hf hm)
  | dequeue now strict small cached admissions matched => exact advance_dequeue h
  | check now jitter strict =>
    rw [act]
    cases hc : Controllers.QueueUnitController.reconcile s.features strict now jitter w.unit with
    | none => exact advance_of_same rfl rfl
    | some qu' => exact advance_check hf hc
  | respec | report => exact advance_of_same rfl rfl
  | setPhase now phase => exact advance_of_phase h.2 h.1 rfl

/-- The count follows the backoffs since the last run if the conditions are
kept, and otherwise all backoffs. -/
structure Counted (f : Features) (w : World) : Prop where
  count : backoffs w.unit = Int32.ofNat (if f.queueUnitConditions then w.sinceRunning else w.total)
  le : w.sinceRunning ≤ w.total

theorem not_entered_both {qu qu' : JobUnit} (h : Entered .running qu qu') : ¬ Entered .backoff qu qu' := by
  intro hb
  cases h.2.symm.trans hb.2

theorem counted_step (hf : s.features.queueUnitRequeueState = true) {t : World}
    (h : Counted s.features w) (ha : ThroughReconcilers w a) (ht : step s w a = some t) : Counted s.features t := by
  cases ht
  have hle := h.le
  cases advance_act hf ha with
  | kept hr hb hc =>
    constructor <;> dsimp only <;> rw [if_neg hr, if_neg hb, if_neg hb]
    · rw [hc]
      exact h.count
    · exact hle
  | backedOff hp hc =>
    constructor <;> dsimp only <;> rw [if_neg (fun hr => not_entered_both hr hp), if_pos hp, if_pos hp]
    · rw [hc, h.count]
      cases s.features.queueUnitConditions <;> exact (Int32.ofNat_add _ 1).symm
    · omega
  | ran hp hc =>
    constructor <;> dsimp only <;> rw [if_pos hp, if_neg (not_entered_both hp)]
    · rw [hc, h.count]
      cases s.features.queueUnitConditions <;> rfl
    · omega

/-- With the requeue state on, the count is the number of backoffs since the unit last ran if the conditions
are kept, and the number of all backoffs otherwise. Below the largest `int32` it is right exactly if the
conditions are kept or no backoff came before the last run. -/
theorem backoff_count_iff (s : Settings) (hf : s.features.queueUnitRequeueState = true) (unit : JobUnit)
    (hnew : unit.requeueState = none) (as : List Action)
    (hg : Run.Guarded (step s) ThroughReconcilers { unit } as) (w : World)
    (hw : Run.exec (step s) { unit } as = some w) :
    backoffs w.unit = Int32.ofNat (if s.features.queueUnitConditions then w.sinceRunning else w.total) ∧
    (w.total < 2 ^ 31 →
      ((backoffs w.unit).toInt = w.sinceRunning ↔
        s.features.queueUnitConditions = true ∨ w.sinceRunning = w.total)) := by
  have hcreated : Counted s.features { unit } := by
    refine ⟨?_, le_rfl⟩
    rw [backoffs, hnew]
    cases s.features.queueUnitConditions <;> rfl
  have hcounted : Counted s.features w :=
    Run.invariant (fun _ _ _ h ha ht => counted_step hf h ha ht) hcreated hg hw
  refine ⟨hcounted.count, fun hlt => ?_⟩
  rw [hcounted.count]
  have hle := hcounted.le
  cases s.features.queueUnitConditions with
  | true =>
    rw [if_pos rfl, Int32.toInt_ofNat_of_lt (by omega)]
    exact iff_of_true rfl (.inl rfl)
  | false =>
    rw [if_neg Bool.false_ne_true, Int32.toInt_ofNat_of_lt hlt]
    simp only [Bool.false_eq_true, false_or]
    omega

def dequeuedUnit : JobUnit := { status := { phase := .dequeued, lastUpdateTime := some 0 } }

def reconcileAt (seconds : Int) (status : JobStatus) : Action :=
  .reconcile (seconds * second) 0 { runningTimeout := 60 * second, backoffTime := 10 * second } { status } 2

def runsAfterBackoff : List Action :=
  [reconcileAt 60 .pending, reconcileAt 80 .queuing,
    .dequeue (90 * second) false false
      { status := { phase := .enqueued }, requeueState := some ⟨1, some (70 * second)⟩ } [] [],
    reconcileAt 100 .running]

theorem count_cleared_by_run :
    ∃ w, Run.exec (step {}) { unit := dequeuedUnit } runsAfterBackoff = some w ∧ w.total = 1 ∧
      w.unit.status.phase = .running ∧ (backoffs w.unit).toInt = w.sinceRunning := by
  obtain ⟨w, hrun, htotal, hphase⟩ : ∃ w, Run.exec (step {}) { unit := dequeuedUnit } runsAfterBackoff = some w ∧
      w.total = 1 ∧ w.unit.status.phase = .running := by decide +kernel
  have hcount := backoff_count_iff {} rfl dequeuedUnit rfl runsAfterBackoff (by decide +kernel) w hrun
  exact ⟨w, hrun, htotal, hphase, (hcount.2 (by omega)).mpr (.inl rfl)⟩

/-- Without the conditions the count of a unit that runs still has the backoff before the run. -/
theorem count_kept_by_run :
    ∃ w, Run.exec (step { features := { queueUnitConditions := false } }) { unit := dequeuedUnit } runsAfterBackoff =
        some w ∧
      Run.Guarded (step { features := { queueUnitConditions := false } }) ThroughReconcilers { unit := dequeuedUnit }
        runsAfterBackoff ∧
      w.unit.status.phase = .running ∧ w.sinceRunning = 0 ∧ (backoffs w.unit).toInt = 1 := by
  decide +kernel

end KoordQueue.JobExt.BackoffCount
