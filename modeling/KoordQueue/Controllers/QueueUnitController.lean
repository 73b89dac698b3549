import KoordQueue.JobExt.Conditions

namespace KoordQueue.Controllers.QueueUnitController

open Api JobExt.Records JobExt.Conditions

inductive State
  | stateReady
  | statePending
  | stateRejected
  | stateRetry
deriving DecidableEq

def scan : State → List AdmissionCheckState → State
  | state, [] => state
  | state, check :: checks =>
    match check.state with
    | .rejected => .stateRejected
    | .retry => .stateRetry
    | .pending => scan .statePending checks
    | .ready => scan state checks

def updateQueueUnitStatus (f : Features) (enableStrictDequeueMode : Bool) (now jitter : Time) (qu : JobUnit) :
    Option JobUnit :=
  match scan .stateReady qu.admissionChecks with
  | .stateRejected | .stateRetry =>
    some (recordQueueUnitRequeueState f 0 now jitter
      { qu with
        status := { qu.status with
          phase := .backoff, lastUpdateTime := some now, message := "admission check failed" } })
  | .stateReady =>
    some { qu with
      status := { qu.status with
        phase := if enableStrictDequeueMode then .schedReady else .dequeued
        lastUpdateTime := some now
        message := "all admission checks success" } }
  | .statePending => none

def reconcile (f : Features) (enableStrictDequeueMode : Bool) (now jitter : Time) (qu : JobUnit) : Option JobUnit :=
  if qu.status.phase ≠ .reserved then none
  else (updateQueueUnitStatus f enableStrictDequeueMode now jitter qu).map (syncQueueUnitConditions f now)

theorem scan_eq_ready_iff (checks : List AdmissionCheckState) (state : State) :
    scan state checks = .stateReady ↔ state = .stateReady ∧ ∀ c ∈ checks, c.state = .ready := by
  induction checks generalizing state with
  | nil => simp [scan]
  | cons check checks ih =>
    rw [scan, List.forall_mem_cons]
    cases hs : check.state with
    | rejected => simp
    | retry => simp
    | pending => simp [ih]
    | ready => simp [ih]

/-- The phases to which a unit is let through. -/
def Released (qu : JobUnit) : Prop := qu.status.phase = .dequeued ∨ qu.status.phase = .schedReady
deriving Decidable

structure Checked (qu qu' : JobUnit) : Prop where
  checks : qu'.admissionChecks = qu.admissionChecks
  conditions : qu'.conditions = qu.conditions
  accumulated : qu'.accumulatedPastExecutionTimeSeconds = qu.accumulatedPastExecutionTimeSeconds
  outcome : (Released qu' ∧ ∀ c ∈ qu.admissionChecks, c.state = .ready) ∨ qu'.status.phase = .backoff

variable {strict : Bool} {f : Features} {qu qu' : JobUnit} {jitter now : Time}

theorem checked_of_update (h : updateQueueUnitStatus f strict now jitter qu = some qu') : Checked qu qu' := by
  rw [updateQueueUnitStatus] at h
  cases hs : scan .stateReady qu.admissionChecks with
  | stateRejected | stateRetry =>
    rw [hs] at h
    cases h
    obtain ⟨r, hr⟩ := record_eq f 0 now jitter { qu with
      status := { qu.status with phase := .backoff, lastUpdateTime := some now, message := "admission check failed" } }
    rw [hr]
    exact ⟨rfl, rfl, rfl, .inr rfl⟩
  | stateReady =>
    rw [hs] at h
    cases h
    refine ⟨rfl, rfl, rfl, .inl ⟨?_, ((scan_eq_ready_iff _ _).mp hs).2⟩⟩
    cases strict with
    | false => exact .inl rfl
    | true => exact .inr rfl
  | statePending =>
    rw [hs] at h
    cases h

theorem reconcile_eq_some (h : reconcile f strict now jitter qu = some qu') :
    qu.status.phase = .reserved ∧ ∃ qu₁, Checked qu qu₁ ∧ qu' = syncQueueUnitConditions f now qu₁ := by
  rw [reconcile] at h
  split at h
  next => cases h
  next hp =>
    obtain ⟨qu₁, hu, rfl⟩ := Option.map_eq_some_iff.mp h
    exact ⟨not_not.mp hp, qu₁, checked_of_update hu, rfl⟩

theorem outcome_reconcile (h : reconcile f strict now jitter qu = some qu') :
    (Released qu' ∧ ∀ c ∈ qu.admissionChecks, c.state = .ready) ∨ qu'.status.phase = .backoff := by
  obtain ⟨_, qu₁, hc, rfl⟩ := reconcile_eq_some h
  rw [Released, sync_status]
  exact hc.outcome

end KoordQueue.Controllers.QueueUnitController
