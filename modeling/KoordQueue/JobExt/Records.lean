import KoordQueue.JobExt.Pods
import KoordQueue.UnitStatus

namespace KoordQueue.JobExt.Records

open Api Pods

structure PodState where
  running : Int := 0
  pending : Int := 0
deriving DecidableEq

inductive ConditionStatus
  | conditionTrue
  | conditionFalse
  | conditionUnknown
deriving DecidableEq

structure Condition where
  type : String
  status : ConditionStatus
  reason : String := ""
  message : String := ""
  lastTransitionTime : Time := 0
deriving DecidableEq

structure RequeueState where
  count : Int32 := 0
  requeueAt : Option Time := none
deriving DecidableEq

inductive CheckState
  | pending
  | ready
  | retry
  | rejected
deriving DecidableEq

structure Toleration where
  key : String := ""
  operator : String := ""
  value : String := ""
  effect : String := ""
  tolerationSeconds : Option Int64 := none
deriving DecidableEq

structure PodSetUpdate where
  name : String
  labels : GoMap String String := ∅
  annotations : GoMap String String := ∅
  nodeSelector : GoMap String String := ∅
  tolerations : List Toleration := []
deriving DecidableEq

structure AdmissionCheckState where
  name : String
  state : CheckState := .pending
  lastTransitionTime : Time := 0
  message : String := ""
  podSetUpdates : List PodSetUpdate := []
deriving DecidableEq

structure ReclaimablePod where
  name : String
  count : Int32
deriving DecidableEq

inductive JobStatus
  | created
  | queuing
  | pending
  | running
  | failed
  | succeeded
  | other (text : String)
deriving DecidableEq

/-- A unit with the fields that only its controllers read. The last six belong
to its status. -/
structure JobUnit extends QueueUnit where
  ownerKinds : List String := []
  priorityClassName : String := ""
  maximumExecutionTimeSeconds : Option Int32 := none
  podState : PodState := {}
  admissionChecks : List AdmissionCheckState := []
  conditions : List Condition := []
  requeueState : Option RequeueState := none
  reclaimablePods : List ReclaimablePod := []
  accumulatedPastExecutionTimeSeconds : Option Int32 := none
deriving DecidableEq

def JobUnit.setAdmissions (qu : JobUnit) (ads : List Admission) : JobUnit :=
  { qu with status := { qu.status with admissions := ads } }

def JobUnit.setPodSets (qu : JobUnit) (podSets : List PodSet) : JobUnit :=
  { qu with spec := { qu.spec with podSets } }

def JobUnit.storeStatus (stored qu : JobUnit) : JobUnit :=
  { stored with
    status := qu.status, podState := qu.podState, admissionChecks := qu.admissionChecks,
    conditions := qu.conditions, requeueState := qu.requeueState, reclaimablePods := qu.reclaimablePods,
    accumulatedPastExecutionTimeSeconds := qu.accumulatedPastExecutionTimeSeconds }

def JobUnit.storeSpec (stored qu : JobUnit) : JobUnit := qu.storeStatus stored

structure JobHandle where
  runningTimeout : Time := 0
  backoffTime : Time := 0
  partialRunningTimeout : Time := 0
  requeueJobExtension : Bool := true
  reservationJobExtension : Bool := false
  enableRunningToPending : Bool := false
deriving DecidableEq

/-- A job with what its extension and the job manager find out about it. The
priority and the last two settings are read off its annotations. -/
structure Job where
  deleted : Bool := false
  managedByQueue : Bool := true
  status : JobStatus := .running
  podSet : List PodSet := []
  resources : ResourceList := ∅
  priorityClassName : String := ""
  priority : Option (Ptr Int32) := none
  active : Option Bool := none
  maximumExecutionTime : Option Int32 := none
  queueUnit : Option JobUnit := none
  pods : Option (List Pod) := some []
deriving DecidableEq

structure Request where
  jobTypeKey : String
  ns : String
  name : String
deriving DecidableEq

/-- What a reconcile can look up. -/
structure Cluster where
  jobHandles : GoMap String JobHandle
  jobs : GoMap Request Job

end KoordQueue.JobExt.Records
