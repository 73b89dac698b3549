import KoordQueue.Lib.GoMap

namespace KoordQueue.Api

abbrev ResourceName := String
abbrev UID := String

abbrev Time := Int

/-- A quantity in thousandths: both of its readers round up, so nothing finer
than a thousandth is ever observed. -/
structure Quantity where
  milli : Int
deriving DecidableEq

def Quantity.milliValue (q : Quantity) : Int64 := Int64.ofInt q.milli

def Quantity.value (q : Quantity) : Int64 :=
  Int64.ofInt (q.milli.sign * ((q.milli.natAbs + 999) / 1000 : Nat))

def newQuantity (v : Int64) : Quantity := ⟨v.toInt * 1000⟩

def newMilliQuantity (v : Int64) : Quantity := ⟨v.toInt⟩

abbrev ResourceList := GoMap ResourceName Quantity

structure Container where
  requests : Option ResourceList := none
  limits : Option ResourceList := none
deriving DecidableEq

structure PodSpec where
  containers : List Container := []
  initContainers : List Container := []
  overhead : ResourceList := ∅
deriving DecidableEq

/-- The pod arithmetic of component-helpers, which is not part of the repository. -/
class ResourceHelpers where
  podRequests : PodSpec → ResourceList

@[reducible] def noPods : ResourceHelpers := ⟨fun _ => ∅⟩

@[reducible] def firstContainer : ResourceHelpers :=
  ⟨fun spec => (spec.containers.head?.bind Container.requests).getD ∅⟩

structure PodSet where
  name : String := ""
  count : Int32 := 0
  template : PodSpec := {}
deriving DecidableEq

structure ReclaimState where
  replicas : Int64
deriving DecidableEq

structure Admission where
  name : String := ""
  replicas : Int64 := 0
  resources : ResourceList := ∅
  running : Int64 := 0
  reclaimState : Option ReclaimState := none
deriving DecidableEq

/-- The phase is a string in the API; `unset` is the empty one. -/
inductive QueueUnitPhase
  | unset
  | enqueued
  | reserved
  | dequeued
  | running
  | succeed
  | failed
  | schedReady
  | schedSucceed
  | schedFailed
  | backoff
  | preempted
  | other (text : String)
deriving DecidableEq

/-- A pointer field. Comparing two pointers compares their addresses, never
only what they point to. -/
structure Ptr (α : Type) where
  addr : Nat
  val : α
deriving DecidableEq

structure QueueUnitSpec where
  priority : Option (Ptr Int32) := none
  resource : ResourceList := ∅
  podSets : List PodSet := []
  request : ResourceList := ∅
  active : Option Bool := none
deriving DecidableEq

structure QueueUnitStatus where
  phase : QueueUnitPhase := .unset
  attempts : Int64 := 0
  message : String := ""
  lastUpdateTime : Option Time := none
  admissions : List Admission := []
  lastAllocateTime : Option Time := none
deriving DecidableEq

/-- A unit with the fields that the queues and plugins read. A field that is
not given has the zero value of its type. -/
structure QueueUnit where
  ns : String := ""
  name : String := ""
  uid : UID := ""
  resourceVersion : String := ""
  creationTimestamp : Time := 0
  labels : GoMap String String := ∅
  spec : QueueUnitSpec := {}
  status : QueueUnitStatus := {}
deriving DecidableEq

def QueueUnit.key (qu : QueueUnit) : String := qu.ns ++ "/" ++ qu.name

def isQueueUnitActive (qu : QueueUnit) : Bool :=
  match qu.spec.active with
  | none => true
  | some active => active

structure ElasticQuotaSpec where
  min : ResourceList := ∅
  max : ResourceList := ∅
deriving DecidableEq

structure ElasticQuota where
  name : String := ""
  labels : GoMap String String := ∅
  spec : ElasticQuotaSpec := {}
deriving DecidableEq

end KoordQueue.Api
