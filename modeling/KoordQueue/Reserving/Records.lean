import KoordQueue.JobExt.Records
import KoordQueue.Lib.ObjectStore

namespace KoordQueue.Reserving.Records

open Api JobExt.Records

/-- The phase is a string in the API; `unset` is the empty one. -/
inductive ReservationPhase
  | unset
  | pending
  | available
  | succeeded
  | waiting
  | failed
deriving DecidableEq

inductive ConditionType
  | scheduled
  | ready
  | preempted
  | other (text : String)
deriving DecidableEq

structure ReservationCondition where
  type : ConditionType
  status : ConditionStatus
  reason : String := ""
  message : String := ""
deriving DecidableEq

inductive NodeSelectorOperator
  | opIn
  | opNotIn
  | opExists
  | opDoesNotExist
  | opGt
  | opLt
deriving DecidableEq

structure NodeSelectorRequirement where
  key : String
  operator : NodeSelectorOperator
  values : List String := []
deriving DecidableEq

structure NodeSelectorTerm where
  matchExpressions : List NodeSelectorRequirement := []
  matchFields : List NodeSelectorRequirement := []
deriving DecidableEq

/-- A pod template with the terms of its required node affinity, if it has one. -/
structure PodTemplate where
  ns : String := ""
  spec : PodSpec := {}
  required : Option (List NodeSelectorTerm) := none
deriving DecidableEq

/-- A reservation. Reservations are not namespaced: the name alone identifies one. -/
structure Reservation where
  name : String
  labels : GoMap String String := ∅
  annotations : GoMap String String := ∅
  resourceVersion : Nat := 0
  ttl : Option Time := none
  template : Option (Ptr PodTemplate) := none
  phase : ReservationPhase := .unset
  conditions : List ReservationCondition := []
deriving DecidableEq

def valueAt (m : GoMap String String) (k : String) : String := (m.lookup k).getD ""

structure NamespacedName where
  ns : String := ""
  name : String := ""
deriving DecidableEq

structure OwnerReference where
  apiVersion : String := ""
  kind : String := ""
  name : String := ""
  uid : UID := ""
deriving DecidableEq

/-- A unit with its owners and the job it is for. -/
structure ReservedUnit extends JobUnit where
  ownerReferences : List OwnerReference := []
  consumerApiVersion : String := ""
  consumerKind : String := ""
  consumer : NamespacedName := {}
deriving DecidableEq

def ReservedUnit.jobTypeKey (qu : ReservedUnit) : String := qu.consumerApiVersion ++ "/" ++ qu.consumerKind

def ReservedUnit.namespacedName (qu : ReservedUnit) : NamespacedName := ⟨qu.ns, qu.name⟩

def ReservedUnit.storeStatus (stored : ReservedUnit) (qu : JobUnit) : ReservedUnit :=
  { stored with toJobUnit := stored.toJobUnit.storeStatus qu }

abbrev Reservations := ObjectStore Reservation.name

def jobNamespaceLabel : String := "reserved-job-namespace"

def jobNameLabel : String := "reserved-job-name"

def labelled (job : NamespacedName) (r : Reservation) : Bool :=
  decide (r.labels.lookup jobNamespaceLabel = some job.ns ∧ r.labels.lookup jobNameLabel = some job.name)

theorem labelled_unique {job job' : NamespacedName} {r : Reservation} (h : labelled job r = true)
    (h' : labelled job' r = true) : job = job' := by
  simp only [labelled, decide_eq_true_eq] at h h'
  obtain ⟨ns, name⟩ := job
  obtain ⟨ns', name'⟩ := job'
  rw [h.1, h.2, Option.some.injEq, Option.some.injEq] at h'
  rw [NamespacedName.mk.injEq]
  exact h'

end KoordQueue.Reserving.Records
