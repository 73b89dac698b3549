import KoordQueue.JobExt.Pods

namespace KoordQueue.JobExt.AdmissionController

open Api Pods

/-- A pod with the value of its label `alibabacloud.com/schedule-admission`, which is empty when the
pod does not carry it. -/
structure LabelledPod extends Pod where
  label : String := ""
deriving DecidableEq

namespace LabelledPod

def id (po : LabelledPod) : String × String := (po.ns, po.name)

def held (po : LabelledPod) : Bool := !po.scheduled && decide (po.label = "false")

def flip (po : LabelledPod) : LabelledPod :=
  { po with label := if po.label = "false" then "true" else "false" }

end LabelledPod

/-- The entry of the map of admitted pods at a podset. Pods without a podset and finished pods are
left out. -/
def admitted (pods : List LabelledPod) (psn : String) : List LabelledPod :=
  pods.filter (fun po => decide (psn ≠ "" ∧ po.podSet = psn) && po.live && !po.held)

def unadmitted (pods : List LabelledPod) (psn : String) : List LabelledPod :=
  pods.filter (fun po => decide (psn ≠ "" ∧ po.podSet = psn) && po.live && po.held)

/-- The loop that takes pods while there are fewer than `maxReplica`. -/
def takeMissing (maxReplica : Int) : Int → List LabelledPod → List LabelledPod
  | _, [] => []
  | currentReplicas, po :: pods =>
    if currentReplicas < maxReplica then
      if po.scheduled then takeMissing maxReplica currentReplicas pods
      else po :: takeMissing maxReplica (currentReplicas + 1) pods
    else []

/-- The loop that takes pods while there are more than `maxReplica`. -/
def takeSurplus (maxReplica : Int) : Int → List LabelledPod → List LabelledPod
  | _, [] => []
  | currentReplicas, po :: pods =>
    if currentReplicas > maxReplica then
      if po.scheduled then takeSurplus maxReplica currentReplicas pods
      else po :: takeSurplus maxReplica (currentReplicas - 1) pods
    else []

def chosen (pods : List LabelledPod) (ads : Admission) : List LabelledPod :=
  let maxReplica := ads.replicas.toInt
  let currentReplicas : Int := (admitted pods ads.name).length
  if currentReplicas = maxReplica then []
  else if currentReplicas < maxReplica then takeMissing maxReplica currentReplicas (unadmitted pods ads.name)
  else takeSurplus maxReplica currentReplicas (admitted pods ads.name)

def addChosen (pods : List LabelledPod) (xorAdmit : GoMap String (List LabelledPod)) (ads : Admission) :
    GoMap String (List LabelledPod) :=
  if chosen pods ads = [] then xorAdmit
  else xorAdmit.insert ads.name ((xorAdmit.lookup ads.name).getD [] ++ chosen pods ads)

def buildXorAdmit (admissions : List Admission) (pods : List LabelledPod) : GoMap String (List LabelledPod) :=
  admissions.foldl (addChosen pods) ∅

def allPods (order : List String) (xorAdmit : GoMap String (List LabelledPod)) : List LabelledPod :=
  order.flatMap (fun psn => (xorAdmit.lookup psn).getD [])

def parallism (n : Nat) : Nat := if n < 10 then n else 10

def chunks {α : Type} (pods : List α) : List (List α) :=
  let chunkSize := pods.length / parallism pods.length
  (List.range (parallism pods.length)).map (fun i =>
    if i = parallism pods.length - 1 then pods.drop (i * chunkSize)
    else (pods.drop (i * chunkSize)).take chunkSize)

def patch (store : List LabelledPod) (po : LabelledPod) : List LabelledPod :=
  store.map (fun stored => if stored.id = po.id then { stored with label := po.flip.label } else stored)

def reconcile (order : List String) (admissions : List Admission) (pods : List LabelledPod) :
    List (List LabelledPod) :=
  chunks (allPods order (buildXorAdmit admissions pods))

section Selection

theorem takeMissing_eq (maxReplica currentReplicas : Int) (pods : List LabelledPod) :
    takeMissing maxReplica currentReplicas pods =
      (pods.filter (fun po => !po.scheduled)).take (maxReplica - currentReplicas).toNat := by
  induction pods generalizing currentReplicas with
  | nil => rw [takeMissing, List.filter_nil, List.take_nil]
  | cons po pods ih =>
    rw [takeMissing]
    split
    next h =>
      cases hs : po.scheduled with
      | true => rw [if_pos rfl, ih, List.filter_cons_of_neg (by simp [hs])]
      | false =>
        have hsucc : (maxReplica - currentReplicas).toNat = (maxReplica - (currentReplicas + 1)).toNat + 1 := by
          omega
        rw [if_neg Bool.false_ne_true, ih, List.filter_cons_of_pos (by simp [hs]), hsucc, List.take_succ_cons]
    next h =>
      have hzero : (maxReplica - currentReplicas).toNat = 0 := by omega
      rw [hzero, List.take_zero]

theorem takeSurplus_eq_takeMissing (maxReplica currentReplicas : Int) (pods : List LabelledPod) :
    takeSurplus maxReplica currentReplicas pods = takeMissing (-maxReplica) (-currentReplicas) pods := by
  induction pods generalizing currentReplicas with
  | nil => rfl
  | cons po pods ih =>
    have hless : currentReplicas > maxReplica ↔ -currentReplicas < -maxReplica := by omega
    have hsucc : -(currentReplicas - 1) = -currentReplicas + 1 := by omega
    rw [takeSurplus, takeMissing, ih, ih, hsucc]
    simp only [hless]

theorem takeSurplus_eq (maxReplica currentReplicas : Int) (pods : List LabelledPod) :
    takeSurplus maxReplica currentReplicas pods =
      (pods.filter (fun po => !po.scheduled)).take (currentReplicas - maxReplica).toNat := by
  have hdiff : -maxReplica - -currentReplicas = currentReplicas - maxReplica := by omega
  rw [takeSurplus_eq_takeMissing, takeMissing_eq, hdiff]

/-- The pods that can close the gap: those held back when more are needed, and admitted ones
otherwise, and in both cases none that is on a node. -/
def eligible (pods : List LabelledPod) (ads : Admission) : List LabelledPod :=
  (if ((admitted pods ads.name).length : Int) < ads.replicas.toInt then unadmitted pods ads.name
    else admitted pods ads.name).filter (fun po => !po.scheduled)

def gap (pods : List LabelledPod) (ads : Admission) : Nat :=
  (ads.replicas.toInt - (admitted pods ads.name).length).natAbs

theorem chosen_eq (pods : List LabelledPod) (ads : Admission) :
    chosen pods ads = (eligible pods ads).take (gap pods ads) := by
  rw [chosen, eligible, gap]
  split
  next h =>
    have hzero : (ads.replicas.toInt - (admitted pods ads.name).length).natAbs = 0 := by omega
    rw [hzero, List.take_zero]
  next =>
    split
    next =>
      rw [takeMissing_eq]
      congr 1
      omega
    next =>
      rw [takeSurplus_eq]
      congr 1
      omega

end Selection

end KoordQueue.JobExt.AdmissionController
