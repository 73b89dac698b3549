import KoordQueue.Resources

namespace KoordQueue.UnitStatus

open Api Resources

/-- What a plugin grants to one podset. -/
structure FrameworkAdmission where
  name : String
  replicas : Int64
deriving DecidableEq

def koordQueueDefaultRequirement : String := "koord-queue/default-requirement"

def getQueueUnitResourceRequirementAds (qu : QueueUnit) : GoMap String FrameworkAdmission :=
  if qu.spec.podSets = [] ∧ qu.spec.request ≠ ∅ then
    Finmap.singleton koordQueueDefaultRequirement ⟨koordQueueDefaultRequirement, 1⟩
  else GoMap.ofList (qu.spec.podSets.map (fun ps => (ps.name, ⟨ps.name, ps.count.toInt64⟩)))

def getAdmissionMap (qu : QueueUnit) : GoMap String FrameworkAdmission :=
  GoMap.ofList (qu.status.admissions.map (fun ad => (ad.name, ⟨ad.name, ad.replicas⟩)))

def isQueueUnitPodsScheduleFinished (qu : QueueUnit) : Bool :=
  match qu.status.phase with
  | .schedFailed | .schedSucceed | .enqueued | .unset | .running | .succeed | .failed | .dequeued
  | .preempted => true
  | _ => false

def isQueueUnitAllRunning (qu : QueueUnit) : Bool :=
  if qu.status.admissions = [] then false
  else qu.status.admissions.all (fun ad => !decide (ad.running < ad.replicas))

def isQueueUnitReservedNotRun (qu : QueueUnit) : Bool :=
  decide (qu.status.admissions ≠ []) && !isQueueUnitAllRunning qu

def keptReplicas (ad : Admission) : Int64 :=
  match ad.reclaimState with
  | some rs => if rs.replicas > 0 then ad.replicas - rs.replicas else ad.replicas
  | none => ad.replicas

def isQueueUnitReservedAnyResource (qu : QueueUnit) : Bool :=
  qu.status.admissions.any (fun ad =>
    if keptReplicas ad = 0 ∧ ad.resources = ∅ then false
    else decide (keptReplicas ad > 0) || GoMap.any ad.resources (fun _ v => v.milli > 0))

def isQueueUnitSatisfied (qu : QueueUnit) : Bool :=
  GoMap.all (getQueueUnitResourceRequirementAds qu) (fun n r =>
    match (getAdmissionMap qu).lookup n with
    | none => false
    | some ad => !decide (ad.replicas < r.replicas))

def isV1VersionDequeued (qu : QueueUnit) : Bool :=
  decide (qu.status.admissions = []) &&
    match qu.status.phase with
    | .dequeued | .reserved | .running | .schedReady | .schedSucceed => true
    | _ => false

def isQueueUnitAssigned (qu : QueueUnit) : Bool :=
  decide (qu.status.admissions ≠ []) ||
    match qu.status.phase with
    | .running | .dequeued | .reserved | .schedReady => true
    | _ => false

def isQueueUnitDequeued (qu : QueueUnit) : Bool :=
  if isV1VersionDequeued qu then true
  else if qu.status.phase = .succeed ∨ qu.status.phase = .failed then true
  else if !isQueueUnitSatisfied qu then false
  else if isQueueUnitAllRunning qu then true
  else decide (qu.spec.podSets = [])

def replicasOf (ads : List Admission) (name : String) : Int64 :=
  ((ads.find? (fun ad => ad.name = name)).map Admission.replicas).getD 0

def replicasByName (qu : QueueUnit) : GoMap String Int64 :=
  GoMap.ofList (qu.status.admissions.map (fun ad => (ad.name, ad.replicas)))

def isResourceReleased (old new : QueueUnit) : Bool :=
  if (replicasByName old).keys.card ≠ (replicasByName new).keys.card then true
  else GoMap.any (replicasByName old) (fun k v => ((replicasByName new).lookup k).getD 0 < v)

/-- The admissions that can be asked back, and nothing for a unit that is still
protected. The amount they come to is left out. -/
def getResourcesCanReclaim (qu : QueueUnit) (reclaimProtectTime : Int) (now : Time) :
    Option (GoMap String FrameworkAdmission) :=
  if reclaimProtectTime > 0 ∧ qu.status.lastAllocateTime.any (fun t => now - t < reclaimProtectTime) then none
  else some (GoMap.ofList ((qu.status.admissions.filter (fun ps =>
      ps.replicas ≠ ps.running ∧ ps.reclaimState = none)).map (fun ps =>
        (ps.name, ⟨ps.name, ps.replicas - ps.running⟩))))

def HasPodSet (qu : QueueUnit) (name : String) : Prop := ∃ ps ∈ qu.spec.podSets, ps.name = name

/-- Only the old forms of a unit reserve something without a podset for each admission. -/
def Chargeable (qu : QueueUnit) : Prop :=
  isV1VersionDequeued qu = true ∨ qu.status.admissions.map Admission.name = [koordQueueDefaultRequirement] ∨
    ∀ ad ∈ qu.status.admissions, HasPodSet qu ad.name

variable [ResourceHelpers]

/-- What the pods of one admission request. There is no value when the spec has
no podset of that name; the callers then dereference a nil resource and crash. -/
def requestedByPodSet (qu : QueueUnit) (ad : Admission) : Option Resource :=
  (qu.spec.podSets.find? (fun ps => ps.name = ad.name)).map (fun ps =>
    scaleUp (newResource (ResourceHelpers.podRequests ps.template)) ad.replicas)

def convertFromStatusAdmissionToResource (qu : QueueUnit) (ads : List Admission) : Option Resource :=
  if isV1VersionDequeued qu then some ((newResource ∅).addResource (newResource qu.spec.resource))
  else match ads with
    | [ad] =>
      if ad.name = koordQueueDefaultRequirement then
        some ((newResource ∅).addResource (newResource qu.spec.request))
      else addAdmissions qu [ad] (newResource ∅)
    | ads => addAdmissions qu ads (newResource ∅)
where
  addAdmissions (qu : QueueUnit) : List Admission → Resource → Option Resource
    | [], converted => some converted
    | ad :: ads, converted => do
        let resByRequest ← requestedByPodSet qu ad
        addAdmissions qu ads (converted.add (max resByRequest (newResource ad.resources)).resourceList)

def getReservedResource (qu : QueueUnit) : Option Resource :=
  convertFromStatusAdmissionToResource qu qu.status.admissions

omit [ResourceHelpers] in
theorem isQueueUnitSatisfied_iff (qu : QueueUnit) :
    isQueueUnitSatisfied qu = true ↔
      ∀ n r, (getQueueUnitResourceRequirementAds qu).lookup n = some r →
        ∃ ad, (getAdmissionMap qu).lookup n = some ad ∧ ¬ ad.replicas < r.replicas := by
  rw [isQueueUnitSatisfied, GoMap.all_iff]
  apply forall_congr'
  intro n
  apply forall_congr'
  intro r
  cases (getAdmissionMap qu).lookup n <;> simp

theorem requestedByPodSet_eq_none_iff (qu : QueueUnit) (ad : Admission) :
    requestedByPodSet qu ad = none ↔ ¬ HasPodSet qu ad.name := by
  rw [requestedByPodSet, Option.map_eq_none_iff, List.find?_eq_none]
  simp [HasPodSet]

theorem addAdmissions_eq_none_iff (qu : QueueUnit) (ads : List Admission) (converted : Resource) :
    convertFromStatusAdmissionToResource.addAdmissions qu ads converted = none ↔
      ∃ ad ∈ ads, ¬ HasPodSet qu ad.name := by
  induction ads generalizing converted with
  | nil => simp [convertFromStatusAdmissionToResource.addAdmissions]
  | cons ad ads ih =>
    rw [convertFromStatusAdmissionToResource.addAdmissions, List.exists_mem_cons_iff,
      ← requestedByPodSet_eq_none_iff]
    cases hreq : requestedByPodSet qu ad with
    | none => simp
    | some req => simpa using ih _

theorem getReservedResource_ne_none_iff (qu : QueueUnit) : getReservedResource qu ≠ none ↔ Chargeable qu := by
  unfold getReservedResource convertFromStatusAdmissionToResource Chargeable
  split
  next hold => simp [hold]
  next hold =>
    rw [or_iff_right hold]
    split
    next ad hads =>
      split
      next hdefault => simp [hads, hdefault]
      next hdefault => simp [hads, hdefault, addAdmissions_eq_none_iff]
    next ads hmany =>
      have hnot : qu.status.admissions.map Admission.name ≠ [koordQueueDefaultRequirement] := by
        intro hone
        obtain ⟨ad, hads, -⟩ := List.map_eq_singleton_iff.mp hone
        exact hmany ad hads
      rw [or_iff_right hnot, ne_eq, addAdmissions_eq_none_iff]
      simp

end KoordQueue.UnitStatus
