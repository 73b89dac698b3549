import KoordQueue.JobExt.Records
import KoordQueue.Lib.Pass
import KoordQueue.Lib.Machine

namespace KoordQueue.JobExt.Reporter

open Api Pods Records Pass Machine

/-- What the reporter remembers between two rounds. -/
structure ResourceReporter where
  observedPods : GoMap String (Finset String) := ∅
  partialRunningFirstSeen : GoMap String Time := ∅
deriving DecidableEq

def admissionKey (qu : QueueUnit) (name : String) : String := qu.key ++ "/" ++ name

def counts (podSets : List PodSet) : GoMap String Int32 :=
  GoMap.ofList (podSets.map (fun p => (p.name, p.count)))

/-- Whether the podsets of the unit have to be updated to those of the job, and
what they become. -/
def reconcilePodSets (podSets ps : List PodSet) : Bool × List PodSet :=
  (GoMap.any (counts podSets) (fun n c => decide ((counts ps).lookup n ≠ some c)) ||
      GoMap.any (counts ps) (fun n _ => decide ((counts podSets).lookup n = none)),
    podSets.filterMap (fun p => ((counts ps).lookup p.name).map (fun count => { p with count })) ++
      ((ps.map PodSet.name).dedup.filter (fun n => decide ((counts podSets).lookup n = none))).filterMap
        (fun n => ps.find? (fun np => np.name = n)))

/-- The pods of one podset that a reclaim takes: live ones that are not
scheduled, as many as remain to be reclaimed. -/
def pickReclaimed : List Pod → Int64 → List Pod
  | [], _ => []
  | pod :: pods, remainToReclaim =>
    if !pod.live then pickReclaimed pods remainToReclaim
    else if pod.scheduled then pickReclaimed pods remainToReclaim
    else if remainToReclaim > 0 then
      if remainToReclaim - 1 = 0 then [pod] else pod :: pickReclaimed pods (remainToReclaim - 1)
    else if remainToReclaim = 0 then []
    else pickReclaimed pods remainToReclaim

def reclaimedFrom (admitted : String → List Pod) (ad : Admission) : List Pod :=
  match ad.reclaimState with
  | none => []
  | some reclaimState => pickReclaimed (admitted ad.name) reclaimState.replicas

def reconcileReclaim (admission : List Admission) (admitted : String → List Pod) : GoMap String (List Pod) :=
  admission.foldl (fun xorAdmit ad =>
    if reclaimedFrom admitted ad = [] then xorAdmit
    else xorAdmit.insert ad.name ((xorAdmit.lookup ad.name).getD [] ++ reclaimedFrom admitted ad)) ∅

def applyReclaim (updatePodSets : GoMap String (List Pod)) (ad : Admission) : Admission :=
  let reclaimed := len64 ((updatePodSets.lookup ad.name).getD []).length
  { ad with
    replicas := if ad.replicas < reclaimed then 0 else ad.replicas - reclaimed
    reclaimState := none }

def observed (qu : QueueUnit) (observedPods : GoMap String (Finset String)) (name : String) : Finset String :=
  (observedPods.lookup (admissionKey qu name)).getD ∅

def gone (qu : QueueUnit) (podsByPs : String → List Pod) (observedPods : GoMap String (Finset String))
    (name : String) : Finset String :=
  observed qu observedPods name \ liveNames (podsByPs name)

def reduceBy (gone : Nat) (replicas : Int64) : Int64 :=
  if len64 gone > replicas then replicas else len64 gone

def confirmDeletions (qu : QueueUnit) (podsByPs : String → List Pod)
    (observedPods : GoMap String (Finset String)) (ad : Admission) :
    Visit (GoMap String (Finset String)) Admission :=
  if ad.reclaimState ≠ none then ⟨observedPods, ad, false⟩
  else
    let live := liveNames (podsByPs ad.name)
    let seen := observed qu observedPods ad.name ∪ live
    if (seen \ live).card = 0 then ⟨observedPods.insert (admissionKey qu ad.name) seen, ad, false⟩
    else ⟨observedPods.insert (admissionKey qu ad.name) (seen \ (seen \ live)),
      { ad with replicas := ad.replicas - reduceBy (seen \ live).card ad.replicas }, true⟩

def reconcilePodDeletion (observedPods : GoMap String (Finset String)) (qu : QueueUnit)
    (podsByPs : String → List Pod) : Visit (GoMap String (Finset String)) (List Admission) :=
  if qu.status.phase ≠ .dequeued then ⟨observedPods, qu.status.admissions, false⟩
  else walk (confirmDeletions qu podsByPs) observedPods qu.status.admissions

def forgetObservedPods (r : ResourceReporter) (quKey : String) : ResourceReporter :=
  { r with observedPods := GoMap.range (fun key _ names =>
      if (quKey ++ "/").isPrefixOf key then none else some names) r.observedPods r.observedPods }

def requestPodSet (podSets : List PodSet) (name : String) : Int32 := ((counts podSets).lookup name).getD 0

def trimmedReplicas (request : Int32) (pods : List Pod) (replicas : Int64) : Option Int64 :=
  let runAnsPending := Int32.ofNat (pods.filter Pod.live).length
  if request < replicas.toInt32 then
    if runAnsPending ≥ request ∧ runAnsPending < replicas.toInt32 then some runAnsPending.toInt64
    else if runAnsPending < request ∧ request < replicas.toInt32 then some request.toInt64
    else none
  else none

def fulfil (released : Int64) (reclaimState : Option ReclaimState) : Option ReclaimState :=
  match reclaimState with
  | none => none
  | some rs =>
    if released > 0 then if rs.replicas - released ≤ 0 then none else some ⟨rs.replicas - released⟩
    else some rs

def trimAdmission (podSets : List PodSet) (podsByPs : String → List Pod) (ad : Admission) :
    Visit Unit Admission :=
  match trimmedReplicas (requestPodSet podSets ad.name) (podsByPs ad.name) ad.replicas with
  | none => ⟨(), ad, false⟩
  | some replicas =>
    ⟨(), { ad with replicas, reclaimState := fulfil (ad.replicas - replicas) ad.reclaimState }, true⟩

def reconcileOveradmission (qu : QueueUnit) (podsByPs : String → List Pod) : Visit Unit (List Admission) :=
  walk (fun _ => trimAdmission qu.spec.podSets podsByPs) () qu.status.admissions

def inFlight (phase : QueueUnitPhase) : Bool := decide (phase = .running ∨ phase = .dequeued)

/-- The memory of this pass is when each shortfall was first seen, and the
shortest time that remains. -/
def timeOut (qu : QueueUnit) (timeout now : Time) (m : GoMap String Time × Time) (ad : Admission) :
    Visit (GoMap String Time × Time) Admission :=
  let key := admissionKey qu ad.name
  if ad.running ≥ ad.replicas then ⟨(m.1.erase key, m.2), ad, false⟩
  else
    let firstSeen := (m.1.lookup key).getD now
    let elapsed := now - firstSeen
    if elapsed ≥ timeout then ⟨(m.1.erase key, m.2), { ad with replicas := ad.running }, true⟩
    else ⟨(m.1.insert key firstSeen, if m.2 = 0 ∨ timeout - elapsed < m.2 then timeout - elapsed else m.2),
      ad, false⟩

def reconcilePartialRunningTimeout (partialRunningFirstSeen : GoMap String Time) (qu : QueueUnit)
    (timeout now : Time) : Visit (GoMap String Time × Time) (List Admission) :=
  if inFlight qu.status.phase then
    walk (timeOut qu timeout now) (partialRunningFirstSeen, 0) qu.status.admissions
  else ⟨(partialRunningFirstSeen, 0), qu.status.admissions, false⟩

def totalRequests (pods : List Pod) : ResourceList :=
  (pods.map (fun pod => getPodRequestsAndLimits pod.spec)).foldl addResourceList ∅

def pd2Res (pods : List Pod) : GoMap String ResourceList :=
  GoMap.ofList (pods.map (fun pod => (pod.key, getPodRequestsAndLimits pod.spec)))

def runningByPs (pods : List Pod) (ps : String) : Int64 :=
  len64 ((podsByPs pods ps).filter Pod.scheduled).length

def resByPs (pods : List Pod) (ps : String) : ResourceList :=
  (((podsByPs pods ps).filter Pod.scheduled).map (fun pod =>
    ((pd2Res pods).lookup pod.key).getD (getPodRequestsAndLimits pod.spec))).foldl addResourceList ∅

def syncAdmission (syncRes : Bool) (r : Int64) (res : ResourceList) (ad : Admission) : Visit Unit Admission :=
  ⟨(), { ad with
      running := r
      replicas := if ad.replicas < r then r else ad.replicas
      resources := if syncRes && !equal ad.resources res then res else ad.resources },
    decide (r ≠ ad.running) || decide (ad.replicas < r) || (syncRes && !equal ad.resources res)⟩

/-- The first admission of that name is brought in line, and one is appended
when there is none. -/
def syncPodSet (syncRes : Bool) (k : String) (r : Int64) (res : ResourceList) :
    List Admission → Visit Unit (List Admission)
  | [] => ⟨(), [{ name := k, running := r, replicas := r, resources := if syncRes then res else ∅ }], true⟩
  | ad :: ads =>
    if ad.name = k then
      ⟨(), (syncAdmission syncRes r res ad).item :: ads, (syncAdmission syncRes r res ad).updated⟩
    else ⟨(), ad :: (syncPodSet syncRes k r res ads).item, (syncPodSet syncRes k r res ads).updated⟩

def syncAdmissions (syncRes : Bool) (pods : List Pod) : List String → List Admission → Visit Unit (List Admission)
  | [], ads => ⟨(), ads, false⟩
  | k :: ks, ads =>
    let here := syncPodSet syncRes k (runningByPs pods k) (resByPs pods k) ads
    let rest := syncAdmissions syncRes pods ks here.item
    ⟨(), rest.item, here.updated || rest.updated⟩

def podStateOf (pods : List Pod) : PodState :=
  ⟨((pods.filter Pod.scheduled).length : Nat), ((pods.filter (fun pod => !pod.scheduled)).length : Nat)⟩

def needResource (total resource : ResourceList) : Bool :=
  if total.keys.card = resource.keys.card then
    GoMap.any total (fun k v => decide (resource.lookup k ≠ some v))
  else true

def recycles (qu : JobUnit) : Bool :=
  !decide (qu.labels.lookup "alibabacloud.com/disable-resource-recycle" = some "true") &&
    !decide (qu.ownerKinds.head? = some "ResourceBinding" ∨ qu.ownerKinds.head? = some "ClusterResourceBinding")

inductive Cause
  | reclaim
  | podDeletion
  | overadmission
  | partialRunning
  | podState
deriving DecidableEq

inductive Write
  | update (qu : JobUnit)
  | statusUpdate (cause : Cause) (qu : JobUnit)
deriving DecidableEq

def syncInFlightWorkers (qu : JobUnit) (pods : List Pod) : Option Write :=
  if !recycles qu then none
  else if qu.status.phase = .running ∧ needResource (totalRequests pods) qu.spec.resource then
    some (.update { qu with spec := { qu.spec with resource := totalRequests pods } })
  else
    let syncRes := decide (qu.status.phase = .running)
    let synced := syncAdmissions syncRes pods (podSetNames pods) qu.status.admissions
    if qu.podState ≠ podStateOf pods ∨ synced.updated then
      some (.statusUpdate .podState { qu.setAdmissions synced.item with podState := podStateOf pods })
    else none

/-- What a round leaves behind. -/
structure Outcome where
  reporter : ResourceReporter
  write : Option Write := none
  requeueAfter : Time := 0
deriving DecidableEq

variable (now : Time) (handle : JobHandle) (job : Job)

def afterTimeout (r : ResourceReporter) (qu : JobUnit) (pods : List Pod) : Outcome :=
  if job.status ≠ .running ∧ job.status ≠ .pending then { reporter := r }
  else if !inFlight qu.status.phase then { reporter := r }
  else { reporter := r, write := syncInFlightWorkers qu pods }

def afterOveradmission (r : ResourceReporter) (qu : JobUnit) (pods : List Pod) : Outcome :=
  if handle.partialRunningTimeout > 0 then
    let cut := reconcilePartialRunningTimeout r.partialRunningFirstSeen qu.toQueueUnit
      handle.partialRunningTimeout now
    let r := { r with partialRunningFirstSeen := cut.memory.1 }
    if cut.updated then
      { reporter := r, write := some (.statusUpdate .partialRunning (qu.setAdmissions cut.item)) }
    else if cut.memory.2 > 0 then { reporter := r, requeueAfter := cut.memory.2 }
    else afterTimeout job r (qu.setAdmissions cut.item) pods
  else afterTimeout job r qu pods

def afterPodDeletion (r : ResourceReporter) (qu : JobUnit) (pods : List Pod) : Outcome :=
  let trimmed := reconcileOveradmission qu.toQueueUnit (podsByPs pods)
  if trimmed.updated then
    { reporter := r, write := some (.statusUpdate .overadmission (qu.setAdmissions trimmed.item)) }
  else afterOveradmission now handle job r (qu.setAdmissions trimmed.item) pods

def afterReclaim (r : ResourceReporter) (qu : JobUnit) (pods : List Pod) : Outcome :=
  let deleted := reconcilePodDeletion r.observedPods qu.toQueueUnit (podsByPs pods)
  let r := { r with observedPods := deleted.memory }
  if deleted.updated then
    { reporter := r, write := some (.statusUpdate .podDeletion (qu.setAdmissions deleted.item)) }
  else afterPodDeletion now handle job r (qu.setAdmissions deleted.item) pods

def afterPodSets (r : ResourceReporter) (qu : JobUnit) (pods : List Pod) : Outcome :=
  let updatePodSets := reconcileReclaim qu.status.admissions (podsByPs pods)
  if updatePodSets ≠ ∅ then
    { reporter := r, write := some (.statusUpdate .reclaim
        (qu.setAdmissions (qu.status.admissions.map (applyReclaim updatePodSets)))) }
  else afterReclaim now handle job r qu pods

def reconcileUnit (r : ResourceReporter) (qu : JobUnit) : Outcome :=
  let podSets := reconcilePodSets qu.spec.podSets job.podSet
  if podSets.1 then { reporter := r, write := some (.update (qu.setPodSets podSets.2)) }
  else match job.pods with
    | none => { reporter := r }
    | some pods => afterPodSets now handle job r (qu.setPodSets podSets.2) pods

/-- What a request stands for: the handle of its job type, a job that is there
and managed, and the unit of the job. -/
def find (c : Cluster) (req : Request) : Option (JobHandle × Job × JobUnit) := do
  let handle ← c.jobHandles.lookup req.jobTypeKey
  let job ← c.jobs.lookup req
  if job.deleted || !job.managedByQueue then none
  else
    let queueUnit ← job.queueUnit
    some (handle, job, queueUnit)

def reconcile (c : Cluster) (r : ResourceReporter) (req : Request) : Outcome :=
  match find c req with
  | none => { reporter := r }
  | some (handle, job, queueUnit) => reconcileUnit now handle job r queueUnit

end KoordQueue.JobExt.Reporter
