import KoordQueue.Handles.Requests

namespace KoordQueue.Handles.Ray

open Api JobExt.Pods Requests

structure WorkerGroupSpec where
  groupName : String := ""
  replicas : Option Int32 := none
  template : PodSpec := {}
deriving DecidableEq

structure RayClusterSpec where
  headGroup : PodSpec := {}
  workerGroupSpecs : List WorkerGroupSpec := []
deriving DecidableEq

/-- What the handle reads of a Ray job. The source reads through the pointer to the cluster spec,
so a job without one is not for these functions. -/
structure RayJob where
  rayClusterSpec : Option RayClusterSpec := none
  rayClusterName : String := ""
deriving DecidableEq

def headGroupPodSetName : String := "head"

def genPsName (wg : String) : String := if wg.toLower = "" then "worker" else wg.toLower

def WorkerGroupSpec.count (wgs : WorkerGroupSpec) : Int32 := wgs.replicas.getD 1

def specPodSets (spec : RayClusterSpec) : List PodSet :=
  { name := headGroupPodSetName, template := spec.headGroup, count := 1 } ::
    spec.workerGroupSpecs.map (fun wgs =>
      { name := genPsName wgs.groupName, template := wgs.template, count := wgs.count })

def raise (podSets : List PodSet) (wgs : WorkerGroupSpec) : List PodSet :=
  podSets.map (fun ps =>
    if ps.name = genPsName wgs.groupName ∧ ps.count < wgs.count then { ps with count := wgs.count } else ps)

/-- `getCluster` is what the client finds under the name of a Ray cluster. -/
def podSet (getCluster : String → Option RayClusterSpec) (job : RayJob) : Option (List PodSet) :=
  job.rayClusterSpec.map (fun spec =>
    if job.rayClusterName = "" then specPodSets spec
    else
      match getCluster job.rayClusterName with
      | none => specPodSets spec
      | some cluster => cluster.workerGroupSpecs.foldl raise (specPodSets spec))

def addGroup (total : ResourceList) (workerGroup : WorkerGroupSpec) : ResourceList :=
  match workerGroup.replicas with
  | none => total
  | some replica => addTimes (getPodRequestsAndLimits workerGroup.template) replica.toInt.toNat total

def resources (job : RayJob) : Option ResourceList :=
  job.rayClusterSpec.map (fun spec =>
    spec.workerGroupSpecs.foldl addGroup (addResourceList ∅ (getPodRequestsAndLimits spec.headGroup)))

end KoordQueue.Handles.Ray
