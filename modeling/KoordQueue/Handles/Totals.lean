import KoordQueue.Handles.FailedIndexes
import KoordQueue.Handles.Ray

namespace KoordQueue.Handles.Totals

open Api JobExt.Pods Requests

section Batch

open BatchJob FailedIndexes

theorem amount_empty (k : ResourceName) : amount ∅ k = 0 := rfl

variable {p : Int32} {job : Job}

theorem amount_resources (job : Job) (hp : job.parallelism = some p) :
    ∃ total, BatchJob.resources job = some total ∧
      ∀ k, amount total k = max 0 p.toInt * amount (podRequestsAndLimits job.template) k := by
  refine ⟨_, by rw [BatchJob.resources, hp, Option.map_some], fun k => ?_⟩
  rw [amount_addTimes, amount_empty, zero_add, Int.toNat_eq_max, max_comm]

theorem total_podSet (hp : job.parallelism = some p) (hs : job.succeeded = 0) (hf : job.failed = 0) (k : ResourceName) :
    podSetsTotal podRequestsAndLimits (BatchJob.podSet job) k =
      min p.toInt (max 0 job.completion.toInt) * amount (podRequestsAndLimits job.template) k := by
  have hparallel : job.parallel.toInt = p.toInt := by rw [toInt_parallel, hp, Option.map_some, Option.getD_some]
  have hzero : (0 : Int64).toInt = 0 := rfl
  have hzero' : (0 : Int32).toInt = 0 := rfl
  have hcount := toInt_count job
  rw [hs, hf, hparallel, hzero, hzero', sub_zero, sub_zero] at hcount
  rw [podSetsTotal, BatchJob.podSet, hs, hf, List.map_singleton, List.sum_singleton]
  dsimp only
  rw [hcount]

/-- The two amounts agree when as many pods are started as the parallelism allows, and otherwise
only for pods that request nothing. -/
theorem job_agrees_iff (hp : job.parallelism = some p) (hs : job.succeeded = 0) (hf : job.failed = 0) :
    (∃ total, BatchJob.resources job = some total ∧
        ∀ k, amount total k = podSetsTotal podRequestsAndLimits (BatchJob.podSet job) k) ↔
      (0 ≤ p.toInt ∧ p.toInt ≤ max 0 job.completion.toInt) ∨
        ∀ k, amount (podRequestsAndLimits job.template) k = 0 := by
  obtain ⟨total, htotal, hamount⟩ := amount_resources job hp
  simp only [htotal, Option.some.injEq, exists_eq_left', hamount, total_podSet hp hs hf]
  constructor
  · intro h
    by_cases hall : ∀ k, amount (podRequestsAndLimits job.template) k = 0
    · exact Or.inr hall
    · obtain ⟨k, hk⟩ := not_forall.mp hall
      have heq := mul_right_cancel₀ hk (h k)
      omega
  · rintro (⟨h1, h2⟩ | h) k
    · rw [max_eq_right h1, min_eq_left h2]
    · rw [h k, mul_zero, mul_zero]

end Batch

section RayJobs

open Ray

theorem amount_addGroup (total : ResourceList) (wgs : WorkerGroupSpec) (k : ResourceName) :
    amount (addGroup total wgs) k =
      amount total k +
        max 0 ((wgs.replicas.map Int32.toInt).getD 0) * amount (getPodRequestsAndLimits wgs.template) k := by
  rw [addGroup]
  cases wgs.replicas with
  | none => simp
  | some replica =>
    dsimp only
    rw [amount_addTimes, Int.toNat_eq_max, max_comm, Option.map_some, Option.getD_some]

theorem amount_groups (total : ResourceList) (groups : List WorkerGroupSpec) (k : ResourceName) :
    amount (groups.foldl addGroup total) k =
      amount total k + (groups.map (fun wgs =>
        max 0 ((wgs.replicas.map Int32.toInt).getD 0) * amount (getPodRequestsAndLimits wgs.template) k)).sum := by
  induction groups generalizing total with
  | nil => simp
  | cons wgs groups ih => rw [List.foldl_cons, ih, amount_addGroup, List.map_cons, List.sum_cons, add_assoc]

variable {spec : RayClusterSpec} {job : RayJob} {getCluster : String → Option RayClusterSpec}

theorem podSet_of_no_cluster (hspec : job.rayClusterSpec = some spec)
    (hnone : job.rayClusterName = "" ∨ getCluster job.rayClusterName = none) :
    Ray.podSet getCluster job = some (specPodSets spec) := by
  rw [Ray.podSet, hspec, Option.map_some]
  rcases hnone with h | h
  · rw [if_pos h]
  · rw [h]
    split <;> rfl

theorem total_specPodSets (spec : RayClusterSpec) (k : ResourceName) :
    podSetsTotal getPodRequestsAndLimits (specPodSets spec) k =
      amount (getPodRequestsAndLimits spec.headGroup) k +
        (spec.workerGroupSpecs.map (fun wgs =>
          wgs.count.toInt * amount (getPodRequestsAndLimits wgs.template) k)).sum := by
  have hone : (1 : Int32).toInt = 1 := rfl
  rw [podSetsTotal, specPodSets, List.map_cons, List.sum_cons, List.map_map, hone, one_mul]
  rfl

/-- The pods of a group that its podset has and the total has not: the one that stands for unset
replicas, and a negative number of replicas, which is added zero times. -/
def surplus (wgs : WorkerGroupSpec) : Int :=
  match wgs.replicas with
  | none => 1
  | some replicas => min 0 replicas.toInt

theorem toInt_count_group (wgs : WorkerGroupSpec) :
    wgs.count.toInt = max 0 ((wgs.replicas.map Int32.toInt).getD 0) + surplus wgs := by
  rw [WorkerGroupSpec.count, surplus]
  cases wgs.replicas with
  | none => rfl
  | some replicas =>
    dsimp only [Option.getD_some, Option.map_some]
    rw [max_add_min, zero_add]

theorem total_surplus (groups : List WorkerGroupSpec) (k : ResourceName) :
    (groups.map (fun wgs => wgs.count.toInt * amount (getPodRequestsAndLimits wgs.template) k)).sum =
      (groups.map (fun wgs =>
        max 0 ((wgs.replicas.map Int32.toInt).getD 0) * amount (getPodRequestsAndLimits wgs.template) k)).sum +
        (groups.map (fun wgs => surplus wgs * amount (getPodRequestsAndLimits wgs.template) k)).sum := by
  rw [← List.sum_map_add]
  simp only [toInt_count_group, add_mul]

theorem rayJob_agrees_iff (hspec : job.rayClusterSpec = some spec)
    (hnone : job.rayClusterName = "" ∨ getCluster job.rayClusterName = none) :
    (∃ total podSets, Ray.resources job = some total ∧ Ray.podSet getCluster job = some podSets ∧
        ∀ k, amount total k = podSetsTotal getPodRequestsAndLimits podSets k) ↔
      ∀ k, (spec.workerGroupSpecs.map (fun wgs =>
        surplus wgs * amount (getPodRequestsAndLimits wgs.template) k)).sum = 0 := by
  simp only [Ray.resources, hspec, Option.map_some, podSet_of_no_cluster hspec hnone, Option.some.injEq,
    exists_and_left, exists_eq_left', amount_groups, amount_addResourceList, amount_empty, zero_add,
    total_specPodSets, total_surplus]
  refine forall_congr' fun k => ?_
  omega

end RayJobs

/-- The total that is checked before admission is that of the podsets: for a
batch job exactly when the parallelism is not negative and not above the
completions, or its pods request nothing; and for a Ray job exactly when the
groups with unset replicas and those with negative replicas make up for each
other in every resource. -/
theorem resources_agree_podSets_iff (job : BatchJob.Job) (p : Int32)
    (getCluster : String → Option Ray.RayClusterSpec) (rayJob : Ray.RayJob) (spec : Ray.RayClusterSpec) :
    (job.parallelism = some p → job.succeeded = 0 → job.failed = 0 →
      ((∃ total, BatchJob.resources job = some total ∧
          ∀ k, amount total k = podSetsTotal podRequestsAndLimits (BatchJob.podSet job) k) ↔
        (0 ≤ p.toInt ∧ p.toInt ≤ max 0 job.completion.toInt) ∨
          ∀ k, amount (podRequestsAndLimits job.template) k = 0)) ∧
    (rayJob.rayClusterSpec = some spec →
      (rayJob.rayClusterName = "" ∨ getCluster rayJob.rayClusterName = none) →
      ((∃ total podSets, Ray.resources rayJob = some total ∧ Ray.podSet getCluster rayJob = some podSets ∧
          ∀ k, amount total k = podSetsTotal getPodRequestsAndLimits podSets k) ↔
        ∀ k, (spec.workerGroupSpecs.map (fun wgs =>
          surplus wgs * amount (getPodRequestsAndLimits wgs.template) k)).sum = 0)) :=
  ⟨job_agrees_iff, rayJob_agrees_iff⟩

def oneCpu : PodSpec := { containers := [{ requests := some (Finmap.singleton "cpu" ⟨1000⟩) }] }

def twoPods : BatchJob.Job := { name := "job", parallelism := some 2, completions := some 5, template := oneCpu }

def sizedSpec : Ray.RayClusterSpec :=
  { headGroup := oneCpu, workerGroupSpecs := [{ groupName := "Small", replicas := some 3, template := oneCpu },
    { groupName := "Unset", template := oneCpu }, { groupName := "Negative", replicas := some (-1), template := oneCpu }] }

def sizedRayJob : Ray.RayJob := { rayClusterSpec := some sizedSpec }

theorem sized_agree :
    (∃ total, BatchJob.resources twoPods = some total ∧ amount total "cpu" = 2000 ∧
      ∀ k, amount total k = podSetsTotal podRequestsAndLimits (BatchJob.podSet twoPods) k) ∧
    (∃ total podSets, Ray.resources sizedRayJob = some total ∧
      Ray.podSet (fun _ => none) sizedRayJob = some podSets ∧
      ∀ k, amount total k = podSetsTotal getPodRequestsAndLimits podSets k) := by
  have hagree := resources_agree_podSets_iff twoPods 2 (fun _ => none) sizedRayJob sizedSpec
  refine ⟨?_, ?_⟩
  · obtain ⟨total, htotal, h⟩ := (hagree.1 rfl rfl rfl).mpr (Or.inl (by decide))
    refine ⟨total, htotal, ?_, h⟩
    rw [h]
    decide +kernel
  · refine (hagree.2 rfl (Or.inl rfl)).mpr fun k => ?_
    have hsurplus : sizedSpec.workerGroupSpecs.map surplus = [0, 1, -1] := by decide
    simp only [sizedSpec, List.map_cons, List.map_nil, List.cons.injEq] at hsurplus ⊢
    obtain ⟨h0, h1, h2, -⟩ := hsurplus
    rw [h0, h1, h2, List.sum_cons, List.sum_cons, List.sum_singleton]
    omega

def fewCompletions : BatchJob.Job :=
  { name := "job", parallelism := some 3, completions := some 1, template := oneCpu }

def unsetReplicas : Ray.RayJob :=
  { rayClusterSpec := some { headGroup := oneCpu, workerGroupSpecs := [{ groupName := "small", template := oneCpu }] } }

theorem totals_differ :
    ((BatchJob.resources fewCompletions).map (amount · "cpu") = some 3000 ∧
      podSetsTotal podRequestsAndLimits (BatchJob.podSet fewCompletions) "cpu" = 1000) ∧
    ((Ray.resources unsetReplicas).map (amount · "cpu") = some 1000 ∧
      (Ray.podSet (fun _ => none) unsetReplicas).map (podSetsTotal getPodRequestsAndLimits · "cpu") = some 2000) := by
  decide +kernel

end KoordQueue.Handles.Totals
