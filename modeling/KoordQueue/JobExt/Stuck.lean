import KoordQueue.JobExt.Due

namespace KoordQueue.JobExt.Stuck

open Api Pods Records Pass Reporter Effects Reclaiming Due

section Rounds

variable (now : Time) (handle : JobHandle) (job : Job) (r : ResourceReporter) (qu : JobUnit) (pods : List Pod)

/-- The pods are read into the status: the job is active, the unit is in flight
and recycles its resources, and no shortfall is being waited out. -/
def Reads : Prop :=
  ¬ (0 < handle.partialRunningTimeout ∧ ∃ ad ∈ qu.status.admissions, Short ad) ∧
    (job.status = .running ∨ job.status = .pending) ∧ inFlight qu.status.phase = true ∧ recycles qu = true

/-- Some part of a round has something to write. -/
def Due : Prop :=
  (∃ ad ∈ qu.status.admissions, 0 < requested ad ∧ ∃ pod ∈ podsByPs pods ad.name, pod.waiting = true) ∨
  (qu.status.phase = .dequeued ∧ ∃ ad ∈ qu.status.admissions,
    ad.reclaimState = none ∧ (gone qu.toQueueUnit (podsByPs pods) r.observedPods ad.name).Nonempty) ∨
  (∃ ad ∈ qu.status.admissions, Overadmitted qu.spec.podSets (podsByPs pods) ad) ∨
  (0 < handle.partialRunningTimeout ∧ inFlight qu.status.phase = true ∧ ∃ ad ∈ qu.status.admissions,
    Overdue qu.toQueueUnit now handle.partialRunningTimeout r.partialRunningFirstSeen ad) ∨
  (Reads handle job qu ∧ OutOfSync qu pods)

theorem afterTimeout_isSome_iff :
    (afterTimeout job r qu pods).write.isSome = true ↔
      (job.status = .running ∨ job.status = .pending) ∧ inFlight qu.status.phase = true ∧ recycles qu = true ∧
        OutOfSync qu pods := by
  rw [← syncInFlightWorkers_isSome_iff, afterTimeout]
  split
  next h => simp [h]
  next h =>
    rw [not_and_or, not_not, not_not] at h
    split
    next hphase =>
      rw [Bool.not_eq_true'] at hphase
      simp [hphase]
    next hphase =>
      rw [Bool.not_eq_true', Bool.not_eq_false] at hphase
      simp [h, hphase]

variable {qu} (hn : (qu.status.admissions.map Admission.name).Nodup)

include hn in
theorem afterOveradmission_isSome_iff :
    (afterOveradmission now handle job r qu pods).write.isSome = true ↔
      (0 < handle.partialRunningTimeout ∧ inFlight qu.status.phase = true ∧ ∃ ad ∈ qu.status.admissions,
        Overdue qu.toQueueUnit now handle.partialRunningTimeout r.partialRunningFirstSeen ad) ∨
      (Reads handle job qu ∧ OutOfSync qu pods) := by
  simp only [afterOveradmission, Reads]
  by_cases hpos : 0 < handle.partialRunningTimeout
  · rw [if_pos hpos]
    have hover := walk_timeOut_updated_iff qu.toQueueUnit now hpos (r.partialRunningFirstSeen, 0) hn
    cases hphase : inFlight qu.status.phase with
    | false =>
      have hidle : reconcilePartialRunningTimeout r.partialRunningFirstSeen qu.toQueueUnit
          handle.partialRunningTimeout now = ⟨(r.partialRunningFirstSeen, 0), qu.status.admissions, false⟩ := by
        rw [reconcilePartialRunningTimeout, hphase]
        rfl
      rw [hidle]
      simp [afterTimeout_isSome_iff, setAdmissions_self, hphase]
    | true =>
      have hwalk : reconcilePartialRunningTimeout r.partialRunningFirstSeen qu.toQueueUnit
          handle.partialRunningTimeout now = walk (timeOut qu.toQueueUnit handle.partialRunningTimeout now)
            (r.partialRunningFirstSeen, 0) qu.status.admissions := by
        rw [reconcilePartialRunningTimeout, if_pos hphase]
      cases hu : (reconcilePartialRunningTimeout r.partialRunningFirstSeen qu.toQueueUnit
          handle.partialRunningTimeout now).updated with
      | true =>
        rw [hwalk] at hu
        simp [hpos, hover.mp hu]
      | false =>
        rw [reconcilePartialRunningTimeout_same hu, setAdmissions_self]
        rw [hwalk] at hu ⊢
        have hnone := hover.not.mp (Bool.eq_false_iff.mp hu)
        have hrem := walk_timeOut_remaining qu.toQueueUnit now (r.partialRunningFirstSeen, 0) le_rfl hu
        simp only [lt_irrefl, false_or] at hrem
        rw [if_neg Bool.false_ne_true]
        by_cases hshort : ∃ ad ∈ qu.status.admissions, Short ad
        · rw [if_pos (hrem.mpr hshort)]
          simp [hnone, hpos, hshort]
        · rw [if_neg (hrem.not.mpr hshort), afterTimeout_isSome_iff]
          simp [hnone, hshort, hphase, and_assoc]
  · rw [if_neg hpos, afterTimeout_isSome_iff]
    simp [hpos, and_assoc]

include hn in
theorem afterPodSets_isSome_iff :
    (afterPodSets now handle job r qu pods).write.isSome = true ↔ Due now handle job r qu pods := by
  rw [Due, ← reconcileReclaim_ne_empty_iff, ← reconcileOveradmission_updated_iff]
  simp only [afterPodSets]
  split
  next h => simp [h]
  next h =>
    rw [or_iff_right h]
    simp only [afterReclaim]
    have hdel : (reconcilePodDeletion r.observedPods qu.toQueueUnit (podsByPs pods)).updated = true ↔
        qu.status.phase = .dequeued ∧ ∃ ad ∈ qu.status.admissions, ad.reclaimState = none ∧
          (gone qu.toQueueUnit (podsByPs pods) r.observedPods ad.name).Nonempty := by
      rw [reconcilePodDeletion]
      by_cases hphase : qu.status.phase = .dequeued
      · rw [if_neg (not_not.mpr hphase), walk_confirmDeletions_updated_iff]
        simp [hphase]
      · simp [hphase]
    rw [← hdel]
    split
    next hu => simp [hu]
    next hu =>
      rw [reconcilePodDeletion_same (Bool.eq_false_iff.mpr hu), setAdmissions_self, or_iff_right hu]
      simp only [afterPodDeletion]
      split
      next hov => simp [hov]
      next hov =>
        rw [reconcileOveradmission_same (Bool.eq_false_iff.mpr hov), setAdmissions_self, or_iff_right hov,
          afterOveradmission_isSome_iff now handle job _ pods hn]

theorem overadmitted_congr {a b : List PodSet} (h : counts a = counts b) (byPs : String → List Pod) (ad : Admission) :
    Overadmitted a byPs ad ↔ Overadmitted b byPs ad := by
  rw [Overadmitted, Overadmitted, requestPodSet, requestPodSet, h]

include hn in
/-- A round writes something precisely when the podsets differ or one of its
other parts has something to write. -/
theorem reconcileUnit_isSome_iff (hpods : job.pods = some pods) :
    (reconcileUnit now handle job r qu).write.isSome = true ↔
      counts qu.spec.podSets ≠ counts job.podSet ∨ Due now handle job r qu pods := by
  rw [← needUpdate_iff]
  simp only [reconcileUnit]
  split
  next h => simp [h]
  next h =>
    have hcounts := counts_reconcilePodSets (Bool.eq_false_iff.mpr h)
    rw [or_iff_right h, hpods]
    have hn' : ((qu.setPodSets (reconcilePodSets qu.spec.podSets job.podSet).2).status.admissions.map
        Admission.name).Nodup := hn
    have hround := afterPodSets_isSome_iff now handle job r pods hn'
    simp only [Due, JobUnit.setPodSets, overadmitted_congr hcounts] at hround
    exact hround

end Rounds

/-- An admission is asked for replicas that no live pod occupies, while no live
pod of it waits to be scheduled. -/
structure AskedForEmptySlots (pods : List Pod) (ad : Admission) : Prop where
  asked : 0 < requested ad
  slots : requested ad ≤ ad.replicas.toInt -
    ((podsByPs pods ad.name).filter (fun pod => pod.live && pod.scheduled)).length
  noneWaiting : ∀ pod ∈ podsByPs pods ad.name, pod.waiting = false

/-- A reclaim of slots without pods moves on precisely when there is something
else for the round to write. -/
theorem reclaim_moves_iff {now : Time} {c : Cluster} {r : ResourceReporter} {req : Request}
    {handle : JobHandle} {job : Job} {qu : JobUnit} {pods : List Pod}
    (hfind : find c req = some (handle, job, qu)) (hpods : job.pods = some pods)
    (hn : (qu.status.admissions.map Admission.name).Nodup) :
    (∀ ad ∈ qu.status.admissions, AskedForEmptySlots pods ad → (reconcile now c r req).write.isSome = true) ↔
      (∀ ad ∈ qu.status.admissions, ¬ AskedForEmptySlots pods ad) ∨
        counts qu.spec.podSets ≠ counts job.podSet ∨ Due now handle job r qu pods := by
  rw [reconcile_of_find hfind, reconcileUnit_isSome_iff now handle job r pods hn hpods]
  constructor
  · intro h
    by_cases hsome : ∃ ad ∈ qu.status.admissions, AskedForEmptySlots pods ad
    · obtain ⟨ad, hm, hasked⟩ := hsome
      exact Or.inr (h ad hm hasked)
    · exact Or.inl (fun ad hm hasked => hsome ⟨ad, hm, hasked⟩)
  · rintro (hnone | hdue) ad hm hasked
    · exact absurd hasked (hnone ad hm)
    · exact hdue

/-- Two of three admitted workers are asked back while only one worker exists,
and it runs. -/
def emptySlots (count : Int32) : JobUnit :=
  { workerUnit .dequeued count [{ name := "worker", replicas := 3, running := 1, reclaimState := some ⟨2⟩ }] with
    podState := ⟨1, 0⟩ }

def oneRunning : List Pod := [worker "a" "node"]

theorem emptySlots_asked (count : Int32) :
    ∀ ad ∈ (emptySlots count).status.admissions, AskedForEmptySlots oneRunning ad := by
  intro ad hm
  rw [List.mem_singleton.mp hm]
  exact ⟨by decide +kernel, by decide +kernel, by decide +kernel⟩

/-- The job asks for one worker only, so the admission is trimmed. -/
theorem reclaim_moves_trimmed :
    (reconcile 0 (clusterOf {} (jobOf (emptySlots 1) oneRunning)) {} jobRequest).write.isSome = true := by
  apply (reclaim_moves_iff (find_jobOf {} (emptySlots 1) oneRunning) rfl (by decide)).mpr _ _
    List.mem_cons_self (emptySlots_asked 1 _ List.mem_cons_self)
  refine Or.inr (Or.inr (Or.inr (Or.inr (Or.inl ⟨_, List.mem_cons_self, ?_⟩))))
  exact ⟨by decide +kernel, by decide +kernel⟩

/-- The job still asks for three workers. The round writes nothing, remembers
nothing and is not repeated, so the reclaim waits forever. -/
theorem reclaim_stuck :
    (∀ ad ∈ (emptySlots 3).status.admissions, AskedForEmptySlots oneRunning ad) ∧
      reconcile 0 (clusterOf {} (jobOf (emptySlots 3) oneRunning)) {} jobRequest = { reporter := {} } :=
  ⟨emptySlots_asked 3, by decide +kernel⟩

end KoordQueue.JobExt.Stuck
