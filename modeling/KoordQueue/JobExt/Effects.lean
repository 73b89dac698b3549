import KoordQueue.JobExt.Reporter

namespace KoordQueue.JobExt.Effects

open Api Pods Records Pass Reporter

def Write.store (w : Write) (stored : JobUnit) : JobUnit :=
  match w with
  | .update qu => stored.storeSpec qu
  | .statusUpdate _ qu => stored.storeStatus qu

def Outcome.store (o : Outcome) (stored : JobUnit) : JobUnit :=
  match o.write with
  | none => stored
  | some w => Write.store w stored

theorem setAdmissions_self (qu : JobUnit) : qu.setAdmissions qu.status.admissions = qu := rfl

section Untouched

variable {qu : JobUnit}

variable {podsByPs : String → List Pod}

theorem reconcilePodDeletion_same {observedPods : GoMap String (Finset String)}
    (h : (reconcilePodDeletion observedPods qu.toQueueUnit podsByPs).updated = false) :
    (reconcilePodDeletion observedPods qu.toQueueUnit podsByPs).item = qu.status.admissions := by
  rw [reconcilePodDeletion] at h ⊢
  split
  next => rfl
  next hp =>
    rw [if_neg hp] at h
    apply walk_same _ h
    intro m ad hu
    simp only [confirmDeletions] at hu ⊢
    split
    next => rfl
    next hr =>
      rw [if_neg hr] at hu
      split
      next => rfl
      next hg =>
        rw [if_neg hg] at hu
        cases hu

theorem reconcileOveradmission_same (h : (reconcileOveradmission qu.toQueueUnit podsByPs).updated = false) :
    (reconcileOveradmission qu.toQueueUnit podsByPs).item = qu.status.admissions := by
  rw [reconcileOveradmission] at h ⊢
  apply walk_same _ h
  intro m ad hu
  rw [trimAdmission] at hu ⊢
  split
  next => rfl
  next heq =>
    rw [heq] at hu
    cases hu

theorem reconcilePartialRunningTimeout_same {firstSeen : GoMap String Time} {timeout now : Time}
    (h : (reconcilePartialRunningTimeout firstSeen qu.toQueueUnit timeout now).updated = false) :
    (reconcilePartialRunningTimeout firstSeen qu.toQueueUnit timeout now).item = qu.status.admissions := by
  rw [reconcilePartialRunningTimeout] at h ⊢
  split
  next hp =>
    rw [if_pos hp] at h
    apply walk_same _ h
    intro m ad hu
    simp only [timeOut] at hu ⊢
    split
    next => rfl
    next hr =>
      rw [if_neg hr] at hu
      split
      next he =>
        rw [if_pos he] at hu
        cases hu
      next => rfl
  next => rfl

end Untouched

/-- The writes that a round can come to once the podsets agree, each with the
part of the round it stems from. -/
inductive Effect (now : Time) (handle : JobHandle) (job : Job) (observedPods : GoMap String (Finset String))
    (firstSeen : GoMap String Time) (qu : JobUnit) (pods : List Pod) : Write → Prop
  | reclaim (h : reconcileReclaim qu.status.admissions (podsByPs pods) ≠ ∅) :
      Effect now handle job observedPods firstSeen qu pods (.statusUpdate .reclaim (qu.setAdmissions
        (qu.status.admissions.map (applyReclaim (reconcileReclaim qu.status.admissions (podsByPs pods))))))
  | podDeletion (h : (reconcilePodDeletion observedPods qu.toQueueUnit (podsByPs pods)).updated = true) :
      Effect now handle job observedPods firstSeen qu pods (.statusUpdate .podDeletion (qu.setAdmissions
        (reconcilePodDeletion observedPods qu.toQueueUnit (podsByPs pods)).item))
  | overadmission (h : (reconcileOveradmission qu.toQueueUnit (podsByPs pods)).updated = true) :
      Effect now handle job observedPods firstSeen qu pods (.statusUpdate .overadmission (qu.setAdmissions
        (reconcileOveradmission qu.toQueueUnit (podsByPs pods)).item))
  | partialRunning (hon : handle.partialRunningTimeout > 0)
      (h : (reconcilePartialRunningTimeout firstSeen qu.toQueueUnit
        handle.partialRunningTimeout now).updated = true) :
      Effect now handle job observedPods firstSeen qu pods (.statusUpdate .partialRunning (qu.setAdmissions
        (reconcilePartialRunningTimeout firstSeen qu.toQueueUnit
          handle.partialRunningTimeout now).item))
  | synced {w : Write} (hjob : job.status = .running ∨ job.status = .pending)
      (hphase : inFlight qu.status.phase = true) (h : syncInFlightWorkers qu pods = some w) :
      Effect now handle job observedPods firstSeen qu pods w

variable {now : Time} {handle : JobHandle} {job : Job} {r : ResourceReporter} {qu : JobUnit} {pods : List Pod}
  {w : Write}

def synced (qu : JobUnit) (pods : List Pod) : Visit Unit (List Admission) :=
  syncAdmissions (decide (qu.status.phase = .running)) pods (podSetNames pods) qu.status.admissions

theorem syncInFlightWorkers_cases (h : syncInFlightWorkers qu pods = some w) :
    recycles qu = true ∧
      (w = .update { qu with spec := { qu.spec with resource := totalRequests pods } } ∨
        w = .statusUpdate .podState
          { qu.setAdmissions (synced qu pods).item with podState := podStateOf pods }) := by
  rw [syncInFlightWorkers] at h
  split at h
  next => cases h
  next hrec =>
    refine ⟨by simpa using hrec, ?_⟩
    split at h
    next =>
      cases h
      exact Or.inl rfl
    next =>
      simp only at h
      split at h
      next =>
        cases h
        exact Or.inr rfl
      next => cases h

theorem afterTimeout_write (h : (afterTimeout job r qu pods).write = some w) :
    (job.status = .running ∨ job.status = .pending) ∧ inFlight qu.status.phase = true ∧
      syncInFlightWorkers qu pods = some w := by
  rw [afterTimeout] at h
  split at h
  next => cases h
  next hjob =>
    split at h
    next => cases h
    next hphase =>
      refine ⟨?_, by simpa using hphase, h⟩
      by_cases hr : job.status = .running
      · exact Or.inl hr
      · exact Or.inr (not_not.mp (fun hp => hjob ⟨hr, hp⟩))

theorem effect_afterOveradmission (observedPods : GoMap String (Finset String))
    (h : (afterOveradmission now handle job r qu pods).write = some w) :
    Effect now handle job observedPods r.partialRunningFirstSeen qu pods w := by
  rw [afterOveradmission] at h
  split at h
  next hon =>
    simp only at h
    split at h
    next hu =>
      cases h
      exact .partialRunning hon hu
    next hu =>
      split at h
      next => cases h
      next =>
        rw [reconcilePartialRunningTimeout_same (Bool.eq_false_iff.mpr hu), setAdmissions_self] at h
        obtain ⟨hjob, hphase, hs⟩ := afterTimeout_write h
        exact .synced hjob hphase hs
  next =>
    obtain ⟨hjob, hphase, hs⟩ := afterTimeout_write h
    exact .synced hjob hphase hs

theorem effect_afterPodDeletion (observedPods : GoMap String (Finset String))
    (h : (afterPodDeletion now handle job r qu pods).write = some w) :
    Effect now handle job observedPods r.partialRunningFirstSeen qu pods w := by
  simp only [afterPodDeletion] at h
  split at h
  next hu =>
    cases h
    exact .overadmission hu
  next hu =>
    rw [reconcileOveradmission_same (Bool.eq_false_iff.mpr hu), setAdmissions_self] at h
    exact effect_afterOveradmission observedPods h

theorem effect_afterReclaim (h : (afterReclaim now handle job r qu pods).write = some w) :
    Effect now handle job r.observedPods r.partialRunningFirstSeen qu pods w := by
  simp only [afterReclaim] at h
  split at h
  next hu =>
    cases h
    exact .podDeletion hu
  next hu =>
    rw [reconcilePodDeletion_same (Bool.eq_false_iff.mpr hu), setAdmissions_self] at h
    have heffect := effect_afterPodDeletion r.observedPods h
    exact heffect

theorem effect_afterPodSets (h : (afterPodSets now handle job r qu pods).write = some w) :
    Effect now handle job r.observedPods r.partialRunningFirstSeen qu pods w := by
  simp only [afterPodSets] at h
  split at h
  next hne =>
    cases h
    exact .reclaim hne
  next => exact effect_afterReclaim h

theorem reconcileUnit_write (h : (reconcileUnit now handle job r qu).write = some w) :
    ((reconcilePodSets qu.spec.podSets job.podSet).1 = true ∧
        w = .update (qu.setPodSets (reconcilePodSets qu.spec.podSets job.podSet).2)) ∨
      ((reconcilePodSets qu.spec.podSets job.podSet).1 = false ∧ ∃ pods, job.pods = some pods ∧
        Effect now handle job r.observedPods r.partialRunningFirstSeen
          (qu.setPodSets (reconcilePodSets qu.spec.podSets job.podSet).2) pods w) := by
  simp only [reconcileUnit] at h
  split at h
  next hneed =>
    cases h
    exact Or.inl ⟨hneed, rfl⟩
  next hneed =>
    split at h
    next => cases h
    next pods hpods =>
      exact Or.inr ⟨Bool.eq_false_iff.mpr hneed, pods, hpods, effect_afterPodSets h⟩

/-- A round leaves the unit as it was, with the podsets of its job, or with one effect written to it. -/
theorem store_round {P : JobUnit → Prop} (hsame : P qu)
    (hpodSets : (reconcilePodSets qu.spec.podSets job.podSet).1 = true →
      P (qu.setPodSets (reconcilePodSets qu.spec.podSets job.podSet).2))
    (heffect : ∀ pods w, (reconcilePodSets qu.spec.podSets job.podSet).1 = false → job.pods = some pods →
      Effect now handle job r.observedPods r.partialRunningFirstSeen
        (qu.setPodSets (reconcilePodSets qu.spec.podSets job.podSet).2) pods w → P (Write.store w qu)) :
    P (Outcome.store (reconcileUnit now handle job r qu) qu) := by
  rw [Outcome.store]
  split
  next => exact hsame
  next w hw =>
    rcases reconcileUnit_write hw with ⟨hneed, rfl⟩ | ⟨hagree, pods, hpods, he⟩
    · exact hpodSets hneed
    · exact heffect pods w hagree hpods he

theorem round_frame : (Outcome.store (reconcileUnit now handle job r qu) qu).uid = qu.uid ∧
    (Outcome.store (reconcileUnit now handle job r qu) qu).key = qu.key ∧
    (Outcome.store (reconcileUnit now handle job r qu) qu).status.phase = qu.status.phase := by
  refine store_round (P := fun u => u.uid = qu.uid ∧ u.key = qu.key ∧ u.status.phase = qu.status.phase)
    ⟨rfl, rfl, rfl⟩ (fun _ => ⟨rfl, rfl, rfl⟩) (fun pods w _ _ he => ?_)
  cases he with
  | reclaim | podDeletion | overadmission | partialRunning => exact ⟨rfl, rfl, rfl⟩
  | synced _ _ h =>
    obtain ⟨_, rfl | rfl⟩ := syncInFlightWorkers_cases h
    · exact ⟨rfl, rfl, rfl⟩
    · exact ⟨rfl, rfl, rfl⟩

theorem reconcile_of_find {c : Cluster} {req : Request} (h : find c req = some (handle, job, qu)) :
    reconcile now c r req = reconcileUnit now handle job r qu := by
  rw [reconcile, h]

def jobRequest : Request := ⟨"batch/v1/Job", "ns", "job"⟩

def clusterOf (handle : JobHandle) (job : Job) : Cluster :=
  ⟨Finmap.singleton jobRequest.jobTypeKey handle, Finmap.singleton jobRequest job⟩

def workerUnit (phase : QueueUnitPhase) (count : Int32) (admissions : List Admission) : JobUnit :=
  { ns := "ns", name := "job", spec := { podSets := [{ name := "worker", count }] }, status := { phase, admissions } }

def jobOf (qu : JobUnit) (pods : List Pod) : Job :=
  { podSet := qu.spec.podSets, queueUnit := some qu, pods := some pods }

theorem find_jobOf (handle : JobHandle) (qu : JobUnit) (pods : List Pod) :
    find (clusterOf handle (jobOf qu pods)) jobRequest = some (handle, jobOf qu pods, qu) := by
  simp [find, clusterOf, jobOf]

def worker (name nodeName : String) : Pod := { ns := "ns", name, podSet := "worker", nodeName }

end KoordQueue.JobExt.Effects
