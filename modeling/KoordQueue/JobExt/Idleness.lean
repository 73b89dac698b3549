import KoordQueue.JobExt.Lifecycle
import KoordQueue.JobExt.Losses
import KoordQueue.Queue.Offering

namespace KoordQueue.JobExt.Idleness

open Api UnitStatus Pods Records Pass Machine Reporter Effects Lifecycle Reclaiming Due Scheduler.Dequeue
open Losses (toInt_confirmDeletions)
open Queue.Preempt Queue.Victims Queue.Rightful Queue.Offering
open Resources (amount lookup_newResource)

section Rounds

/-- What runs of an admission is within what is left of it when the waiting pods it is asked for are taken,
when the recorded pods that are no longer live are taken off, and when it is cut to the live pods or
the podset's count. -/
@[mk_iff]
structure Roomy (observedPods : GoMap String (Finset String)) (qu : QueueUnit) (pods : List Pod) (ad : Admission) :
    Prop where
  reclaim : ad.running.toInt + min (requested ad).toNat ((podsByPs pods ad.name).filter Pod.waiting).length ≤
    ad.replicas.toInt
  deletion : ad.reclaimState = none →
    ad.running.toInt + (observed qu observedPods ad.name \ liveNames (podsByPs pods ad.name)).card ≤ ad.replicas.toInt
  live : ((podsByPs pods ad.name).filter Pod.live).length < 2 ^ 31
  demand : ad.running.toInt ≤
    max (((podsByPs pods ad.name).filter Pod.live).length : Int) (requestPodSet qu.spec.podSets ad.name).toInt

instance decidableRoomy (observedPods : GoMap String (Finset String)) (qu : QueueUnit) (pods : List Pod)
    (ad : Admission) : Decidable (Roomy observedPods qu pods ad) :=
  decidable_of_iff _ (roomy_iff observedPods qu pods ad).symm

variable {qu stored : JobUnit} {pods : List Pod}

theorem covered_applyReclaim {x : GoMap String (List Pod)} {ad : Admission} (h : Covered ad)
    (hroom : ad.running.toInt + ((x.lookup ad.name).getD []).length ≤ ad.replicas.toInt) :
    Covered (applyReclaim x ad) := by
  have hnonneg := h.nonneg
  have hlen := toInt_len64 ((x.lookup ad.name).getD []).length
  have hlt := Int64.toInt_lt ad.replicas
  have hnot : ¬ ad.replicas < len64 ((x.lookup ad.name).getD []).length := by
    rw [Int64.lt_iff_toInt_lt, hlen]
    omega
  refine ⟨hnonneg, ?_⟩
  simp only [applyReclaim, if_neg hnot]
  rw [toInt_sub_of_fits (by omega) (by omega), hlen]
  omega

variable {observedPods : GoMap String (Finset String)} {ads : List Admission}

theorem covered_reclaim (hn : (qu.status.admissions.map Admission.name).Nodup)
    (h : ∀ ad ∈ qu.status.admissions, Covered ad)
    (hroomy : ∀ ad ∈ qu.status.admissions, Roomy observedPods qu.toQueueUnit pods ad) :
    ∀ ad ∈ qu.status.admissions.map (applyReclaim (reconcileReclaim qu.status.admissions (podsByPs pods))),
      Covered ad := by
  intro ad' had'
  obtain ⟨ad, had, rfl⟩ := List.mem_map.mp had'
  apply covered_applyReclaim (h ad had)
  rw [lookup_reconcileReclaim _ hn had, length_reclaimedFrom]
  exact (hroomy ad had).reclaim

theorem running_confirmDeletions (qu : QueueUnit) (byPs : String → List Pod) (m : GoMap String (Finset String))
    (ad : Admission) : (confirmDeletions qu byPs m ad).item.running = ad.running := by
  simp only [confirmDeletions]
  split
  next => rfl
  next => split <;> rfl

theorem covered_podDeletion (h : ∀ ad ∈ qu.status.admissions, Covered ad)
    (hroomy : ∀ ad ∈ qu.status.admissions, Roomy observedPods qu.toQueueUnit pods ad) :
    ∀ ad ∈ (reconcilePodDeletion observedPods qu.toQueueUnit (podsByPs pods)).item, Covered ad := by
  rw [reconcilePodDeletion]
  split
  next => exact h
  next =>
    refine walk_forall (fun m => ∀ name,
      gone qu.toQueueUnit (podsByPs pods) m name ⊆ gone qu.toQueueUnit (podsByPs pods) observedPods name) Covered
      (fun m hm ad had => ⟨?_, ?_⟩) (fun _ => Finset.Subset.refl _) h
    · intro name
      rw [gone_confirmDeletions]
      split
      next => exact Finset.empty_subset _
      next => exact hm name
    · intro hold
      refine ⟨?_, ?_⟩
      · rw [running_confirmDeletions]
        exact hold.nonneg
      · rw [running_confirmDeletions, toInt_confirmDeletions]
        split
        next hgone =>
          have hroom : _ + ((gone qu.toQueueUnit (podsByPs pods) observedPods ad.name).card : Int) ≤ _ :=
            (hroomy ad had).deletion hgone.1
          have hcard := Finset.card_le_card (hm ad.name)
          omega
        next => exact hold.le

theorem le_trimmedReplicas {request : Int32} {running : Int} {replicas n : Int64}
    (hlive : (pods.filter Pod.live).length < 2 ^ 31)
    (hdemand : running ≤ max ((pods.filter Pod.live).length : Int) request.toInt)
    (h : trimmedReplicas request pods replicas = some n) : running ≤ n.toInt := by
  have hcount : (Int32.ofNat (pods.filter Pod.live).length).toInt = (pods.filter Pod.live).length :=
    Int32.toInt_ofNat_of_lt hlive
  rw [trimmedReplicas_eq] at h
  split at h
  next =>
    cases h
    rw [Int32.toInt_toInt64, toInt_max32, hcount]
    omega
  next => cases h

theorem covered_overadmission (h : ∀ ad ∈ qu.status.admissions, Covered ad)
    (hroomy : ∀ ad ∈ qu.status.admissions, Roomy observedPods qu.toQueueUnit pods ad) :
    ∀ ad ∈ (reconcileOveradmission qu.toQueueUnit (podsByPs pods)).item, Covered ad := by
  refine walk_forall (fun _ => True) Covered (fun _ _ ad had => ⟨trivial, fun hold => ?_⟩) trivial h
  rw [trimAdmission]
  split
  next => exact hold
  next replicas hreplicas =>
    exact ⟨hold.nonneg, le_trimmedReplicas (hroomy ad had).live (hroomy ad had).demand hreplicas⟩

theorem covered_partialRunning (h : ∀ ad ∈ qu.status.admissions, Covered ad) (firstSeen : GoMap String Time)
    (timeout now : Time) :
    ∀ ad ∈ (reconcilePartialRunningTimeout firstSeen qu.toQueueUnit timeout now).item, Covered ad := by
  rw [reconcilePartialRunningTimeout]
  split
  next =>
    refine walk_forall (fun _ => True) Covered (fun m _ ad _ => ⟨trivial, fun hold => ?_⟩) trivial h
    simp only [timeOut]
    split
    next => exact hold
    next =>
      split
      next => exact ⟨hold.nonneg, le_rfl⟩
      next => exact hold
  next => exact h

theorem nonneg_runningByPs (pods : List Pod) (k : String) : 0 ≤ (runningByPs pods k).toInt := by
  rw [runningByPs, toInt_len64]
  omega

theorem covered_syncPodSet (h : ∀ ad ∈ ads, Covered ad) (syncRes : Bool) (k : String) {r : Int64}
    (hr : 0 ≤ r.toInt) (res : ResourceList) : ∀ ad ∈ (syncPodSet syncRes k r res ads).item, Covered ad := by
  induction ads with
  | nil =>
    intro ad had
    rw [List.mem_singleton.mp had]
    exact ⟨hr, le_rfl⟩
  | cons ad ads ih =>
    rw [List.forall_mem_cons] at h
    rw [syncPodSet]
    split
    next =>
      rw [List.forall_mem_cons]
      refine ⟨⟨hr, ?_⟩, h.2⟩
      simp only [syncAdmission]
      split
      next => exact le_rfl
      next hle => exact not_lt.mp (fun hlt => hle (Int64.lt_iff_toInt_lt.mpr hlt))
    next =>
      rw [List.forall_mem_cons]
      exact ⟨h.1, ih h.2⟩

theorem covered_syncAdmissions (syncRes : Bool) (pods : List Pod) (ks : List String)
    (h : ∀ ad ∈ ads, Covered ad) : ∀ ad ∈ (syncAdmissions syncRes pods ks ads).item, Covered ad := by
  induction ks generalizing ads with
  | nil => exact h
  | cons k ks ih => exact ih (covered_syncPodSet h syncRes k (nonneg_runningByPs pods k) (resByPs pods k))

theorem covered_effect {now : Time} {handle : JobHandle} {job : Job}
    {firstSeen : GoMap String Time} {wr : Write} (heffect : Effect now handle job observedPods firstSeen qu pods wr)
    (hn : (qu.status.admissions.map Admission.name).Nodup) (h : ∀ ad ∈ qu.status.admissions, Covered ad)
    (hroomy : ∀ ad ∈ qu.status.admissions, Roomy observedPods qu.toQueueUnit pods ad)
    (hstored : stored.status.admissions = qu.status.admissions) :
    ∀ ad ∈ (Write.store wr stored).status.admissions, Covered ad := by
  cases heffect with
  | reclaim => exact covered_reclaim hn h hroomy
  | podDeletion => exact covered_podDeletion h hroomy
  | overadmission => exact covered_overadmission h hroomy
  | partialRunning => exact covered_partialRunning h firstSeen handle.partialRunningTimeout now
  | synced _ _ hs =>
    obtain ⟨_, rfl | rfl⟩ := syncInFlightWorkers_cases hs
    · show ∀ ad ∈ stored.status.admissions, Covered ad
      rw [hstored]
      exact h
    · exact covered_syncAdmissions _ pods (podSetNames pods) h

end Rounds

section Writes

@[mk_iff]
structure Grantable (grants : List FrameworkAdmission) (ads : List Admission) : Prop where
  nonneg : ∀ g ∈ grants, 0 ≤ g.replicas.toInt
  total : (grants.map (fun g => g.replicas.toInt)).sum < 2 ^ 63
  fits : ∀ ad ∈ ads, ad.replicas.toInt + (grants.map (fun g => g.replicas.toInt)).sum < 2 ^ 63

instance decidableGrantable (grants : List FrameworkAdmission) (ads : List Admission) : Decidable (Grantable grants ads) :=
  decidable_of_iff _ (grantable_iff grants ads).symm

variable {g : FrameworkAdmission} {ads : List Admission} {grants : List FrameworkAdmission}

theorem Grantable.rest_nonneg
    (h : Grantable (g :: grants) ads) : 0 ≤ (grants.map (fun g => g.replicas.toInt)).sum := by
  apply List.sum_nonneg
  intro x hx
  obtain ⟨g', hg', rfl⟩ := List.mem_map.mp hx
  exact h.nonneg g' (List.mem_cons_of_mem g hg')

theorem covered_addAdmission {rest : Int} (hg : 0 ≤ g.replicas.toInt) (hrest : 0 ≤ rest)
    (hfits : g.replicas.toInt + rest < 2 ^ 63) (h : ∀ ad ∈ ads, Covered ad)
    (hroom : ∀ ad ∈ ads, ad.replicas.toInt + (g.replicas.toInt + rest) < 2 ^ 63) :
    ∀ ad ∈ addAdmission g ads, Covered ad ∧ ad.replicas.toInt + rest < 2 ^ 63 := by
  induction ads with
  | nil =>
    intro ad had
    rw [List.mem_singleton.mp had]
    exact ⟨⟨le_rfl, hg⟩, hfits⟩
  | cons ad ads ih =>
    rw [List.forall_mem_cons] at h hroom
    rw [addAdmission]
    split
    next =>
      have hle := h.1.le
      have hnonneg := h.1.nonneg
      have hsum : (ad.replicas + g.replicas).toInt = ad.replicas.toInt + g.replicas.toInt :=
        toInt_add_of_fits (by omega) (by omega)
      rw [List.forall_mem_cons]
      refine ⟨⟨⟨hnonneg, ?_⟩, ?_⟩, fun old hold => ⟨h.2 old hold, ?_⟩⟩
      · simp only [hsum]
        omega
      · simp only [hsum]
        omega
      · have hold := hroom.2 old hold
        omega
    next =>
      rw [List.forall_mem_cons]
      exact ⟨⟨h.1, by omega⟩, ih h.2 hroom.2⟩

theorem covered_grants (h : ∀ ad ∈ ads, Covered ad)
    (hgrants : Grantable grants ads) : ∀ ad ∈ grants.foldl (fun ads g => addAdmission g ads) ads, Covered ad := by
  induction grants generalizing ads with
  | nil => exact h
  | cons g grants ih =>
    have htotal := hgrants.total
    have hfits := hgrants.fits
    rw [List.map_cons, List.sum_cons] at htotal
    simp only [List.map_cons, List.sum_cons] at hfits
    have hnext := covered_addAdmission (hgrants.nonneg g List.mem_cons_self) hgrants.rest_nonneg htotal h hfits
    have hg := hgrants.nonneg g List.mem_cons_self
    rw [List.foldl_cons]
    exact ih (fun ad had => (hnext ad had).1)
      ⟨fun g' hg' => hgrants.nonneg g' (List.mem_cons_of_mem g hg'), by omega, fun ad had => (hnext ad had).2⟩

theorem covered_askBack {pps : GoMap String FrameworkAdmission} {ads' : List Admission}
    (hask : askBack pps ads = some ads') (h : ∀ ad ∈ ads, Covered ad) : ∀ ad ∈ ads', Covered ad := by
  refine forall_of_forall₂ (askBack_forall₂ hask) ?_ h
  rintro ad ad' (⟨_, _, rfl⟩ | ⟨_, rfl⟩) hold
  · exact ⟨hold.nonneg, hold.le⟩
  · exact hold

/-- A version whose admissions have names of their own and cover what runs. -/
structure Settled (qu : JobUnit) : Prop where
  distinct : (qu.status.admissions.map Admission.name).Nodup
  covered : ∀ ad ∈ qu.status.admissions, Covered ad

/-- Grants fit, and a round finds room for what runs in every admission. -/
def Within (w : World) : Action → Prop
  | .dequeue _ _ _ _ _ grants _ => Grantable grants w.cached.status.admissions
  | .reconcile _ _ job base accepted => accepted = true → base = w.stored → ∀ pods ∈ job.pods,
      ∀ ad ∈ w.stored.status.admissions, Roomy w.reporter.observedPods
        (w.stored.setPodSets (reconcilePodSets w.stored.spec.podSets job.podSet).2).toQueueUnit pods ad
  | .observe | .preempt _ _ | .charge _ => True

instance decidableWithin (w : World) (a : Action) : Decidable (Within w a) := by
  delta Within
  split <;> infer_instance

variable {w t : World} {a : Action}

theorem settled_reconcile {now : Time} {handle : JobHandle} {job : Job} {base : JobUnit} {accepted : Bool}
    (h : Settled w.stored) (hwithin : Within w (.reconcile now handle job base accepted)) :
    Settled (written w (.reconcile now handle job base accepted)) := by
  rw [written]
  split
  next hacc =>
    refine store_round h (fun _ => ⟨h.distinct, h.covered⟩) (fun pods wr _ hjob heffect => ?_)
    have hsame : w.stored.status.admissions =
        (w.stored.setPodSets (reconcilePodSets w.stored.spec.podSets job.podSet).2).status.admissions := rfl
    exact ⟨(names_effect heffect hsame).2.2 h.distinct,
      covered_effect heffect h.distinct h.covered (hwithin hacc.1 hacc.2 pods hjob) hsame⟩
  next => exact h

theorem settled_written (hstored : Settled w.stored) (hcached : Settled w.cached) (hwithin : Within w a) :
    Settled (written w a) := by
  cases a with
  | observe => exact hstored
  | dequeue f now strict small timeNow grants matched =>
    constructor
    · rw [admissions_dequeue]
      exact nodup_grants grants hcached.distinct
    · rw [admissions_dequeue]
      exact covered_grants hcached.covered hwithin
  | preempt now pps =>
    rw [written]
    cases hqu : preemptQueueUnit pps now w.stored.toQueueUnit with
    | none => exact hstored
    | some qu =>
      obtain ⟨ads, hask, rfl⟩ := preemptQueueUnit_eq_some hqu
      constructor
      · have hnames := names_askBack hask
        exact hnames ▸ hstored.distinct
      · exact covered_askBack hask hstored.covered
  | reconcile now handle job base accepted => exact settled_reconcile hstored hwithin
  | charge op => exact hstored

end Writes

section Runs

variable [ResourceHelpers] {w t : World} {a : Action}

structure Kept (w : World) : Prop where
  settled : ∀ qu ∈ w.seen, Settled qu
  stored : w.stored ∈ w.seen
  cached : w.cached ∈ w.seen

omit [ResourceHelpers] in
theorem Kept.write (h : Kept w) (hwithin : Within w a) (r : ResourceReporter) :
    Kept { w with stored := written w a, seen := written w a :: w.seen, reporter := r } where
  settled := List.forall_mem_cons.mpr
    ⟨settled_written (h.settled _ h.stored) (h.settled _ h.cached) hwithin, h.settled⟩
  stored := List.mem_cons_self
  cached := List.mem_cons_of_mem _ h.cached

theorem kept_step (h : Kept w) (hwithin : Within w a) (hstep : Lifecycle.step w a = some t) : Kept t := by
  cases a with
  | observe =>
    cases hstep
    exact ⟨h.settled, h.stored, h.stored⟩
  | dequeue =>
    cases hstep
    exact h.write hwithin w.reporter
  | preempt =>
    cases hstep
    exact h.write hwithin w.reporter
  | reconcile =>
    cases hstep
    exact h.write hwithin _
  | charge op =>
    rw [Lifecycle.step, Option.ite_none_right_eq_some] at hstep
    obtain ⟨quotas, _, rfl⟩ := Option.map_eq_some_iff.mp hstep.2
    exact ⟨h.settled, h.stored, h.cached⟩

omit [ResourceHelpers] in
theorem kept_start {qu : JobUnit} (h : Settled qu) : Kept (start qu) where
  settled := by
    intro v hv
    rw [List.mem_singleton.mp hv]
    exact h
  stored := List.mem_singleton_self qu
  cached := List.mem_singleton_self qu

/-- No version of a unit ever offers a negative amount. -/
theorem offers_never_negative {qu : JobUnit} (hqu : Settled qu) {as : List Action}
    (hwithin : Run.Guarded Lifecycle.step Within (start qu) as)
    (hrun : Run.exec Lifecycle.step (start qu) as = some w) :
    ∀ v ∈ w.seen, Affordable v.toQueueUnit → ∀ reclaimProtectTime now, ¬ Protected v.toQueueUnit reclaimProtectTime now →
      ∃ pps, getResourcesCanReclaim v.toQueueUnit reclaimProtectTime now = some pps ∧ Offers v.toQueueUnit pps := by
  have hw : Kept w := Run.invariant (fun _ _ _ h hs hstep => kept_step h hs hstep) (kept_start hqu) hwithin hrun
  intro v hv haffordable reclaimProtectTime now hfree
  exact offers_of_covered (hw.settled v hv).distinct haffordable (hw.settled v hv).covered hfree

end Runs

section Pods

theorem podRequests_oneCpu : plainPods.podRequests oneCpu = Finmap.singleton "cpu" ⟨1000⟩ := by decide +kernel

theorem podRequest_oneCpu {qu : QueueUnit} (hpods : ∀ ps ∈ qu.spec.podSets, ps.template = oneCpu) (name : String)
    (k : ResourceName) :
    0 ≤ (@podRequest plainPods qu name k).toInt ∧ (@podRequest plainPods qu name k).toInt ≤ 1000 := by
  unfold podRequest
  cases hfind : qu.spec.podSets.find? (fun ps => ps.name = name) with
  | none =>
    rw [Option.map_none, Option.getD_none]
    decide
  | some ps =>
    have hl : (plainPods.podRequests ps.template).lookup k = if k = "cpu" then some ⟨1000⟩ else none := by
      rw [hpods ps (List.mem_of_find?_eq_some hfind), podRequests_oneCpu]
      exact GoMap.lookup_singleton _ _ _
    rw [Option.map_some, Option.getD_some, amount, lookup_newResource, hl]
    by_cases hk : k = "cpu"
    · subst hk
      decide
    · rw [if_neg hk, Option.map_none, Option.getD_none]
      decide

theorem affordable_oneCpu {qu : QueueUnit} (hpods : ∀ ps ∈ qu.spec.podSets, ps.template = oneCpu)
    (hrequest : qu.spec.request = ∅) {ad : Admission}
    (hads : qu.status.admissions = [ad]) (hnonneg : 0 ≤ ad.replicas.toInt) (hfew : ad.replicas.toInt ≤ 100) :
    @Affordable plainPods qu := by
  refine @Affordable.mk plainPods qu (fun name k => (podRequest_oneCpu hpods name k).1) (fun k => ?_) (fun k => ?_)
  · rw [hrequest]
    exact le_rfl
  · rw [hads, List.map_singleton, List.sum_singleton]
    have hle : (@podRequest plainPods qu ad.name k).toInt * ad.replicas.toInt ≤ 1000 * 100 :=
      mul_le_mul (podRequest_oneCpu hpods ad.name k).2 hfew hnonneg (by norm_num)
    omega

def cpuWorkers (count : Int32) (replicas running : Int64) : JobUnit :=
  (workerUnit .dequeued count [{ name := "worker", replicas, running }]).setPodSets
    [{ name := "worker", count, template := oneCpu }]

def counted (qu : JobUnit) (running pending : Int) : JobUnit := { qu with podState := ⟨running, pending⟩ }

/-- Of three workers one starts, and one that waits is deleted. -/
def oneStarts : List Action :=
  [.reconcile 0 {} (jobOf (cpuWorkers 3 3 0) [worker "a" "node", worker "b" "", worker "c" ""]) (cpuWorkers 3 3 0) true,
    .reconcile 1 {} (jobOf (counted (cpuWorkers 3 3 1) 1 2) [worker "a" "node", worker "c" ""])
      (counted (cpuWorkers 3 3 1) 1 2) true]

theorem oneStarts_offers :
    ∃ w, Run.exec (@Lifecycle.step plainPods) (start (cpuWorkers 3 3 0)) oneStarts = some w ∧
      w.stored = counted (cpuWorkers 3 2 1) 1 2 ∧
      ∃ pps, getResourcesCanReclaim w.stored.toQueueUnit 0 0 = some pps ∧ @Offers plainPods w.stored.toQueueUnit pps ∧
        pps.lookup "worker" = some ⟨"worker", 1⟩ := by
  obtain ⟨w, hrun, hstored, hseen⟩ : ∃ w, Run.exec (@Lifecycle.step plainPods) (start (cpuWorkers 3 3 0)) oneStarts =
      some w ∧ w.stored = counted (cpuWorkers 3 2 1) 1 2 ∧ w.stored ∈ w.seen := by decide +kernel
  have hsettled : Settled (cpuWorkers 3 3 0) := by
    refine ⟨by decide, fun ad had => ?_⟩
    rw [List.mem_singleton.mp had]
    exact ⟨by decide, by decide⟩
  have hone : ∀ ps ∈ w.stored.spec.podSets, ps.template = oneCpu := by
    rw [hstored]
    exact fun ps hps => congrArg PodSet.template (List.mem_singleton.mp hps)
  have haffordable : @Affordable plainPods w.stored.toQueueUnit := by
    apply affordable_oneCpu hone
    · rw [hstored]
      rfl
    · rw [hstored]
      rfl
    · decide
    · decide
  obtain ⟨pps, hpps, hoffers⟩ := @offers_never_negative plainPods w (cpuWorkers 3 3 0) hsettled oneStarts
    (by decide +kernel) hrun w.stored hseen haffordable 0 0 (fun h => absurd h.1 (by decide))
  refine ⟨w, hrun, hstored, pps, hpps, hoffers,
    (@Offers.listed plainPods _ _ hoffers "worker" ⟨"worker", 1⟩).mpr ?_⟩
  rw [hstored]
  exact ⟨_, List.mem_singleton_self _, rfl, by decide, rfl, rfl, by decide⟩

def oneDeleted : List Action :=
  [.reconcile 0 {} (jobOf (cpuWorkers 2 2 0) [worker "a" "node", worker "b" "node"]) (cpuWorkers 2 2 0) true,
    .reconcile 1 {} (jobOf (counted (cpuWorkers 2 2 2) 2 0) [worker "b" "node"]) (counted (cpuWorkers 2 2 2) 2 0) true]

def oneTooMany : GoMap String FrameworkAdmission := Finmap.singleton "worker" ⟨"worker", -1⟩

theorem oneDeleted_offers_negative :
    ∃ w, Run.exec (@Lifecycle.step plainPods) (start (cpuWorkers 2 2 0)) oneDeleted = some w ∧
      ¬ Protected w.stored.toQueueUnit 0 0 ∧
      getResourcesCanReclaim w.stored.toQueueUnit 0 0 = some oneTooMany ∧
      amount (@convertFromAdmissionToResource plainPods w.stored.toQueueUnit oneTooMany).resources "cpu" = -1000 := by
  obtain ⟨w, hrun, hpps, hcpu⟩ : ∃ w, Run.exec (@Lifecycle.step plainPods) (start (cpuWorkers 2 2 0)) oneDeleted =
      some w ∧ getResourcesCanReclaim w.stored.toQueueUnit 0 0 = some oneTooMany ∧
      amount (@convertFromAdmissionToResource plainPods w.stored.toQueueUnit oneTooMany).resources "cpu" = -1000 :=
      by decide +kernel
  exact ⟨w, hrun, fun h => absurd h.1 (by decide), hpps, hcpu⟩

end Pods

end KoordQueue.JobExt.Idleness
