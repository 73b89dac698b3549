import KoordQueue.JobExt.Effects

namespace KoordQueue.JobExt.Reclaiming

open Api Pods Records Machine Reporter Effects

theorem length_pickReclaimed (pods : List Pod) (remainToReclaim : Int64) :
    (pickReclaimed pods remainToReclaim).length =
      min remainToReclaim.toInt.toNat (pods.filter Pod.waiting).length := by
  induction pods generalizing remainToReclaim with
  | nil => simp [pickReclaimed]
  | cons pod pods ih =>
    rw [pickReclaimed]
    cases hlive : pod.live with
    | false => simp [Pod.waiting, hlive, ih]
    | true =>
      cases hs : pod.scheduled with
      | true => simp [Pod.waiting, hlive, hs, ih]
      | false =>
        have hw : (pod :: pods).filter Pod.waiting = pod :: pods.filter Pod.waiting := by
          simp [Pod.waiting, hlive, hs]
        rw [hw, if_neg (by simp), if_neg (by simp), List.length_cons]
        by_cases hpos : remainToReclaim > 0
        · have hgt : 0 < remainToReclaim.toInt := gt_iff_toInt.mp hpos
          have hsub : (remainToReclaim - 1).toInt = remainToReclaim.toInt - 1 :=
            toInt_sub_of_nonneg (by omega) (by decide)
          rw [if_pos hpos]
          split
          next hone =>
            have h1 : remainToReclaim.toInt = 1 := by
              rw [hone] at hsub
              simp at hsub
              omega
            simp only [h1, List.length_cons, List.length_nil]
            omega
          next =>
            rw [List.length_cons, ih, hsub]
            omega
        · have hle : remainToReclaim.toInt ≤ 0 := by
            rw [gt_iff_toInt] at hpos
            simpa using hpos
          rw [if_neg hpos]
          split
          next => simp [Int.toNat_of_nonpos hle]
          next =>
            rw [ih, Int.toNat_of_nonpos hle]
            omega

section Reconcile

variable (admitted : String → List Pod)

theorem getD_lookup_reconcileReclaim (ads : List Admission) (name : String) :
    ((reconcileReclaim ads admitted).lookup name).getD [] =
      (ads.filter (fun ad => ad.name = name)).flatMap (reclaimedFrom admitted) := by
  have hgen : ∀ (m : GoMap String (List Pod)),
      ((ads.foldl (fun xorAdmit ad =>
        if reclaimedFrom admitted ad = [] then xorAdmit
        else xorAdmit.insert ad.name ((xorAdmit.lookup ad.name).getD [] ++ reclaimedFrom admitted ad))
        m).lookup name).getD [] =
      (m.lookup name).getD [] ++ (ads.filter (fun ad => ad.name = name)).flatMap (reclaimedFrom admitted) := by
    induction ads with
    | nil => simp
    | cons ad ads ih =>
      intro m
      rw [List.foldl_cons, ih]
      by_cases hempty : reclaimedFrom admitted ad = []
      · rw [if_pos hempty]
        by_cases hname : ad.name = name
        · simp [hname, hempty]
        · simp [hname]
      · rw [if_neg hempty, GoMap.lookup_insert_eq]
        by_cases hname : ad.name = name
        · subst hname
          simp
        · simp [hname, Ne.symm hname]
  rw [reconcileReclaim, hgen, Finmap.lookup_empty]
  rfl

theorem lookup_reconcileReclaim {ads : List Admission} (hn : (ads.map Admission.name).Nodup) {ad : Admission}
    (h : ad ∈ ads) : ((reconcileReclaim ads admitted).lookup ad.name).getD [] = reclaimedFrom admitted ad := by
  have hone : ads.filter (fun b => b.name = ad.name) = [ad] := by
    apply List.perm_singleton.mp
    apply (List.perm_ext_iff_of_nodup (hn.of_map _ |>.filter _) (List.nodup_singleton ad)).mpr
    intro b
    rw [List.mem_filter, List.mem_singleton, decide_eq_true_eq]
    constructor
    · rintro ⟨hb, hname⟩
      exact List.inj_on_of_nodup_map hn hb h hname
    · rintro rfl
      exact ⟨h, rfl⟩
  rw [getD_lookup_reconcileReclaim, hone, List.flatMap_singleton]

theorem reconcileReclaim_eq_empty_iff (ads : List Admission) :
    reconcileReclaim ads admitted = ∅ ↔ ∀ ad ∈ ads, reclaimedFrom admitted ad = [] := by
  constructor
  · intro h ad hm
    have hlook := getD_lookup_reconcileReclaim admitted ads ad.name
    rw [h, Finmap.lookup_empty, Option.getD_none, eq_comm, List.flatMap_eq_nil_iff] at hlook
    exact hlook ad (List.mem_filter.mpr ⟨hm, decide_eq_true rfl⟩)
  · intro h
    rw [reconcileReclaim]
    induction ads with
    | nil => rfl
    | cons ad ads ih =>
      rw [List.foldl_cons, if_pos (h ad List.mem_cons_self)]
      exact ih (fun b hb => h b (List.mem_cons_of_mem ad hb))

end Reconcile

def requested (ad : Admission) : Int := ((ad.reclaimState.map ReclaimState.replicas).getD 0).toInt

/-- What one admission gave and what it is still asked for come to what it was asked for. -/
structure Conserved (before after : Admission) : Prop where
  balance : (before.replicas.toInt - after.replicas.toInt) + requested after = requested before
  bounded : before.replicas.toInt - after.replicas.toInt ≤ requested before
  kept : before.replicas = after.replicas → requested after = requested before

/-- The whole request can be met in one round: there are as many live pods that
are not scheduled, and as many replicas. The last bound only matters when the
replicas are negative. -/
structure Releasable (pods : List Pod) (ad : Admission) : Prop where
  pods : requested ad ≤ ((podsByPs pods ad.name).filter Pod.waiting).length
  replicas : requested ad ≤ ad.replicas.toInt
  sign : min ad.replicas.toInt 0 ≤ requested ad

theorem length_reclaimedFrom (admitted : String → List Pod) (ad : Admission) :
    (reclaimedFrom admitted ad).length =
      min (requested ad).toNat ((admitted ad.name).filter Pod.waiting).length := by
  rw [reclaimedFrom, requested]
  split
  next h => simp [h]
  next rs h =>
    rw [length_pickReclaimed]
    simp [h]

theorem requested_lt (ad : Admission) : requested ad < 2 ^ 63 := Int64.toInt_lt _

variable {ad : Admission} {x : GoMap String (List Pod)}

theorem toInt_replicas_applyReclaim {admitted : String → List Pod}
    (hx : (x.lookup ad.name).getD [] = reclaimedFrom admitted ad) :
    ad.replicas.toInt - (applyReclaim x ad).replicas.toInt =
      min ad.replicas.toInt (min (max (requested ad) 0) ((admitted ad.name).filter Pod.waiting).length) := by
  have hlen : (len64 (reclaimedFrom admitted ad).length).toInt =
      min (max (requested ad) 0) ((admitted ad.name).filter Pod.waiting).length := by
    have hlt := requested_lt ad
    rw [toInt_len64, length_reclaimedFrom]
    omega
  simp only [applyReclaim, hx]
  split
  next hlt =>
    rw [Int64.lt_iff_toInt_lt, hlen] at hlt
    simp only [Int64.toInt_zero]
    omega
  next hlt =>
    rw [Int64.lt_iff_toInt_lt, hlen, not_lt] at hlt
    have hl := Int64.le_toInt ad.replicas
    have hu := Int64.toInt_lt ad.replicas
    rw [toInt_sub_of_fits (by omega) (by omega), hlen]
    omega

theorem conserved_applyReclaim_iff {pods : List Pod}
    (hx : (x.lookup ad.name).getD [] = reclaimedFrom (podsByPs pods) ad) :
    Conserved ad (applyReclaim x ad) ↔ Releasable pods ad := by
  have hrel := toInt_replicas_applyReclaim hx
  have hnone : requested (applyReclaim x ad) = 0 := rfl
  constructor
  · rintro ⟨hbalance, _, _⟩
    rw [hnone, hrel] at hbalance
    exact ⟨by omega, by omega, by omega⟩
  · rintro ⟨hpods, hreplicas, hsign⟩
    refine ⟨by omega, by omega, ?_⟩
    intro heq
    have hsame : ad.replicas.toInt = (applyReclaim x ad).replicas.toInt := congrArg Int64.toInt heq
    rw [hnone]
    omega

/-- A round that applies a reclaim drops every request, so nothing is lost
precisely when each request is met in full. -/
theorem reclaim_conserved_iff {now : Time} {c : Cluster} {r : ResourceReporter} {req : Request}
    {handle : JobHandle} {job : Job} {qu qu' : JobUnit} {pods : List Pod}
    (hfind : find c req = some (handle, job, qu)) (hpods : job.pods = some pods)
    (hn : (qu.status.admissions.map Admission.name).Nodup)
    (h : (reconcile now c r req).write = some (.statusUpdate .reclaim qu')) :
    List.Forall₂ Conserved qu.status.admissions qu'.status.admissions ↔
      ∀ ad ∈ qu.status.admissions, Releasable pods ad := by
  rw [reconcile_of_find hfind] at h
  rcases reconcileUnit_write h with ⟨_, hw⟩ | ⟨_, pods', hpods', heffect⟩
  · cases hw
  · cases hpods.symm.trans hpods'
    generalize heq : Write.statusUpdate .reclaim qu' = w at heffect
    cases heffect with
    | reclaim =>
      cases heq
      simp only [JobUnit.setAdmissions, JobUnit.setPodSets, List.forall₂_map_right_iff, List.forall₂_same]
      apply forall₂_congr
      intro ad hm
      exact conserved_applyReclaim_iff (lookup_reconcileReclaim (podsByPs pods) hn hm)
    | podDeletion | overadmission | partialRunning => cases heq
    | synced _ _ hs =>
      obtain ⟨_, hw | hw⟩ := syncInFlightWorkers_cases hs
      all_goals
        rw [← heq] at hw
        cases hw

def askedUnit : JobUnit :=
  workerUnit .dequeued 3 [{ name := "worker", replicas := 3, reclaimState := some ⟨2⟩ }]

def answeredUnit (left : Int64) : JobUnit := askedUnit.setAdmissions [{ name := "worker", replicas := left }]

def twoWaiting : List Pod := [worker "a" "", worker "b" "", worker "c" "node"]

def oneWaiting : List Pod := [worker "a" "", worker "b" "node", worker "c" "node"]

/-- Both workers are there to be taken, and the request is met. -/
theorem reclaim_conserved_full :
    (reconcile 0 (clusterOf {} (jobOf askedUnit twoWaiting)) {} jobRequest).write =
        some (.statusUpdate .reclaim (answeredUnit 1)) ∧
      List.Forall₂ Conserved askedUnit.status.admissions (answeredUnit 1).status.admissions := by
  have hwrite : (reconcile 0 (clusterOf {} (jobOf askedUnit twoWaiting)) {} jobRequest).write =
      some (.statusUpdate .reclaim (answeredUnit 1)) := by decide +kernel
  refine ⟨hwrite, (reclaim_conserved_iff (find_jobOf {} askedUnit twoWaiting) rfl (by decide) hwrite).mpr ?_⟩
  intro ad hm
  rw [List.mem_singleton.mp hm]
  exact ⟨by decide +kernel, by decide +kernel, by decide +kernel⟩

/-- Only one worker is there to be taken. The round takes it and forgets that
one more was asked for. -/
theorem reclaim_forgotten :
    (reconcile 0 (clusterOf {} (jobOf askedUnit oneWaiting)) {} jobRequest).write =
        some (.statusUpdate .reclaim (answeredUnit 2)) ∧
      ¬ List.Forall₂ Conserved askedUnit.status.admissions (answeredUnit 2).status.admissions := by
  refine ⟨by decide +kernel, ?_⟩
  intro h
  have hbalance := (List.forall₂_cons.mp h).1.balance
  exact absurd hbalance (by decide +kernel)

end KoordQueue.JobExt.Reclaiming
