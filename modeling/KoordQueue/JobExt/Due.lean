import KoordQueue.JobExt.Reclaiming

namespace KoordQueue.JobExt.Due

open Api Pods Records Pass Reporter Reclaiming

theorem admissionKey_inj {qu : QueueUnit} {a b : String} : admissionKey qu a = admissionKey qu b ↔ a = b := by
  rw [admissionKey, admissionKey, String.append_right_inj]

theorem needUpdate_iff (podSets ps : List PodSet) :
    (reconcilePodSets podSets ps).1 = true ↔ counts podSets ≠ counts ps := by
  simp only [reconcilePodSets, Bool.or_eq_true, GoMap.any_iff, decide_eq_true_eq]
  constructor
  · rintro (⟨n, c, hn, hne⟩ | ⟨n, c, hn, hnone⟩) heq
    · rw [heq] at hn
      exact hne hn
    · rw [heq, hn] at hnone
      cases hnone
  · intro hne
    by_contra hsame
    simp only [not_or, not_exists, not_and, not_not] at hsame
    apply hne
    apply Finmap.ext_lookup
    intro n
    cases hl : (counts podSets).lookup n with
    | some c => exact (hsame.1 n c hl).symm
    | none =>
      cases hr : (counts ps).lookup n with
      | none => rfl
      | some c => exact absurd hl (hsame.2 n c hr)

theorem counts_reconcilePodSets {podSets ps : List PodSet} (h : (reconcilePodSets podSets ps).1 = false) :
    counts (reconcilePodSets podSets ps).2 = counts podSets := by
  have heq : counts podSets = counts ps := by
    by_contra hne
    rw [(needUpdate_iff podSets ps).mpr hne] at h
    cases h
  have hkept : podSets.filterMap (fun p => ((counts ps).lookup p.name).map (fun count => { p with count })) =
      podSets.map (fun p => { p with count := ((counts podSets).lookup p.name).getD 0 }) := by
    rw [← List.filterMap_eq_map]
    apply List.filterMap_congr
    intro p hp
    cases hl : (counts podSets).lookup p.name with
    | none =>
      rw [counts, GoMap.lookup_ofList_none, List.map_map] at hl
      exact absurd (List.mem_map_of_mem hp) hl
    | some c => simp [← heq, hl]
  have hadded : (ps.map PodSet.name).dedup.filter (fun n => decide ((counts podSets).lookup n = none)) = [] := by
    rw [List.filter_eq_nil_iff]
    intro n hn
    rw [decide_eq_true_eq, heq, counts, GoMap.lookup_ofList_none, List.map_map, not_not]
    exact List.mem_dedup.mp hn
  simp only [reconcilePodSets, hadded, hkept, List.filterMap_nil, List.append_nil]
  apply Finmap.ext_lookup
  intro n
  have hfind : (counts (podSets.map (fun p => { p with count := ((counts podSets).lookup p.name).getD 0 }))).lookup n =
      (podSets.reverse.find? (fun p => p.name = n)).map (fun p => ((counts podSets).lookup p.name).getD 0) := by
    rw [counts, GoMap.lookup_ofList, List.map_map, ← List.map_reverse, List.find?_map, Option.map_map]
    rfl
  have hcur : (counts podSets).lookup n = (podSets.reverse.find? (fun p => p.name = n)).map PodSet.count := by
    rw [counts, GoMap.lookup_ofList, ← List.map_reverse, List.find?_map, Option.map_map]
    rfl
  rw [hfind]
  cases hl : podSets.reverse.find? (fun p => p.name = n) with
  | none =>
    rw [hl] at hcur
    rw [hcur]
    rfl
  | some p =>
    have hname : p.name = n := by simpa using List.find?_some hl
    rw [hl] at hcur
    rw [Option.map_some, hname, hcur]
    rfl

theorem reconcileReclaim_ne_empty_iff (ads : List Admission) (admitted : String → List Pod) :
    reconcileReclaim ads admitted ≠ ∅ ↔
      ∃ ad ∈ ads, 0 < requested ad ∧ ∃ pod ∈ admitted ad.name, pod.waiting = true := by
  rw [ne_eq, reconcileReclaim_eq_empty_iff]
  push Not
  apply exists_congr
  intro ad
  apply and_congr_right
  intro _
  rw [ne_eq, ← List.length_eq_zero_iff, length_reclaimedFrom]
  have hpos : 0 < ((admitted ad.name).filter Pod.waiting).length ↔ ∃ pod ∈ admitted ad.name, pod.waiting = true := by
    rw [List.length_pos_iff_exists_mem]
    simp only [List.mem_filter]
  rw [← hpos]
  omega

section Deletion

variable (qu : QueueUnit) (byPs : String → List Pod)

theorem confirmDeletions_updated_iff (m : GoMap String (Finset String)) (ad : Admission) :
    (confirmDeletions qu byPs m ad).updated = true ↔
      ad.reclaimState = none ∧ (gone qu byPs m ad.name).Nonempty := by
  rw [← Finset.card_ne_zero]
  simp only [confirmDeletions, Finset.union_sdiff_right, gone]
  split
  next h => simp [h]
  next h =>
    rw [not_not] at h
    split
    next hg => simp [hg]
    next hg => simp [h, hg]

theorem confirmDeletions_memory (m : GoMap String (Finset String)) (ad : Admission) :
    (confirmDeletions qu byPs m ad).memory =
      if ad.reclaimState = none then m.insert (admissionKey qu ad.name) (liveNames (byPs ad.name)) else m := by
  simp only [confirmDeletions]
  by_cases h : ad.reclaimState = none
  · rw [if_neg (not_not.mpr h), if_pos h]
    split
    next hg =>
      rw [Finset.union_sdiff_right, Finset.card_eq_zero, Finset.sdiff_eq_empty_iff_subset] at hg
      rw [Finset.union_eq_right.mpr hg]
    next => rw [sdiff_sdiff_right_self, Finset.inf_eq_inter, Finset.union_inter_cancel_right]
  · rw [if_pos h, if_neg h]

theorem gone_confirmDeletions (m : GoMap String (Finset String)) (ad : Admission) (name : String) :
    gone qu byPs (confirmDeletions qu byPs m ad).memory name =
      if ad.name = name ∧ ad.reclaimState = none then ∅ else gone qu byPs m name := by
  rw [confirmDeletions_memory]
  by_cases h : ad.reclaimState = none
  · rw [if_pos h]
    by_cases hname : ad.name = name
    · subst hname
      simp [gone, observed, h]
    · have hkey : admissionKey qu name ≠ admissionKey qu ad.name :=
        fun he => hname (admissionKey_inj.mp he).symm
      simp [gone, observed, hname, Finmap.lookup_insert_of_ne m hkey]
  · simp [h]

theorem walk_confirmDeletions_updated_iff (m : GoMap String (Finset String)) (ads : List Admission) :
    (walk (confirmDeletions qu byPs) m ads).updated = true ↔
      ∃ ad ∈ ads, ad.reclaimState = none ∧ (gone qu byPs m ad.name).Nonempty := by
  induction ads generalizing m with
  | nil => simp [walk]
  | cons ad ads ih =>
    rw [walk_updated_cons, confirmDeletions_updated_iff, ih, List.exists_mem_cons_iff]
    by_cases hhere : ad.reclaimState = none ∧ (gone qu byPs m ad.name).Nonempty
    · exact iff_of_true (Or.inl hhere) (Or.inl hhere)
    · apply or_congr_right
      apply exists_congr
      intro b
      rw [gone_confirmDeletions]
      split
      next hsame =>
        rw [← hsame.1]
        have hempty : gone qu byPs m ad.name = ∅ :=
          Finset.not_nonempty_iff_eq_empty.mp (fun hne => hhere ⟨hsame.2, hne⟩)
        simp [hempty]
      next => rfl

end Deletion

def Overadmitted (podSets : List PodSet) (byPs : String → List Pod) (ad : Admission) : Prop :=
  requestPodSet podSets ad.name < ad.replicas.toInt32 ∧
    Int32.ofNat ((byPs ad.name).filter Pod.live).length < ad.replicas.toInt32

theorem trimmedReplicas_eq (request : Int32) (pods : List Pod) (replicas : Int64) :
    trimmedReplicas request pods replicas =
      if request < replicas.toInt32 ∧ Int32.ofNat (pods.filter Pod.live).length < replicas.toInt32 then
        some (max request (Int32.ofNat (pods.filter Pod.live).length)).toInt64
      else none := by
  simp only [trimmedReplicas]
  generalize Int32.ofNat (pods.filter Pod.live).length = live
  have hmax : max request live = if request ≤ live then live else request := rfl
  rw [hmax]
  by_cases hreq : request < replicas.toInt32
  · by_cases hle : request ≤ live
    · simp [hreq, hle, Int32.not_lt.mpr hle]
    · have hlt := Int32.not_le.mp hle
      simp [hreq, hle, hlt, Int32.lt_trans hlt hreq]
  · simp [hreq]

theorem trimAdmission_updated_iff (podSets : List PodSet) (byPs : String → List Pod) (ad : Admission) :
    (trimAdmission podSets byPs ad).updated = true ↔ Overadmitted podSets byPs ad := by
  have hsome : (trimAdmission podSets byPs ad).updated =
      (trimmedReplicas (requestPodSet podSets ad.name) (byPs ad.name) ad.replicas).isSome := by
    rw [trimAdmission]
    split
    next h => rw [h]; rfl
    next h => rw [h]; rfl
  rw [hsome, Overadmitted, trimmedReplicas_eq]
  split
  next h => exact iff_of_true rfl h
  next h => exact iff_of_false Bool.false_ne_true h

theorem reconcileOveradmission_updated_iff (qu : QueueUnit) (byPs : String → List Pod) :
    (reconcileOveradmission qu byPs).updated = true ↔
      ∃ ad ∈ qu.status.admissions, Overadmitted qu.spec.podSets byPs ad := by
  rw [reconcileOveradmission]
  induction qu.status.admissions with
  | nil => simp [walk]
  | cons ad ads ih => rw [walk_updated_cons, trimAdmission_updated_iff, List.exists_mem_cons_iff, ih]

section PartialRunning

variable (qu : QueueUnit) {timeout : Time} (now : Time)

def Short (ad : Admission) : Prop := ad.running < ad.replicas

def Overdue (timeout : Time) (firstSeen : GoMap String Time) (ad : Admission) : Prop :=
  Short ad ∧ ∃ t, firstSeen.lookup (admissionKey qu ad.name) = some t ∧ timeout ≤ now - t

theorem timeOut_updated_iff (hpos : 0 < timeout) (m : GoMap String Time × Time) (ad : Admission) :
    (timeOut qu timeout now m ad).updated = true ↔ Overdue qu now timeout m.1 ad := by
  simp only [timeOut, Overdue, Short]
  split
  next hge => simp [Int64.not_lt.mpr hge]
  next hge =>
    have hlt : ad.running < ad.replicas := Int64.not_le.mp hge
    cases hl : m.1.lookup (admissionKey qu ad.name) with
    | none =>
      rw [Option.getD_none, if_neg (by simpa using hpos)]
      simp
    | some t =>
      rw [Option.getD_some]
      split
      next h => simp [hlt, ge_iff_le.mp h]
      next h =>
        rw [ge_iff_le] at h
        simp [h]

theorem lookup_timeOut (m : GoMap String Time × Time) {ad : Admission} {name : String} (h : name ≠ ad.name) :
    (timeOut qu timeout now m ad).memory.1.lookup (admissionKey qu name) =
      m.1.lookup (admissionKey qu name) := by
  have hkey : admissionKey qu name ≠ admissionKey qu ad.name := fun he => h (admissionKey_inj.mp he)
  simp only [timeOut]
  split
  next => exact Finmap.lookup_erase_ne hkey
  next =>
    split
    next => exact Finmap.lookup_erase_ne hkey
    next => exact Finmap.lookup_insert_of_ne m.1 hkey

theorem walk_timeOut_updated_iff (hpos : 0 < timeout) (m : GoMap String Time × Time) {ads : List Admission}
    (hn : (ads.map Admission.name).Nodup) :
    (walk (timeOut qu timeout now) m ads).updated = true ↔ ∃ ad ∈ ads, Overdue qu now timeout m.1 ad := by
  induction ads generalizing m with
  | nil => simp [walk]
  | cons ad ads ih =>
    rw [List.map_cons, List.nodup_cons] at hn
    rw [walk_updated_cons, timeOut_updated_iff qu now hpos, ih _ hn.2, List.exists_mem_cons_iff]
    apply or_congr_right
    apply exists_congr
    intro b
    apply and_congr_right
    intro hb
    have hne : b.name ≠ ad.name := fun he => hn.1 (he ▸ List.mem_map_of_mem hb)
    rw [Overdue, Overdue, lookup_timeOut qu now m hne]

theorem remaining_pos {timeout elapsed rest : Int} (h : ¬ elapsed ≥ timeout) (hrest : 0 ≤ rest) :
    0 < if rest = 0 ∨ timeout - elapsed < rest then timeout - elapsed else rest := by
  split <;> omega

theorem walk_timeOut_remaining (m : GoMap String Time × Time) (hm : 0 ≤ m.2) {ads : List Admission}
    (h : (walk (timeOut qu timeout now) m ads).updated = false) :
    (walk (timeOut qu timeout now) m ads).memory.2 > 0 ↔ 0 < m.2 ∨ ∃ ad ∈ ads, Short ad := by
  induction ads generalizing m with
  | nil => simp [walk]
  | cons ad ads ih =>
    simp only [walk, Bool.or_eq_false_iff] at h ⊢
    have hhere : 0 ≤ (timeOut qu timeout now m ad).memory.2 ∧
        (0 < (timeOut qu timeout now m ad).memory.2 ↔ 0 < m.2 ∨ Short ad) := by
      have hfirst := h.1
      simp only [timeOut, Short] at hfirst ⊢
      split at hfirst
      next hge =>
        rw [if_pos hge]
        simp [hm, Int64.not_lt.mpr hge]
      next hge =>
        rw [if_neg hge]
        split at hfirst
        next => cases hfirst
        next helapsed =>
          rw [if_neg helapsed]
          have hpos := remaining_pos helapsed hm
          simp only [Int64.not_le.mp hge, or_true, iff_true]
          exact ⟨hpos.le, hpos⟩
    rw [ih _ hhere.1 h.2, hhere.2, List.exists_mem_cons_iff, or_assoc]

end PartialRunning

theorem needResource_iff (total resource : ResourceList) : needResource total resource = true ↔ total ≠ resource := by
  rw [ne_eq, ← equal_iff, needResource, equal]
  by_cases hcard : total.keys.card = resource.keys.card
  · simp [hcard, GoMap.any]
  · simp [hcard]

section Sync

variable (syncRes : Bool) (pods : List Pod)

structure InSync (k : String) (ad : Admission) : Prop where
  running : ad.running = runningByPs pods k
  replicas : runningByPs pods k ≤ ad.replicas
  resources : syncRes = true → ad.resources = resByPs pods k

theorem syncPodSet_updated_iff (k : String) (ads : List Admission) :
    (syncPodSet syncRes k (runningByPs pods k) (resByPs pods k) ads).updated = false ↔
      ∃ ad, ads.find? (fun ad => ad.name = k) = some ad ∧ InSync syncRes pods k ad := by
  induction ads with
  | nil => simp [syncPodSet]
  | cons ad ads ih =>
    rw [syncPodSet]
    by_cases hname : ad.name = k
    · rw [if_pos hname, List.find?_cons_of_pos (by simpa using hname)]
      simp only [syncAdmission, Bool.or_eq_false_iff, decide_eq_false_iff_not, not_not, Int64.not_lt,
        Bool.and_eq_false_imp, Bool.not_eq_false', equal_iff, Option.some.injEq, exists_eq_left']
      constructor
      · rintro ⟨⟨hrun, hrep⟩, hres⟩
        exact ⟨hrun.symm, hrep, hres⟩
      · rintro ⟨hrun, hrep, hres⟩
        exact ⟨⟨hrun.symm, hrep⟩, hres⟩
    · rw [if_neg hname, ih, List.find?_cons_of_neg (by simpa using hname)]

theorem find_syncPodSet {k j : String} (h : j ≠ k) (r : Int64) (res : ResourceList) (ads : List Admission) :
    (syncPodSet syncRes k r res ads).item.find? (fun ad => ad.name = j) = ads.find? (fun ad => ad.name = j) := by
  induction ads with
  | nil => simp [syncPodSet, h.symm]
  | cons ad ads ih =>
    rw [syncPodSet]
    by_cases hname : ad.name = k
    · simp [hname, syncAdmission, h.symm]
    · rw [if_neg hname]
      simp only [List.find?_cons, ih]

theorem syncAdmissions_updated_iff {ks : List String} (hks : ks.Nodup) (ads : List Admission) :
    (syncAdmissions syncRes pods ks ads).updated = false ↔
      ∀ k ∈ ks, ∃ ad, ads.find? (fun ad => ad.name = k) = some ad ∧ InSync syncRes pods k ad := by
  induction ks generalizing ads with
  | nil => simp [syncAdmissions]
  | cons k ks ih =>
    rw [List.nodup_cons] at hks
    simp only [syncAdmissions, Bool.or_eq_false_iff]
    rw [syncPodSet_updated_iff, ih hks.2, List.forall_mem_cons]
    apply and_congr_right
    intro _
    apply forall₂_congr
    intro j hj
    have hne : j ≠ k := fun he => hks.1 (he ▸ hj)
    rw [find_syncPodSet syncRes hne]

end Sync

def OutOfSync (qu : JobUnit) (pods : List Pod) : Prop :=
  (qu.status.phase = .running ∧ totalRequests pods ≠ qu.spec.resource) ∨ qu.podState ≠ podStateOf pods ∨
    ∃ k ∈ podSetNames pods, ¬ ∃ ad, qu.status.admissions.find? (fun ad => ad.name = k) = some ad ∧
      InSync (decide (qu.status.phase = .running)) pods k ad

theorem syncInFlightWorkers_isSome_iff (qu : JobUnit) (pods : List Pod) :
    (syncInFlightWorkers qu pods).isSome = true ↔ recycles qu = true ∧ OutOfSync qu pods := by
  have hsync := syncAdmissions_updated_iff (decide (qu.status.phase = .running)) pods (nodup_podSetNames pods)
    qu.status.admissions
  rw [← not_iff_not, not_forall₂, Bool.not_eq_false] at hsync
  simp only [syncInFlightWorkers, OutOfSync]
  cases hrec : recycles qu with
  | false => simp
  | true =>
    simp only [Bool.not_true, Bool.false_eq_true, if_false, true_and]
    split
    next h =>
      rw [needResource_iff] at h
      simp [h]
    next h =>
      rw [needResource_iff] at h
      rw [or_iff_right h]
      split
      next hout =>
        rw [hsync] at hout
        simpa using hout
      next hin =>
        rw [hsync] at hin
        simpa using hin

end KoordQueue.JobExt.Due
