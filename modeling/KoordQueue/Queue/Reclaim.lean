import KoordQueue.Queue.Filing
import KoordQueue.Lib.Run
import Mathlib.Data.List.Perm.Subperm

namespace KoordQueue.Queue.Reclaim

open Api UnitStatus Policy Update Steps Frames

variable {ad : Admission} {ads : List Admission}

theorem replicasOf_of_mem (hn : (ads.map Admission.name).Nodup)
    (h : ad ∈ ads) : replicasOf ads ad.name = ad.replicas := by
  induction ads with
  | nil => cases h
  | cons first ads ih =>
    rw [List.map_cons, List.nodup_cons] at hn
    rcases List.mem_cons.mp h with rfl | hmem
    · simp [replicasOf]
    · have hne : first.name ≠ ad.name := by
        intro he
        exact hn.1 (he ▸ List.mem_map_of_mem hmem)
      have hrest := ih hn.2 hmem
      rw [replicasOf] at hrest ⊢
      rw [List.find?_cons_of_neg (by simpa using hne), hrest]

theorem replicasOf_of_notMem {name : String} (h : name ∉ ads.map Admission.name) : replicasOf ads name = 0 := by
  have hnone : ads.find? (fun ad => ad.name = name) = none := by
    apply List.find?_eq_none.mpr
    intro ad hm he
    exact h (of_decide_eq_true he ▸ List.mem_map_of_mem hm)
  rw [replicasOf, hnone]
  rfl

variable {old new : QueueUnit}

theorem exists_of_not_isAdmissionChanged (h : isAdmissionChanged old new = false) (hm : ad ∈ new.status.admissions) :
    ∃ o ∈ old.status.admissions, o.name = ad.name ∧ o.replicas = ad.replicas := by
  rw [isAdmissionChanged] at h
  split at h
  next => cases h
  next =>
    have hsame := List.any_eq_false.mp h ad hm
    split at hsame
    next => exact absurd rfl hsame
    next o ho =>
      obtain ⟨o', hm', heq⟩ := List.mem_map.mp (GoMap.mem_of_lookup_ofList ho)
      simp only [Prod.mk.injEq] at heq
      obtain ⟨hname, rfl⟩ := heq
      simp only [ne_eq, Bool.or_eq_true, decide_eq_true_eq, not_or, not_not] at hsame
      exact ⟨o', hm', hname, hsame.2⟩

theorem replicasOf_eq_of_not_isAdmissionChanged (hn : (new.status.admissions.map Admission.name).Nodup)
    (h : isAdmissionChanged old new = false) (name : String) :
    replicasOf new.status.admissions name = replicasOf old.status.admissions name := by
  have hsub : new.status.admissions.map Admission.name ⊆ old.status.admissions.map Admission.name := by
    intro n hmem
    obtain ⟨ad, hm, rfl⟩ := List.mem_map.mp hmem
    obtain ⟨o, ho, hname, _⟩ := exists_of_not_isAdmissionChanged h hm
    exact List.mem_map.mpr ⟨o, ho, hname⟩
  have hlen : (old.status.admissions.map Admission.name).length ≤
      (new.status.admissions.map Admission.name).length := by
    rw [isAdmissionChanged] at h
    split at h
    next => cases h
    next hl =>
      rw [List.length_map, List.length_map]
      omega
  have hperm := (hn.subperm hsub).perm_of_length_le hlen
  by_cases hmem : name ∈ new.status.admissions.map Admission.name
  · obtain ⟨ad, hm, rfl⟩ := List.mem_map.mp hmem
    obtain ⟨o, ho, hname, hrep⟩ := exists_of_not_isAdmissionChanged h hm
    rw [replicasOf_of_mem hn hm, ← hname, replicasOf_of_mem (hperm.nodup_iff.mp hn) ho, hrep]
  · rw [replicasOf_of_notMem hmem, replicasOf_of_notMem (fun h => hmem (hperm.mem_iff.mpr h))]

/-- Replicas of some admission were taken back. -/
def Fell (old new : QueueUnit) : Prop :=
  ∃ name, replicasOf new.status.admissions name < replicasOf old.status.admissions name

theorem unchanged_of_fell (hn : (new.status.admissions.map Admission.name).Nodup) (h : Fell old new) :
    unchanged old new = false := by
  obtain ⟨name, hlt⟩ := h
  cases hc : isAdmissionChanged old new with
  | true => simp [unchanged, hc]
  | false =>
    rw [replicasOf_eq_of_not_isAdmissionChanged hn hc] at hlt
    exact absurd hlt Int64.lt_irrefl

variable (fw : Handle) (now : Time)

/-- The unit is free to be topped up. -/
def Freed (new : QueueUnit) (q : PriorityQueue) : Prop :=
  new.key ∉ q.updating ∧ (new.key ∈ q.assumed → isQueueUnitAllRunning new = false)

theorem freed_settle_iff (hneed : isQueueUnitSatisfied new = false) (old : QueueUnit) (q : PriorityQueue) :
    Freed new (settle fw old new q) ↔ isQueueUnitReservedAnyResource new = false ∨ new.key ∉ q.updating := by
  rw [Freed, settle_eq, hneed]
  cases isQueueUnitReservedAnyResource new with
  | false => simp
  | true =>
    by_cases hu : new.key ∈ q.updating
    · simp [hu]
    · cases isQueueUnitAllRunning new <;> simp [hu]

/-- An update that takes replicas back below what is asked for frees the unit
when it leaves nothing reserved or the unit was not being updated. -/
theorem update_frees_iff (s : State) (hn : (new.status.admissions.map Admission.name).Nodup)
    (hfell : Fell old new) (hneed : isQueueUnitSatisfied new = false) :
    Freed new (update fw now old new s).pq ↔
      isQueueUnitDequeued new = true ∨ isQueueUnitReservedAnyResource new = false ∨
        new.key ∉ s.pq.updating := by
  have hmarks := marks_refresh fw old new (updateBody fw now old new s)
  have hfreed : Freed new (update fw now old new s).pq ↔ Freed new (updateBody fw now old new s).pq := by
    rw [Freed, Freed, update, hmarks.1, hmarks.2]
  rw [hfreed]
  rcases updateBody_cases fw now rfl with ⟨hu, _⟩ | ⟨_, hd, heq⟩ | ⟨_, hd, _, heq⟩ | ⟨_, hd, _, heq⟩
  · rw [unchanged_of_fell hn hfell] at hu
    cases hu
  · obtain ⟨b, _, hdrop⟩ := dropDequeued_eq now old new s
    rw [heq, hdrop]
    exact iff_of_true ⟨Finset.notMem_erase _ _, fun h => absurd h (Finset.notMem_erase _ _)⟩ (Or.inl hd)
  · rw [heq, hd, freed_settle_iff fw hneed]
    simp [reinsert]
  · rw [heq, hd, freed_settle_iff fw hneed]
    simp

def admitted (resourceVersion : String) (replicas : Int64) : QueueUnit :=
  jobUnit "w" resourceVersion none 2 [{ name := "worker", replicas }]

def unadmitted : QueueUnit := jobUnit "w" "1" none 2 []

def fullyAdmitted : List Action :=
  [.newInfo 0 unadmitted, .add 0, .next 0, .reserve 0 0, .dequeueSuccess (admitted "2" 2),
    .update 0 unadmitted (admitted "2" 2)]

theorem update_frees_fully_reclaimed :
    ∃ t, Run.exec (step noQuotas) emptyQueue fullyAdmitted = some t ∧
      "ns/w" ∈ t.pq.updating ∧ Freed (admitted "3" 0) (update noQuotas 0 (admitted "2" 2) (admitted "3" 0) t).pq := by
  obtain ⟨t, hrun, hu⟩ : ∃ t, Run.exec (step noQuotas) emptyQueue fullyAdmitted = some t ∧ "ns/w" ∈ t.pq.updating :=
      by decide +kernel
  refine ⟨t, hrun, hu, ?_⟩
  apply (update_frees_iff noQuotas 0 t (by decide) ⟨"worker", by decide⟩ (by decide)).mpr
  exact Or.inr (Or.inl (by decide))

/-- One of the two admitted workers is taken back, and the unit stays marked as
being updated, so no scan hands it out again. -/
theorem partly_reclaimed_stays_updating :
    ∃ t, Run.exec (step noQuotas) emptyQueue fullyAdmitted = some t ∧
      isQueueUnitSatisfied (admitted "2" 2) = true ∧ isQueueUnitSatisfied (admitted "3" 1) = false ∧
      Fell (admitted "2" 2) (admitted "3" 1) ∧
      ¬ Freed (admitted "3" 1) (update noQuotas 0 (admitted "2" 2) (admitted "3" 1) t).pq := by
  obtain ⟨t, hrun, hu⟩ : ∃ t, Run.exec (step noQuotas) emptyQueue fullyAdmitted = some t ∧
      "ns/w" ∈ (update noQuotas 0 (admitted "2" 2) (admitted "3" 1) t).pq.updating := by decide +kernel
  exact ⟨t, hrun, by decide, by decide, ⟨"worker", by decide⟩, fun h => h.1 hu⟩

end KoordQueue.Queue.Reclaim
