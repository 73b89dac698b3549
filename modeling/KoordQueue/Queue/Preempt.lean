import KoordQueue.UnitStatus

namespace KoordQueue.Queue.Preempt

open Api UnitStatus

def reclaimOf (pps : GoMap String FrameworkAdmission) (name : String) : Int64 :=
  ((pps.lookup name).map FrameworkAdmission.replicas).getD 0

/-- The requests are written into the admissions. An admission that is already
asked to give something back makes the whole write fail. -/
def askBack (pps : GoMap String FrameworkAdmission) : List Admission → Option (List Admission)
  | [] => some []
  | ad :: ads =>
    if reclaimOf pps ad.name > 0 then
      if ad.reclaimState ≠ none then none
      else (askBack pps ads).map ({ ad with reclaimState := some ⟨reclaimOf pps ad.name⟩ } :: ·)
    else (askBack pps ads).map (ad :: ·)

def preemptMessage : String := "Waiting job extension to reclaim resources."

/-- The write to one victim, from the unit that the lister has. There is none
when the unit needs no preemption any more or is asked to give back already. -/
def preemptQueueUnit (pps : GoMap String FrameworkAdmission) (now : Time) (newQu : QueueUnit) : Option QueueUnit :=
  if isQueueUnitDequeued newQu || !isQueueUnitReservedAnyResource newQu then none
  else (askBack pps newQu.status.admissions).map (fun admissions =>
    { newQu with status := { newQu.status with
        admissions, lastUpdateTime := some now, message := preemptMessage } })

variable {pps : GoMap String FrameworkAdmission} {ads ads' : List Admission} {qu qu' : QueueUnit} {now : Time}

theorem askBack_forall₂ (h : askBack pps ads = some ads') :
    List.Forall₂ (fun ad ad' => (reclaimOf pps ad.name > 0 ∧ ad.reclaimState = none ∧
        ad' = { ad with reclaimState := some ⟨reclaimOf pps ad.name⟩ }) ∨
      (¬ reclaimOf pps ad.name > 0 ∧ ad' = ad)) ads ads' := by
  induction ads generalizing ads' with
  | nil =>
    cases h
    exact List.Forall₂.nil
  | cons ad ads ih =>
    rw [askBack] at h
    split at h
    next hpos =>
      split at h
      next => cases h
      next hnone =>
        obtain ⟨rest, hrest, rfl⟩ := Option.map_eq_some_iff.mp h
        exact List.Forall₂.cons (Or.inl ⟨hpos, not_not.mp hnone, rfl⟩) (ih hrest)
    next hpos =>
      obtain ⟨rest, hrest, rfl⟩ := Option.map_eq_some_iff.mp h
      exact List.Forall₂.cons (Or.inr ⟨hpos, rfl⟩) (ih hrest)

theorem names_askBack (h : askBack pps ads = some ads') : ads'.map Admission.name = ads.map Admission.name := by
  have hforall := askBack_forall₂ h
  clear h
  induction hforall with
  | nil => rfl
  | cons had _ ih =>
    rw [List.map_cons, List.map_cons, ih]
    rcases had with ⟨_, _, rfl⟩ | ⟨_, rfl⟩
    · rfl
    · rfl

theorem preemptQueueUnit_eq_some (h : preemptQueueUnit pps now qu = some qu') :
    ∃ admissions, askBack pps qu.status.admissions = some admissions ∧
      qu' = { qu with status := { qu.status with
        admissions, lastUpdateTime := some now, message := preemptMessage } } := by
  rw [preemptQueueUnit] at h
  split at h
  next => cases h
  next =>
    obtain ⟨ads, hads, rfl⟩ := Option.map_eq_some_iff.mp h
    exact ⟨ads, hads, rfl⟩

theorem preemptQueueUnit_admissions
    (h : preemptQueueUnit pps now qu = some qu') : askBack pps qu.status.admissions = some qu'.status.admissions := by
  obtain ⟨ads, hads, rfl⟩ := preemptQueueUnit_eq_some h
  exact hads

end KoordQueue.Queue.Preempt
