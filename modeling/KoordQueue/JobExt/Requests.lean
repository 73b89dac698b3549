import KoordQueue.JobExt.Due
import KoordQueue.Queue.Preempt
import KoordQueue.Lib.Run

namespace KoordQueue.JobExt.Requests

open Api UnitStatus Pods Records Pass Machine Reporter Effects Due Queue.Preempt

/-- The stored unit, the copy of it that its queue has, what a preemption that
is under way will ask for, and the memory of the reporter. -/
structure World where
  stored : JobUnit
  cached : QueueUnit
  chosen : Option (GoMap String FrameworkAdmission)
  reporter : ResourceReporter

inductive Action
  | observe
  | choose (reclaimProtectTime : Int) (now : Time)
  | preempt (now : Time)
  | reconcile (now : Time) (handle : JobHandle) (job : Job) (read : JobUnit) (accepted : Bool)

/-- The queue takes over the stored unit; a preemption computes its requests
from the queue's copy and writes them to the stored unit; the reporter does a
round on the unit it has read. A write from an old copy is refused. -/
def step (s : World) : Action → Option World
  | .observe => some { s with cached := s.stored.toQueueUnit }
  | .choose reclaimProtectTime now =>
    (getResourcesCanReclaim s.cached reclaimProtectTime now).map (fun pps => { s with chosen := some pps })
  | .preempt now =>
    s.chosen.map (fun pps =>
      { s with
        stored := ((preemptQueueUnit pps now s.stored.toQueueUnit).map
          (fun qu => { s.stored with toQueueUnit := qu })).getD s.stored
        chosen := none })
  | .reconcile now handle job read accepted =>
    let o := reconcileUnit now handle job s.reporter read
    some { s with
      stored := if accepted ∧ read = s.stored then Outcome.store o s.stored else s.stored
      reporter := o.reporter }

def Reclaimable (ad : Admission) : Prop :=
  ∀ rs, ad.reclaimState = some rs → 0 < rs.replicas.toInt ∧ rs.replicas.toInt ≤ ad.replicas.toInt - ad.running.toInt
deriving Decidable

def Bounded (s : World) : Prop := ∀ ad ∈ s.stored.status.admissions, Reclaimable ad
deriving Decidable

/-- The scheduled pods of a podset leave room for the request of its admission. -/
def Room (pods : List Pod) (ad : Admission) : Prop :=
  ∀ rs, ad.reclaimState = some rs → podsByPs pods ad.name ≠ [] →
    (runningByPs pods ad.name).toInt + rs.replicas.toInt ≤ ad.replicas.toInt
deriving Decidable

/-- A round leaves the request of an admission alone: its shortfall is not cut
off, and the pods that were scheduled leave room for it. -/
@[mk_iff]
structure LeavesRoom (now : Time) (handle : JobHandle) (firstSeen : GoMap String Time) (qu : QueueUnit)
    (pods : List Pod) (ad : Admission) : Prop where
  notCut : inFlight qu.status.phase = true → 0 < handle.partialRunningTimeout →
    ¬ Overdue qu now handle.partialRunningTimeout firstSeen ad
  room : inFlight qu.status.phase = true → Room pods ad
  counted : ((podsByPs pods ad.name).filter Pod.live).length < 2 ^ 31

/-- What a preemption asks for still does not run, and a round leaves room for
every request. -/
def Fits (s : World) : Action → Prop
  | .observe => True
  | .choose _ _ => True
  | .preempt _ => ∀ pps, s.chosen = some pps → ∀ ad ∈ s.stored.status.admissions,
      (reclaimOf pps ad.name).toInt ≤ max 0 (ad.replicas.toInt - ad.running.toInt)
  | .reconcile now handle job read accepted => accepted = true → read = s.stored → ∀ pods, job.pods = some pods →
      ∀ ad ∈ s.stored.status.admissions, ad.reclaimState ≠ none →
        LeavesRoom now handle s.reporter.partialRunningFirstSeen s.stored.toQueueUnit pods ad

variable {ad : Admission} {qu : QueueUnit} {byPs : String → List Pod}

theorem reclaimable_of_none (h : ad.reclaimState = none) : Reclaimable ad := by
  intro rs hrs
  cases h.symm.trans hrs

theorem confirmDeletions_item (qu : QueueUnit) (byPs : String → List Pod) (m : GoMap String (Finset String))
    (ad : Admission) :
    (confirmDeletions qu byPs m ad).item = ad ∨ (confirmDeletions qu byPs m ad).item.reclaimState = none := by
  simp only [confirmDeletions]
  by_cases hnone : ad.reclaimState = none
  · rw [if_neg (not_not.mpr hnone)]
    split
    next => exact Or.inl rfl
    next => exact Or.inr hnone
  · rw [if_pos hnone]
    exact Or.inl rfl

theorem reclaimable_podDeletion {observedPods : GoMap String (Finset String)}
    (h : ∀ ad ∈ qu.status.admissions, Reclaimable ad) :
    ∀ ad ∈ (reconcilePodDeletion observedPods qu byPs).item, Reclaimable ad := by
  rw [reconcilePodDeletion]
  split
  next => exact h
  next =>
    have hpass := walk_forall₂ (fun _ => True) (fun ad ad' => ad' = ad ∨ ad'.reclaimState = none)
      (fun m _ ad (_ : ad ∈ qu.status.admissions) => ⟨trivial, confirmDeletions_item qu byPs m ad⟩)
      (m := observedPods) trivial
    refine forall_of_forall₂ hpass.2 ?_ h
    rintro ad ad' (rfl | hnone) hok
    · exact hok
    · exact reclaimable_of_none hnone

theorem toInt_trimmed {request : Int32} {pods : List Pod} {old new : Int64}
    (h : trimmedReplicas request pods old = some new) (hcount : (pods.filter Pod.live).length < 2 ^ 31) :
    0 ≤ new.toInt ∧ new.toInt < 2 ^ 31 := by
  have hlive : (Int32.ofNat (pods.filter Pod.live).length).toInt = (pods.filter Pod.live).length :=
    Int32.toInt_ofNat_of_lt hcount
  have hup := Int32.toInt_lt request
  rw [trimmedReplicas_eq] at h
  split at h
  next =>
    cases h
    rw [Int32.toInt_toInt64, toInt_max32, hlive]
    omega
  next => cases h

theorem reclaimable_trimAdmission {podSets : List PodSet}
    (hcount : ad.reclaimState ≠ none → ((byPs ad.name).filter Pod.live).length < 2 ^ 31) (h : Reclaimable ad) :
    Reclaimable (trimAdmission podSets byPs ad).item := by
  rw [trimAdmission]
  split
  next => exact h
  next new hnew =>
    intro rs hrs
    show 0 < rs.replicas.toInt ∧ rs.replicas.toInt ≤ new.toInt - ad.running.toInt
    cases hold : ad.reclaimState with
    | none =>
      simp only [hold, fulfil] at hrs
      cases hrs
    | some old =>
      obtain ⟨hpos, hle⟩ := h old hold
      obtain ⟨hnonneg, hsmall⟩ := toInt_trimmed hnew (hcount (by simp [hold]))
      have hrun := Int64.le_toInt ad.running
      have hrep := Int64.toInt_lt ad.replicas
      have hreleased := toInt_sub_cases ad.replicas new
      have hremaining := toInt_sub_cases old.replicas (ad.replicas - new)
      have hlast := Int64.toInt_lt old.replicas
      simp only [hold, fulfil] at hrs
      split at hrs
      next hgt =>
        rw [gt_iff_toInt, Int64.toInt_zero] at hgt
        split at hrs
        next => cases hrs
        next hleft =>
          rw [Int64.le_iff_toInt_le, Int64.toInt_zero] at hleft
          cases hrs
          simp only
          omega
      next hgt =>
        rw [gt_iff_toInt, Int64.toInt_zero] at hgt
        cases hrs
        omega

theorem reclaimable_overadmission (hcount : ∀ ad ∈ qu.status.admissions, ad.reclaimState ≠ none →
      ((byPs ad.name).filter Pod.live).length < 2 ^ 31) (h : ∀ ad ∈ qu.status.admissions, Reclaimable ad) :
    ∀ ad ∈ (reconcileOveradmission qu byPs).item, Reclaimable ad := by
  have hpass := walk_forall₂ (fun _ => True) (fun ad ad' => ad' = (trimAdmission qu.spec.podSets byPs ad).item)
    (fun m _ ad (_ : ad ∈ qu.status.admissions) => ⟨trivial, rfl⟩) (m := ()) trivial
  refine forall_of_forall₂ hpass.2 ?_ (fun ad hm => And.intro (hcount ad hm) (h ad hm))
  rintro ad ad' rfl ⟨hc, hok⟩
  exact reclaimable_trimAdmission hc hok

def FromStart (firstSeen : GoMap String Time) (now : Time) (m : GoMap String Time × Time) : Prop :=
  ∀ k t, m.1.lookup k = some t → firstSeen.lookup k = some t ∨ t = now

section TimeOut

variable {qu : QueueUnit} {timeout now : Time} {firstSeen : GoMap String Time} {m : GoMap String Time × Time}
  {ad : Admission}

theorem FromStart.erase (hm : FromStart firstSeen now m) (key : String) (requeue : Time) :
    FromStart firstSeen now (m.1.erase key, requeue) := by
  intro k t hk
  exact hm k t (GoMap.lookup_of_erase hk)

theorem FromStart.insert (hm : FromStart firstSeen now m) (key : String) (requeue : Time) :
    FromStart firstSeen now (m.1.insert key ((m.1.lookup key).getD now), requeue) := by
  intro k t hk
  rw [GoMap.lookup_insert_eq] at hk
  split at hk
  next heq =>
    rw [← heq] at hk
    cases hl : m.1.lookup k with
    | none =>
      rw [hl] at hk
      cases hk
      exact Or.inr rfl
    | some t' =>
      rw [hl] at hk
      cases hk
      exact hm k t' hl
  next => exact hm k t hk

theorem fromStart_timeOut (hm : FromStart firstSeen now m) (ad : Admission) :
    FromStart firstSeen now (timeOut qu timeout now m ad).memory := by
  simp only [timeOut]
  split
  next => exact hm.erase _ _
  next =>
    split
    next => exact hm.erase _ _
    next => exact hm.insert _ _

theorem overdue_of_fromStart (hpos : 0 < timeout) (hm : FromStart firstSeen now m)
    (h : Overdue qu now timeout m.1 ad) : Overdue qu now timeout firstSeen ad := by
  obtain ⟨hshort, t, ht, hlate⟩ := h
  rcases hm _ t ht with hstart | rfl
  · exact ⟨hshort, t, hstart, hlate⟩
  · rw [sub_self] at hlate
    exact absurd hlate (not_le.mpr hpos)

theorem item_timeOut (ad : Admission) :
    (timeOut qu timeout now m ad).item = ad ∨
      ((timeOut qu timeout now m ad).updated = true ∧
        (timeOut qu timeout now m ad).item.reclaimState = ad.reclaimState) := by
  simp only [timeOut]
  split
  next => exact Or.inl rfl
  next =>
    split
    next => exact Or.inr ⟨rfl, rfl⟩
    next => exact Or.inl rfl

theorem timeOut_spec (hpos : 0 < timeout) (hm : FromStart firstSeen now m) (ad : Admission) :
    FromStart firstSeen now (timeOut qu timeout now m ad).memory ∧
      ((timeOut qu timeout now m ad).item = ad ∨
        (Overdue qu now timeout firstSeen ad ∧
          (timeOut qu timeout now m ad).item.reclaimState = ad.reclaimState)) := by
  refine ⟨fromStart_timeOut hm ad, (item_timeOut ad).imp_right ?_⟩
  rintro ⟨hu, hsame⟩
  exact ⟨overdue_of_fromStart hpos hm ((timeOut_updated_iff qu now hpos m ad).mp hu), hsame⟩

end TimeOut

theorem reclaimable_partialRunning {qu : QueueUnit} {firstSeen : GoMap String Time} {timeout now : Time}
    (hpos : 0 < timeout) (hcut : inFlight qu.status.phase = true → ∀ ad ∈ qu.status.admissions, ad.reclaimState ≠ none →
      ¬ Overdue qu now timeout firstSeen ad) (h : ∀ ad ∈ qu.status.admissions, Reclaimable ad) :
    ∀ ad ∈ (reconcilePartialRunningTimeout firstSeen qu timeout now).item, Reclaimable ad := by
  rw [reconcilePartialRunningTimeout]
  split
  next hphase =>
    have hpass := walk_forall₂ (FromStart firstSeen now)
      (fun ad ad' => ad' = ad ∨ (Overdue qu now timeout firstSeen ad ∧ ad'.reclaimState = ad.reclaimState))
      (fun m hm ad (_ : ad ∈ qu.status.admissions) => timeOut_spec hpos hm ad)
      (m := (firstSeen, 0)) (fun k t hk => Or.inl hk)
    refine forall_of_forall₂ hpass.2 ?_ (fun ad hm => And.intro (hcut hphase ad hm) (h ad hm))
    rintro ad ad' (rfl | ⟨hover, hsame⟩) ⟨hnot, hok⟩
    · exact hok
    · apply reclaimable_of_none
      rw [hsame]
      by_contra hne
      exact hnot hne hover
  next => exact h

section Sync

variable {syncRes : Bool} {pods : List Pod}

variable {ads : List Admission} {k : String}

theorem reclaimable_syncAdmission (hk : podsByPs pods k ≠ []) {ad : Admission} (hname : ad.name = k)
    (h : Reclaimable ad ∧ Room pods ad) :
    Reclaimable (syncAdmission syncRes (runningByPs pods k) (resByPs pods k) ad).item ∧
      Room pods (syncAdmission syncRes (runningByPs pods k) (resByPs pods k) ad).item := by
  subst hname
  have hrep : ad.replicas.toInt ≤ (syncAdmission syncRes (runningByPs pods ad.name) (resByPs pods ad.name)
      ad).item.replicas.toInt := by
    simp only [syncAdmission]
    split
    next hlt => exact (Int64.lt_iff_toInt_lt.mp hlt).le
    next => exact le_rfl
  constructor
  · intro rs hrs
    have hroom := h.2 rs hrs hk
    have hrun : (syncAdmission syncRes (runningByPs pods ad.name) (resByPs pods ad.name) ad).item.running =
        runningByPs pods ad.name := rfl
    rw [hrun]
    exact ⟨(h.1 rs hrs).1, by omega⟩
  · intro rs hrs _
    exact (h.2 rs hrs hk).trans hrep

theorem reclaimable_syncPodSet (hk : podsByPs pods k ≠ []) (h : ∀ ad ∈ ads, Reclaimable ad ∧ Room pods ad) :
    ∀ ad ∈ (syncPodSet syncRes k (runningByPs pods k) (resByPs pods k) ads).item,
      Reclaimable ad ∧ Room pods ad := by
  induction ads with
  | nil =>
    intro ad hm
    rw [List.mem_singleton.mp hm]
    refine ⟨reclaimable_of_none rfl, ?_⟩
    intro rs hrs
    cases hrs
  | cons ad ads ih =>
    rw [List.forall_mem_cons] at h
    rw [syncPodSet]
    split
    next hname =>
      rw [List.forall_mem_cons]
      exact ⟨reclaimable_syncAdmission hk hname h.1, h.2⟩
    next =>
      rw [List.forall_mem_cons]
      exact ⟨h.1, ih h.2⟩

theorem reclaimable_syncAdmissions {ks : List String} (hks : ∀ k ∈ ks, podsByPs pods k ≠ [])
    (h : ∀ ad ∈ ads, Reclaimable ad ∧ Room pods ad) :
    ∀ ad ∈ (syncAdmissions syncRes pods ks ads).item, Reclaimable ad ∧ Room pods ad := by
  induction ks generalizing ads with
  | nil => exact h
  | cons k ks ih =>
    rw [List.forall_mem_cons] at hks
    exact ih hks.2 (reclaimable_syncPodSet hks.1 h)

end Sync

theorem podsByPs_ne_nil {pods : List Pod} {k : String} (h : k ∈ podSetNames pods) : podsByPs pods k ≠ [] := by
  obtain ⟨hne, po, hpo, hps⟩ := mem_podSetNames.mp h
  exact List.ne_nil_of_mem (mem_podsByPs.mpr ⟨hpo, hne, hps⟩)

theorem reclaimable_effect {now : Time} {handle : JobHandle} {job : Job}
    {observedPods : GoMap String (Finset String)} {firstSeen : GoMap String Time} {qu : JobUnit} {pods : List Pod}
    {w : Write} (heffect : Effect now handle job observedPods firstSeen qu pods w)
    (h : ∀ ad ∈ qu.status.admissions, Reclaimable ad) (hroom : ∀ ad ∈ qu.status.admissions, ad.reclaimState ≠ none →
      LeavesRoom now handle firstSeen qu.toQueueUnit pods ad)
    {stored : JobUnit} (hstored : stored.status.admissions = qu.status.admissions) :
    ∀ ad ∈ (Write.store w stored).status.admissions, Reclaimable ad := by
  cases heffect with
  | reclaim =>
    intro ad hm
    obtain ⟨old, _, rfl⟩ := List.mem_map.mp hm
    exact reclaimable_of_none rfl
  | podDeletion => exact reclaimable_podDeletion h
  | overadmission => exact reclaimable_overadmission (fun ad hm hne => (hroom ad hm hne).counted) h
  | partialRunning hon =>
    exact reclaimable_partialRunning hon
      (fun hphase ad hm hne => (hroom ad hm hne).notCut hphase hon) h
  | synced _ hphase hs =>
    obtain ⟨_, rfl | rfl⟩ := syncInFlightWorkers_cases hs
    · show ∀ ad ∈ stored.status.admissions, Reclaimable ad
      rw [hstored]
      exact h
    · intro ad hm
      refine (reclaimable_syncAdmissions (fun k hk => podsByPs_ne_nil hk) ?_ ad hm).1
      intro old hold
      refine ⟨h old hold, ?_⟩
      intro rs hrs
      exact (hroom old hold (by simp [hrs])).room hphase rs hrs

theorem bounded_step (s : World) (a : Action) (t : World) (h : Bounded s) (hfits : Fits s a)
    (hstep : step s a = some t) : Bounded t := by
  cases a with
  | observe =>
    cases hstep
    exact h
  | choose reclaimProtectTime now =>
    obtain ⟨pps, _, rfl⟩ := Option.map_eq_some_iff.mp hstep
    exact h
  | preempt now =>
    obtain ⟨pps, hchosen, rfl⟩ := Option.map_eq_some_iff.mp hstep
    cases hqu : preemptQueueUnit pps now s.stored.toQueueUnit with
    | none =>
      simp only [Bounded]
      exact h
    | some qu =>
      simp only [Bounded]
      have hask := askBack_forall₂ (preemptQueueUnit_admissions hqu)
      refine forall_of_forall₂ hask ?_ (fun ad hm => And.intro (hfits pps hchosen ad hm) (h ad hm))
      rintro ad ad' (⟨hpos, _, rfl⟩ | ⟨_, rfl⟩) ⟨hle, hok⟩
      · intro rs hrs
        cases hrs
        rw [gt_iff_toInt, Int64.toInt_zero] at hpos
        simp only
        omega
      · exact hok
  | reconcile now handle job read accepted =>
    cases hstep
    simp only [Bounded]
    split
    next hacc =>
      obtain ⟨hacc, rfl⟩ := hacc
      refine store_round (P := fun u => ∀ ad ∈ u.status.admissions, Reclaimable ad) h (fun _ => h)
        (fun pods w _ hpods heffect => reclaimable_effect heffect h (fun ad hm hne => ?_) rfl)
      obtain ⟨hcut, hroom, hcount⟩ := hfits hacc rfl pods hpods ad hm hne
      exact ⟨hcut, hroom, hcount⟩
    next => exact h

section Decidable

deriving instance Decidable for Short, Overdue

instance decidableLeavesRoom (now : Time) (handle : JobHandle) (firstSeen : GoMap String Time) (qu : QueueUnit)
    (pods : List Pod) (ad : Admission) : Decidable (LeavesRoom now handle firstSeen qu pods ad) :=
  decidable_of_iff _ (leavesRoom_iff now handle firstSeen qu pods ad).symm

instance decidableFits (s : World) (a : Action) : Decidable (Fits s a) := by
  delta Fits
  split <;> infer_instance

end Decidable

/-- Every request stays within what does not run, as long as preemptions only
ask for what still does not run and rounds leave room for the requests. -/
theorem requests_bounded {s : World} (h : Bounded s) {as : List Action} (hfits : Run.Guarded step Fits s as) :
    ∀ bs t, bs <+: as → Run.exec step s bs = some t → Bounded t := by
  rintro bs t ⟨cs, rfl⟩ hrun
  exact Run.invariant bounded_step h (Run.guarded_left hfits) hrun

def fresh : JobUnit := workerUnit .dequeued 3 [{ name := "worker", replicas := 3 }]

def world (qu : JobUnit) : World := ⟨qu, qu.toQueueUnit, none, {}⟩

def freshAsked : JobUnit :=
  { fresh with status := { fresh.status with
      admissions := [{ name := "worker", replicas := 3, reclaimState := some ⟨3⟩ }]
      lastUpdateTime := some 1, message := preemptMessage } }

def preempted (timeout : Time) : List Action :=
  let handle : JobHandle := { partialRunningTimeout := timeout }
  [.choose 0 0, .preempt 1, .reconcile 5 handle (jobOf freshAsked []) freshAsked true,
    .reconcile 20 handle (jobOf freshAsked []) freshAsked true]

def overtaken : List Action :=
  [.choose 0 0, .reconcile 1 {} (jobOf fresh [worker "a" "node"]) fresh true, .preempt 2]

/-- Without a timeout the request waits. -/
theorem requests_bounded_preempted :
    ∃ t, Run.exec step (world fresh) (preempted 0) = some t ∧
      t.stored.status.admissions = freshAsked.status.admissions ∧ Bounded t := by
  obtain ⟨t, hrun, h⟩ : ∃ t, Run.exec step (world fresh) (preempted 0) = some t ∧ t.stored.status.admissions =
      freshAsked.status.admissions := by decide +kernel
  exact ⟨t, hrun, h,
    requests_bounded (by decide +kernel : Bounded (world fresh)) (by decide +kernel) _ t List.prefix_rfl hrun⟩

/-- With a timeout the replicas are cut to none while three are still asked
for. A preemption that was overtaken asks for a worker that runs. -/
theorem requests_unbounded :
    Bounded (world fresh) ∧
      (∃ t, Run.exec step (world fresh) (preempted 10) = some t ∧
        t.stored.status.admissions = [{ name := "worker", replicas := 0, reclaimState := some ⟨3⟩ }] ∧ ¬ Bounded t) ∧
      ∃ t, Run.exec step (world fresh) overtaken = some t ∧ t.stored.status.admissions =
        [{ name := "worker", replicas := 3, running := 1, reclaimState := some ⟨3⟩ }] ∧ ¬ Bounded t := by
  decide +kernel

end KoordQueue.JobExt.Requests
