import KoordQueue.JobExt.Effects
import KoordQueue.Queue.Preempt
import KoordQueue.Quota.Solvency
import KoordQueue.Scheduler.AdmissionChecks

namespace KoordQueue.JobExt.Lifecycle

open Api UnitStatus Pods Records Pass Reporter Effects Conditions Queue.Preempt
open Quota.Info Quota.Cache Quota.Conservation Quota.Solvency
open Scheduler.Dequeue Scheduler.AdmissionChecks

/-- One unit over its life: the stored version, the copy that the scheduler
has, every version that was ever stored, what the reporter remembers, and the
quotas that the unit is charged to. -/
structure World where
  stored : JobUnit
  cached : JobUnit
  seen : List JobUnit
  reporter : ResourceReporter := {}
  quotas : CacheImpl := buildCache

def start (qu : JobUnit) : World := { stored := qu, cached := qu, seen := [qu] }

inductive Action
  | observe
  | dequeue (f : Features) (now : Time) (strictDequeue smallTaskAcclerate : Bool) (timeNow : Time)
      (grants : List FrameworkAdmission) (matched : List String)
  | preempt (now : Time) (pps : GoMap String FrameworkAdmission)
  | reconcile (now : Time) (handle : JobHandle) (job : Job) (read : JobUnit) (accepted : Bool)
  | charge (op : CacheOp)

/-- The stored version after an action. A dequeue replaces the status by the one
it computed from its copy, a round works on the unit it has read. -/
def written (w : World) : Action → JobUnit
  | .observe => w.stored
  | .dequeue f now strictDequeue smallTaskAcclerate timeNow grants matched =>
    overwrite f now w.stored
      (Scheduler.AdmissionChecks.dequeue strictDequeue smallTaskAcclerate timeNow w.cached grants matched)
  | .preempt now pps =>
    ((preemptQueueUnit pps now w.stored.toQueueUnit).map (fun qu => { w.stored with toQueueUnit := qu })).getD w.stored
  | .reconcile now handle job read accepted =>
    if accepted = true ∧ read = w.stored then Outcome.store (reconcileUnit now handle job w.reporter w.stored) w.stored
    else w.stored
  | .charge _ => w.stored

def Known (w : World) (op : CacheOp) : Prop :=
  ∀ u ∈ named op, u.unit.uid = w.stored.uid → u.unit ∈ w.seen.map JobUnit.toQueueUnit
deriving Decidable

variable [ResourceHelpers]

def step (w : World) (a : Action) : Option World :=
  match a with
  | .observe => some { w with cached := w.stored }
  | .dequeue .. => some { w with stored := written w a, seen := written w a :: w.seen }
  | .preempt .. => some { w with stored := written w a, seen := written w a :: w.seen }
  | .reconcile now handle job read _ => some { w with
      stored := written w a
      seen := written w a :: w.seen
      reporter := (reconcileUnit now handle job w.reporter read).reporter }
  | .charge op =>
    if Known w op then (Quota.Conservation.step w.quotas op).map (fun quotas => { w with quotas }) else none

omit [ResourceHelpers]

def enlist (k : String) (names : List String) : List String := if k ∈ names then names else names ++ [k]

variable {names : List String} {k : String}

theorem enlist_cons_of_ne {n : String} (h : n ≠ k) (names : List String) :
    enlist k (n :: names) = n :: enlist k names := by
  by_cases hmem : k ∈ names
  · rw [enlist, enlist, if_pos hmem, if_pos (List.mem_cons_of_mem n hmem)]
  · rw [enlist, enlist, if_neg hmem, if_neg (List.not_mem_cons_of_ne_of_not_mem h.symm hmem), List.cons_append]

theorem enlist_cons_self (k : String) (names : List String) : enlist k (k :: names) = k :: names :=
  if_pos List.mem_cons_self

theorem mem_enlist {name : String} : name ∈ enlist k names ↔ name ∈ names ∨ name = k := by
  rw [enlist]
  split
  next hk =>
    constructor
    · exact Or.inl
    · rintro (h | rfl)
      · exact h
      · exact hk
  next => rw [List.mem_append, List.mem_singleton]

theorem nodup_enlist (h : names.Nodup) : (enlist k names).Nodup := by
  rw [enlist]
  split
  next => exact h
  next hnew => exact List.nodup_append_comm.mp (List.nodup_cons.mpr ⟨hnew, h⟩)

section Dequeue

theorem overwrite_status (f : Features) (now : Time) (stored status : JobUnit) :
    (overwrite f now stored status).status = status.status := by
  rw [overwrite]
  split
  next h => exact (congrArg (fun qu : JobUnit => qu.status) h).symm
  next =>
    have hsync := congrArg QueueUnit.status (sync_status f now (stored.storeStatus status))
    exact hsync

theorem overwrite_spec (f : Features) (now : Time) (stored status : JobUnit) :
    (overwrite f now stored status).spec = stored.spec ∧ (overwrite f now stored status).uid = stored.uid := by
  rw [overwrite]
  split
  next => exact ⟨rfl, rfl⟩
  next => exact ⟨rfl, rfl⟩

theorem admissions_dequeue (w : World) (f : Features) (now : Time) (strict small : Bool) (timeNow : Time)
    (grants : List FrameworkAdmission) (matched : List String) :
    (written w (.dequeue f now strict small timeNow grants matched)).status.admissions =
      grants.foldl (fun ads g => addAdmission g ads) w.cached.status.admissions := by
  rw [written, overwrite_status]
  exact newStatus_admissions _ _ _ _

theorem names_addAdmission (g : FrameworkAdmission) (ads : List Admission) :
    (addAdmission g ads).map Admission.name = enlist g.name (ads.map Admission.name) := by
  induction ads with
  | nil => rfl
  | cons ad ads ih =>
    rw [addAdmission, List.map_cons]
    split
    next he => rw [List.map_cons, he, enlist_cons_self]
    next he => rw [List.map_cons, ih, enlist_cons_of_ne he]

theorem names_grants (grants : List FrameworkAdmission) (ads : List Admission) (name : String) :
    name ∈ (grants.foldl (fun ads g => addAdmission g ads) ads).map Admission.name ↔
      name ∈ ads.map Admission.name ∨ name ∈ grants.map FrameworkAdmission.name := by
  induction grants generalizing ads with
  | nil => simp
  | cons g grants ih => rw [List.foldl_cons, ih, names_addAdmission, mem_enlist, List.map_cons, List.mem_cons, or_assoc]

theorem nodup_grants (grants : List FrameworkAdmission) {ads : List Admission} (h : (ads.map Admission.name).Nodup) :
    ((grants.foldl (fun ads g => addAdmission g ads) ads).map Admission.name).Nodup := by
  induction grants generalizing ads with
  | nil => exact h
  | cons g grants ih =>
    rw [List.foldl_cons]
    apply ih
    rw [names_addAdmission]
    exact nodup_enlist h

end Dequeue

section Rounds

theorem names_syncPodSet (syncRes : Bool) (k : String) (r : Int64) (res : ResourceList) (ads : List Admission) :
    (syncPodSet syncRes k r res ads).item.map Admission.name = enlist k (ads.map Admission.name) := by
  induction ads with
  | nil => rfl
  | cons ad ads ih =>
    rw [syncPodSet, List.map_cons]
    split
    next he =>
      subst he
      exact (enlist_cons_self _ _).symm
    next he => rw [List.map_cons, ih, enlist_cons_of_ne he]

theorem names_syncAdmissions (syncRes : Bool) (pods : List Pod) (ks : List String) (ads : List Admission) :
    (∀ name, name ∈ (syncAdmissions syncRes pods ks ads).item.map Admission.name ↔
      name ∈ ads.map Admission.name ∨ name ∈ ks) ∧
    ((ads.map Admission.name).Nodup → ((syncAdmissions syncRes pods ks ads).item.map Admission.name).Nodup) := by
  induction ks generalizing ads with
  | nil => exact ⟨fun name => by simp [syncAdmissions], fun h => h⟩
  | cons k ks ih =>
    obtain ⟨hmem, hnodup⟩ := ih (syncPodSet syncRes k (runningByPs pods k) (resByPs pods k) ads).item
    rw [names_syncPodSet] at hnodup
    constructor
    · intro name
      rw [syncAdmissions, hmem, names_syncPodSet, mem_enlist, List.mem_cons, or_assoc]
    · exact fun h => hnodup (nodup_enlist h)

theorem names_walk {M : Type} {body : M → Admission → Visit M Admission}
    (hbody : ∀ m ad, (body m ad).item.name = ad.name) (m : M) (ads : List Admission) :
    (walk body m ads).item.map Admission.name = ads.map Admission.name := by
  induction ads generalizing m with
  | nil => rfl
  | cons ad ads ih => rw [walk, List.map_cons, List.map_cons, hbody, ih]

theorem names_confirmDeletions (qu : QueueUnit) (byPs : String → List Pod) (m : GoMap String (Finset String))
    (ad : Admission) : (confirmDeletions qu byPs m ad).item.name = ad.name := by
  simp only [confirmDeletions]
  split
  next => rfl
  next => split <;> rfl

theorem names_trimAdmission (podSets : List PodSet) (byPs : String → List Pod) (ad : Admission) :
    (trimAdmission podSets byPs ad).item.name = ad.name := by
  rw [trimAdmission]
  split <;> rfl

theorem names_timeOut (qu : QueueUnit) (timeout now : Time) (m : GoMap String Time × Time) (ad : Admission) :
    (timeOut qu timeout now m ad).item.name = ad.name := by
  simp only [timeOut]
  split
  next => rfl
  next => split <;> rfl

variable {now : Time} {handle : JobHandle} {job : Job} {observedPods : GoMap String (Finset String)}
  {firstSeen : GoMap String Time} {qu stored : JobUnit} {pods : List Pod} {w : Write}

theorem names_effect (h : Effect now handle job observedPods firstSeen qu pods w)
    (hstored : stored.status.admissions = qu.status.admissions) :
    (∀ name ∈ (Write.store w stored).status.admissions.map Admission.name,
      name ∈ qu.status.admissions.map Admission.name ∨ name ∈ podSetNames pods) ∧
    (∀ name ∈ qu.status.admissions.map Admission.name,
      name ∈ (Write.store w stored).status.admissions.map Admission.name) ∧
    ((qu.status.admissions.map Admission.name).Nodup →
      ((Write.store w stored).status.admissions.map Admission.name).Nodup) := by
  have hsame : ∀ {ads : List Admission}, ads.map Admission.name = qu.status.admissions.map Admission.name →
      (∀ name ∈ ads.map Admission.name, name ∈ qu.status.admissions.map Admission.name ∨ name ∈ podSetNames pods) ∧
      (∀ name ∈ qu.status.admissions.map Admission.name, name ∈ ads.map Admission.name) ∧
      ((qu.status.admissions.map Admission.name).Nodup → (ads.map Admission.name).Nodup) := by
    intro ads he
    rw [he]
    exact ⟨fun _ hn => Or.inl hn, fun _ hn => hn, fun hn => hn⟩
  cases h with
  | reclaim =>
    apply hsame
    show (List.map _ qu.status.admissions).map Admission.name = _
    rw [List.map_map]
    rfl
  | podDeletion =>
    apply hsame
    show (reconcilePodDeletion observedPods qu.toQueueUnit (podsByPs pods)).item.map Admission.name = _
    rw [reconcilePodDeletion]
    split
    next => rfl
    next => exact names_walk (names_confirmDeletions _ _) _ _
  | overadmission =>
    apply hsame
    exact names_walk (fun _ ad => names_trimAdmission qu.spec.podSets (podsByPs pods) ad) _ _
  | partialRunning =>
    apply hsame
    show (reconcilePartialRunningTimeout firstSeen qu.toQueueUnit handle.partialRunningTimeout now).item.map
      Admission.name = _
    rw [reconcilePartialRunningTimeout]
    split
    next => exact names_walk (names_timeOut _ _ _) _ _
    next => rfl
  | synced _ _ hs =>
    obtain ⟨_, rfl | rfl⟩ := syncInFlightWorkers_cases hs
    · apply hsame
      show stored.status.admissions.map Admission.name = _
      rw [hstored]
    · obtain ⟨hmem, hnodup⟩ := names_syncAdmissions (decide (qu.status.phase = .running)) pods (podSetNames pods)
        qu.status.admissions
      exact ⟨fun name hn => (hmem name).mp hn, fun name hn => (hmem name).mpr (Or.inl hn), hnodup⟩

end Rounds

theorem uid_written (w : World) (a : Action) : (written w a).uid = w.stored.uid := by
  cases a with
  | observe | charge => rfl
  | dequeue f now strict small timeNow grants matched => exact (overwrite_spec f now w.stored _).2
  | preempt now pps =>
    rw [written]
    cases hqu : preemptQueueUnit pps now w.stored.toQueueUnit with
    | none => rfl
    | some qu =>
      obtain ⟨_, _, rfl⟩ := preemptQueueUnit_eq_some hqu
      rfl
  | reconcile now handle job read accepted =>
    rw [written]
    split
    next => exact round_frame.1
    next => rfl

end KoordQueue.JobExt.Lifecycle
