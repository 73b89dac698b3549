import KoordQueue.Scheduler.Filter
import Mathlib.Tactic.NormNum

namespace KoordQueue.Scheduler.Dequeue

open Api UnitStatus Scheduler.Filter

structure Config where
  checksMatched : Bool
  strictDequeue : Bool
  smallTaskAcclerate : Bool
deriving DecidableEq

def addAdmission (schedAds : FrameworkAdmission) : List Admission → List Admission
  | [] => [{ name := schedAds.name, replicas := schedAds.replicas }]
  | oldAd :: ads =>
    if oldAd.name = schedAds.name then
      { oldAd with replicas := oldAd.replicas + schedAds.replicas } :: ads
    else oldAd :: addAdmission schedAds ads

def valueOf (rl : ResourceList) (name : ResourceName) : Int64 := ((rl.lookup name).getD ⟨0⟩).value

def isSmallTask (qu : QueueUnit) : Bool :=
  valueOf qu.spec.request "cpu" ≤ 128 && valueOf qu.spec.resource "nvidia.com/gpu" ≤ 8

/-- The status that `Dequeue` writes, with the grants in the order in which it
ranges over them. -/
def newStatus (cfg : Config) (timeNow : Time) (qu : QueueUnit) (admissions : List FrameworkAdmission) :
    QueueUnitStatus :=
  let status := { qu.status with
    admissions := admissions.foldl (fun ads schedAds => addAdmission schedAds ads) qu.status.admissions
    lastUpdateTime := some timeNow
    lastAllocateTime := some timeNow }
  if cfg.checksMatched then
    { status with
      phase := .reserved
      message := "Reserved resources success, waiting admission checks to be ready" }
  else if cfg.strictDequeue && !(cfg.smallTaskAcclerate && isSmallTask qu) then
    { status with
      phase := .schedReady
      attempts := qu.status.attempts + 1
      message := "Waiting scheduler to schedule this queueUnit" }
  else
    { status with phase := .dequeued, message := "Dequeued because schedule successfully" }

theorem newStatus_admissions (cfg : Config) (timeNow : Time) (qu : QueueUnit) (order : List FrameworkAdmission) :
    (newStatus cfg timeNow qu order).admissions =
      order.foldl (fun ads schedAds => addAdmission schedAds ads) qu.status.admissions := by
  rw [newStatus]
  split
  next => rfl
  next => split <;> rfl

theorem replicasOf_addAdmission (s : FrameworkAdmission) (ads : List Admission) (name : String) :
    replicasOf (addAdmission s ads) name = replicasOf ads name + if name = s.name then s.replicas else 0 := by
  induction ads with
  | nil =>
    by_cases hn : name = s.name
    · simp [addAdmission, replicasOf, hn]
    · simp [addAdmission, replicasOf, hn, Ne.symm hn]
  | cons ad ads ih =>
    rw [addAdmission]
    split
    next he =>
      by_cases hn : name = s.name
      · simp [replicasOf, hn, he]
      · simp [replicasOf, hn, he, Ne.symm hn]
    next he =>
      by_cases hn : ad.name = name
      · have hne : name ≠ s.name := fun h => he (hn.trans h)
        simp [replicasOf, hn, hne]
      · simpa [replicasOf, hn] using ih

/-- The list holds the entries of the map, each once, in some order. -/
def RangesOver (order : List FrameworkAdmission) (m : Admissions) : Prop :=
  (order.map FrameworkAdmission.name).Nodup ∧ ∀ ad, ad ∈ order ↔ m.lookup ad.name = some ad

variable {order : List FrameworkAdmission}

theorem replicasOf_foldl_other {name : String} (hne : ∀ ad ∈ order, ad.name ≠ name) (ads : List Admission) :
    replicasOf (order.foldl (fun ads s => addAdmission s ads) ads) name = replicasOf ads name := by
  induction order generalizing ads with
  | nil => rfl
  | cons s order ih =>
    rw [List.foldl_cons, ih (fun o ho => hne o (List.mem_cons_of_mem s ho)), replicasOf_addAdmission,
      if_neg (Ne.symm (hne s List.mem_cons_self)), Int64.add_zero]

theorem replicasOf_foldl (hn : (order.map FrameworkAdmission.name).Nodup)
    {s : FrameworkAdmission} (hs : s ∈ order) (ads : List Admission) :
    replicasOf (order.foldl (fun ads s => addAdmission s ads) ads) s.name =
      replicasOf ads s.name + s.replicas := by
  induction order generalizing ads with
  | nil => cases hs
  | cons first order ih =>
    rw [List.map_cons, List.nodup_cons] at hn
    rw [List.foldl_cons]
    rcases List.mem_cons.mp hs with rfl | hs
    · rw [replicasOf_foldl_other, replicasOf_addAdmission, if_pos rfl]
      intro ad hm he
      exact hn.1 (he ▸ List.mem_map_of_mem hm)
    · rw [ih hn.2 hs, replicasOf_addAdmission, if_neg, Int64.add_zero]
      intro he
      exact hn.1 (he ▸ List.mem_map_of_mem hs)

theorem replicasOf_rangesOver {m : Admissions} (h : RangesOver order m)
    (hkeyed : ∀ name ad, m.lookup name = some ad → ad.name = name) (ads : List Admission) (name : String) :
    replicasOf (order.foldl (fun ads s => addAdmission s ads) ads) name =
      replicasOf ads name + ((m.lookup name).map FrameworkAdmission.replicas).getD 0 := by
  cases hl : m.lookup name with
  | none =>
    rw [replicasOf_foldl_other]
    · simp
    · rintro ad hm rfl
      rw [(h.2 ad).mp hm] at hl
      cases hl
  | some s =>
    obtain rfl := hkeyed name s hl
    exact replicasOf_foldl h.1 ((h.2 s).mpr hl) ads

end KoordQueue.Scheduler.Dequeue
