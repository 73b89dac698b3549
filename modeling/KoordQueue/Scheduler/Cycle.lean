import KoordQueue.Quota.Plugin

namespace KoordQueue.Scheduler.Cycle

open Api UnitStatus UnitInfo Quota.Info Quota.Cache

abbrev QueueName := String

def unitInfoOf (unit : QueueUnit) : QueueUnitInfo := newQueueUnitInfo ∅ 0 unit

theorem unitInfoOf_unit (unit : QueueUnit) : (unitInfoOf unit).unit = unit := newQueueUnitInfo_unit ∅ 0 unit

/-- The copy that a cycle reserves with. The phase written into it later
charges the same amount. -/
def copiedUnit (unit : QueueUnit) : QueueUnit := { unit with status := { unit.status with phase := .dequeued } }

/-- How far the cycle of one queue has come with the unit that `Next` gave it. -/
inductive Stage
  | idle
  | filtered (unit : QueueUnit)
  | reserved (unit : QueueUnit)
deriving DecidableEq

/-- The shared quota cache, the cycle of every queue, and the units whose
status is being written in the background. -/
structure World where
  cache : CacheImpl
  cycle : QueueName → Stage
  dequeuing : List QueueUnit

def idleWorld (cache : CacheImpl) : World := ⟨cache, fun _ => .idle, []⟩

/-- The moments at which a cycle touches the quota cache or ends. A cycle
shares its info with the queue, so what it releases is the version that the
info holds by then. -/
inductive CycleAction
  | filter (q : QueueName) (unit : QueueUnit)
  | reject (q : QueueName)
  | reserve (q : QueueName)
  | laterReserveFails (q : QueueName)
  | queueReserveFails (q : QueueName) (current : QueueUnit)
  | queueReserve (q : QueueName)
  | dequeueFails (unit current : QueueUnit)
  | dequeueSucceeds (unit updated : QueueUnit)

def World.setCycle (w : World) (q : QueueName) (stage : Stage) : World :=
  { w with cycle := Function.update w.cycle q stage }

def World.setCache (w : World) (cache : CacheImpl) : World := { w with cache }

theorem quota_unitInfoOf (unit : QueueUnit) : getQuotaName (unitInfoOf unit).unit = getQuotaName unit := by
  rw [unitInfoOf_unit]

theorem quota_copiedUnit (unit : QueueUnit) : getQuotaName (unitInfoOf (copiedUnit unit)).unit = getQuotaName unit := by
  rw [unitInfoOf_unit]
  rfl

theorem setCycle_cycle (w : World) (q q' : QueueName) (stage : Stage) :
    (w.setCycle q stage).cycle q' = if q' = q then stage else w.cycle q' := by
  simp [World.setCycle, Function.update_apply]

variable [ResourceHelpers]

def cycleStep (overSellRate : ℚ) (w : World) : CycleAction → Option World
  | .filter q unit =>
    if w.cycle q = .idle then
      match Quota.Plugin.filter w.cache overSellRate (unitInfoOf unit)
          (getQueueUnitResourceRequirementAds unit) with
      | .ok _ => some (w.setCycle q (.filtered unit))
      | .error _ => some w
    else none
  | .reject q =>
    match w.cycle q with
    | .filtered _ => some (w.setCycle q .idle)
    | _ => none
  | .reserve q =>
    match w.cycle q with
    | .filtered unit =>
      match Quota.Plugin.reserve w.cache (unitInfoOf (copiedUnit unit)) with
      | none => none
      | some (cache, none) => some ((w.setCache cache).setCycle q (.reserved unit))
      | some (cache, some _) =>
        (Quota.Plugin.unreserve cache (unitInfoOf (copiedUnit unit))).map
          (fun cache => (w.setCache cache).setCycle q .idle)
    | _ => none
  | .laterReserveFails q =>
    match w.cycle q with
    | .reserved unit =>
      (Quota.Plugin.unreserve w.cache (unitInfoOf (copiedUnit unit))).map
        (fun cache => (w.setCache cache).setCycle q .idle)
    | _ => none
  | .queueReserveFails q current =>
    match w.cycle q with
    | .reserved _ =>
      (Quota.Plugin.unreserve w.cache (unitInfoOf current)).map
        (fun cache => (w.setCache cache).setCycle q .idle)
    | _ => none
  | .queueReserve q =>
    match w.cycle q with
    | .reserved unit => some { w.setCycle q .idle with dequeuing := unit :: w.dequeuing }
    | _ => none
  | .dequeueFails unit current =>
    if unit ∈ w.dequeuing then
      (Quota.Plugin.unreserve w.cache (unitInfoOf current)).map
        (fun cache => { w with cache, dequeuing := w.dequeuing.erase unit })
    else none
  | .dequeueSucceeds unit updated =>
    if unit ∈ w.dequeuing then
      (Quota.Plugin.dequeueComplete w.cache (unitInfoOf updated)).map
        (fun cache => { w with cache, dequeuing := w.dequeuing.erase unit })
    else none

theorem cycleStep_filter {overSellRate : ℚ} {w : World} {q : QueueName} {unit : QueueUnit} (hidle : w.cycle q = .idle)
    (hok : Quota.Cache.checkUsage w.cache (getQuotaName unit) (unitInfoOf unit) overSellRate = .ok ()) :
    cycleStep overSellRate w (.filter q unit) = some (w.setCycle q (.filtered unit)) := by
  simp only [cycleStep, hidle, if_true, Quota.Plugin.filter, quota_unitInfoOf, hok]
  rfl

/-- What a step that is taken found and left. -/
def Taken (overSellRate : ℚ) (w w' : World) : CycleAction → Prop
  | .filter q unit => w' = w ∨ w.cycle q = .idle ∧
      Quota.Cache.checkUsage w.cache (getQuotaName unit) (unitInfoOf unit) overSellRate = .ok () ∧
        w' = w.setCycle q (.filtered unit)
  | .reject q => ∃ unit, w.cycle q = .filtered unit ∧ w' = w.setCycle q .idle
  | .reserve q => ∃ unit cache, w.cycle q = .filtered unit ∧
      (Quota.Plugin.reserve w.cache (unitInfoOf (copiedUnit unit)) = some (cache, none) ∧
          w' = (w.setCache cache).setCycle q (.reserved unit) ∨
        ∃ err cache', Quota.Plugin.reserve w.cache (unitInfoOf (copiedUnit unit)) = some (cache, some err) ∧
          Quota.Plugin.unreserve cache (unitInfoOf (copiedUnit unit)) = some cache' ∧
          w' = (w.setCache cache').setCycle q .idle)
  | .laterReserveFails q => ∃ unit cache, w.cycle q = .reserved unit ∧
      Quota.Plugin.unreserve w.cache (unitInfoOf (copiedUnit unit)) = some cache ∧
        w' = (w.setCache cache).setCycle q .idle
  | .queueReserveFails q current => ∃ unit cache, w.cycle q = .reserved unit ∧
      Quota.Plugin.unreserve w.cache (unitInfoOf current) = some cache ∧
        w' = (w.setCache cache).setCycle q .idle
  | .queueReserve q => ∃ unit, w.cycle q = .reserved unit ∧
      w' = { w.setCycle q .idle with dequeuing := unit :: w.dequeuing }
  | .dequeueFails unit current => unit ∈ w.dequeuing ∧
      ∃ cache, Quota.Plugin.unreserve w.cache (unitInfoOf current) = some cache ∧
        w' = { w with cache, dequeuing := w.dequeuing.erase unit }
  | .dequeueSucceeds unit updated => unit ∈ w.dequeuing ∧
      ∃ cache, Quota.Plugin.dequeueComplete w.cache (unitInfoOf updated) = some cache ∧
        w' = { w with cache, dequeuing := w.dequeuing.erase unit }

theorem taken_of_cycleStep {overSellRate : ℚ} {w w' : World} {a : CycleAction}
    (h : cycleStep overSellRate w a = some w') : Taken overSellRate w w' a := by
  cases a with
  | filter q unit =>
    rw [cycleStep] at h
    split at h
    next hidle =>
      split at h
      next ads hok =>
        refine Or.inr ⟨hidle, ?_, (Option.some.inj h).symm⟩
        rw [Quota.Plugin.filter, quota_unitInfoOf] at hok
        cases hc : Quota.Cache.checkUsage w.cache (getQuotaName unit) (unitInfoOf unit) overSellRate with
        | ok _ => rfl
        | error e =>
          rw [hc] at hok
          cases hok
      next => exact Or.inl (Option.some.inj h).symm
    next => cases h
  | reject q =>
    rw [cycleStep] at h
    split at h
    next unit hq => exact ⟨unit, hq, (Option.some.inj h).symm⟩
    next => cases h
  | reserve q =>
    rw [cycleStep] at h
    split at h
    next unit hq =>
      split at h
      next => cases h
      next cache hr => exact ⟨unit, cache, hq, Or.inl ⟨hr, (Option.some.inj h).symm⟩⟩
      next cache err hr =>
        obtain ⟨cache', hu, hw⟩ := Option.map_eq_some_iff.mp h
        exact ⟨unit, cache, hq, Or.inr ⟨err, cache', hr, hu, hw.symm⟩⟩
    next => cases h
  | laterReserveFails q =>
    rw [cycleStep] at h
    split at h
    next unit hq =>
      obtain ⟨cache, hu, hw⟩ := Option.map_eq_some_iff.mp h
      exact ⟨unit, cache, hq, hu, hw.symm⟩
    next => cases h
  | queueReserveFails q current =>
    rw [cycleStep] at h
    split at h
    next unit hq =>
      obtain ⟨cache, hu, hw⟩ := Option.map_eq_some_iff.mp h
      exact ⟨unit, cache, hq, hu, hw.symm⟩
    next => cases h
  | queueReserve q =>
    rw [cycleStep] at h
    split at h
    next unit hq => exact ⟨unit, hq, (Option.some.inj h).symm⟩
    next => cases h
  | dequeueFails unit current =>
    rw [cycleStep] at h
    split at h
    next hm =>
      obtain ⟨cache, hu, hw⟩ := Option.map_eq_some_iff.mp h
      exact ⟨hm, cache, hu, hw.symm⟩
    next => cases h
  | dequeueSucceeds unit updated =>
    rw [cycleStep] at h
    split at h
    next hm =>
      obtain ⟨cache, hu, hw⟩ := Option.map_eq_some_iff.mp h
      exact ⟨hm, cache, hu, hw.symm⟩
    next => cases h

end KoordQueue.Scheduler.Cycle
