import KoordQueue.Scheduler.Cycle

namespace KoordQueue.Scheduler.Events

open Api UnitStatus UnitInfo Quota Cache Scheduler.Cycle

/-- What the informers and the start of the plugin bring to the quota cache. -/
inductive Event
  | load (quotas : List ElasticQuota) (qus : List QueueUnit)
  | addQueueUnit (qu : QueueUnit)
  | updateQueueUnit (oldQu newQu : QueueUnit)
  | deleteQueueUnit (qu : QueueUnit)
  | addOrUpdateQuota (q : ElasticQuota)
  | deleteQuota (q : ElasticQuota)

inductive Action
  | cycle (a : CycleAction)
  | event (e : Event)

variable [ResourceHelpers]

def handleEvent (c : CacheImpl) : Event → Option CacheImpl
  | .load quotas qus => Plugin.loadQuotaAndQueueUnits c ∅ 0 quotas qus
  | .addQueueUnit qu =>
    if isQueueUnitAssigned qu then Plugin.addAssignedJob c (unitInfoOf qu) else some c
  | .updateQueueUnit oldQu newQu =>
    if isQueueUnitAssigned oldQu && isQueueUnitAssigned newQu then
      Plugin.resize c (unitInfoOf oldQu) (unitInfoOf newQu)
    else if isQueueUnitAssigned oldQu && !isQueueUnitAssigned newQu then
      Plugin.remove c (unitInfoOf oldQu)
    else if !isQueueUnitAssigned oldQu && isQueueUnitAssigned newQu then
      Plugin.addAssignedJob c (unitInfoOf newQu)
    else some c
  | .deleteQueueUnit qu => if isQueueUnitAssigned qu then Plugin.remove c (unitInfoOf qu) else some c
  | .addOrUpdateQuota q => some (addOrUpdateQuota c q)
  | .deleteQuota q => some (deleteQuota c q)

def step (overSellRate : ℚ) (w : World) : Action → Option World
  | .cycle a => cycleStep overSellRate w a
  | .event e => (handleEvent w.cache e).map w.setCache

section Marks

variable {c c' : CacheImpl} {q : Info.QuotaName} {u v : QueueUnitInfo} {err : Option String}

theorem scheduling_reserve (h : Cache.reserve c q u = some (c', err)) : c'.scheduling = c.scheduling := by
  rcases reserve_cases h with ⟨rfl, _⟩ | ⟨_, _, _, _, _, rfl⟩
  · rfl
  · rfl

theorem scheduling_unreserve (h : Cache.unreserve c q u = some (c', err)) : c'.scheduling = c.scheduling := by
  rcases unreserve_cases h with ⟨rfl, _⟩ | ⟨rfl, _⟩ | ⟨_, _, _, _, _, rfl⟩
  · rfl
  · rfl
  · rfl

theorem scheduling_resize (h : Cache.resize c u v = some (c', err)) : c'.scheduling = c.scheduling := by
  rcases resize_cases h with ⟨_, h⟩ | ⟨_, _, h⟩ | ⟨_, mid, hold, hnew⟩
  · rcases resizeInPlace_cases h with rfl | ⟨_, _, _, rfl⟩
    · rfl
    · rfl
  · exact scheduling_unreserve h
  · exact (scheduling_reserve hnew).trans (scheduling_unreserve hold)

theorem scheduling_pluginReserve (h : Plugin.reserve c u = some (c', err)) :
    c'.scheduling = insert u.unit.uid c.scheduling := scheduling_reserve h

theorem scheduling_pluginUnreserve (h : Plugin.unreserve c u = some c') : c'.scheduling = c.scheduling := by
  obtain ⟨⟨_, _⟩, hu, rfl⟩ := Option.map_eq_some_iff.mp h
  exact scheduling_unreserve hu

theorem scheduling_addAssignedJob (h : Plugin.addAssignedJob c u = some c') : c'.scheduling = c.scheduling := by
  obtain ⟨⟨_, _⟩, hr, rfl⟩ := Option.map_eq_some_iff.mp h
  exact scheduling_reserve hr

theorem scheduling_dequeueComplete (h : Plugin.dequeueComplete c u = some c') :
    c'.scheduling = c.scheduling.erase u.unit.uid := by
  obtain ⟨⟨mid, _⟩, hr, hc⟩ := Option.bind_eq_some_iff.mp h
  cases hc
  rw [← scheduling_reserve hr]
  rfl

theorem scheduling_pluginResize (h : Plugin.resize c u v = some c') : c'.scheduling = c.scheduling := by
  rw [Plugin.resize] at h
  split at h
  next =>
    cases h
    rfl
  next =>
    obtain ⟨⟨_, _⟩, hr, rfl⟩ := Option.map_eq_some_iff.mp h
    exact scheduling_resize hr

theorem scheduling_loadQueueUnits {infos : InfoCache} {now : Time} {qus : List QueueUnit}
    (h : Plugin.loadQuotaAndQueueUnits.loadQueueUnits infos now c qus = some c') (uid : UID) :
    uid ∈ c'.scheduling ↔ uid ∈ c.scheduling ∨ ∃ qu ∈ qus, qu.status.admissions ≠ [] ∧ qu.uid = uid := by
  induction qus generalizing c with
  | nil =>
    cases h
    simp
  | cons qu qus ih =>
    rw [Plugin.loadQuotaAndQueueUnits.loadQueueUnits] at h
    split at h
    next hnone =>
      rw [ih h]
      simp [hnone]
    next hsome =>
      obtain ⟨⟨mid, _⟩, hr, h⟩ := Option.bind_eq_some_iff.mp h
      rw [ih h, scheduling_pluginReserve hr, newQueueUnitInfo_unit, Finset.mem_insert]
      simp only [List.mem_cons, exists_eq_or_imp, hsome, ne_eq, not_false_eq_true, true_and]
      tauto

omit [ResourceHelpers] in
theorem scheduling_foldl_addOrUpdateQuota (quotas : List ElasticQuota) (c : CacheImpl) :
    (quotas.foldl addOrUpdateQuota c).scheduling = c.scheduling := by
  induction quotas generalizing c with
  | nil => rfl
  | cons q quotas ih => exact ih (addOrUpdateQuota c q)

theorem scheduling_handleEvent {e : Event} (h : handleEvent c e = some c') (uid : UID) :
    uid ∈ c'.scheduling ↔ uid ∈ c.scheduling ∨
      ∃ quotas qus, e = .load quotas qus ∧ ∃ qu ∈ qus, qu.status.admissions ≠ [] ∧ qu.uid = uid := by
  cases e with
  | load quotas qus =>
    rw [scheduling_loadQueueUnits h, scheduling_foldl_addOrUpdateQuota]
    simp
  | addQueueUnit qu =>
    rw [handleEvent] at h
    split at h
    next => simp [scheduling_addAssignedJob h]
    next =>
      cases h
      simp
  | updateQueueUnit oldQu newQu =>
    rw [handleEvent] at h
    split at h
    next => simp [scheduling_pluginResize h]
    next =>
      split at h
      next => simp [show c'.scheduling = c.scheduling from scheduling_pluginUnreserve h]
      next =>
        split at h
        next => simp [scheduling_addAssignedJob h]
        next =>
          cases h
          simp
  | deleteQueueUnit qu =>
    rw [handleEvent] at h
    split at h
    next => simp [show c'.scheduling = c.scheduling from scheduling_pluginUnreserve h]
    next =>
      cases h
      simp
  | addOrUpdateQuota q =>
    cases h
    simp [addOrUpdateQuota]
  | deleteQuota q =>
    cases h
    simp [deleteQuota]

end Marks

end KoordQueue.Scheduler.Events
