import KoordQueue.Quota.Ledger
import KoordQueue.Scheduler.Dequeue
import KoordQueue.Scheduler.Events

namespace KoordQueue.Scheduler.Informer

open Api UnitStatus Quota Info Cache Ledger Scheduler.Cycle Events Dequeue

/-- The quota cache and the cycles together with the API server, the informer's
store and the changes that are still on their way to it. Once a cycle has
written the status, its unit waits in `completing` for `DequeueComplete`. -/
structure Cluster where
  world : World
  completing : List QueueUnit
  stored : GoMap UID QueueUnit
  observed : GoMap UID QueueUnit
  pending : List (UID × Option QueueUnit)

/-- A cycle works on the version that its queue holds, which may lag behind the
informer or run ahead of it. The status that it writes is computed from the
version `read`, and goes to the object that now has the unit's name. -/
inductive Action
  | create (v : QueueUnit)
  | modify (v : QueueUnit)
  | remove (uid : UID)
  | deliver
  | cycle (a : CycleAction)
  | write (unit read current : QueueUnit) (cfg : Config) (timeNow : Time) (grants : List FrameworkAdmission)
  | complete (updated : QueueUnit)

def Action.versions : Action → List QueueUnit
  | .create v | .modify v | .cycle (.filter _ v) | .cycle (.queueReserveFails _ v) | .cycle (.dequeueFails _ v) => [v]
  | _ => []

def takeIn (objects : GoMap UID QueueUnit) (uid : UID) : Option QueueUnit → GoMap UID QueueUnit
  | some v => objects.insert uid v
  | none => objects.erase uid

theorem lookup_takeIn (objects : GoMap UID QueueUnit) (uid : UID) (change : Option QueueUnit) (uid' : UID) :
    (takeIn objects uid change).lookup uid' = if uid' = uid then change else objects.lookup uid' := by
  cases change with
  | none => exact GoMap.lookup_erase_eq objects uid uid'
  | some v => exact GoMap.lookup_insert_eq objects uid uid' v

def Cluster.announce (w : Cluster) (uid : UID) (change : Option QueueUnit) : Cluster :=
  { w with stored := takeIn w.stored uid change, pending := w.pending ++ [(uid, change)] }

def notice : Option QueueUnit → Option QueueUnit → Option Event
  | none, none => none
  | none, some v => some (.addQueueUnit v)
  | some o, some v => some (.updateQueueUnit o v)
  | some o, none => some (.deleteQueueUnit o)

def sameUnit (w : World) : CycleAction → Bool
  | .queueReserveFails q current =>
    match w.cycle q with
    | .reserved unit => current.uid = unit.uid
    | _ => false
  | .dequeueFails unit current => current.uid = unit.uid
  | .dequeueSucceeds _ _ => false
  | _ => true

def written (read current : QueueUnit) (cfg : Config) (timeNow : Time) (grants : List FrameworkAdmission) :
    QueueUnit :=
  { current with status := newStatus cfg timeNow read grants }

variable [ResourceHelpers]

def handleChange (c : CacheImpl) (old new : Option QueueUnit) : Option CacheImpl :=
  match notice old new with
  | none => some c
  | some e => handleEvent c e

def step (overSellRate : ℚ) (w : Cluster) : Action → Option Cluster
  | .create v =>
    if v.uid ∉ w.stored ∧ GoMap.all w.stored (fun _ u => u.key ≠ v.key) = true then
      some (w.announce v.uid (some v))
    else none
  | .modify v =>
    if (w.stored.lookup v.uid).any (fun u => u.key = v.key) = true then some (w.announce v.uid (some v)) else none
  | .remove uid => if uid ∈ w.stored then some (w.announce uid none) else none
  | .deliver =>
    match w.pending with
    | [] => none
    | (uid, change) :: rest =>
      (handleChange w.world.cache (w.observed.lookup uid) change).map (fun cache =>
        { w with
          world := w.world.setCache cache
          observed := takeIn w.observed uid change
          pending := rest })
  | .cycle a =>
    if sameUnit w.world a then (cycleStep overSellRate w.world a).map (fun world => { w with world }) else none
  | .write unit read current cfg timeNow grants =>
    if unit ∈ w.world.dequeuing ∧ read.uid = unit.uid ∧ w.stored.lookup current.uid = some current ∧
        current.key = unit.key then
      some { w.announce current.uid (some (written read current cfg timeNow grants)) with
        world := { w.world with dequeuing := w.world.dequeuing.erase unit }
        completing := written read current cfg timeNow grants :: w.completing }
    else none
  | .complete updated =>
    if updated ∈ w.completing then
      (Plugin.dequeueComplete w.world.cache (unitInfoOf updated)).map (fun cache =>
        { w with world := w.world.setCache cache, completing := w.completing.erase updated })
    else none

def Moved (overSellRate : ℚ) (w w' : Cluster) : Action → Prop
  | .create v | .modify v => w' = w.announce v.uid (some v)
  | .remove uid => w' = w.announce uid none
  | .deliver => ∃ uid change rest cache, w.pending = (uid, change) :: rest ∧
      handleChange w.world.cache (w.observed.lookup uid) change = some cache ∧
        w' = { w with
          world := w.world.setCache cache, observed := takeIn w.observed uid change, pending := rest }
  | .cycle a => sameUnit w.world a = true ∧
      ∃ world, cycleStep overSellRate w.world a = some world ∧ w' = { w with world }
  | .write unit read current cfg timeNow grants =>
    unit ∈ w.world.dequeuing ∧ w.stored.lookup current.uid = some current ∧
      w' = { w.announce current.uid (some (written read current cfg timeNow grants)) with
        world := { w.world with dequeuing := w.world.dequeuing.erase unit }
        completing := written read current cfg timeNow grants :: w.completing }
  | .complete updated => updated ∈ w.completing ∧
      ∃ cache, Plugin.dequeueComplete w.world.cache (unitInfoOf updated) = some cache ∧
        w' = { w with world := w.world.setCache cache, completing := w.completing.erase updated }

theorem moved_of_step {overSellRate : ℚ} {w w' : Cluster} {a : Action} (h : step overSellRate w a = some w') :
    Moved overSellRate w w' a := by
  cases a with
  | create v =>
    rw [step, Option.ite_none_right_eq_some] at h
    exact (Option.some.inj h.2).symm
  | modify v =>
    rw [step, Option.ite_none_right_eq_some] at h
    exact (Option.some.inj h.2).symm
  | remove uid =>
    rw [step, Option.ite_none_right_eq_some] at h
    exact (Option.some.inj h.2).symm
  | deliver =>
    rw [step] at h
    split at h
    next => cases h
    next uid change rest hpending =>
      obtain ⟨cache, hcache, hw⟩ := Option.map_eq_some_iff.mp h
      exact ⟨uid, change, rest, cache, hpending, hcache, hw.symm⟩
  | cycle a =>
    rw [step, Option.ite_none_right_eq_some] at h
    obtain ⟨world, hworld, hw⟩ := Option.map_eq_some_iff.mp h.2
    exact ⟨h.1, world, hworld, hw.symm⟩
  | write unit read current cfg timeNow grants =>
    rw [step, Option.ite_none_right_eq_some] at h
    obtain ⟨⟨hunit, _, hstored, _⟩, hw⟩ := h
    exact ⟨hunit, hstored, (Option.some.inj hw).symm⟩
  | complete updated =>
    rw [step, Option.ite_none_right_eq_some] at h
    obtain ⟨cache, hcache, hw⟩ := Option.map_eq_some_iff.mp h.2
    exact ⟨h.1, cache, hcache, hw.symm⟩

def start (quotas : List ElasticQuota) : Cluster where
  world := idleWorld (quotas.foldl addOrUpdateQuota buildCache)
  completing := []
  stored := ∅
  observed := ∅
  pending := []

/-- Every change has been delivered and no cycle is under way. -/
structure Quiet (w : Cluster) : Prop where
  pending : w.pending = []
  cycle : ∀ q, w.world.cycle q = .idle
  dequeuing : w.world.dequeuing = []
  completing : w.completing = []

/-- What a delivery does to the charges, given which of the versions before
and after it are assigned. -/
def bookChange (known marked : Bool) (old new : Option QueueUnit) (book : Book) : Book :=
  match old.filter isQueueUnitAssigned, new.filter isQueueUnitAssigned with
  | none, none => book
  | none, some v => enter known v book
  | some _, some v => if marked then book else rebook v book
  | some o, none => clear o.uid book

section Refinement

variable {quotaOf : UID → QuotaName} {known : Finset QuotaName} {c c' : CacheImpl} {book : Book} {v : QueueUnit}

theorem booked_addAssignedJob (h : Booked quotaOf known c book) (hv : OfQuota quotaOf v)
    (hc : Plugin.addAssignedJob c (unitInfoOf v) = some c') :
    Booked quotaOf known c' (enter (quotaOf v.uid ∈ known) v book) := by
  obtain ⟨⟨mid, err⟩, hr, rfl⟩ := Option.map_eq_some_iff.mp hc
  have hr' : reserve c (quotaOf (unitInfoOf v).unit.uid) (unitInfoOf v) = some (mid, err) := by
    rwa [quota_unitInfoOf, hv, ← unitInfoOf_unit v] at hr
  have hbook := booked_reserve h (by rwa [unitInfoOf_unit]) hr'
  rwa [unitInfoOf_unit] at hbook

theorem booked_pluginReserve {err : Option String} (h : Booked quotaOf known c book) (hv : OfQuota quotaOf v)
    (hc : Plugin.reserve c (unitInfoOf v) = some (c', err)) :
    Booked quotaOf known c' (enter (quotaOf v.uid ∈ known) v book) ∧ (err ≠ none → book v.uid = none) := by
  have hmarked : Booked quotaOf known (markScheduling c (unitInfoOf v).unit.uid) book := h.congr rfl rfl rfl
  have hr : reserve (markScheduling c (unitInfoOf v).unit.uid) (quotaOf (unitInfoOf v).unit.uid) (unitInfoOf v) =
      some (c', err) := by
    rwa [Plugin.reserve, quota_unitInfoOf, hv, ← unitInfoOf_unit v] at hc
  have hbook := booked_reserve hmarked (by rwa [unitInfoOf_unit]) hr
  have hrefused : err ≠ none → book (unitInfoOf v).unit.uid = none := by
    intro herr
    obtain ⟨text, rfl⟩ := Option.ne_none_iff_exists'.mp herr
    exact none_of_reserve_refused hmarked hr
  rw [unitInfoOf_unit] at hbook hrefused
  exact ⟨hbook, hrefused⟩

theorem booked_remove (h : Booked quotaOf known c book) (hv : OfQuota quotaOf v)
    (hc : Plugin.unreserve c (unitInfoOf v) = some c') : Booked quotaOf known c' (clear v.uid book) := by
  obtain ⟨⟨mid, err⟩, hr, rfl⟩ := Option.map_eq_some_iff.mp hc
  have hr' : unreserve c (quotaOf (unitInfoOf v).unit.uid) (unitInfoOf v) = some (mid, err) := by
    rwa [quota_unitInfoOf, hv, ← unitInfoOf_unit v] at hr
  have hbook := booked_unreserve h hr'
  rwa [unitInfoOf_unit] at hbook

theorem booked_resize {o : QueueUnit} (h : Booked quotaOf known c book) (ho : OfQuota quotaOf o) (hv : OfQuota quotaOf v)
    (huid : o.uid = v.uid) (hc : Plugin.resize c (unitInfoOf o) (unitInfoOf v) = some c') :
    Booked quotaOf known c' (if isScheduling c v.uid then book else rebook v book) := by
  have hsame : getQuotaName o = getQuotaName v := by rw [ho, hv, huid]
  rw [Plugin.resize, unitInfoOf_unit] at hc
  split at hc
  next hmarked =>
    cases hc
    rw [if_pos hmarked]
    exact h
  next hmarked =>
    obtain ⟨⟨mid, err⟩, hr, rfl⟩ := Option.map_eq_some_iff.mp hc
    have hr' : resizeInPlace c (quotaOf (unitInfoOf v).unit.uid) (unitInfoOf v) = some (mid, err) := by
      rwa [Cache.resize, quota_unitInfoOf, quota_unitInfoOf, if_neg (not_not.mpr hsame), hv,
        ← unitInfoOf_unit v] at hr
    have hbook := booked_resizeInPlace h (by rwa [unitInfoOf_unit]) hr'
    rw [if_neg hmarked]
    rwa [unitInfoOf_unit] at hbook

theorem booked_dequeueComplete (h : Booked quotaOf known c book) (hv : OfQuota quotaOf v)
    (hc : Plugin.dequeueComplete c (unitInfoOf v) = some c') :
    Booked quotaOf known c' (enter (quotaOf v.uid ∈ known) v book) := by
  obtain ⟨⟨mid, err⟩, hr, hclear⟩ := Option.bind_eq_some_iff.mp hc
  cases hclear
  have hadd : Plugin.addAssignedJob c (unitInfoOf v) = some mid := Option.map_eq_some_iff.mpr ⟨_, hr, rfl⟩
  have hmid := booked_addAssignedJob h hv hadd
  exact hmid.congr rfl rfl rfl

theorem handleChange_eq (c : CacheImpl) (old new : Option QueueUnit) :
    handleChange c old new =
      match old.filter isQueueUnitAssigned, new.filter isQueueUnitAssigned with
      | none, none => some c
      | none, some v => Plugin.addAssignedJob c (unitInfoOf v)
      | some o, some v => Plugin.resize c (unitInfoOf o) (unitInfoOf v)
      | some o, none => Plugin.remove c (unitInfoOf o) := by
  cases old with
  | none =>
    cases new with
    | none => rfl
    | some v =>
      simp only [handleChange, notice, handleEvent, Option.filter_none, Option.filter_some]
      cases isQueueUnitAssigned v <;> rfl
  | some o =>
    cases new with
    | none =>
      simp only [handleChange, notice, handleEvent, Option.filter_none, Option.filter_some]
      cases isQueueUnitAssigned o <;> rfl
    | some v =>
      simp only [handleChange, notice, handleEvent, Option.filter_some]
      cases isQueueUnitAssigned o <;> cases isQueueUnitAssigned v <;> rfl

theorem booked_handleChange {old new : Option QueueUnit} {uid : UID} (h : Booked quotaOf known c book)
    (hold : ∀ o, old = some o → o.uid = uid ∧ OfQuota quotaOf o)
    (hnew : ∀ v, new = some v → v.uid = uid ∧ OfQuota quotaOf v) (hc : handleChange c old new = some c') :
    Booked quotaOf known c' (bookChange (quotaOf uid ∈ known) (isScheduling c uid) old new book) := by
  have hold' : ∀ o, old.filter isQueueUnitAssigned = some o → o.uid = uid ∧ OfQuota quotaOf o :=
    fun o ho => hold o (Option.filter_eq_some_iff.mp ho).1
  have hnew' : ∀ v, new.filter isQueueUnitAssigned = some v → v.uid = uid ∧ OfQuota quotaOf v :=
    fun v hv => hnew v (Option.filter_eq_some_iff.mp hv).1
  rw [handleChange_eq] at hc
  rw [bookChange]
  cases ho : old.filter isQueueUnitAssigned with
  | none =>
    cases hn : new.filter isQueueUnitAssigned with
    | none =>
      rw [ho, hn] at hc
      cases hc
      exact h
    | some v =>
      rw [ho, hn] at hc
      obtain ⟨rfl, hv⟩ := hnew' v hn
      exact booked_addAssignedJob h hv hc
  | some o =>
    obtain ⟨huid, ho'⟩ := hold' o ho
    cases hn : new.filter isQueueUnitAssigned with
    | none =>
      rw [ho, hn] at hc
      exact booked_remove h ho' hc
    | some v =>
      rw [ho, hn] at hc
      obtain ⟨rfl, hv⟩ := hnew' v hn
      exact booked_resize h ho' hv huid hc

end Refinement

end KoordQueue.Scheduler.Informer
