import KoordQueue.Scheduler.Events
import KoordQueue.Lib.Run

namespace KoordQueue.Scheduler.Marks

open Api Quota Info Cache Scheduler.Cycle Events Run

def Open (w : World) (uid : UID) : Prop :=
  (∃ q unit, w.cycle q = .reserved unit ∧ unit.uid = uid) ∨ ∃ unit ∈ w.dequeuing, unit.uid = uid

/-- A cycle for the unit other than the one of `q` is open. -/
def OpenBeside (w : World) (q : QueueName) (uid : UID) : Prop :=
  (∃ q' unit, q' ≠ q ∧ w.cycle q' = .reserved unit ∧ unit.uid = uid) ∨ ∃ unit ∈ w.dequeuing, unit.uid = uid

/-- A cycle for the unit other than one that writes `done` is open. -/
def OpenWithout (w : World) (done : QueueUnit) (uid : UID) : Prop :=
  (∃ q unit, w.cycle q = .reserved unit ∧ unit.uid = uid) ∨ ∃ unit ∈ w.dequeuing.erase done, unit.uid = uid

def ReserveAccepted (c : CacheImpl) (unit : QueueUnit) : Prop :=
  c.reserved.lookup unit.uid = some (getQuotaName unit) ∨
    unit.uid ∉ c.reserved ∧ getQuotaName unit ∈ c.quotas

/-- No cycle ends in failure while its unit is marked, and no admitted unit is
loaded at the start, unless another cycle for the unit is open. -/
def Closes (w : World) : Action → Prop
  | .cycle (.reserve q) => ∀ unit, w.cycle q = .filtered unit → ReserveAccepted w.cache unit ∨ Open w unit.uid
  | .cycle (.laterReserveFails q) | .cycle (.queueReserveFails q _) => ∀ unit, w.cycle q = .reserved unit →
      unit.uid ∈ w.cache.scheduling → OpenBeside w q unit.uid
  | .cycle (.dequeueFails unit _) => unit.uid ∈ w.cache.scheduling → OpenWithout w unit unit.uid
  | .cycle (.dequeueSucceeds unit updated) => unit.uid ∈ w.cache.scheduling → unit.uid ≠ updated.uid →
      OpenWithout w unit unit.uid
  | .event (.load _ qus) => ∀ qu ∈ qus, qu.status.admissions ≠ [] → Open w qu.uid
  | _ => True

theorem reserved_setCycle {w : World} {q : QueueName} {stage : Stage} (hstage : ∀ unit, stage ≠ .reserved unit)
    (uid : UID) : (∃ q' unit, (w.setCycle q stage).cycle q' = .reserved unit ∧ unit.uid = uid) ↔
      ∃ q' unit, q' ≠ q ∧ w.cycle q' = .reserved unit ∧ unit.uid = uid := by
  constructor
  · rintro ⟨q', unit, hq, hu⟩
    rw [setCycle_cycle] at hq
    split at hq
    next => exact absurd hq (hstage unit)
    next hne => exact ⟨q', unit, hne, hq, hu⟩
  · rintro ⟨q', unit, hne, hq, hu⟩
    exact ⟨q', unit, by rw [setCycle_cycle, if_neg hne, hq], hu⟩

variable {cache : CacheImpl} {q : QueueName} {unit : QueueUnit}

theorem open_setCycle {w : World} {stage : Stage} (hstage : ∀ unit, stage ≠ .reserved unit)
    (uid : UID) : Open (w.setCycle q stage) uid ↔ OpenBeside w q uid :=
  or_congr (reserved_setCycle hstage uid) Iff.rfl

theorem open_setCycle_reserved {w : World} (uid : UID) :
    Open (w.setCycle q (.reserved unit)) uid ↔ unit.uid = uid ∨ OpenBeside w q uid := by
  have hcycle : (∃ q' unit', (w.setCycle q (.reserved unit)).cycle q' = .reserved unit' ∧ unit'.uid = uid) ↔
      unit.uid = uid ∨ ∃ q' unit', q' ≠ q ∧ w.cycle q' = .reserved unit' ∧ unit'.uid = uid := by
    simp only [setCycle_cycle]
    constructor
    · rintro ⟨q', unit', hq, hu⟩
      split at hq
      next =>
        cases hq
        exact Or.inl hu
      next hne => exact Or.inr ⟨q', unit', hne, hq, hu⟩
    · rintro (hu | ⟨q', unit', hne, hq, hu⟩)
      · exact ⟨q, unit, if_pos rfl, hu⟩
      · exact ⟨q', unit', by rw [if_neg hne, hq], hu⟩
  rw [Open, hcycle, OpenBeside, or_assoc]
  rfl

theorem open_iff_beside {w : World} {q : QueueName} (uid : UID) :
    Open w uid ↔ (∃ unit, w.cycle q = .reserved unit ∧ unit.uid = uid) ∨ OpenBeside w q uid := by
  constructor
  · rintro (⟨q', unit, hq, hu⟩ | hd)
    · by_cases he : q' = q
      · exact Or.inl ⟨unit, he ▸ hq, hu⟩
      · exact Or.inr (Or.inl ⟨q', unit, he, hq, hu⟩)
    · exact Or.inr (Or.inr hd)
  · rintro (⟨unit, hq, hu⟩ | ⟨q', unit, _, hq, hu⟩ | hd)
    · exact Or.inl ⟨q, unit, hq, hu⟩
    · exact Or.inl ⟨q', unit, hq, hu⟩
    · exact Or.inr hd

theorem open_iff_beside_of {w : World} {q : QueueName} (hq : ∀ unit, w.cycle q ≠ .reserved unit) (uid : UID) :
    Open w uid ↔ OpenBeside w q uid := by
  rw [@open_iff_beside w q uid]
  apply or_iff_right
  rintro ⟨unit, h, _⟩
  exact hq unit h

theorem open_setCycle_same {w : World} {q : QueueName} {stage : Stage} (hq : ∀ unit, w.cycle q ≠ .reserved unit)
    (hstage : ∀ unit, stage ≠ .reserved unit) (uid : UID) : Open (w.setCycle q stage) uid ↔ Open w uid :=
  (open_setCycle hstage uid).trans (open_iff_beside_of hq uid).symm

theorem open_iff_without {w : World} {done : QueueUnit} (hdone : done ∈ w.dequeuing) (uid : UID) :
    Open w uid ↔ done.uid = uid ∨ OpenWithout w done uid := by
  constructor
  · rintro (hc | ⟨unit, hm, hu⟩)
    · exact Or.inr (Or.inl hc)
    · by_cases he : unit = done
      · exact Or.inl (he ▸ hu)
      · exact Or.inr (Or.inr ⟨unit, (List.mem_erase_of_ne he).mpr hm, hu⟩)
  · rintro (hu | hc | ⟨unit, hm, hu⟩)
    · exact Or.inr ⟨done, hdone, hu⟩
    · exact Or.inl hc
    · exact Or.inr ⟨unit, List.mem_of_mem_erase hm, hu⟩

theorem open_queueReserve {w : World} (hq : w.cycle q = .reserved unit) (uid : UID) :
    Open { w.setCycle q .idle with dequeuing := unit :: w.dequeuing } uid ↔ Open w uid := by
  have hidle := @reserved_setCycle w q .idle (by simp) uid
  rw [@open_iff_beside w q uid, hq, OpenBeside, Open, hidle]
  simp only [List.mem_cons, exists_eq_or_imp, Stage.reserved.injEq, exists_eq_left']
  exact or_left_comm

theorem marked_close {sched sched' : Finset UID} {opened opened' : UID → Prop} {u : UID} (cleared : UID → Prop)
    (hsched : ∀ uid, uid ∈ sched' ↔ uid ∈ sched ∧ ¬ cleared uid)
    (hopen : ∀ uid, opened uid ↔ u = uid ∨ opened' uid) (h : ∀ uid ∈ sched, opened uid) :
    (∀ uid ∈ sched', opened' uid) ↔ (u ∈ sched → ¬ cleared u → opened' u) := by
  constructor
  · intro hall hm hc
    exact hall u ((hsched u).mpr ⟨hm, hc⟩)
  · intro hu uid hm
    obtain ⟨hm, hc⟩ := (hsched uid).mp hm
    rcases (hopen uid).mp (h uid hm) with rfl | ho
    · exact hu hm hc
    · exact ho

variable [ResourceHelpers]

/-- Outside the cycles for a unit it is not marked, and its resizes are not skipped. -/
def Disciplined (w : World) : Prop :=
  ∀ uid, ¬ Open w uid → isScheduling w.cache uid = false ∧
    ∀ old new, new.unit.uid = uid →
      Plugin.resize w.cache old new = (Cache.resize w.cache old new).map Prod.fst

theorem disciplined_iff (w : World) : Disciplined w ↔ ∀ uid ∈ w.cache.scheduling, Open w uid := by
  constructor
  · intro h uid hm
    by_contra hopen
    have := (h uid hopen).1
    simp [isScheduling, hm] at this
  · intro h uid hopen
    have hfree : isScheduling w.cache uid = false := by
      rw [isScheduling, decide_eq_false_iff_not]
      exact fun hm => hopen (h uid hm)
    refine ⟨hfree, ?_⟩
    rintro old new rfl
    rw [Plugin.resize, hfree]
    rfl

variable {rate : ℚ} {w w' : World}

theorem reserve_accepted_iff {err : Option String}
    (h : Plugin.reserve w.cache (unitInfoOf (copiedUnit unit)) = some (cache, err)) :
    err = none ↔ ReserveAccepted w.cache unit := by
  have huid : (unitInfoOf (copiedUnit unit)).unit.uid = unit.uid := by rw [unitInfoOf_unit]; rfl
  have hreserved : (markScheduling w.cache unit.uid).reserved = w.cache.reserved := rfl
  rw [Plugin.reserve, quota_copiedUnit, Cache.reserve, huid, hreserved] at h
  cases hr : w.cache.reserved.lookup unit.uid with
  | some quota =>
    have hmem : unit.uid ∈ w.cache.reserved := Finmap.mem_iff.mpr ⟨quota, hr⟩
    simp only [hr] at h
    split at h
    next he =>
      cases h
      simp [ReserveAccepted, hr, he]
    next hne =>
      cases h
      simp [ReserveAccepted, hr, hne, hmem]
  | none =>
    have hmem : unit.uid ∉ w.cache.reserved := Finmap.lookup_eq_none.mp hr
    simp only [hr] at h
    split at h
    next hq =>
      obtain ⟨quotas, _, h⟩ := Option.bind_eq_some_iff.mp h
      cases h
      have hq' : getQuotaName unit ∈ w.cache.quotas := hq
      simp [ReserveAccepted, hr, hmem, hq']
    next hq =>
      cases h
      have hq' : getQuotaName unit ∉ w.cache.quotas := hq
      simp [ReserveAccepted, hr, hq']

omit [ResourceHelpers] in
theorem fail_exact (hw : ∀ uid ∈ w.cache.scheduling, Open w uid)
    (hq : w.cycle q = .reserved unit) (hsched : cache.scheduling = w.cache.scheduling) :
    (∀ uid ∈ cache.scheduling, Open ((w.setCache cache).setCycle q .idle) uid) ↔
      ∀ unit', w.cycle q = .reserved unit' → unit'.uid ∈ w.cache.scheduling → OpenBeside w q unit'.uid := by
  have hopen : ∀ uid, Open w uid ↔ unit.uid = uid ∨ OpenBeside w q uid := by
    intro uid
    rw [@open_iff_beside w q uid, hq]
    simp
  have hkept : ∀ uid, uid ∈ cache.scheduling ↔ uid ∈ w.cache.scheduling ∧ ¬ False := by simp [hsched]
  have hclose := marked_close (fun _ => False) hkept hopen hw
  have hidle : ∀ uid, Open ((w.setCache cache).setCycle q .idle) uid ↔ OpenBeside w q uid :=
    open_setCycle (by simp)
  simp only [hidle, hclose, hq, Stage.reserved.injEq, forall_eq', not_false_eq_true, true_implies]

theorem reserve_exact (hw : ∀ uid ∈ w.cache.scheduling, Open w uid) (h : cycleStep rate w (.reserve q) = some w') :
    (∀ uid ∈ w'.cache.scheduling, Open w' uid) ↔
      ∀ unit, w.cycle q = .filtered unit → ReserveAccepted w.cache unit ∨ Open w unit.uid := by
  obtain ⟨unit, cache, hq, hcase⟩ := taken_of_cycleStep h
  have huid : (unitInfoOf (copiedUnit unit)).unit.uid = unit.uid := by rw [unitInfoOf_unit]; rfl
  have hfree : ∀ unit', w.cycle q ≠ .reserved unit' := by simp [hq]
  simp only [hq, Stage.filtered.injEq, forall_eq']
  rcases hcase with ⟨hr, rfl⟩ | ⟨err, cache', hr, hu, rfl⟩
  · refine iff_of_true ?_ (Or.inl ((reserve_accepted_iff hr).mp rfl))
    intro uid hm
    change uid ∈ cache.scheduling at hm
    rw [scheduling_pluginReserve hr, huid, Finset.mem_insert] at hm
    refine (open_setCycle_reserved uid).mpr (hm.imp Eq.symm fun hm => ?_)
    exact (open_iff_beside_of hfree uid).mp (hw uid hm)
  · have hrefused : ¬ ReserveAccepted w.cache unit := by
      rw [← reserve_accepted_iff hr]
      simp
    have hidle : ∀ uid, Open ((w.setCache cache').setCycle q .idle) uid ↔ Open w uid :=
      @open_setCycle_same (w.setCache cache') q .idle hfree (by simp)
    have hsched : ((w.setCache cache').setCycle q .idle).cache.scheduling = insert unit.uid w.cache.scheduling := by
      change cache'.scheduling = _
      rw [scheduling_pluginUnreserve hu, scheduling_pluginReserve hr, huid]
    simp only [hidle, hsched, hrefused, false_or, Finset.mem_insert, forall_eq_or_imp, and_iff_left_iff_imp]
    exact fun _ => hw

theorem cycle_exact {a : CycleAction} (hw : ∀ uid ∈ w.cache.scheduling, Open w uid)
    (h : cycleStep rate w a = some w') : (∀ uid ∈ w'.cache.scheduling, Open w' uid) ↔ Closes w (.cycle a) := by
  have ht := taken_of_cycleStep h
  cases a with
  | filter q unit =>
    refine iff_of_true ?_ trivial
    rcases ht with rfl | ⟨hidle, _, rfl⟩
    · exact hw
    · exact fun uid hm => (open_setCycle_same (by simp [hidle]) (by simp) uid).mpr (hw uid hm)
  | reject q =>
    refine iff_of_true ?_ trivial
    obtain ⟨unit, hq, rfl⟩ := ht
    exact fun uid hm => (open_setCycle_same (by simp [hq]) (by simp) uid).mpr (hw uid hm)
  | reserve q => exact reserve_exact hw h
  | laterReserveFails q =>
    obtain ⟨unit, cache, hq, hu, rfl⟩ := ht
    exact fail_exact hw hq (scheduling_pluginUnreserve hu)
  | queueReserveFails q current =>
    obtain ⟨unit, cache, hq, hu, rfl⟩ := ht
    exact fail_exact hw hq (scheduling_pluginUnreserve hu)
  | queueReserve q =>
    refine iff_of_true ?_ trivial
    obtain ⟨unit, hq, rfl⟩ := ht
    exact fun uid hm => (open_queueReserve hq uid).mpr (hw uid hm)
  | dequeueFails unit current =>
    obtain ⟨hmem, cache, hu, rfl⟩ := ht
    have hkept : ∀ uid, uid ∈ cache.scheduling ↔ uid ∈ w.cache.scheduling ∧ ¬ False := by
      simp [scheduling_pluginUnreserve hu]
    have hclose := marked_close (fun _ => False) hkept (open_iff_without hmem) hw
    simp only [not_false_eq_true, true_implies] at hclose
    exact hclose
  | dequeueSucceeds unit updated =>
    obtain ⟨hmem, cache, hd, rfl⟩ := ht
    have hsched : ∀ uid, uid ∈ cache.scheduling ↔ uid ∈ w.cache.scheduling ∧ ¬ uid = updated.uid := by
      intro uid
      rw [scheduling_dequeueComplete hd, unitInfoOf_unit, Finset.mem_erase]
      tauto
    exact marked_close (fun uid => uid = updated.uid) hsched (open_iff_without hmem) hw

theorem event_exact {e : Event} (hw : ∀ uid ∈ w.cache.scheduling, Open w uid)
    (hc : handleEvent w.cache e = some cache) : (∀ uid ∈ cache.scheduling, Open w uid) ↔ Closes w (.event e) := by
  simp only [scheduling_handleEvent hc]
  cases e with
  | load quotas qus =>
    simp only [Closes, Event.load.injEq]
    constructor
    · intro hall qu hm hne
      exact hall qu.uid (Or.inr ⟨quotas, qus, ⟨rfl, rfl⟩, qu, hm, hne, rfl⟩)
    · rintro hall uid (hm | ⟨_, _, ⟨rfl, rfl⟩, qu, hm, hne, rfl⟩)
      · exact hw uid hm
      · exact hall qu hm hne
  | _ =>
    refine iff_of_true ?_ trivial
    rintro uid (hm | ⟨_, _, he, _⟩)
    · exact hw uid hm
    · cases he

theorem step_exact {a : Action} (hw : ∀ uid ∈ w.cache.scheduling, Open w uid) (h : step rate w a = some w') :
    (∀ uid ∈ w'.cache.scheduling, Open w' uid) ↔ Closes w a := by
  cases a with
  | cycle a => exact cycle_exact hw h
  | event e =>
    obtain ⟨cache, hc, rfl⟩ := Option.map_eq_some_iff.mp h
    exact event_exact hw hc

/-- Along a run the marks stay within the cycles of their units exactly when
every step closes properly. -/
theorem disciplined_iff_guarded {w₀ : World} (hfree : w₀.cache.scheduling = ∅) (as : List Action) :
    (∀ run w, run <+: as → exec (step rate) w₀ run = some w → Disciplined w) ↔
      Guarded (step rate) Closes w₀ as := by
  simp only [disciplined_iff]
  exact always_iff_guarded (fun _ _ _ hw h => step_exact hw h) (by simp [hfree]) as

omit [ResourceHelpers]

/-- The actions of a cycle that succeeds, from the load on. -/
def succeeds (w : World) : Action → Bool
  | .event (.load _ qus) => qus.all (fun qu => qu.status.admissions = [])
  | .cycle (.filter _ _) | .cycle (.queueReserve _) => true
  | .cycle (.reserve q) =>
    match w.cycle q with
    | .filtered unit => decide (unit.uid ∉ w.cache.reserved ∧ getQuotaName unit ∈ w.cache.quotas)
    | _ => true
  | .cycle (.dequeueSucceeds unit updated) => decide (unit.uid = updated.uid)
  | _ => false

theorem closes_of_succeeds (w : World) (a : Action) (h : succeeds w a = true) : Closes w a := by
  unfold succeeds at h
  split at h
  next => exact fun qu hqu hne => absurd (by simpa using List.all_eq_true.mp h qu hqu) hne
  next => trivial
  next => trivial
  next q =>
    intro unit hq
    rw [hq] at h
    exact .inl (.inr (of_decide_eq_true h))
  next => exact fun _ hne => absurd (of_decide_eq_true h) hne
  next => cases h

def successfulCycle : List Action :=
  [.event (.load [cpuQuota "a" koordRootQuota 10] [cpuUnit "u" "a" 6 .enqueued]),
    .cycle (.filter "qa" (cpuUnit "u" "a" 6 .enqueued)), .cycle (.reserve "qa"), .cycle (.queueReserve "qa"),
    .cycle (.dequeueSucceeds (cpuUnit "u" "a" 6 .enqueued) (cpuUnit "u" "a" 6 .dequeued))]

/-- The mark is set by the reserve and gone when the dequeue is written. -/
theorem disciplined_successfulCycle :
    ∃ w w', exec (@step noPods 1) (idleWorld buildCache) (successfulCycle.take 4) = some w ∧
      "u" ∈ w.cache.scheduling ∧ @Disciplined noPods w ∧
      exec (@step noPods 1) (idleWorld buildCache) successfulCycle = some w' ∧
      "u" ∉ w'.cache.scheduling ∧ @Disciplined noPods w' := by
  have hguard : Guarded (@step noPods 1) (fun w a => succeeds w a = true) (idleWorld buildCache) successfulCycle := by
    decide +kernel
  have hall := (@disciplined_iff_guarded noPods 1 (idleWorld buildCache) rfl successfulCycle).mpr
    (hguard.mono closes_of_succeeds)
  have hset : (exec (@step noPods 1) (idleWorld buildCache) (successfulCycle.take 4)).any
      (fun w => "u" ∈ w.cache.scheduling) = true := by decide +kernel
  have hgone : (exec (@step noPods 1) (idleWorld buildCache) successfulCycle).any
      (fun w => "u" ∉ w.cache.scheduling) = true := by decide +kernel
  obtain ⟨w, hw, hmark⟩ := (Option.any_eq_true _ _).mp hset
  obtain ⟨w', hw', hnone⟩ := (Option.any_eq_true _ _).mp hgone
  exact ⟨w, w', hw, of_decide_eq_true hmark, hall _ w (List.take_prefix 4 _) hw, hw', of_decide_eq_true hnone,
    hall _ w' List.prefix_rfl hw'⟩

/-- A start with an admitted unit in the cluster marks it outside any cycle. -/
theorem load_not_disciplined :
    ∃ w, exec (@step noPods 1) (idleWorld buildCache)
        [.event (.load [cpuQuota "a" koordRootQuota 10] [partialUnit])] = some w ∧ ¬ @Disciplined noPods w := by
  have hload : (@handleEvent noPods buildCache (.load [cpuQuota "a" koordRootQuota 10] [partialUnit])).any
      (fun c => "u" ∈ c.scheduling) = true := by decide
  obtain ⟨c, hc, hmark⟩ := (Option.any_eq_true _ _).mp hload
  refine ⟨(idleWorld buildCache).setCache c, (exec_cons _ _ _ _ _).mpr ⟨_, ?_, rfl⟩, ?_⟩
  · exact Option.map_eq_some_iff.mpr ⟨c, hc, rfl⟩
  · rw [@disciplined_iff noPods]
    intro h
    rcases h "u" (of_decide_eq_true hmark) with ⟨_, _, hq, _⟩ | ⟨_, hm, _⟩
    · cases hq
    · cases hm

end KoordQueue.Scheduler.Marks
