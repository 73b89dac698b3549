import KoordQueue.Scheduler.Cycle
import KoordQueue.Quota.CheckUsage
import KoordQueue.Quota.Charge
import KoordQueue.Lib.Run

namespace KoordQueue.Scheduler.QuotaSafety

open Api Resources UnitStatus UnitInfo Quota Info Cache Chain Charge CheckUsage Scheduler.Cycle

/-- The resource is within its limit, if it has one. -/
def WithinMax (info : ElasticQuotaInfo) (k : ResourceName) : Prop :=
  ∀ m, info.max.lookup k = some m → (amount info.used k).toInt ≤ m.toInt

/-- A successful reserve pushes no resource over its limit, on the unit's
quota or on one above it and below the root. -/
def ReserveSafe (w : World) (a : CycleAction) (w' : World) : Prop :=
  ∀ q unit, a = .reserve q → w.cycle q = .filtered unit → w'.cycle q = .reserved unit →
    ∀ x ∈ chain w.cache (getQuotaName unit), x ≠ koordRootQuota →
      ∀ info info', w.cache.quotas.lookup x = some info → w'.cache.quotas.lookup x = some info' →
        ∀ k, WithinMax info k → WithinMax info' k

def walkStart (w : World) : CycleAction → Option QuotaName
  | .reserve q | .laterReserveFails q =>
    match w.cycle q with
    | .idle => none
    | .filtered unit => some (getQuotaName unit)
    | .reserved unit => some (getQuotaName unit)
  | .queueReserveFails _ current => some (getQuotaName current)
  | .dequeueFails _ current => some (getQuotaName current)
  | .dequeueSucceeds _ updated => some (getQuotaName updated)
  | _ => none

/-- The action leaves alone the quotas that another cycle has checked and not
reserved yet, the root apart. -/
def Undisturbed (w : World) (a : CycleAction) : Prop :=
  ∀ p, walkStart w a = some p → ∀ q unit, a ≠ .reserve q → w.cycle q = .filtered unit →
    ∀ x ∈ chain w.cache p, x ∈ chain w.cache (getQuotaName unit) → x = koordRootQuota

variable [ResourceHelpers]

def ChargesSpec (unit : QueueUnit) : Prop :=
  ∀ res, getReservedResource (copiedUnit unit) = some res →
    ∀ k, amount res.resources k = amount (newResource unit.spec.resource).resources k

/-- A reserve charges what was checked, and no sum leaves the integer range. -/
def Exact (w : World) (a : CycleAction) : Prop :=
  ∀ q unit, a = .reserve q → w.cycle q = .filtered unit → ChargesSpec unit ∧
    ∀ x ∈ chain w.cache (getQuotaName unit), ∀ info, w.cache.quotas.lookup x = some info → ∀ k,
      (amount info.used k + amount (newResource unit.spec.resource).resources k).toInt =
        (amount info.used k).toInt + (amount (newResource unit.spec.resource).resources k).toInt

theorem chargesSpec_of_no_admissions {unit : QueueUnit} (h : unit.status.admissions = []) : ChargesSpec unit := by
  intro res hres k
  have hv1 : isV1VersionDequeued (copiedUnit unit) = true := by simp [isV1VersionDequeued, copiedUnit, h]
  simp only [getReservedResource, convertFromStatusAdmissionToResource, hv1, if_true, Option.some.injEq] at hres
  rw [← hres, amount_addResource]
  have hempty : amount (newResource ∅).resources k = 0 := by rw [amount, lookup_newResource]; rfl
  rw [hempty, Int64.zero_add]
  rfl

section Steps

variable {rate : ℚ} {w w' : World} {a : CycleAction}

variable {c c' : CacheImpl} {q : QueueName} {unit : QueueUnit} {u : QueueUnitInfo} {p : QuotaName}

theorem frame_pluginReserve {err : Option String}
    (hp : getQuotaName u.unit = p) (h : Plugin.reserve c u = some (c', err)) : Frame c c' p := by
  subst hp
  have hmark : Frame c (markScheduling c u.unit.uid) (getQuotaName u.unit) := .of_eq _ rfl rfl
  exact hmark.trans (frame_reserve h)

theorem frame_pluginUnreserve (hp : getQuotaName u.unit = p) (h : Plugin.unreserve c u = some c') : Frame c c' p := by
  obtain ⟨⟨_, err⟩, hu, rfl⟩ := Option.map_eq_some_iff.mp h
  exact hp ▸ frame_unreserve hu

theorem frame_dequeueComplete
    (hp : getQuotaName u.unit = p) (h : Plugin.dequeueComplete c u = some c') : Frame c c' p := by
  obtain ⟨⟨mid, err⟩, hr, hc'⟩ := Option.bind_eq_some_iff.mp h
  cases hc'
  exact hp ▸ (frame_reserve hr).trans (.of_eq _ rfl rfl)

theorem step_frame (h : cycleStep rate w a = some w') :
    w'.cache = w.cache ∨ ∃ p, walkStart w a = some p ∧ Frame w.cache w'.cache p := by
  have ht := taken_of_cycleStep h
  cases a with
  | filter q unit =>
    rcases ht with rfl | ⟨_, _, rfl⟩
    · exact Or.inl rfl
    · exact Or.inl rfl
  | reject q =>
    obtain ⟨_, _, rfl⟩ := ht
    exact Or.inl rfl
  | reserve q =>
    obtain ⟨unit, cache, hq, ⟨hr, rfl⟩ | ⟨err, cache', hr, hu, rfl⟩⟩ := ht
    · exact Or.inr ⟨getQuotaName unit, by simp [walkStart, hq], frame_pluginReserve (quota_copiedUnit unit) hr⟩
    · exact Or.inr ⟨getQuotaName unit, by simp [walkStart, hq],
        (frame_pluginReserve (quota_copiedUnit unit) hr).trans
          (frame_pluginUnreserve (quota_copiedUnit unit) hu)⟩
  | laterReserveFails q =>
    obtain ⟨unit, cache, hq, hu, rfl⟩ := ht
    exact Or.inr ⟨getQuotaName unit, by simp [walkStart, hq],
      frame_pluginUnreserve (quota_copiedUnit unit) hu⟩
  | queueReserveFails q current =>
    obtain ⟨_, cache, _, hu, rfl⟩ := ht
    exact Or.inr ⟨_, rfl, frame_pluginUnreserve (quota_unitInfoOf current) hu⟩
  | queueReserve q =>
    obtain ⟨_, _, rfl⟩ := ht
    exact Or.inl rfl
  | dequeueFails unit current =>
    obtain ⟨_, cache, hu, rfl⟩ := ht
    exact Or.inr ⟨_, rfl, frame_pluginUnreserve (quota_unitInfoOf current) hu⟩
  | dequeueSucceeds unit updated =>
    obtain ⟨_, cache, hu, rfl⟩ := ht
    exact Or.inr ⟨_, rfl, frame_dequeueComplete (quota_unitInfoOf updated) hu⟩

omit [ResourceHelpers] in
theorem filtered_of_setCycle {v : World} {q' : QueueName} {stage : Stage}
    (hstage : ∀ u, stage ≠ .filtered u) (h : (v.setCycle q' stage).cycle q = .filtered unit) :
    v.cycle q = .filtered unit ∧ q ≠ q' := by
  rw [setCycle_cycle] at h
  split at h
  next => exact absurd h (hstage unit)
  next hne => exact ⟨h, hne⟩

theorem step_filtered (h : cycleStep rate w a = some w') (hf : w'.cycle q = .filtered unit) :
    (w.cycle q = .filtered unit ∧ a ≠ .reserve q) ∨
      (w'.cache = w.cache ∧ Cache.checkUsage w.cache (getQuotaName unit) (unitInfoOf unit) rate = .ok ()) := by
  have ht := taken_of_cycleStep h
  cases a with
  | filter q' unit' =>
    rcases ht with rfl | ⟨_, hok, rfl⟩
    · exact Or.inl ⟨hf, by simp⟩
    · rw [setCycle_cycle] at hf
      split at hf
      next =>
        cases hf
        exact Or.inr ⟨rfl, hok⟩
      next => exact Or.inl ⟨hf, by simp⟩
  | reject q' =>
    obtain ⟨_, _, rfl⟩ := ht
    exact Or.inl ⟨(filtered_of_setCycle (by simp) hf).1, by simp⟩
  | reserve q' =>
    have hdone : w.cycle q = .filtered unit ∧ q ≠ q' := by
      obtain ⟨_, _, _, ⟨_, rfl⟩ | ⟨_, _, _, _, rfl⟩⟩ := ht
      · exact filtered_of_setCycle (v := w.setCache _) (by simp) hf
      · exact filtered_of_setCycle (v := w.setCache _) (by simp) hf
    exact Or.inl ⟨hdone.1, fun he => hdone.2 (CycleAction.reserve.inj he).symm⟩
  | laterReserveFails q' =>
    obtain ⟨_, _, _, _, rfl⟩ := ht
    exact Or.inl ⟨(filtered_of_setCycle (v := w.setCache _) (by simp) hf).1, by simp⟩
  | queueReserveFails q' current =>
    obtain ⟨_, _, _, _, rfl⟩ := ht
    exact Or.inl ⟨(filtered_of_setCycle (v := w.setCache _) (by simp) hf).1, by simp⟩
  | queueReserve q' =>
    obtain ⟨_, _, rfl⟩ := ht
    exact Or.inl ⟨(filtered_of_setCycle (v := w) (by simp) hf).1, by simp⟩
  | dequeueFails _ _ =>
    obtain ⟨_, _, _, rfl⟩ := ht
    exact Or.inl ⟨hf, by simp⟩
  | dequeueSucceeds _ _ =>
    obtain ⟨_, _, _, rfl⟩ := ht
    exact Or.inl ⟨hf, by simp⟩

def ChecksHold (w : World) : Prop :=
  RootOnTop w.cache ∧ ∀ q unit, w.cycle q = .filtered unit →
    Cache.checkUsage w.cache (getQuotaName unit) (unitInfoOf unit) 1 = .ok ()

theorem checksHold_step (hw : ChecksHold w) (hu : Undisturbed w a) (h : cycleStep 1 w a = some w') : ChecksHold w' := by
  obtain ⟨hroot, hchecks⟩ := hw
  rcases step_frame h with hcache | ⟨p, hp, hframe⟩
  · refine ⟨hcache ▸ hroot, ?_⟩
    intro q unit hf
    rw [hcache]
    rcases step_filtered h hf with ⟨hbefore, _⟩ | ⟨_, hok⟩
    · exact hchecks q unit hbefore
    · exact hok
  · constructor
    · intro y hy
      rw [hframe.parent, parentOf_congr _ hframe.mem] at hy
      exact hroot y hy
    · intro q unit hf
      rcases step_filtered h hf with ⟨hbefore, hne⟩ | ⟨hsame, hok⟩
      · rw [checkUsage_frame hframe (hu p hp q unit hne hbefore)]
        exact hchecks q unit hbefore
      · rw [hsame]
        exact hok

end Steps

end KoordQueue.Scheduler.QuotaSafety
