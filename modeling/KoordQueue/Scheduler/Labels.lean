import KoordQueue.Scheduler.Informer

namespace KoordQueue.Scheduler.Labels

open Api Quota Info Cache Ledger Scheduler.Cycle Informer

/-- The units of an action carry the labels of their quotas. -/
def Labelled (quotaOf : UID → QuotaName) (a : Action) : Prop := ∀ v ∈ a.versions, OfQuota quotaOf v

structure WellLabelled (quotaOf : UID → QuotaName) (w : Cluster) : Prop where
  stage : ∀ q unit, w.world.cycle q = .filtered unit ∨ w.world.cycle q = .reserved unit → OfQuota quotaOf unit
  completing : ∀ u ∈ w.completing, OfQuota quotaOf u
  stored : ∀ uid v, w.stored.lookup uid = some v → v.uid = uid ∧ OfQuota quotaOf v
  observed : ∀ uid v, w.observed.lookup uid = some v → v.uid = uid ∧ OfQuota quotaOf v
  pending : ∀ uid v, (uid, some v) ∈ w.pending → v.uid = uid ∧ OfQuota quotaOf v

section Labels

variable {quotaOf : UID → QuotaName} {w : Cluster}

theorem WellLabelled.announce (h : WellLabelled quotaOf w) {uid : UID} {change : Option QueueUnit}
    (hc : ∀ v, change = some v → v.uid = uid ∧ OfQuota quotaOf v) : WellLabelled quotaOf (w.announce uid change) where
  stage := h.stage
  completing := h.completing
  stored := by
    intro uid' v hv
    rw [Cluster.announce, lookup_takeIn] at hv
    split at hv
    next he => exact he ▸ hc v hv
    next => exact h.stored uid' v hv
  observed := h.observed
  pending := by
    intro uid' v hv
    rcases List.mem_append.mp hv with hv | hv
    · exact h.pending uid' v hv
    · rw [List.mem_singleton, Prod.mk.injEq] at hv
      exact hv.1 ▸ hc v hv.2.symm

theorem stage_setCycle (h : WellLabelled quotaOf w) {world : World} {q : QueueName} {stage : Stage}
    (hcycle : world.cycle = (w.world.setCycle q stage).cycle)
    (hs : ∀ unit, stage = .filtered unit ∨ stage = .reserved unit → OfQuota quotaOf unit) :
    ∀ q' unit, world.cycle q' = .filtered unit ∨ world.cycle q' = .reserved unit → OfQuota quotaOf unit := by
  intro q' unit hunit
  rw [hcycle, setCycle_cycle] at hunit
  split at hunit
  next => exact hs unit hunit
  next => exact h.stage q' unit hunit

theorem wellLabelled_deliver (h : WellLabelled quotaOf w) {uid : UID} {change : Option QueueUnit}
    {rest : List (UID × Option QueueUnit)} (hpending : w.pending = (uid, change) :: rest) (cache : CacheImpl) :
    WellLabelled quotaOf { w with
      world := w.world.setCache cache, observed := takeIn w.observed uid change, pending := rest } where
  stage := h.stage
  completing := h.completing
  stored := h.stored
  observed := by
    intro uid' v hv
    dsimp only at hv
    rw [lookup_takeIn] at hv
    split at hv
    next he =>
      subst change
      exact he ▸ h.pending uid v (hpending ▸ List.mem_cons_self)
    next => exact h.observed uid' v hv
  pending := by
    intro uid' v hv
    exact h.pending uid' v (hpending ▸ List.mem_cons_of_mem _ hv)

variable [ResourceHelpers] {rate : ℚ} {w' : Cluster}

theorem stage_cycleStep (h : WellLabelled quotaOf w) {a : CycleAction} {world : World}
    (ha : Labelled quotaOf (.cycle a)) (hstep : cycleStep rate w.world a = some world) :
    ∀ q unit, world.cycle q = .filtered unit ∨ world.cycle q = .reserved unit → OfQuota quotaOf unit := by
  have hidle : ∀ unit, Stage.idle = .filtered unit ∨ Stage.idle = .reserved unit → OfQuota quotaOf unit := by simp
  have ht := taken_of_cycleStep hstep
  cases a with
  | filter q unit =>
    rcases ht with rfl | ⟨_, _, rfl⟩
    · exact h.stage
    · apply stage_setCycle h rfl
      rintro unit' (he | he)
      · cases he
        exact ha unit List.mem_cons_self
      · cases he
  | reject q =>
    obtain ⟨unit, _, rfl⟩ := ht
    exact stage_setCycle h rfl hidle
  | reserve q =>
    obtain ⟨unit, cache, hq, ⟨_, rfl⟩ | ⟨_, _, _, _, rfl⟩⟩ := ht
    · apply stage_setCycle h rfl
      rintro unit' (he | he)
      · cases he
      · cases he
        exact h.stage q unit (Or.inl hq)
    · exact stage_setCycle h rfl hidle
  | laterReserveFails q =>
    obtain ⟨unit, cache, _, _, rfl⟩ := ht
    exact stage_setCycle h rfl hidle
  | queueReserveFails q current =>
    obtain ⟨unit, cache, _, _, rfl⟩ := ht
    exact stage_setCycle h rfl hidle
  | queueReserve q =>
    obtain ⟨unit, _, rfl⟩ := ht
    exact stage_setCycle h rfl hidle
  | dequeueFails unit current =>
    obtain ⟨_, cache, _, rfl⟩ := ht
    exact h.stage
  | dequeueSucceeds unit updated =>
    obtain ⟨_, cache, _, rfl⟩ := ht
    exact h.stage

theorem wellLabelled_step (h : WellLabelled quotaOf w) {a : Action} (ha : Labelled quotaOf a)
    (hstep : step rate w a = some w') : WellLabelled quotaOf w' := by
  have hmoved := moved_of_step hstep
  cases a with
  | create v =>
    cases hmoved
    exact h.announce (fun v' he => Option.some.inj he ▸ ⟨rfl, ha v List.mem_cons_self⟩)
  | modify v =>
    cases hmoved
    exact h.announce (fun v' he => Option.some.inj he ▸ ⟨rfl, ha v List.mem_cons_self⟩)
  | remove uid =>
    cases hmoved
    exact h.announce (fun v' he => absurd he (by simp))
  | deliver =>
    obtain ⟨uid, change, rest, cache, hpending, _, rfl⟩ := hmoved
    exact wellLabelled_deliver h hpending cache
  | cycle a =>
    obtain ⟨_, world, hworld, rfl⟩ := hmoved
    exact ⟨stage_cycleStep h ha hworld, h.completing, h.stored, h.observed, h.pending⟩
  | write unit read current cfg timeNow grants =>
    obtain ⟨_, hstored, rfl⟩ := hmoved
    have hcurrent : OfQuota quotaOf (written read current cfg timeNow grants) :=
      (h.stored current.uid current hstored).2
    have hann := @WellLabelled.announce quotaOf w h current.uid (some (written read current cfg timeNow grants))
      (fun v he => Option.some.inj he ▸ ⟨rfl, hcurrent⟩)
    exact ⟨hann.stage, List.forall_mem_cons.mpr ⟨hcurrent, h.completing⟩, hann.stored, hann.observed,
      hann.pending⟩
  | complete updated =>
    obtain ⟨_, cache, _, rfl⟩ := hmoved
    exact ⟨h.stage, fun u hu => h.completing u (List.mem_of_mem_erase hu), h.stored, h.observed, h.pending⟩

end Labels

end KoordQueue.Scheduler.Labels
