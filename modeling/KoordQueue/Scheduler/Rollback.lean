import KoordQueue.Scheduler.Cycle
import KoordQueue.Quota.Holding

namespace KoordQueue.Scheduler.Rollback

open Api Resources UnitStatus UnitInfo Quota Info Cache Chain Charge Holding Scheduler.Cycle

/-- The same reservations, the same quotas, and the same reading of each counter. -/
def Neutral (c c' : CacheImpl) : Prop :=
  c'.reserved = c.reserved ∧ (∀ x, x ∈ c'.quotas ↔ x ∈ c.quotas) ∧
    ∀ x info info', c.quotas.lookup x = some info → c'.quotas.lookup x = some info' →
      ∀ i k, amount (counter info' i) k = amount (counter info i) k

theorem neutral_of_same {c d : CacheImpl} (hrec : d.reserved = c.reserved) (hquotas : d.quotas = c.quotas) :
    Neutral c d := by
  refine ⟨hrec, fun x => by rw [hquotas], ?_⟩
  intro x info info' hx hx' i k
  rw [hquotas, hx, Option.some.injEq] at hx'
  rw [hx']

inductive Failure
  | laterReservePlugin
  | queueReserve
  | dequeueWrite
deriving DecidableEq

section Cycle

variable [ResourceHelpers]

/-- What a failing cycle does to the quota cache: an error of the quota plugin
itself and one of a later plugin release the copy, the other failures release
the unit that the queue handed out. -/
def failedCycle (c : CacheImpl) (infos : InfoCache) (now : Time) (unitInfo : QueueUnitInfo)
    (failure : Failure) : Option CacheImpl :=
  let copiedUnitInfo := newQueueUnitInfo infos now (copiedUnit unitInfo.unit)
  match Plugin.reserve c copiedUnitInfo with
  | none => none
  | some (c, some _) => Plugin.unreserve c copiedUnitInfo
  | some (c, none) =>
    match failure with
    | .laterReservePlugin => Plugin.unreserve c copiedUnitInfo
    | .queueReserve => Plugin.unreserve c unitInfo
    | .dequeueWrite => Plugin.unreserve c unitInfo

/-- What the quota `x` will give back for the unit on top of the cycle's own charge. -/
def Leftover (c : CacheImpl) (uid : UID) (x : QuotaName) : Prop :=
  ∃ info old res k, c.quotas.lookup x = some info ∧ info.reserved.units.lookup uid = some old ∧
    getReservedResource old.unit = some res ∧ amount res.resources k ≠ 0

section Walks

variable {c c₁ : CacheImpl} {q x : QuotaName} {u v : QueueUnitInfo} {info : ElasticQuotaInfo}
  {quotas₁ quotas₂ : GoMap QuotaName ElasticQuotaInfo}

theorem visits_of_lookup (hq : q ∈ c.quotas) (hadd : visitFrom (fun q => addQueueUnit q u) c q = some quotas₁)
    (hquotas : c₁.quotas = quotas₁) (hparent : c₁.quotaParent = c.quotaParent)
    (hdel : visitFrom (fun q => deleteQueueUnit q v) c₁ q = some quotas₂) (hx : c.quotas.lookup x = some info) :
    ∃ info₁ info₂, quotas₂.lookup x = some info₂ ∧
      if x ∈ chain c q then addQueueUnit x u info = some info₁ ∧ deleteQueueUnit x v info₁ = some info₂
      else info₂ = info := by
  have hmem : ∀ y, y ∈ c₁.quotas ↔ y ∈ c.quotas := by
    rw [hquotas]
    exact mem_visitQuotas c.quotaParent _ hadd
  obtain ⟨info₁, hx₁, h₁⟩ := visitFrom_some_of_lookup hq hadd hx
  rw [← hquotas] at hx₁
  obtain ⟨info₂, hx₂, h₂⟩ := visitFrom_some_of_lookup ((hmem q).mpr hq) hdel hx₁
  simp only [chain_congr hparent hmem] at h₂
  refine ⟨info₁, info₂, hx₂, ?_⟩
  split at h₁
  next hc =>
    rw [if_pos hc] at h₂ ⊢
    exact ⟨h₁, h₂⟩
  next hc =>
    rw [if_neg hc] at h₂ ⊢
    rw [h₂, h₁]

/-- After a walk that adds a unit and one that deletes it, a quota reads as
before exactly when it did not hold a charge of the unit already. -/
theorem amounts_restored_iff (hq : q ∈ c.quotas) (huid : v.unit.uid = u.unit.uid)
    (hadd : visitFrom (fun q => addQueueUnit q u) c q = some quotas₁)
    (hquotas : c₁.quotas = quotas₁) (hparent : c₁.quotaParent = c.quotaParent)
    (hdel : visitFrom (fun q => deleteQueueUnit q v) c₁ q = some quotas₂) (hx : c.quotas.lookup x = some info) :
    ∃ info₂, quotas₂.lookup x = some info₂ ∧
      ((∀ i k, amount (counter info₂ i) k = amount (counter info i) k) ↔
        ¬ (x ∈ chain c q ∧ Leftover c u.unit.uid x)) := by
  obtain ⟨info₁, info₂, hx₂, h⟩ := visits_of_lookup hq hadd hquotas hparent hdel hx
  refine ⟨info₂, hx₂, ?_⟩
  split at h
  next hc =>
    obtain ⟨h₁, h₂⟩ := h
    by_cases hu : u.unit.uid ∈ info.reserved.units
    · obtain ⟨old, hold⟩ := Finmap.mem_iff.mp hu
      rw [addQueueUnit_held hu, Option.some.injEq] at h₁
      subst info₁
      have hold' : info.reserved.units.lookup v.unit.uid = some old := by rw [huid, hold]
      obtain ⟨res, hres, _⟩ := deleteQueueUnit_held hold' h₂
      have hleft : Leftover c u.unit.uid x ↔ ∃ k, amount res.resources k ≠ 0 := by
        simp only [Leftover, hx, Option.some.injEq, exists_and_left, exists_eq_left', hold, hres]
      simp only [hc, true_and, hleft, not_exists, not_not, amount_deleteQueueUnit hold' hres h₂]
      constructor
      · intro hall k
        have hused : share .used x old.unit res k = amount res.resources k := if_pos rfl
        have hk := hall .used k
        rw [hused] at hk
        grind
      · intro hall i k
        have hshare : share i x old.unit res k = 0 := by
          rw [share, hall k]
          split <;> rfl
        rw [hshare, Int64.sub_zero]
    · have hleft : ¬ Leftover c u.unit.uid x := by
        rintro ⟨info', old, _, _, hx', hold, _⟩
        rw [hx, Option.some.injEq] at hx'
        subst info'
        exact hu (Finmap.mem_iff.mpr ⟨old, hold⟩)
      simp only [hleft, and_false, not_false_eq_true, iff_true]
      exact amount_add_delete huid hu h₁ h₂
  next hc =>
    subst info₂
    simp [hc]

end Walks

variable {c c' : CacheImpl} {infos : InfoCache} {now : Time} {unitInfo : QueueUnitInfo} {failure : Failure}

theorem failedCycle_cases (h : failedCycle c infos now unitInfo failure = some c') :
    ∃ u v c₁ err err', u.unit.uid = unitInfo.unit.uid ∧ v.unit.uid = unitInfo.unit.uid ∧
      Cache.reserve (markScheduling c unitInfo.unit.uid) (getQuotaName unitInfo.unit) u = some (c₁, err) ∧
      Cache.unreserve c₁ (getQuotaName unitInfo.unit) v = some (c', err') := by
  have hcopy : (newQueueUnitInfo infos now (copiedUnit unitInfo.unit)).unit = copiedUnit unitInfo.unit :=
    newQueueUnitInfo_unit infos now _
  have hrelease : ∀ c₁ v, v.unit.uid = unitInfo.unit.uid → getQuotaName v.unit = getQuotaName unitInfo.unit →
      Plugin.unreserve c₁ v = some c' → ∃ err',
        Cache.unreserve c₁ (getQuotaName unitInfo.unit) v = some (c', err') := by
    intro c₁ v _ hlabel hv
    rw [Plugin.unreserve, hlabel] at hv
    obtain ⟨⟨_, err'⟩, hu, rfl⟩ := Option.map_eq_some_iff.mp hv
    exact ⟨err', hu⟩
  have huid : (newQueueUnitInfo infos now (copiedUnit unitInfo.unit)).unit.uid = unitInfo.unit.uid := by
    rw [hcopy, copiedUnit]
  have hlabel : getQuotaName (newQueueUnitInfo infos now (copiedUnit unitInfo.unit)).unit =
      getQuotaName unitInfo.unit := by
    rw [hcopy, copiedUnit, getQuotaName, getQuotaName]
  simp only [failedCycle, Plugin.reserve, huid, hlabel] at h
  split at h
  next => cases h
  next c₁ err hr =>
    obtain ⟨err', hu⟩ := hrelease c₁ _ huid hlabel h
    exact ⟨_, _, c₁, _, err', huid, huid, hr, hu⟩
  next c₁ hr =>
    cases failure with
    | laterReservePlugin =>
      obtain ⟨err', hu⟩ := hrelease c₁ _ huid hlabel h
      exact ⟨_, _, c₁, _, err', huid, huid, hr, hu⟩
    | queueReserve =>
      obtain ⟨err', hu⟩ := hrelease c₁ unitInfo rfl rfl h
      exact ⟨_, _, c₁, _, err', huid, rfl, hr, hu⟩
    | dequeueWrite =>
      obtain ⟨err', hu⟩ := hrelease c₁ unitInfo rfl rfl h
      exact ⟨_, _, c₁, _, err', huid, rfl, hr, hu⟩

theorem neutral_refused_iff {d : CacheImpl} {q : QuotaName} {uid : UID} {v : QueueUnitInfo} {err : Option String}
    (hvid : v.unit.uid = uid) (h : Cache.unreserve d q v = some (c', err)) :
    Neutral d c' ↔ (q ∈ d.quotas → uid ∉ d.reserved) := by
  rcases unreserve_cases h with ⟨rfl, hv, _⟩ | ⟨rfl, _, hq, _⟩ | ⟨hv, hq, _, quotas, _, rfl⟩
  · exact iff_of_true (neutral_of_same rfl rfl) (fun _ => hvid ▸ hv)
  · exact iff_of_true (neutral_of_same rfl rfl) (fun h => absurd h hq)
  · have hmem : uid ∈ d.reserved := hvid ▸ hv
    refine iff_of_false ?_ (fun hcond => hcond hq hmem)
    rintro ⟨hrec, _⟩
    rw [← hrec, hvid] at hmem
    exact (Finmap.mem_erase.mp hmem).1 rfl

theorem neutral_charged_iff {d c₁ : CacheImpl} {q : QuotaName} {u v : QueueUnitInfo}
    {quotas₁ quotas₂ : GoMap QuotaName ElasticQuotaInfo} (huid : v.unit.uid = u.unit.uid)
    (hu : u.unit.uid ∉ d.reserved) (hq : q ∈ d.quotas)
    (hadd : visitFrom (fun q => addQueueUnit q u) d q = some quotas₁)
    (hc₁ : c₁ = { d with reserved := d.reserved.insert u.unit.uid q, quotas := quotas₁ })
    (hdel : visitFrom (fun q => deleteQueueUnit q v) c₁ q = some quotas₂) :
    Neutral d { c₁ with reserved := c₁.reserved.erase v.unit.uid, quotas := quotas₂ } ↔
      ∀ x ∈ chain d q, ¬ Leftover d u.unit.uid x := by
  have hquotas : c₁.quotas = quotas₁ := by rw [hc₁]
  have hparent : c₁.quotaParent = d.quotaParent := by rw [hc₁]
  have hrestored := fun x info hx => @amounts_restored_iff _ d c₁ q x u v info quotas₁ quotas₂ hq huid hadd
    hquotas hparent hdel hx
  have hrec : c₁.reserved.erase v.unit.uid = d.reserved := by
    apply Finmap.ext_lookup
    intro y
    rw [hc₁, huid, GoMap.lookup_erase_eq, GoMap.lookup_insert_eq]
    split
    next hy => rw [hy, Finmap.lookup_eq_none.mpr hu]
    next => rfl
  have hmem : ∀ y, y ∈ quotas₂ ↔ y ∈ d.quotas := by
    intro y
    rw [mem_visitQuotas _ _ hdel, hquotas, mem_visitQuotas _ _ hadd]
  simp only [Neutral, hrec, hmem, implies_true, true_and]
  constructor
  · intro hall x hx hleft
    obtain ⟨info, _, _, _, hinfo, _⟩ := id hleft
    obtain ⟨info₂, hinfo₂, hiff⟩ := hrestored x info hinfo
    exact hiff.mp (hall x info info₂ hinfo hinfo₂) ⟨hx, hleft⟩
  · intro hcond x info info' hinfo hinfo'
    obtain ⟨info₂, hinfo₂, hiff⟩ := hrestored x info hinfo
    rw [hinfo', Option.some.injEq] at hinfo₂
    subst info₂
    exact hiff.mpr (fun hx => hcond x hx.1 hx.2)

/-- A failed cycle leaves the quotas as they were exactly when the unit had
no reservation before it, or names a quota that is not there. -/
theorem failedCycle_neutral_iff (h : failedCycle c infos now unitInfo failure = some c') :
    Neutral c c' ↔ (getQuotaName unitInfo.unit ∈ c.quotas →
      unitInfo.unit.uid ∉ c.reserved ∧
        ∀ x ∈ chain c (getQuotaName unitInfo.unit), ¬ Leftover c unitInfo.unit.uid x) := by
  obtain ⟨u, v, c₁, err, err', huid, hvid, hreserve, hunreserve⟩ := failedCycle_cases h
  have hvu : v.unit.uid = u.unit.uid := hvid.trans huid.symm
  rw [← huid]
  rcases reserve_cases hreserve with ⟨rfl, hcase⟩ | ⟨hu, hq, _, quotas₁, hadd, hc₁⟩
  · have hneutral := neutral_refused_iff hvu hunreserve
    refine Iff.trans (show Neutral c c' ↔ _ from hneutral) ?_
    constructor
    · intro hfree hq
      exact absurd (hcase.resolve_right (not_not.mpr hq)) (hfree hq)
    · exact fun hcond hq => (hcond hq).1
  · have hq₁ : getQuotaName unitInfo.unit ∈ c₁.quotas := by
      rw [hc₁]
      exact (mem_visitQuotas c.quotaParent _ hadd _).mpr hq
    have hv : v.unit.uid ∈ c₁.reserved := by
      rw [hc₁, hvu]
      exact Finmap.mem_insert.mpr (Or.inl rfl)
    rcases unreserve_cases hunreserve with ⟨_, hv', _⟩ | ⟨_, _, hq', _⟩ | ⟨_, _, _, quotas₂, hdel, rfl⟩
    · exact absurd hv hv'
    · exact absurd hq₁ hq'
    · have hneutral := neutral_charged_iff hvu hu hq hadd hc₁ hdel
      refine Iff.trans (show Neutral c _ ↔ _ from hneutral) ?_
      exact ⟨fun h _ => ⟨hu, h⟩, fun h => (h hq).2⟩

end Cycle

def oneQuota : CacheImpl := addOrUpdateQuota buildCache (cpuQuota "a" koordRootQuota 10)

theorem failedCycle_neutral_oneQuota :
    ∃ c', @failedCycle noPods oneQuota ∅ 0 (cpuUnitInfo "u" "a" 6 .enqueued) .queueReserve = some c' ∧
      Neutral oneQuota c' := by
  obtain ⟨c', hc'⟩ := Option.isSome_iff_exists.mp
    (show (@failedCycle noPods oneQuota ∅ 0 (cpuUnitInfo "u" "a" 6 .enqueued) .queueReserve).isSome = true by decide)
  refine ⟨c', hc', (@failedCycle_neutral_iff noPods _ _ _ _ _ _ hc').mpr (fun _ => ⟨by decide, ?_⟩)⟩
  rintro x - ⟨info, old, _, _, hinfo, hold, _⟩
  have hempty : info.reserved = .empty :=
    (GoMap.forall_entries oneQuota.quotas (fun _ info => info.reserved = .empty)).mp (by decide) x info hinfo
  rw [hempty] at hold
  cases hold

/-- A unit that tops up an admission and fails to write its new status loses
the reservation it came with. -/
theorem failedCycle_drops_reservation :
    ∃ c c', @Plugin.addAssignedJob noPods oneQuota (unitInfoOf partialUnit) = some c ∧
      @failedCycle noPods c ∅ 0 (unitInfoOf partialUnit) .dequeueWrite = some c' ∧ ¬ Neutral c c' := by
  have hrun : (@Plugin.addAssignedJob noPods oneQuota (unitInfoOf partialUnit)).any (fun c =>
      (@failedCycle noPods c ∅ 0 (unitInfoOf partialUnit) .dequeueWrite).any (fun c' =>
        c.reserved.lookup "u" = some "a" ∧ c'.reserved.lookup "u" = none)) = true := by decide
  obtain ⟨c, hc, hcycle⟩ := (Option.any_eq_true _ _).mp hrun
  obtain ⟨c', hc', hlost⟩ := (Option.any_eq_true _ _).mp hcycle
  obtain ⟨hbefore, hafter⟩ := of_decide_eq_true hlost
  refine ⟨c, c', hc, hc', fun hn => ?_⟩
  rw [hn.1, hbefore] at hafter
  cases hafter

end KoordQueue.Scheduler.Rollback
