import KoordQueue.Quota.Info

namespace KoordQueue.Quota.Charge

open Api Resources UnitStatus UnitInfo Info

inductive Counter
  | used
  | selfUsed
  | childrenUsed
  | guaranteedUsed
  | selfGuaranteedUsed
  | childrenGuaranteedUsed
deriving DecidableEq

def counter (info : ElasticQuotaInfo) : Counter → Amounts
  | .used => info.used
  | .selfUsed => info.selfUsed
  | .childrenUsed => info.childrenUsed
  | .guaranteedUsed => info.guaranteedUsed
  | .selfGuaranteedUsed => info.selfGuaranteedUsed
  | .childrenGuaranteedUsed => info.childrenGuaranteedUsed

/-- Whether a counter takes part in a charge of a unit that names this quota
or, with `false`, another one below it. -/
def Counter.counts : Counter → Bool → Bool
  | .used, _ => true
  | .selfUsed, sameQuota => sameQuota
  | .childrenUsed, sameQuota => !sameQuota
  | .guaranteedUsed, _ => true
  | .selfGuaranteedUsed, sameQuota => sameQuota
  | .childrenGuaranteedUsed, sameQuota => !sameQuota

def share (i : Counter) (q : QuotaName) (unit : QueueUnit) (res : Resource) (k : ResourceName) : Int64 :=
  if i.counts (getQuotaName unit = q) then amount res.resources k else 0

theorem amount_charge (info : ElasticQuotaInfo) (sameQuota : Bool) (res : Amounts) (m : Int64)
    (i : Counter) (k : ResourceName) :
    amount (counter (charge info sameQuota res m) i) k =
      amount (counter info i) k + (if i.counts sameQuota then amount res k else 0) * m := by
  cases i <;> cases sameQuota <;>
    simp [charge, counter, Counter.counts, amount_updateUsage]

theorem charge_reserved (info : ElasticQuotaInfo) (sameQuota : Bool) (res : Amounts) (m : Int64) :
    (charge info sameQuota res m).reserved = info.reserved := rfl

theorem charge_max (info : ElasticQuotaInfo) (sameQuota : Bool) (res : Amounts) (m : Int64) :
    (charge info sameQuota res m).max = info.max := rfl

variable [ResourceHelpers] {q : QuotaName} {u : QueueUnitInfo} {info info' : ElasticQuotaInfo}

theorem addQueueUnit_held (hu : u.unit.uid ∈ info.reserved.units) : addQueueUnit q u info = some info := by
  rw [addQueueUnit, if_pos hu]

theorem addQueueUnit_new (hu : u.unit.uid ∉ info.reserved.units) (h : addQueueUnit q u info = some info') :
    ∃ res, getReservedResource u.unit = some res ∧
      info' = charge { info with reserved := info.reserved.set u } (getQuotaName u.unit = q) res.resources 1 := by
  rw [addQueueUnit, if_neg hu, addQueueUnitInternal, if_neg hu] at h
  obtain ⟨res, hres, h⟩ := Option.bind_eq_some_iff.mp h
  exact ⟨res, hres, (Option.some.inj h).symm⟩

theorem deleteQueueUnit_absent (hu : u.unit.uid ∉ info.reserved.units) : deleteQueueUnit q u info = some info := by
  rw [deleteQueueUnit, deleteQueueUnitInternal, Finmap.lookup_eq_none.mpr hu]

variable {old : QueueUnitInfo} {res : Resource}

theorem deleteQueueUnit_held (hu : info.reserved.units.lookup u.unit.uid = some old)
    (h : deleteQueueUnit q u info = some info') :
    ∃ res, getReservedResource old.unit = some res ∧
      info' = charge { info with reserved := info.reserved.delete u.unit.uid }
        (getQuotaName old.unit = q) res.resources (-1) := by
  simp only [deleteQueueUnit, deleteQueueUnitInternal, hu] at h
  obtain ⟨res, hres, h⟩ := Option.bind_eq_some_iff.mp h
  rw [info.reserved.keyed _ _ hu] at h
  exact ⟨res, hres, (Option.some.inj h).symm⟩

theorem lookup_addQueueUnit (h : addQueueUnit q u info = some info') (uid : UID) : info'.reserved.units.lookup uid =
    (info.reserved.units.lookup uid).or (if uid = u.unit.uid then some u else none) := by
  by_cases hu : u.unit.uid ∈ info.reserved.units
  · rw [addQueueUnit_held hu, Option.some.injEq] at h
    subst info'
    split
    next he =>
      obtain ⟨old, hold⟩ := Finmap.mem_iff.mp hu
      rw [he, hold, Option.some_or]
    next => exact Option.or_none.symm
  · obtain ⟨res, _, rfl⟩ := addQueueUnit_new hu h
    rw [charge_reserved, Reserved.set, GoMap.lookup_insert_eq]
    split
    next he => rw [he, Finmap.lookup_eq_none.mpr hu, Option.none_or]
    next => exact Option.or_none.symm

theorem lookup_deleteQueueUnit (h : deleteQueueUnit q u info = some info') (uid : UID) :
    info'.reserved.units.lookup uid = if uid = u.unit.uid then none else info.reserved.units.lookup uid := by
  cases hu : info.reserved.units.lookup u.unit.uid with
  | none =>
    rw [deleteQueueUnit_absent (Finmap.lookup_eq_none.mp hu), Option.some.injEq] at h
    subst info'
    split
    next he => rw [he, hu]
    next => rfl
  | some old =>
    obtain ⟨res, _, rfl⟩ := deleteQueueUnit_held hu h
    exact GoMap.lookup_erase_eq _ _ _

theorem absent_of_deleteQueueUnit (h : deleteQueueUnit q u info = some info') : u.unit.uid ∉ info'.reserved.units := by
  rw [← Finmap.lookup_eq_none, lookup_deleteQueueUnit h, if_pos rfl]

/-- A resize leaves a quota without the unit alone, stores a version that
reserves the same, or takes the old version out and adds the new one. -/
theorem resizeQueueUnit_cases (h : resizeQueueUnit q u info = some info') :
    (info.reserved.units.lookup u.unit.uid = none ∧ info' = info) ∨
      ∃ old oldRes newRes, info.reserved.units.lookup u.unit.uid = some old ∧
        getReservedResource old.unit = some oldRes ∧ getReservedResource u.unit = some newRes ∧
        ((oldRes.resources = newRes.resources ∧ info' = { info with reserved := info.reserved.set u }) ∨
          (oldRes.resources ≠ newRes.resources ∧
            ∃ mid, deleteQueueUnit q u info = some mid ∧ addQueueUnit q u mid = some info')) := by
  cases hu : info.reserved.units.lookup u.unit.uid with
  | none =>
    simp only [resizeQueueUnit, hu, Option.some.injEq] at h
    exact Or.inl ⟨rfl, h.symm⟩
  | some old =>
    simp only [resizeQueueUnit, hu] at h
    obtain ⟨oldRes, hold, h⟩ := Option.bind_eq_some_iff.mp h
    obtain ⟨newRes, hnew, h⟩ := Option.bind_eq_some_iff.mp h
    refine Or.inr ⟨old, oldRes, newRes, rfl, hold, hnew, ?_⟩
    split at h
    next hsame => exact Or.inl ⟨hsame, (Option.some.inj h).symm⟩
    next hdiffer =>
      obtain ⟨mid, hdel, hadd⟩ := Option.bind_eq_some_iff.mp h
      refine Or.inr ⟨hdiffer, mid, hdel, ?_⟩
      rw [addQueueUnit, if_neg (absent_of_deleteQueueUnit hdel)]
      exact hadd

theorem lookup_resizeQueueUnit (h : resizeQueueUnit q u info = some info') (uid : UID) :
    info'.reserved.units.lookup uid = if uid = u.unit.uid then (info.reserved.units.lookup uid).map (fun _ => u)
      else info.reserved.units.lookup uid := by
  rcases resizeQueueUnit_cases h with ⟨hu, rfl⟩ | ⟨old, _, _, hold, _, _, ⟨_, rfl⟩ | ⟨_, mid, hdel, hadd⟩⟩
  · split
    next he => rw [he, hu, Option.map_none]
    next => rfl
  · rw [Reserved.set, GoMap.lookup_insert_eq]
    split
    next he => rw [he, hold, Option.map_some]
    next => rfl
  · rw [lookup_addQueueUnit hadd, lookup_deleteQueueUnit hdel]
    split
    next he => rw [he, hold, Option.map_some, Option.none_or]
    next => exact Option.or_none

theorem amount_addQueueUnit (hu : u.unit.uid ∉ info.reserved.units)
    (hres : getReservedResource u.unit = some res) (h : addQueueUnit q u info = some info')
    (i : Counter) (k : ResourceName) :
    amount (counter info' i) k = amount (counter info i) k + share i q u.unit res k := by
  obtain ⟨res', hres', rfl⟩ := addQueueUnit_new hu h
  rw [hres, Option.some.injEq] at hres'
  subst res'
  rw [amount_charge, Int64.mul_one]
  cases i <;> rfl

theorem amount_deleteQueueUnit
    (hu : info.reserved.units.lookup u.unit.uid = some old) (hres : getReservedResource old.unit = some res)
    (h : deleteQueueUnit q u info = some info') (i : Counter) (k : ResourceName) :
    amount (counter info' i) k = amount (counter info i) k - share i q old.unit res k := by
  obtain ⟨res', hres', rfl⟩ := deleteQueueUnit_held hu h
  rw [hres, Option.some.injEq] at hres'
  subst res'
  rw [amount_charge, Int64.mul_neg, Int64.mul_one, ← Int64.sub_eq_add_neg]
  cases i <;> rfl

theorem amount_add_delete {v : QueueUnitInfo} {info₁ : ElasticQuotaInfo} (huid : v.unit.uid = u.unit.uid)
    (hu : u.unit.uid ∉ info.reserved.units) (hadd : addQueueUnit q u info = some info₁)
    (hdel : deleteQueueUnit q v info₁ = some info') (i : Counter) (k : ResourceName) :
    amount (counter info' i) k = amount (counter info i) k := by
  obtain ⟨res, hres, hinfo₁⟩ := addQueueUnit_new hu hadd
  have hstored : info₁.reserved.units.lookup v.unit.uid = some u := by
    rw [hinfo₁, charge_reserved, Reserved.set, huid, Finmap.lookup_insert]
  rw [amount_deleteQueueUnit hstored hres hdel, amount_addQueueUnit hu hres hadd, Int64.add_sub_cancel]

end KoordQueue.Quota.Charge
