import KoordQueue.Quota.Reversal

namespace KoordQueue.Quota.Solvency

open Api UnitStatus UnitInfo Info Cache Chain Charge Holding Conservation Reversal

def Priced [ResourceHelpers] (u : QueueUnitInfo) : Prop := getReservedResource u.unit ≠ none

def Solvent [ResourceHelpers] (c : CacheImpl) (uid : UID) : Prop := ∀ x v, storedAt c uid x = some v → Priced v

section Visits

variable [ResourceHelpers] {q : QuotaName} {u : QueueUnitInfo} {info : ElasticQuotaInfo}

theorem addQueueUnit_returns (hu : Priced u) : ∃ info', addQueueUnit q u info = some info' := by
  obtain ⟨res, hres⟩ := Option.ne_none_iff_exists'.mp hu
  exact addQueueUnit_some hres q info

theorem resizeQueueUnit_returns (hu : Priced u)
    (h : ∀ old, info.reserved.units.lookup u.unit.uid = some old → Priced old) :
    ∃ info', resizeQueueUnit q u info = some info' := by
  rw [resizeQueueUnit]
  split
  next => exact ⟨info, rfl⟩
  next old hold =>
    obtain ⟨oldRes, holdRes⟩ := Option.ne_none_iff_exists'.mp (h old hold)
    obtain ⟨newRes, hnewRes⟩ := Option.ne_none_iff_exists'.mp hu
    obtain ⟨mid, hmid⟩ := deleteQueueUnit_some h q
    rw [deleteQueueUnit] at hmid
    simp only [holdRes, hnewRes, hmid, Option.bind_eq_bind, Option.bind_some]
    split
    next => exact ⟨_, rfl⟩
    next =>
      obtain ⟨info', hadd⟩ := @addQueueUnit_returns _ q u mid hu
      rw [addQueueUnit, if_neg (absent_of_deleteQueueUnit hmid)] at hadd
      exact ⟨info', hadd⟩

end Visits

def From (us : List QueueUnitInfo) (c c' : CacheImpl) : Prop :=
  ∀ uid x v, storedAt c' uid x = some v → storedAt c uid x = some v ∨ v ∈ us

theorem From.refl (us : List QueueUnitInfo) (c : CacheImpl) : From us c c := fun _ _ _ h => Or.inl h

variable {c c' : CacheImpl} {us : List QueueUnitInfo}

theorem From.trans {c'' : CacheImpl} (h : From us c c') (h' : From us c' c'') : From us c c'' := by
  intro uid x v hv
  rcases h' uid x v hv with hmid | hmem
  · exact h uid x v hmid
  · exact Or.inr hmem

section Calls

variable [ResourceHelpers] {c c' : CacheImpl} {q : QuotaName} {u : QueueUnitInfo} {us : List QueueUnitInfo}
  {err : Option String}

theorem from_reserve (hu : u ∈ us) (h : reserve c q u = some (c', err)) : From us c c' := by
  rcases reserve_cases h with ⟨rfl, _⟩ | ⟨_, hq, _, quotas, hv, rfl⟩
  · exact .refl us c'
  · intro uid x v hl
    rw [storedAt_reserve hq hv rfl] at hl
    rcases Option.or_eq_some_iff.mp hl with hbefore | ⟨_, hnew⟩
    · exact Or.inl hbefore
    · cases (Option.ite_none_right_eq_some.mp hnew).2
      exact Or.inr hu

theorem from_unreserve (h : unreserve c q u = some (c', err)) : From us c c' := by
  rcases unreserve_cases h with ⟨rfl, _⟩ | ⟨rfl, _⟩ | ⟨_, hq, _, quotas, hv, rfl⟩
  · exact .refl us c'
  · exact .refl us c'
  · intro uid x v hl
    rw [storedAt_unreserve hq hv rfl] at hl
    exact Or.inl (Option.ite_none_left_eq_some.mp hl).2

theorem from_resizeInPlace (hu : u ∈ us) (h : resizeInPlace c q u = some (c', err)) : From us c c' := by
  rcases resizeInPlace_cases h with rfl | ⟨hq, quotas, hv, rfl⟩
  · exact .refl us c'
  · intro uid x v hl
    rw [storedAt_resizeInPlace hq hv rfl] at hl
    split at hl
    next =>
      obtain ⟨_, _, rfl⟩ := Option.map_eq_some_iff.mp hl
      exact Or.inr hu
    next => exact Or.inl hl

theorem from_resize {old : QueueUnitInfo} (hu : u ∈ us) (h : resize c old u = some (c', err)) : From us c c' := by
  rcases resize_cases h with ⟨_, h⟩ | ⟨_, _, h⟩ | ⟨_, mid, hrel, hres⟩
  · exact from_resizeInPlace hu h
  · exact from_unreserve h
  · exact (from_unreserve hrel).trans (from_reserve hu hres)

theorem reserve_returns (hu : Priced u) : ∃ r, reserve c q u = some r := by
  rw [reserve]
  split
  next => split <;> exact ⟨_, rfl⟩
  next =>
    split
    next =>
      obtain ⟨quotas, hv⟩ := visitFrom_some (fun x info (_ : c.quotas.lookup x = some info) =>
        @addQueueUnit_returns _ x u info hu) q
      rw [hv]
      exact ⟨_, rfl⟩
    next => exact ⟨_, rfl⟩

theorem priced_stored {info : ElasticQuotaInfo} {x : QuotaName} (h : Solvent c u.unit.uid)
    (hinfo : c.quotas.lookup x = some info) {old : QueueUnitInfo}
    (hold : info.reserved.units.lookup u.unit.uid = some old) : Priced old :=
  h x old (by rw [storedAt_of_lookup hinfo, hold])

theorem unreserve_returns (h : Solvent c u.unit.uid) : ∃ r, unreserve c q u = some r := by
  rw [unreserve]
  split
  next =>
    split
    next =>
      obtain ⟨quotas, hv⟩ := visitFrom_some (fun x info hinfo =>
        deleteQueueUnit_some (fun _ hold => priced_stored h hinfo hold) x) q
      rw [hv]
      exact ⟨_, rfl⟩
    next => exact ⟨_, rfl⟩
  next => exact ⟨_, rfl⟩

theorem resizeInPlace_returns (hu : Priced u) (h : Solvent c u.unit.uid) : ∃ r, resizeInPlace c q u = some r := by
  rw [resizeInPlace]
  split
  next =>
    split
    next =>
      obtain ⟨quotas, hv⟩ := visitFrom_some (fun x info hinfo =>
        @resizeQueueUnit_returns _ x u info hu (fun _ hold => priced_stored h hinfo hold)) q
      rw [hv]
      exact ⟨_, rfl⟩
    next => exact ⟨_, rfl⟩
  next => exact ⟨_, rfl⟩

theorem resize_returns {old : QueueUnitInfo} (hu : Priced u) (hnew : Solvent c u.unit.uid)
    (hold : Solvent c old.unit.uid) : ∃ r, resize c old u = some r := by
  rw [resize]
  split
  next =>
    obtain ⟨⟨mid, err⟩, hrel⟩ := @unreserve_returns _ c (getQuotaName old.unit) old hold
    rw [hrel]
    cases err with
    | some e => exact ⟨_, rfl⟩
    | none => exact reserve_returns hu
  next => exact resizeInPlace_returns hu hnew

variable {op : CacheOp}

def named : CacheOp → List QueueUnitInfo
  | .reserve _ u => [u]
  | .unreserve _ u => [u]
  | .resize old new => [old, new]
  | .addOrUpdateQuota _ => []
  | .deleteQuota _ => []

theorem from_step (h : step c op = some c') : From (named op) c c' := by
  cases op with
  | reserve q u =>
    obtain ⟨⟨_, err⟩, hr, rfl⟩ := Option.map_eq_some_iff.mp h
    exact from_reserve (List.mem_singleton_self u) hr
  | unreserve q u =>
    obtain ⟨⟨_, err⟩, hr, rfl⟩ := Option.map_eq_some_iff.mp h
    exact from_unreserve hr
  | resize old new =>
    obtain ⟨⟨_, err⟩, hr, rfl⟩ := Option.map_eq_some_iff.mp h
    exact from_resize (List.mem_cons_of_mem old (List.mem_singleton_self new)) hr
  | addOrUpdateQuota quota =>
    cases h
    intro uid x v hv
    left
    simp only [storedAt, addOrUpdateQuota, GoMap.lookup_insert_eq] at hv ⊢
    split at hv
    next he =>
      subst he
      cases hl : c.quotas.lookup quota.name with
      | none =>
        rw [hl] at hv
        cases hv
      | some info =>
        rw [hl] at hv
        exact hv
    next => exact hv
  | deleteQuota quota =>
    cases h
    intro uid x v hv
    left
    simp only [storedAt, deleteQuota, GoMap.lookup_erase_eq] at hv ⊢
    split at hv
    next => cases hv
    next => exact hv

/-- A call does not crash when the versions it is given and those the quotas
hold of the same units are priced. -/
theorem step_returns (hpriced : ∀ u ∈ named op, Priced u) (hheld : ∀ u ∈ named op, Solvent c u.unit.uid) :
    ∃ c', step c op = some c' := by
  cases op with
  | reserve q u =>
    obtain ⟨r, hr⟩ := @reserve_returns _ c q u (hpriced u (List.mem_singleton_self u))
    exact ⟨r.1, by rw [step, hr, Option.map_some]⟩
  | unreserve q u =>
    obtain ⟨r, hr⟩ := @unreserve_returns _ c q u (hheld u (List.mem_singleton_self u))
    exact ⟨r.1, by rw [step, hr, Option.map_some]⟩
  | resize old new =>
    have hnew : new ∈ named (.resize old new) := List.mem_cons_of_mem old (List.mem_singleton_self new)
    obtain ⟨r, hr⟩ := @resize_returns _ c new old (hpriced new hnew) (hheld new hnew) (hheld old List.mem_cons_self)
    exact ⟨r.1, by rw [step, hr, Option.map_some]⟩
  | addOrUpdateQuota quota => exact ⟨_, rfl⟩
  | deleteQuota quota => exact ⟨_, rfl⟩

end Calls

end KoordQueue.Quota.Solvency
