import KoordQueue.Quota.Chain
import KoordQueue.Quota.Charge

namespace KoordQueue.Quota.Holding

open Api UnitInfo Info Cache Chain Charge

def Held (c : CacheImpl) (uid : UID) (x : QuotaName) : Prop :=
  ∃ info, c.quotas.lookup x = some info ∧ uid ∈ info.reserved.units

theorem exists_of_held {c : CacheImpl} {uid : UID} {x : QuotaName} (h : Held c uid x) : x ∈ c.quotas := by
  obtain ⟨info, hinfo, _⟩ := h
  exact Finmap.mem_iff.mpr ⟨info, hinfo⟩

def storedAt (c : CacheImpl) (uid : UID) (x : QuotaName) : Option QueueUnitInfo :=
  (c.quotas.lookup x).bind (fun info => info.reserved.units.lookup uid)

theorem storedAt_of_lookup {c : CacheImpl} {uid : UID} {x : QuotaName} {info : ElasticQuotaInfo}
    (h : c.quotas.lookup x = some info) : storedAt c uid x = info.reserved.units.lookup uid := by
  rw [storedAt, h, Option.bind_some]

theorem held_iff_stored {c : CacheImpl} {uid : UID} {x : QuotaName} : Held c uid x ↔ ∃ u, storedAt c uid x = some u := by
  simp only [Held, storedAt, Option.bind_eq_some_iff, Finmap.mem_iff]
  constructor
  · rintro ⟨info, hinfo, u, hu⟩
    exact ⟨u, info, hinfo, hu⟩
  · rintro ⟨u, info, hinfo, hu⟩
    exact ⟨info, hinfo, u, hu⟩

/-- The charges of one unit lie on the chain of the quota recorded for it. -/
def Agrees (c : CacheImpl) (uid : UID) : Prop :=
  ∀ x, Held c uid x ↔ ∃ r, c.reserved.lookup uid = some r ∧ x ∈ chain c r

section Visits

variable {c c' : CacheImpl} {q : QuotaName} {u : QueueUnitInfo} {quotas' : GoMap QuotaName ElasticQuotaInfo}

/-- A walk over the chain of a quota changes what its quotas store, one by one. -/
theorem storedAt_visitFrom {visit : QuotaName → ElasticQuotaInfo → Option ElasticQuotaInfo}
    (effect : UID → Option QueueUnitInfo → Option QueueUnitInfo) (heffect : ∀ x info info', visit x info = some info' →
      ∀ uid, info'.reserved.units.lookup uid = effect uid (info.reserved.units.lookup uid))
    (hq : q ∈ c.quotas) (h : visitFrom visit c q = some quotas') (hc' : c'.quotas = quotas')
    (uid : UID) (x : QuotaName) :
    storedAt c' uid x = if x ∈ chain c q then effect uid (storedAt c uid x) else storedAt c uid x := by
  by_cases hchain : x ∈ chain c q
  · obtain ⟨info, hinfo⟩ := Finmap.mem_iff.mp (exists_of_mem_chain hchain)
    obtain ⟨info', hinfo', hv⟩ := visitFrom_some_of_lookup hq h hinfo
    rw [if_pos hchain] at hv ⊢
    rw [← hc'] at hinfo'
    rw [storedAt_of_lookup hinfo', storedAt_of_lookup hinfo]
    exact heffect x info info' hv uid
  · rw [if_neg hchain, storedAt, storedAt, hc', lookup_visitFrom hq h, if_neg hchain]

theorem agrees_congr {uid : UID} (hheld : ∀ x, Held c' uid x ↔ Held c uid x)
    (hrec : c'.reserved.lookup uid = c.reserved.lookup uid) (hparent : c'.quotaParent = c.quotaParent)
    (hmem : ∀ x, x ∈ c'.quotas ↔ x ∈ c.quotas) : Agrees c' uid ↔ Agrees c uid := by
  simp only [Agrees, hheld, hrec, chain_congr hparent hmem]

variable [ResourceHelpers]

theorem storedAt_reserve (hq : q ∈ c.quotas) (h : visitFrom (fun q => addQueueUnit q u) c q = some quotas')
    (hc' : c'.quotas = quotas') (uid : UID) (x : QuotaName) :
    storedAt c' uid x = (storedAt c uid x).or (if uid = u.unit.uid ∧ x ∈ chain c q then some u else none) := by
  rw [storedAt_visitFrom (fun uid old => old.or (if uid = u.unit.uid then some u else none))
    (fun _ _ _ hv => lookup_addQueueUnit hv) hq h hc']
  split
  next hchain => simp [hchain]
  next hchain => simp [hchain]

theorem storedAt_unreserve (hq : q ∈ c.quotas) (h : visitFrom (fun q => deleteQueueUnit q u) c q = some quotas')
    (hc' : c'.quotas = quotas') (uid : UID) (x : QuotaName) :
    storedAt c' uid x = if uid = u.unit.uid ∧ x ∈ chain c q then none else storedAt c uid x := by
  rw [storedAt_visitFrom (fun uid old => if uid = u.unit.uid then none else old)
    (fun _ _ _ hv => lookup_deleteQueueUnit hv) hq h hc']
  split
  next hchain => simp [hchain]
  next hchain => simp [hchain]

theorem storedAt_resizeInPlace (hq : q ∈ c.quotas) (h : visitFrom (fun q => resizeQueueUnit q u) c q = some quotas')
    (hc' : c'.quotas = quotas') (uid : UID) (x : QuotaName) : storedAt c' uid x =
      if uid = u.unit.uid ∧ x ∈ chain c q then (storedAt c uid x).map (fun _ => u) else storedAt c uid x := by
  rw [storedAt_visitFrom (fun uid old => if uid = u.unit.uid then old.map (fun _ => u) else old)
    (fun _ _ _ hv => lookup_resizeQueueUnit hv) hq h hc']
  split
  next hchain => simp [hchain]
  next hchain => simp [hchain]

theorem held_reserve (hq : q ∈ c.quotas) (h : visitFrom (fun q => addQueueUnit q u) c q = some quotas')
    (hc' : c'.quotas = quotas') (uid : UID) (x : QuotaName) :
    Held c' uid x ↔ Held c uid x ∨ uid = u.unit.uid ∧ x ∈ chain c q := by
  rw [held_iff_stored, held_iff_stored, storedAt_reserve hq h hc']
  cases storedAt c uid x <;> simp

theorem held_unreserve (hq : q ∈ c.quotas) (h : visitFrom (fun q => deleteQueueUnit q u) c q = some quotas')
    (hc' : c'.quotas = quotas') (uid : UID) (x : QuotaName) :
    Held c' uid x ↔ Held c uid x ∧ ¬ (uid = u.unit.uid ∧ x ∈ chain c q) := by
  rw [held_iff_stored, held_iff_stored, storedAt_unreserve hq h hc']
  cases storedAt c uid x <;> simp

theorem held_resizeInPlace (hq : q ∈ c.quotas) (h : visitFrom (fun q => resizeQueueUnit q u) c q = some quotas')
    (hc' : c'.quotas = quotas') (uid : UID) (x : QuotaName) : Held c' uid x ↔ Held c uid x := by
  rw [held_iff_stored, held_iff_stored, storedAt_resizeInPlace hq h hc']
  split <;> simp

theorem agrees_reserve (hq : q ∈ c.quotas) (h : visitFrom (fun q => addQueueUnit q u) c q = some quotas')
    (hc' : c' = { c with reserved := c.reserved.insert u.unit.uid q, quotas := quotas' }) (uid : UID) :
    Agrees c' uid ↔ if uid = u.unit.uid then ∀ x, Held c uid x → x ∈ chain c q else Agrees c uid := by
  have hparent : c'.quotaParent = c.quotaParent := by rw [hc']
  have hmem : ∀ x, x ∈ c'.quotas ↔ x ∈ c.quotas := by
    rw [hc']
    exact mem_visitQuotas c.quotaParent _ h
  have hrec : c'.reserved = c.reserved.insert u.unit.uid q := by rw [hc']
  have hheld := held_reserve hq h (congrArg CacheImpl.quotas hc')
  split
  next hu =>
    subst uid
    simp only [Agrees, hheld, hrec, Finmap.lookup_insert, Option.some.injEq, exists_eq_left', true_and,
      chain_congr hparent hmem]
    constructor
    · intro hall x hx
      exact (hall x).mp (Or.inl hx)
    · intro hall x
      have := hall x
      tauto
  next hu =>
    apply agrees_congr _ _ hparent hmem
    · intro x
      rw [hheld]
      tauto
    · rw [hrec]
      exact Finmap.lookup_insert_of_ne _ hu

theorem agrees_unreserve (hq : q ∈ c.quotas) (h : visitFrom (fun q => deleteQueueUnit q u) c q = some quotas')
    (hc' : c' = { c with reserved := c.reserved.erase u.unit.uid, quotas := quotas' }) (uid : UID) :
    Agrees c' uid ↔ if uid = u.unit.uid then ∀ x, Held c uid x → x ∈ chain c q else Agrees c uid := by
  have hparent : c'.quotaParent = c.quotaParent := by rw [hc']
  have hmem : ∀ x, x ∈ c'.quotas ↔ x ∈ c.quotas := by
    rw [hc']
    exact mem_visitQuotas c.quotaParent _ h
  have hrec : c'.reserved = c.reserved.erase u.unit.uid := by rw [hc']
  have hheld := held_unreserve hq h (congrArg CacheImpl.quotas hc')
  split
  next hu =>
    subst uid
    simp only [Agrees, hheld, hrec, Finmap.lookup_erase, reduceCtorEq, false_and, exists_false, iff_false,
      true_and, not_and, not_not]
  next hu =>
    apply agrees_congr _ _ hparent hmem
    · intro x
      rw [hheld]
      tauto
    · rw [hrec]
      exact Finmap.lookup_erase_ne hu

end Visits

end KoordQueue.Quota.Holding
