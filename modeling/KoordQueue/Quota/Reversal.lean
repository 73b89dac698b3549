import KoordQueue.Quota.ConservationRuns

namespace KoordQueue.Quota.Reversal

open Api Resources UnitStatus UnitInfo Info Cache Chain Charge Holding Conservation ConservationRuns ParentWalk Run

variable {c c' : CacheImpl} {x : QuotaName} {uid : UID}

/-- Between two caches the tree and everything about one unit are the same. -/
structure Apart (uid : UID) (c c' : CacheImpl) : Prop where
  parent : c'.quotaParent = c.quotaParent
  mem : ∀ x, x ∈ c'.quotas ↔ x ∈ c.quotas
  record : c'.reserved.lookup uid = c.reserved.lookup uid
  stored : ∀ x, storedAt c' uid x = storedAt c uid x

theorem Apart.refl (uid : UID) (c : CacheImpl) : Apart uid c c := ⟨rfl, fun _ => Iff.rfl, rfl, fun _ => rfl⟩

theorem Apart.trans {c'' : CacheImpl} (h : Apart uid c c') (h' : Apart uid c' c'') : Apart uid c c'' where
  parent := h'.parent.trans h.parent
  mem := fun x => (h'.mem x).trans (h.mem x)
  record := h'.record.trans h.record
  stored := fun x => (h'.stored x).trans (h.stored x)

section Calls

variable [ResourceHelpers] {c c' : CacheImpl} {q : QuotaName} {u : QueueUnitInfo} {uid : UID} {err : Option String}

theorem apart_reserve (hne : uid ≠ u.unit.uid) (h : reserve c q u = some (c', err)) : Apart uid c c' := by
  rcases reserve_cases h with ⟨rfl, _⟩ | ⟨_, hq, _, quotas, hv, rfl⟩
  · exact .refl uid c'
  · refine ⟨rfl, mem_visitQuotas c.quotaParent _ hv, Finmap.lookup_insert_of_ne _ hne, fun x => ?_⟩
    rw [storedAt_reserve hq hv rfl, if_neg (fun hin => hne hin.1), Option.or_none]

theorem apart_unreserve (hne : uid ≠ u.unit.uid) (h : unreserve c q u = some (c', err)) : Apart uid c c' := by
  rcases unreserve_cases h with ⟨rfl, _⟩ | ⟨rfl, _⟩ | ⟨_, hq, _, quotas, hv, rfl⟩
  · exact .refl uid c'
  · exact .refl uid c'
  · refine ⟨rfl, mem_visitQuotas c.quotaParent _ hv, Finmap.lookup_erase_ne hne, fun x => ?_⟩
    rw [storedAt_unreserve hq hv rfl, if_neg (fun hin => hne hin.1)]

theorem apart_resizeInPlace (hne : uid ≠ u.unit.uid) (h : resizeInPlace c q u = some (c', err)) : Apart uid c c' := by
  rcases resizeInPlace_cases h with rfl | ⟨hq, quotas, hv, rfl⟩
  · exact .refl uid c'
  · refine ⟨rfl, mem_visitQuotas c.quotaParent _ hv, rfl, fun x => ?_⟩
    rw [storedAt_resizeInPlace hq hv rfl, if_neg (fun hin => hne hin.1)]

theorem apart_resize {old : QueueUnitInfo} (hold : uid ≠ old.unit.uid) (hnew : uid ≠ u.unit.uid)
    (h : resize c old u = some (c', err)) : Apart uid c c' := by
  rcases resize_cases h with ⟨_, h⟩ | ⟨_, _, h⟩ | ⟨_, mid, hrel, hres⟩
  · exact apart_resizeInPlace hnew h
  · exact apart_unreserve hold h
  · exact (apart_unreserve hold hrel).trans (apart_reserve hnew hres)

def Elsewhere (uid : UID) (c : CacheImpl) : CacheOp → Prop
  | .reserve _ u => uid ≠ u.unit.uid
  | .unreserve _ u => uid ≠ u.unit.uid
  | .resize old new => uid ≠ old.unit.uid ∧ uid ≠ new.unit.uid
  | .addOrUpdateQuota q => q.name ∈ c.quotas ∧ c.quotaParent.lookup q.name = some (getParentQuotaName q)
  | .deleteQuota q => q.name ∉ c.quotas ∧ q.name ∉ c.quotaParent

omit [ResourceHelpers] in
theorem apart_addOrUpdateQuota {quota : ElasticQuota} (hmem : quota.name ∈ c.quotas)
    (hlink : c.quotaParent.lookup quota.name = some (getParentQuotaName quota)) :
    Apart uid c (addOrUpdateQuota c quota) where
  parent := GoMap.insert_of_lookup hlink
  mem := by
    intro x
    rw [mem_addOrUpdateQuota]
    constructor
    · rintro (rfl | hx)
      · exact hmem
      · exact hx
    · exact Or.inr
  record := rfl
  stored := by
    intro x
    obtain ⟨info, hinfo⟩ := Finmap.mem_iff.mp hmem
    simp only [storedAt, addOrUpdateQuota, hinfo, GoMap.lookup_insert_eq]
    split
    next he =>
      subst x
      rw [hinfo]
      rfl
    next => rfl

theorem apart_step {op : CacheOp} (hop : Elsewhere uid c op) (h : step c op = some c') : Apart uid c c' := by
  cases op with
  | reserve q u =>
    obtain ⟨⟨_, err⟩, hr, rfl⟩ := Option.map_eq_some_iff.mp h
    exact apart_reserve hop hr
  | unreserve q u =>
    obtain ⟨⟨_, err⟩, hr, rfl⟩ := Option.map_eq_some_iff.mp h
    exact apart_unreserve hop hr
  | resize old new =>
    obtain ⟨⟨_, err⟩, hr, rfl⟩ := Option.map_eq_some_iff.mp h
    exact apart_resize hop.1 hop.2 hr
  | addOrUpdateQuota q =>
    cases h
    exact apart_addOrUpdateQuota hop.1 hop.2
  | deleteQuota q =>
    cases h
    rw [deleteQuota, GoMap.erase_of_notMem hop.1, GoMap.erase_of_notMem hop.2]
    exact .refl uid c

theorem apart_run {ops : List CacheOp} (hops : Guarded step (Elsewhere uid) c ops)
    (h : exec step c ops = some c') : Apart uid c c' := by
  have hkeeps : ∀ s op t, Apart uid c s → Elsewhere uid s op → step s op = some t → Apart uid c t :=
    fun s op t hs hop ht => hs.trans (apart_step hop ht)
  exact Run.invariant hkeeps (.refl uid c) hops h

end Calls

/-- The quotas that parent links of existing quotas lead to from `q`. -/
def Above (c : CacheImpl) (q x : QuotaName) : Prop := Leads (parentOf c.quotaParent c.quotas) q x

theorem mem_chain_of_exists {c : CacheImpl} {q x : QuotaName} (hq : q ∈ c.quotas) : x ∈ chain c q ↔ Above c q x := by
  rw [mem_chain_iff, Above]
  exact and_iff_right hq

section RoundTrip

variable [ResourceHelpers]

/-- Each quota from `q` up holds the unit and counts it once, no other quota has changed. -/
def Charged (c c' : CacheImpl) (q : QuotaName) (u : QueueUnitInfo) (res : Resource) : Prop :=
  c'.reserved = c.reserved.insert u.unit.uid q ∧ ∀ x info, c.quotas.lookup x = some info →
    ∃ info', c'.quotas.lookup x = some info' ∧
      (Above c q x → info'.reserved.units.lookup u.unit.uid = some u ∧
        ∀ i k, amount (counter info' i) k = amount (counter info i) k + share i x u.unit res k) ∧
      (¬ Above c q x → info' = info)

/-- No quota holds the unit, the quotas from `q` up do not count it any more,
no other quota has changed. -/
def Discharged (c c' : CacheImpl) (q : QuotaName) (u : QueueUnitInfo) (res : Resource) : Prop :=
  c'.reserved = c.reserved.erase u.unit.uid ∧ (∀ x, ¬ Held c' u.unit.uid x) ∧
    ∀ x info, c.quotas.lookup x = some info →
      ∃ info', c'.quotas.lookup x = some info' ∧
        (Above c q x →
          ∀ i k, amount (counter info' i) k = amount (counter info i) k - share i x u.unit res k) ∧
        (¬ Above c q x → info' = info)

/-- A reservation goes through, and whatever is done to other units in between,
the release takes back what it charged. -/
def RoundTrip (c : CacheImpl) (q : QuotaName) (u : QueueUnitInfo) : Prop :=
  ∃ res c₁, getReservedResource u.unit = some res ∧ reserve c q u = some (c₁, none) ∧ Charged c c₁ q u res ∧
    ∀ ops c₂, Guarded step (Elsewhere u.unit.uid) c₁ ops → exec step c₁ ops = some c₂ →
      ∀ v : QueueUnitInfo, v.unit.uid = u.unit.uid →
        ∃ c₃, unreserve c₂ q v = some (c₃, none) ∧ Discharged c₂ c₃ q u res

variable {c c' : CacheImpl} {q : QuotaName} {u : QueueUnitInfo} {res : Resource}

theorem addQueueUnit_some (hres : getReservedResource u.unit = some res) (x : QuotaName) (info : ElasticQuotaInfo) :
    ∃ info', addQueueUnit x u info = some info' := by
  rw [addQueueUnit, addQueueUnitInternal]
  split
  next => exact ⟨info, rfl⟩
  next => exact ⟨_, by rw [hres]; rfl⟩

theorem reserve_fresh (hrec : u.unit.uid ∉ c.reserved) (hq : q ∈ c.quotas) :
    reserve c q u = (visitFrom (fun q => addQueueUnit q u) c q).bind (fun quotas =>
      some ({ c with reserved := c.reserved.insert u.unit.uid q, quotas }, none)) := by
  rw [reserve, Finmap.lookup_eq_none.mpr hrec]
  simp only [hq, if_true]
  rfl

theorem reserve_charges (hrec : u.unit.uid ∉ c.reserved) (hheld : ∀ x, ¬ Held c u.unit.uid x) (hq : q ∈ c.quotas)
    (hres : getReservedResource u.unit = some res) : ∃ c₁, reserve c q u = some (c₁, none) ∧ Charged c c₁ q u res := by
  obtain ⟨quotas, hv⟩ := visitFrom_some (fun x info (_ : c.quotas.lookup x = some info) =>
    addQueueUnit_some hres x info) q
  refine ⟨{ c with reserved := c.reserved.insert u.unit.uid q, quotas }, ?_, rfl, ?_⟩
  · rw [reserve_fresh hrec hq, hv, Option.bind_some]
  · intro x info hinfo
    obtain ⟨info', hinfo', hx⟩ := visitFrom_some_of_lookup hq hv hinfo
    have hnot : u.unit.uid ∉ info.reserved.units := fun hm => hheld x ⟨info, hinfo, hm⟩
    refine ⟨info', hinfo', ?_, ?_⟩
    · intro habove
      rw [if_pos ((mem_chain_of_exists hq).mpr habove)] at hx
      refine ⟨?_, fun i k => amount_addQueueUnit hnot hres hx i k⟩
      obtain ⟨_, _, rfl⟩ := addQueueUnit_new hnot hx
      rw [charge_reserved]
      exact Finmap.lookup_insert _
    · intro habove
      rwa [if_neg (fun hm => habove ((mem_chain_of_exists hq).mp hm))] at hx

theorem deleteQueueUnit_some {v : QueueUnitInfo} {info : ElasticQuotaInfo}
    (h : ∀ old, info.reserved.units.lookup v.unit.uid = some old → getReservedResource old.unit ≠ none)
    (x : QuotaName) : ∃ info', deleteQueueUnit x v info = some info' := by
  rw [deleteQueueUnit, deleteQueueUnitInternal]
  split
  next => exact ⟨info, rfl⟩
  next old hold =>
    obtain ⟨res, hres⟩ := Option.ne_none_iff_exists'.mp (h old hold)
    rw [hres]
    exact ⟨_, rfl⟩

/-- The unit is recorded at `q`, held in this version by the quotas from there up and by no other. -/
structure Standing (c : CacheImpl) (q : QuotaName) (u : QueueUnitInfo) : Prop where
  exist : q ∈ c.quotas
  record : c.reserved.lookup u.unit.uid = some q
  on : ∀ x, Above c q x → storedAt c u.unit.uid x = some u
  off : ∀ x, ¬ Above c q x → storedAt c u.unit.uid x = none

omit [ResourceHelpers] in
theorem Standing.apart (h : Standing c q u) (ha : Apart u.unit.uid c c') : Standing c' q u := by
  have habove : ∀ x, Above c' q x ↔ Above c q x := by
    intro x
    rw [Above, Above, ha.parent, parentOf_congr c.quotaParent ha.mem]
  constructor
  · exact (ha.mem q).mpr h.exist
  · exact ha.record.trans h.record
  · exact fun x hx => (ha.stored x).trans (h.on x ((habove x).mp hx))
  · exact fun x hx => (ha.stored x).trans (h.off x (fun hx' => hx ((habove x).mpr hx')))

theorem standing_reserve (hheld : ∀ x, ¬ Held c u.unit.uid x) (hq : q ∈ c.quotas)
    (hr : reserve c q u = some (c', none)) (hc : Charged c c' q u res) : Standing c' q u := by
  have hf := frame_reserve hr
  have habove : ∀ x, Above c' q x ↔ Above c q x := by
    intro x
    rw [Above, Above, hf.parent, parentOf_congr c.quotaParent hf.mem]
  constructor
  · exact (hf.mem q).mpr hq
  · rw [hc.1, Finmap.lookup_insert]
  · intro x hx
    rw [habove] at hx
    obtain ⟨info, hinfo⟩ := Finmap.mem_iff.mp (exists_of_mem_chain ((mem_chain_of_exists hq).mpr hx))
    obtain ⟨info', hinfo', hon, _⟩ := hc.2 x info hinfo
    rw [storedAt_of_lookup hinfo']
    exact (hon hx).1
  · intro x hx
    rw [habove] at hx
    have hsame := hf.off x (fun hm => hx ((mem_chain_of_exists hq).mp hm))
    have hnone : storedAt c u.unit.uid x = none := by
      rw [Option.eq_none_iff_forall_ne_some]
      exact fun v hv => hheld x (held_iff_stored.mpr ⟨v, hv⟩)
    rw [storedAt, hsame]
    exact hnone

theorem unreserve_discharges {v : QueueUnitInfo} (h : Standing c q u) (huid : v.unit.uid = u.unit.uid)
    (hres : getReservedResource u.unit = some res) :
    ∃ c₃, unreserve c q v = some (c₃, none) ∧ Discharged c c₃ q u res := by
  have hstored : ∀ x info, c.quotas.lookup x = some info → ∀ old,
      info.reserved.units.lookup v.unit.uid = some old → old = u ∧ Above c q x := by
    intro x info hinfo old hold
    rw [huid, ← storedAt_of_lookup hinfo] at hold
    by_cases hx : Above c q x
    · rw [h.on x hx, Option.some.injEq] at hold
      exact ⟨hold.symm, hx⟩
    · rw [h.off x hx] at hold
      cases hold
  have hpriced : ∀ x info, c.quotas.lookup x = some info → ∀ old, info.reserved.units.lookup v.unit.uid = some old →
      getReservedResource old.unit ≠ none := by
    intro x info hinfo old hold
    rw [(hstored x info hinfo old hold).1, hres]
    exact Option.some_ne_none res
  obtain ⟨quotas, hv⟩ := visitFrom_some (fun x info hinfo => deleteQueueUnit_some (hpriced x info hinfo) x) q
  have hrec : v.unit.uid ∈ c.reserved := by
    rw [huid]
    exact Finmap.mem_iff.mpr ⟨q, h.record⟩
  refine ⟨{ c with reserved := c.reserved.erase v.unit.uid, quotas }, ?_, ?_, ?_, ?_⟩
  · rw [unreserve, if_pos hrec, if_pos h.exist, hv]
    rfl
  · rw [huid]
  · intro x hx
    obtain ⟨hold, hnot⟩ := (held_unreserve h.exist hv rfl u.unit.uid x).mp hx
    obtain ⟨w, hw⟩ := held_iff_stored.mp hold
    by_cases habove : Above c q x
    · exact hnot ⟨huid.symm, (mem_chain_of_exists h.exist).mpr habove⟩
    · rw [h.off x habove] at hw
      cases hw
  · intro x info hinfo
    obtain ⟨info', hinfo', hx⟩ := visitFrom_some_of_lookup h.exist hv hinfo
    refine ⟨info', hinfo', ?_, ?_⟩
    · intro habove i k
      rw [if_pos ((mem_chain_of_exists h.exist).mpr habove)] at hx
      have hold : info.reserved.units.lookup v.unit.uid = some u := by
        rw [huid, ← storedAt_of_lookup hinfo]
        exact h.on x habove
      exact amount_deleteQueueUnit hold hres hx i k
    · intro habove
      rwa [if_neg (fun hm => habove ((mem_chain_of_exists h.exist).mp hm))] at hx

theorem reserve_crashes (hrec : u.unit.uid ∉ c.reserved) (hheld : ∀ x, ¬ Held c u.unit.uid x) (hq : q ∈ c.quotas)
    (hres : getReservedResource u.unit = none) : reserve c q u = none := by
  obtain ⟨info, hinfo⟩ := Finmap.mem_iff.mp hq
  have hnot : u.unit.uid ∉ info.reserved.units := fun hm => hheld q ⟨info, hinfo, hm⟩
  have hadd : addQueueUnit q u info = none := by
    rw [addQueueUnit, if_neg hnot, addQueueUnitInternal, if_neg hnot, hres]
    rfl
  rw [reserve_fresh hrec hq, visitFrom, visitQuotas, hinfo]
  simp only [List.not_mem_nil, if_false, hadd]
  rfl

/-- For a unit that the cache knows nothing of, the round trip works exactly
when what the unit reserves can be computed: it has a podset for each admission,
or one of the two old forms. -/
theorem roundTrip_iff_chargeable (hrec : u.unit.uid ∉ c.reserved) (hheld : ∀ x, ¬ Held c u.unit.uid x)
    (hq : q ∈ c.quotas) : RoundTrip c q u ↔ Chargeable u.unit := by
  rw [← getReservedResource_ne_none_iff]
  constructor
  · rintro ⟨_, _, _, hreserve, _⟩ hnone
    rw [reserve_crashes hrec hheld hq hnone] at hreserve
    cases hreserve
  · intro hsome
    obtain ⟨res, hres⟩ := Option.ne_none_iff_exists'.mp hsome
    obtain ⟨c₁, hreserve, hcharged⟩ := reserve_charges hrec hheld hq hres
    refine ⟨res, c₁, hres, hreserve, hcharged, ?_⟩
    intro ops c₂ hops hrun v hv
    exact unreserve_discharges ((standing_reserve hheld hq hreserve hcharged).apart (apart_run hops hrun)) hv hres

end RoundTrip

def oneQuota : CacheImpl := addOrUpdateQuota buildCache (cpuQuota "a" koordRootQuota 10)

theorem not_held_oneQuota (uid : UID) (x : QuotaName) : ¬ Held oneQuota uid x := by
  rw [oneQuota, held_addOrUpdateQuota]
  rintro ⟨info, hinfo, _⟩
  cases hinfo

/-- Two chains of quotas that meet in the first one. -/
def forkedQuotas : CacheImpl :=
  [cpuQuota "p" koordRootQuota 10, cpuQuota "a" "p" 10, cpuQuota "b" "p" 10].foldl addOrUpdateQuota buildCache

theorem roundTrip_forkedQuotas :
    @RoundTrip noPods forkedQuotas "a" { name := partialUnit.key, unit := partialUnit } := by
  have hheld : ∀ x, ¬ Held forkedQuotas partialUnit.uid x := by
    intro x
    simp only [forkedQuotas, List.foldl_cons, List.foldl_nil, held_addOrUpdateQuota]
    rintro ⟨info, hinfo, _⟩
    cases hinfo
  refine (@roundTrip_iff_chargeable noPods forkedQuotas "a" _ (by decide) hheld (by decide)).mpr (.inr (.inr ?_))
  simp [partialUnit, HasPodSet]

def strandedUnit : QueueUnitInfo where
  name := partialUnit.key
  unit := { partialUnit with spec := { podSets := [] } }

/-- Such a unit takes the whole process down when it is reserved. -/
theorem not_roundTrip_stranded : strandedUnit.unit.uid ∉ oneQuota.reserved ∧
    (∀ x, ¬ Held oneQuota strandedUnit.unit.uid x) ∧ "a" ∈ oneQuota.quotas ∧
      @reserve noPods oneQuota "a" strandedUnit = none ∧ ¬ @RoundTrip noPods oneQuota "a" strandedUnit := by
  have hcrash : @reserve noPods oneQuota "a" strandedUnit = none := by decide
  refine ⟨by decide, not_held_oneQuota _, by decide, hcrash, ?_⟩
  rintro ⟨_, _, _, hreserve, _⟩
  rw [hcrash] at hreserve
  cases hreserve

/-- A resize that reports an error has changed the cache exactly when the label
changed and the unit was recorded and could be released from the old quota. -/
theorem resize_failed_unchanged_iff [ResourceHelpers] {c c' : CacheImpl} {old new : QueueUnitInfo} {e : String}
    (h : resize c old new = some (c', some e)) :
    c' = c ↔ ¬ (getQuotaName old.unit ≠ getQuotaName new.unit ∧ old.unit.uid ∈ c.reserved ∧
      getQuotaName old.unit ∈ c.quotas) := by
  rcases resize_cases h with ⟨he, h⟩ | ⟨hne, _, h⟩ | ⟨hne, mid, hold, hnew⟩
  · have hsame : c' = c := by
      rw [resizeInPlace] at h
      split at h
      next =>
        split at h
        next =>
          obtain ⟨quotas, _, h⟩ := Option.bind_eq_some_iff.mp h
          cases h
        next =>
          cases h
          rfl
      next => cases h
    exact iff_of_true hsame (fun hch => hch.1 he)
  · rcases unreserve_cases h with ⟨_, _, hnone⟩ | ⟨rfl, _, hq, _⟩ | ⟨_, _, hnone, _⟩
    · cases hnone
    · exact iff_of_true rfl (fun hch => hq hch.2.2)
    · cases hnone
  · have hend : c' = mid := by
      rcases reserve_cases hnew with ⟨rfl, _⟩ | ⟨_, _, hnone, _⟩
      · rfl
      · cases hnone
    subst c'
    rcases unreserve_cases hold with ⟨rfl, hu, _⟩ | ⟨_, _, _, hnone⟩ | ⟨hu, hq, _, quotas, _, rfl⟩
    · exact iff_of_true rfl (fun hch => hu hch.2.1)
    · exact absurd rfl hnone
    · refine iff_of_false ?_ (not_not.mpr ⟨hne, hu, hq⟩)
      intro heq
      have hrec : c.reserved.erase old.unit.uid = c.reserved := congrArg CacheImpl.reserved heq
      rw [← hrec] at hu
      exact (Finmap.mem_erase.mp hu).1 rfl

/-- Relabelling a unit that is not reserved to a quota that does not exist fails and changes nothing. -/
theorem failed_resize_harmless : ∃ e c', @resize noPods oneQuota (cpuUnitInfo "u" "a" 6 .dequeued)
    (cpuUnitInfo "u" "b" 6 .dequeued) = some (c', some e) ∧ c' = oneQuota := by
  have h : (@resize noPods oneQuota (cpuUnitInfo "u" "a" 6 .dequeued)
      (cpuUnitInfo "u" "b" 6 .dequeued)).any (fun r => r.2.isSome) = true := by decide
  obtain ⟨⟨c', err⟩, hr, herr⟩ := (Option.any_eq_true _ _).mp h
  obtain ⟨e, rfl⟩ := Option.isSome_iff_exists.mp herr
  exact ⟨e, c', hr, (@resize_failed_unchanged_iff noPods _ _ _ _ _ hr).mpr (by decide)⟩

/-- The same for a unit that is reserved takes its charge away. -/
theorem failed_resize_releases : ∃ c e c', @reserve noPods oneQuota "a" (cpuUnitInfo "u" "a" 6 .dequeued) = some (c, none) ∧
    @resize noPods c (cpuUnitInfo "u" "a" 6 .dequeued) (cpuUnitInfo "u" "b" 6 .dequeued) = some (c', some e) ∧
      Held c "u" "a" ∧ ¬ Held c' "u" "a" := by
  have h : (@reserve noPods oneQuota "a" (cpuUnitInfo "u" "a" 6 .dequeued)).any (fun r =>
      decide (r.2 = none) && (r.1.quotas.lookup "a").any (fun info => "u" ∈ info.reserved.units) &&
        (@resize noPods r.1 (cpuUnitInfo "u" "a" 6 .dequeued) (cpuUnitInfo "u" "b" 6 .dequeued)).any (fun r' =>
          r'.2.isSome && (r'.1.quotas.lookup "a").all (fun info => "u" ∉ info.reserved.units))) = true := by
    decide
  obtain ⟨⟨c, err⟩, hr, hrest⟩ := (Option.any_eq_true _ _).mp h
  simp only [Bool.and_eq_true, decide_eq_true_eq] at hrest
  obtain ⟨⟨rfl, hheld⟩, hresize⟩ := hrest
  obtain ⟨info, hinfo, hmem⟩ := (Option.any_eq_true _ _).mp hheld
  obtain ⟨⟨c', err'⟩, hr', hrest'⟩ := (Option.any_eq_true _ _).mp hresize
  obtain ⟨herr', hgone⟩ := Bool.and_eq_true_iff.mp hrest'
  obtain ⟨e, rfl⟩ := Option.isSome_iff_exists.mp herr'
  refine ⟨c, e, c', hr, hr', ⟨info, hinfo, of_decide_eq_true hmem⟩, ?_⟩
  rintro ⟨info', hinfo', hmem'⟩
  rw [hinfo', Option.all_some, decide_eq_true_eq] at hgone
  exact hgone hmem'

end KoordQueue.Quota.Reversal
