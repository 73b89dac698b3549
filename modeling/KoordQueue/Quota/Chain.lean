import KoordQueue.Quota.Cache
import KoordQueue.Lib.ParentWalk

namespace KoordQueue.Quota.Chain

open Api UnitInfo Info Cache ParentWalk

section Visit

variable (quotaParent : GoMap QuotaName QuotaName)

def parentOf (quotas : GoMap QuotaName ElasticQuotaInfo) (q : QuotaName) : Option QuotaName :=
  (quotaParent.lookup q).filter (· ∈ quotas)

variable {quotas quotas' : GoMap QuotaName ElasticQuotaInfo} {visited : List QuotaName} {n : Nat} {q : QuotaName}

theorem parentOf_eq_some {p : QuotaName} :
    parentOf quotaParent quotas q = some p ↔ quotaParent.lookup q = some p ∧ p ∈ quotas := by
  simp [parentOf, Option.filter_eq_some_iff]

theorem parentOf_congr
    (h : ∀ q, q ∈ quotas' ↔ q ∈ quotas) : parentOf quotaParent quotas' = parentOf quotaParent quotas := by
  funext q
  simp only [parentOf, h]

variable (visit : QuotaName → ElasticQuotaInfo → Option ElasticQuotaInfo)

theorem mem_insert_existing (hq : q ∈ quotas) (info : ElasticQuotaInfo) (x : QuotaName) :
    x ∈ quotas.insert q info ↔ x ∈ quotas := by
  rw [Finmap.mem_insert]
  constructor
  · rintro (rfl | h)
    · exact hq
    · exact h
  · exact Or.inr

theorem visitQuotas_of_not_mem (hq : q ∉ quotas) : visitQuotas visit quotaParent n visited q quotas = some quotas := by
  cases n with
  | zero => rfl
  | succ n => simp only [visitQuotas, Finmap.lookup_eq_none.mpr hq]

theorem lookup_insert_visited
    {info info' : ElasticQuotaInfo} (hinfo : quotas.lookup q = some info) (hvisit : visit q info = some info')
    (x : QuotaName) :
    (quotas.insert q info').lookup x =
      if x ∈ [q] then (quotas.lookup x).bind (visit x) else quotas.lookup x := by
  rw [GoMap.lookup_insert_eq]
  by_cases hx : x = q
  · subst x
    simp [hinfo, hvisit]
  · simp [hx]

theorem lookup_visitQuotas (hq : q ∈ quotas)
    (h : visitQuotas visit quotaParent n visited q quotas = some quotas') (x : QuotaName) :
    quotas'.lookup x =
      if x ∈ walk (parentOf quotaParent quotas) n visited q then (quotas.lookup x).bind (visit x)
      else quotas.lookup x := by
  induction n generalizing visited q quotas with
  | zero =>
    cases h
    simp [walk]
  | succ n ih =>
    obtain ⟨info, hinfo⟩ := Finmap.mem_iff.mp hq
    simp only [visitQuotas, hinfo] at h
    rw [walk]
    split at h
    next hv =>
      cases h
      simp [hv]
    next hv =>
      obtain ⟨info', hvisit, h⟩ := Option.bind_eq_some_iff.mp h
      have hmem := mem_insert_existing hq info'
      have hcongr := parentOf_congr quotaParent hmem
      rw [if_neg hv]
      cases hp : quotaParent.lookup q with
      | none =>
        simp only [hp, Option.some.injEq] at h
        subst quotas'
        have hnone : parentOf quotaParent quotas q = none := by simp [parentOf, hp]
        rw [hnone]
        exact lookup_insert_visited visit hinfo hvisit x
      | some p =>
        simp only [hp] at h
        by_cases hpq : p ∈ quotas
        · have hsome : parentOf quotaParent quotas q = some p :=
            (parentOf_eq_some quotaParent).mpr ⟨hp, hpq⟩
          rw [ih ((hmem p).mpr hpq) h, hcongr, hsome]
          by_cases hx : x = q
          · subst x
            have hfresh : q ∉ walk (parentOf quotaParent quotas) n (q :: visited) p :=
              fun hw => walk_fresh hw List.mem_cons_self
            simp [hfresh, hinfo, hvisit]
          · simp [hx]
        · have hnone : parentOf quotaParent quotas q = none := by
            simp [parentOf, hp, hpq]
          rw [visitQuotas_of_not_mem quotaParent visit (mt (hmem p).mp hpq), Option.some.injEq] at h
          subst quotas'
          rw [hnone]
          exact lookup_insert_visited visit hinfo hvisit x

theorem mem_visitQuotas (h : visitQuotas visit quotaParent n visited q quotas = some quotas') (x : QuotaName) :
    x ∈ quotas' ↔ x ∈ quotas := by
  induction n generalizing visited q quotas with
  | zero =>
    cases h
    rfl
  | succ n ih =>
    rw [visitQuotas] at h
    split at h
    next =>
      cases h
      rfl
    next info hinfo =>
      have hmem := mem_insert_existing (Finmap.mem_iff.mpr ⟨info, hinfo⟩)
      split at h
      next =>
        cases h
        rfl
      next =>
        obtain ⟨info', _, h⟩ := Option.bind_eq_some_iff.mp h
        split at h
        next => rw [ih h, hmem info']
        next =>
          cases h
          exact hmem info' x

theorem visitQuotas_some
    (h : ∀ x, x ∉ visited → ∀ info, quotas.lookup x = some info → ∃ info', visit x info = some info') :
    ∃ quotas', visitQuotas visit quotaParent n visited q quotas = some quotas' := by
  induction n generalizing visited q quotas with
  | zero => exact ⟨quotas, rfl⟩
  | succ n ih =>
    rw [visitQuotas]
    split
    next => exact ⟨quotas, rfl⟩
    next info hinfo =>
      split
      next => exact ⟨quotas, rfl⟩
      next hv =>
        obtain ⟨info', hvisit⟩ := h q hv info hinfo
        rw [hvisit]
        simp only [Option.bind_eq_bind, Option.bind_some]
        split
        next p hp =>
          apply ih
          intro x hx i hi
          have hxq : x ≠ q := fun he => hx (he ▸ List.mem_cons_self)
          rw [Finmap.lookup_insert_of_ne _ hxq] at hi
          exact h x (fun hxv => hx (List.mem_cons_of_mem q hxv)) i hi
        next => exact ⟨_, rfl⟩

end Visit

/-- The quotas that a call naming `q` walks over, in order. -/
def chain (c : CacheImpl) (q : QuotaName) : List QuotaName :=
  if q ∈ c.quotas then walk (parentOf c.quotaParent c.quotas) (c.quotas.keys.card + 1) [] q else []

theorem mem_chain_iff (c : CacheImpl) (q x : QuotaName) :
    x ∈ chain c q ↔ q ∈ c.quotas ∧ Leads (parentOf c.quotaParent c.quotas) q x := by
  rw [chain]
  split
  next hq =>
    have hclosed : ∀ a ∈ c.quotas.keys, ∀ b,
        parentOf c.quotaParent c.quotas a = some b → b ∈ c.quotas.keys := by
      intro a _ b hb
      exact Finmap.mem_keys.mpr ((parentOf_eq_some c.quotaParent).mp hb).2
    rw [mem_walk_iff hclosed (Finmap.mem_keys.mpr hq)]
    simp [hq]
  next hq => simp [hq]

theorem exists_of_mem_chain {c : CacheImpl} {q x : QuotaName} (h : x ∈ chain c q) : x ∈ c.quotas := by
  obtain ⟨hq, hl⟩ := (mem_chain_iff c q x).mp h
  cases hl with
  | refl => exact hq
  | tail _ hnext => exact ((parentOf_eq_some c.quotaParent).mp hnext).2

variable {c c' : CacheImpl} {quotas' : GoMap QuotaName ElasticQuotaInfo} {q x : QuotaName}
  {visit : QuotaName → ElasticQuotaInfo → Option ElasticQuotaInfo}

theorem self_mem_chain (hq : q ∈ c.quotas) : q ∈ chain c q :=
  (mem_chain_iff c q q).mpr ⟨hq, .refl⟩

theorem chain_trans {r : QuotaName} (hr : r ∈ chain c q) (hx : x ∈ chain c r) : x ∈ chain c q := by
  obtain ⟨hq, hqr⟩ := (mem_chain_iff c q r).mp hr
  exact (mem_chain_iff c q x).mpr ⟨hq, hqr.trans ((mem_chain_iff c r x).mp hx).2⟩

theorem chain_congr (hparent : c'.quotaParent = c.quotaParent)
    (hmem : ∀ x, x ∈ c'.quotas ↔ x ∈ c.quotas) (q x : QuotaName) : x ∈ chain c' q ↔ x ∈ chain c q := by
  rw [mem_chain_iff, mem_chain_iff, hparent, parentOf_congr c.quotaParent hmem, hmem]

theorem lookup_visitFrom (hq : q ∈ c.quotas) (h : visitFrom visit c q = some quotas') (x : QuotaName) :
    quotas'.lookup x =
      if x ∈ chain c q then (c.quotas.lookup x).bind (visit x) else c.quotas.lookup x := by
  rw [lookup_visitQuotas c.quotaParent visit hq h, chain, if_pos hq]

theorem visitFrom_some
    (h : ∀ x info, c.quotas.lookup x = some info → ∃ info', visit x info = some info') (q : QuotaName) :
    ∃ quotas', visitFrom visit c q = some quotas' :=
  visitQuotas_some c.quotaParent visit (fun x _ info hinfo => h x info hinfo)

theorem visitFrom_lookup_some (hq : q ∈ c.quotas) (h : visitFrom visit c q = some quotas') {info' : ElasticQuotaInfo}
    (hx : quotas'.lookup x = some info') :
    ∃ info, c.quotas.lookup x = some info ∧
      if x ∈ chain c q then visit x info = some info' else info' = info := by
  rw [lookup_visitFrom hq h] at hx
  split at hx
  next hc =>
    obtain ⟨info, hinfo, hv⟩ := Option.bind_eq_some_iff.mp hx
    exact ⟨info, hinfo, by rwa [if_pos hc]⟩
  next hc => exact ⟨info', hx, by rw [if_neg hc]⟩

theorem visitFrom_some_of_lookup (hq : q ∈ c.quotas) (h : visitFrom visit c q = some quotas') {info : ElasticQuotaInfo}
    (hx : c.quotas.lookup x = some info) :
    ∃ info', quotas'.lookup x = some info' ∧
      if x ∈ chain c q then visit x info = some info' else info' = info := by
  have hmem : x ∈ quotas' := (mem_visitQuotas c.quotaParent visit h x).mpr (Finmap.mem_iff.mpr ⟨info, hx⟩)
  obtain ⟨info', hinfo'⟩ := Finmap.mem_iff.mp hmem
  obtain ⟨i, hi, hv⟩ := visitFrom_lookup_some hq h hinfo'
  rw [hx, Option.some.injEq] at hi
  subst i
  exact ⟨info', hinfo', hv⟩

/-- A call that walked from `q` left the tree and the quotas off the chain alone. -/
structure Frame (c c' : CacheImpl) (q : QuotaName) : Prop where
  parent : c'.quotaParent = c.quotaParent
  mem : ∀ x, x ∈ c'.quotas ↔ x ∈ c.quotas
  off : ∀ x, x ∉ chain c q → c'.quotas.lookup x = c.quotas.lookup x

theorem Frame.of_eq (q : QuotaName) (hparent : c'.quotaParent = c.quotaParent)
    (hquotas : c'.quotas = c.quotas) : Frame c c' q :=
  ⟨hparent, fun _ => by rw [hquotas], fun _ _ => by rw [hquotas]⟩

theorem Frame.of_visitFrom (hq : q ∈ c.quotas) (hparent : c'.quotaParent = c.quotaParent)
    (h : visitFrom visit c q = some c'.quotas) : Frame c c' q where
  parent := hparent
  mem := mem_visitQuotas c.quotaParent visit h
  off := by
    intro x hx
    rw [lookup_visitFrom hq h, if_neg hx]

theorem Frame.chain (h : Frame c c' q) (p x : QuotaName) :
    x ∈ chain c' p ↔ x ∈ Chain.chain c p := chain_congr h.parent h.mem p x

theorem Frame.trans {c'' : CacheImpl} (h : Frame c c' q) (h' : Frame c' c'' q) : Frame c c'' q where
  parent := h'.parent.trans h.parent
  mem := fun x => (h'.mem x).trans (h.mem x)
  off := by
    intro x hx
    rw [h'.off x (fun hc => hx ((h.chain q x).mp hc)), h.off x hx]

section Calls

variable [ResourceHelpers] {c c' : CacheImpl} {q : QuotaName} {u : QueueUnitInfo} {err : Option String}

theorem frame_reserve (h : reserve c q u = some (c', err)) : Frame c c' q := by
  rcases reserve_cases h with ⟨rfl, _⟩ | ⟨_, hq, _, quotas, hv, rfl⟩
  · exact .of_eq q rfl rfl
  · exact .of_visitFrom hq rfl hv

theorem frame_unreserve (h : unreserve c q u = some (c', err)) : Frame c c' q := by
  rcases unreserve_cases h with ⟨rfl, _⟩ | ⟨rfl, _⟩ | ⟨_, hq, _, quotas, hv, rfl⟩
  · exact .of_eq q rfl rfl
  · exact .of_eq q rfl rfl
  · exact .of_visitFrom hq rfl hv

theorem frame_resizeInPlace (h : resizeInPlace c q u = some (c', err)) : Frame c c' q := by
  rcases resizeInPlace_cases h with rfl | ⟨hq, quotas, hv, rfl⟩
  · exact .of_eq q rfl rfl
  · exact .of_visitFrom hq rfl hv

end Calls

end KoordQueue.Quota.Chain
