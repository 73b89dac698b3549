import KoordQueue.Quota.Holding
import KoordQueue.Lib.Run

namespace KoordQueue.Quota.Conservation

open Api UnitInfo Info Cache Chain Holding ParentWalk

inductive CacheOp
  | reserve (quota : QuotaName) (queueUnit : QueueUnitInfo)
  | unreserve (quota : QuotaName) (queueUnit : QueueUnitInfo)
  | resize (old new : QueueUnitInfo)
  | addOrUpdateQuota (q : ElasticQuota)
  | deleteQuota (q : ElasticQuota)

def step [ResourceHelpers] (c : CacheImpl) : CacheOp → Option CacheImpl
  | .reserve quota queueUnit => (reserve c quota queueUnit).map Prod.fst
  | .unreserve quota queueUnit => (unreserve c quota queueUnit).map Prod.fst
  | .resize old new => (resize c old new).map Prod.fst
  | .addOrUpdateQuota q => some (addOrUpdateQuota c q)
  | .deleteQuota q => some (deleteQuota c q)

/-- The links that `addOrUpdateQuota` and `deleteQuota` write. -/
def OnChain (quotaParent : GoMap QuotaName QuotaName) (r x : QuotaName) : Prop :=
  Leads (fun q => quotaParent.lookup q) r x

/-- Each quota holds the units recorded at a quota below it, and no other. -/
def Conserved (c : CacheImpl) : Prop :=
  ∀ uid q info, c.quotas.lookup q = some info →
    (uid ∈ info.reserved.units ↔ ∃ r, c.reserved.lookup uid = some r ∧ OnChain c.quotaParent r q)

/-- A change of the tree after which `quotaParent` are the links and `exist`
the quotas leaves every recorded chain as it was. -/
def KeepsChains (c : CacheImpl) (quotaParent : GoMap QuotaName QuotaName) (exist : QuotaName → Prop) : Prop :=
  ∀ uid r, c.reserved.lookup uid = some r → ∀ x, exist x →
    (OnChain quotaParent r x ↔ x ∈ c.quotas ∧ OnChain c.quotaParent r x)

/-- A release names the recorded quota or one below it, and the tree is not
changed above a quota that has units recorded. -/
def Allowed (c : CacheImpl) : CacheOp → Prop
  | .reserve _ _ => True
  | .unreserve quota queueUnit => ∀ r, c.reserved.lookup queueUnit.unit.uid = some r →
      quota ∈ c.quotas → r ∈ c.quotas → OnChain c.quotaParent quota r
  | .resize old new => getQuotaName old.unit ≠ getQuotaName new.unit →
      ∀ r, c.reserved.lookup old.unit.uid = some r → getQuotaName old.unit ∈ c.quotas → r ∈ c.quotas →
        OnChain c.quotaParent (getQuotaName old.unit) r ∨
          new.unit.uid = old.unit.uid ∧ getQuotaName new.unit ∈ c.quotas ∧
            OnChain c.quotaParent (getQuotaName new.unit) r
  | .addOrUpdateQuota q => KeepsChains c (c.quotaParent.insert q.name (getParentQuotaName q))
      (fun x => x = q.name ∨ x ∈ c.quotas)
  | .deleteQuota q => KeepsChains c (c.quotaParent.erase q.name) (fun x => x ≠ q.name ∧ x ∈ c.quotas)

def Linked (c : CacheImpl) : Prop := ∀ q, q ∈ c.quotaParent ↔ q ∈ c.quotas

variable {c : CacheImpl} {r : QuotaName}

theorem onChain_iff_mem_chain (hc : Linked c) {x : QuotaName} (hx : x ∈ c.quotas) :
    OnChain c.quotaParent r x ↔ x ∈ chain c r := by
  constructor
  · intro h
    induction h using Relation.ReflTransGen.head_induction_on with
    | refl => exact self_mem_chain hx
    | @head a b hab _ ih =>
      have ha : a ∈ c.quotas := (hc a).mp (Finmap.mem_iff.mpr ⟨b, hab⟩)
      have hb := (mem_chain_iff c b x).mp ih
      have hpar : parentOf c.quotaParent c.quotas a = some b :=
        (parentOf_eq_some c.quotaParent).mpr ⟨hab, hb.1⟩
      exact (mem_chain_iff c a x).mpr ⟨ha, .head hpar hb.2⟩
  · intro h
    exact Relation.ReflTransGen.mono (fun a b hab => ((parentOf_eq_some c.quotaParent).mp hab).1)
      r x ((mem_chain_iff c r x).mp h).2

theorem conserved_iff_agrees (hc : Linked c) : Conserved c ↔ ∀ uid, Agrees c uid := by
  constructor
  · intro h uid x
    constructor
    · rintro ⟨info, hinfo, hmem⟩
      obtain ⟨r, hr, hchain⟩ := (h uid x info hinfo).mp hmem
      exact ⟨r, hr, (onChain_iff_mem_chain hc (Finmap.mem_iff.mpr ⟨info, hinfo⟩)).mp hchain⟩
    · rintro ⟨r, hr, hchain⟩
      have hx := exists_of_mem_chain hchain
      obtain ⟨info, hinfo⟩ := Finmap.mem_iff.mp hx
      exact ⟨info, hinfo, (h uid x info hinfo).mpr ⟨r, hr, (onChain_iff_mem_chain hc hx).mpr hchain⟩⟩
  · intro h uid x info hinfo
    have hx : x ∈ c.quotas := Finmap.mem_iff.mpr ⟨info, hinfo⟩
    have hheld : Held c uid x ↔ uid ∈ info.reserved.units := by
      simp [Held, hinfo]
    rw [← hheld, h uid x]
    simp only [onChain_iff_mem_chain hc hx]

theorem linked_congr {c' : CacheImpl} (hc : Linked c) (hparent : c'.quotaParent = c.quotaParent)
    (hmem : ∀ x, x ∈ c'.quotas ↔ x ∈ c.quotas) : Linked c' := by
  intro q
  rw [hparent, hmem, hc q]

theorem released_iff {uid : UID} (ha : Agrees c uid) (hr : c.reserved.lookup uid = some r) (p : QuotaName → Prop)
    (hup : ∀ a b, p a → b ∈ chain c a → p b) : (∀ x, Held c uid x → p x) ↔ (r ∈ c.quotas → p r) := by
  have hheld : ∀ x, Held c uid x ↔ x ∈ chain c r := by
    intro x
    rw [ha x]
    simp [hr]
  constructor
  · intro h hq
    exact h r ((hheld r).mpr (self_mem_chain hq))
  · intro h x hx
    have hchain := (hheld x).mp hx
    exact hup r x (h ((mem_chain_iff c r x).mp hchain).1) hchain

section Steps

variable [ResourceHelpers] {c c' : CacheImpl} {q : QuotaName} {u : QueueUnitInfo} {err : Option String}

theorem agrees_reserve_all (ha : ∀ uid, Agrees c uid) (h : reserve c q u = some (c', err)) : ∀ uid, Agrees c' uid := by
  rcases reserve_cases h with ⟨rfl, _⟩ | ⟨hu, hq, _, quotas, hv, hc'⟩
  · exact ha
  · intro uid
    rw [agrees_reserve hq hv hc']
    split
    next he =>
      subst uid
      intro x hx
      obtain ⟨r, hr, _⟩ := (ha u.unit.uid x).mp hx
      exact absurd (Finmap.mem_iff.mpr ⟨r, hr⟩) hu
    next => exact ha uid

theorem agrees_unreserve_all (ha : ∀ uid, Agrees c uid) (h : unreserve c q u = some (c', err)) :
    (∀ uid, Agrees c' uid) ↔ ∀ r, c.reserved.lookup u.unit.uid = some r → q ∈ c.quotas → r ∈ c.quotas →
      r ∈ chain c q := by
  rcases unreserve_cases h with ⟨rfl, hu, _⟩ | ⟨rfl, _, hq, _⟩ | ⟨hu, hq, _, quotas, hv, hc'⟩
  · simp [ha, Finmap.lookup_eq_none.mpr hu]
  · simp [ha, hq]
  · obtain ⟨r, hr⟩ := Finmap.mem_iff.mp hu
    have hrel := released_iff (ha u.unit.uid) hr (· ∈ chain c q) (fun _ _ => chain_trans)
    simp only [agrees_unreserve hq hv hc', hr, Option.some.injEq, forall_eq', hq, true_implies]
    rw [← hrel]
    constructor
    · intro hall
      simpa using hall u.unit.uid
    · intro hx uid
      split
      next he =>
        subst uid
        exact hx
      next => exact ha uid

theorem agrees_resizeInPlace_all (ha : ∀ uid, Agrees c uid) (h : resizeInPlace c q u = some (c', err)) :
    ∀ uid, Agrees c' uid := by
  rcases resizeInPlace_cases h with rfl | ⟨hq, quotas, hv, rfl⟩
  · exact ha
  · intro uid
    refine (agrees_congr ?_ ?_ ?_ ?_).mpr (ha uid)
    · exact held_resizeInPlace hq hv rfl uid
    · rfl
    · rfl
    · exact mem_visitQuotas c.quotaParent _ hv

theorem agrees_reserve_iff (hu : Agrees c u.unit.uid) (h : reserve c q u = some (c', err)) :
    (∀ uid, Agrees c' uid) ↔ ∀ uid, Agrees c uid := by
  refine ⟨?_, fun ha => agrees_reserve_all ha h⟩
  rcases reserve_cases h with ⟨rfl, _⟩ | ⟨_, hq, _, quotas, hv, hc'⟩
  · exact id
  · intro hall uid
    by_cases he : uid = u.unit.uid
    · rw [he]
      exact hu
    · have hother := (agrees_reserve hq hv hc' uid).mp (hall uid)
      rwa [if_neg he] at hother

section Move

variable {mid : CacheImpl} {p r : QuotaName} {old : QueueUnitInfo} {quotas : GoMap QuotaName ElasticQuotaInfo}

theorem agrees_released (ha : ∀ uid, Agrees c uid) (hp : p ∈ c.quotas)
    (hv : visitFrom (fun q => deleteQueueUnit q old) c p = some quotas)
    (hc : mid = { c with reserved := c.reserved.erase old.unit.uid, quotas }) {uid : UID}
    (hne : uid ≠ old.unit.uid) : Agrees mid uid := by
  rw [agrees_unreserve hp hv hc, if_neg hne]
  exact ha uid

/-- The unit is released under `p` and charged under `q`: the chains of the two have to hold the
recorded quota. -/
theorem agrees_moved (ha : ∀ uid, Agrees c uid) (hr : c.reserved.lookup old.unit.uid = some r) (hp : p ∈ c.quotas)
    (hv : visitFrom (fun q => deleteQueueUnit q old) c p = some quotas)
    (hc : mid = { c with reserved := c.reserved.erase old.unit.uid, quotas })
    (hchain : ∀ x, x ∈ chain mid q ↔ x ∈ chain c q) (he : u.unit.uid = old.unit.uid) (hq : q ∈ mid.quotas)
    (hnew : reserve mid q u = some (c', err)) :
    (∀ uid, Agrees c' uid) ↔ (r ∈ c.quotas → r ∈ chain c p ∨ r ∈ chain c q) := by
  have hheld := held_unreserve hp hv (congrArg CacheImpl.quotas hc)
  have hrel := released_iff (ha old.unit.uid) hr (fun x => x ∈ chain c p ∨ x ∈ chain c q)
    (fun a b hab hb => hab.imp (fun h => chain_trans h hb) (fun h => chain_trans h hb))
  have hfresh : u.unit.uid ∉ mid.reserved := by
    rw [hc, he]
    exact fun h => (Finmap.mem_erase.mp h).1 rfl
  rcases reserve_cases hnew with ⟨_, hin | hout⟩ | ⟨_, _, _, quotas', hv', hc'⟩
  · exact absurd hin hfresh
  · exact absurd hq hout
  · have hstep := agrees_reserve hq hv' hc'
    simp only [he, hchain] at hstep
    rw [← hrel]
    constructor
    · intro hall x hx
      have hself := (hstep old.unit.uid).mp (hall old.unit.uid)
      rw [if_pos rfl] at hself
      by_cases hxp : x ∈ chain c p
      · exact Or.inl hxp
      · exact Or.inr (hself x ((hheld old.unit.uid x).mpr ⟨hx, fun h => hxp h.2⟩))
    · intro hall uid
      rw [hstep]
      split
      next hu =>
        subst uid
        intro x hx
        obtain ⟨hxc, hxp⟩ := (hheld old.unit.uid x).mp hx
        exact (hall x hxc).resolve_left (fun h => hxp ⟨rfl, h⟩)
      next hu => exact agrees_released ha hp hv hc hu

theorem agrees_move_all (ha : ∀ uid, Agrees c uid)
    (hold : unreserve c p old = some (mid, none)) (hnew : reserve mid q u = some (c', err)) :
    (∀ uid, Agrees c' uid) ↔ ∀ r, c.reserved.lookup old.unit.uid = some r → p ∈ c.quotas → r ∈ c.quotas →
      r ∈ chain c p ∨ u.unit.uid = old.unit.uid ∧ q ∈ c.quotas ∧ r ∈ chain c q := by
  have hmem := (frame_unreserve hold).mem
  have hmid := agrees_unreserve_all ha hold
  rcases unreserve_cases hold with ⟨rfl, hu, _⟩ | ⟨_, _, _, hne⟩ | ⟨hu, hp, _, quotas, hv, hc⟩
  · simp [agrees_reserve_all ha hnew, Finmap.lookup_eq_none.mpr hu]
  · exact absurd rfl hne
  · obtain ⟨r, hr⟩ := Finmap.mem_iff.mp hu
    simp only [hr, hp, Option.some.injEq, forall_eq', true_implies] at hmid ⊢
    by_cases he : u.unit.uid = old.unit.uid
    · by_cases hq : q ∈ c.quotas
      · have hchain := chain_congr (frame_unreserve hold).parent hmem q
        simpa only [he, hq, true_and] using agrees_moved ha hr hp hv hc hchain he ((hmem q).mpr hq) hnew
      · obtain ⟨rfl, _⟩ | ⟨_, hin, _⟩ := reserve_cases hnew
        · simpa only [hq, false_and, and_false, or_false] using hmid
        · exact absurd ((hmem q).mp hin) hq
    · rw [agrees_reserve_iff (agrees_released ha hp hv hc he) hnew, hmid]
      simp only [he, false_and, or_false]

end Move

end Steps

end KoordQueue.Quota.Conservation
