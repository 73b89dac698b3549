import KoordQueue.Quota.Chain
import Mathlib.Tactic.Linarith

namespace KoordQueue.Quota.CheckUsage

open Api Resources UnitInfo Info Cache Chain ParentWalk

theorem checkUsage_room {q : QuotaName} {u : QueueUnitInfo} {info : ElasticQuotaInfo}
    (h : Info.checkUsage q u 1 info = .ok ()) {k : ResourceName} {m : Int64}
    (hk : k ∈ (newResource u.unit.spec.resource).resources) (hm : info.max.lookup k = some m) :
    (amount info.used k).toInt + (amount (newResource u.unit.spec.resource).resources k).toInt ≤ m.toInt := by
  rw [Info.checkUsage] at h
  split at h
  next => cases h
  next =>
    split at h
    next => cases h
    next hnone =>
      rw [not_not] at hnone
      have hnot : k ∉ checkResource info.max info.used (newResource u.unit.spec.resource).resources 1 := by
        rw [hnone]
        exact Finset.notMem_empty k
      rw [checkResource, Finset.mem_filter] at hnot
      simp only [Finmap.mem_keys, hk, hm, Option.any_some, decide_eq_true_eq, true_and, mul_one, not_lt] at hnot
      have : ((amount info.used k).toInt : ℚ) +
          ((amount (newResource u.unit.spec.resource).resources k).toInt : ℚ) ≤ (m.toInt : ℚ) := by linarith
      exact_mod_cast this

/-- Nothing stands above the root. -/
def RootOnTop (c : CacheImpl) : Prop := ∀ p, parentOf c.quotaParent c.quotas koordRootQuota ≠ some p

theorem RootOnTop.leads {c : CacheImpl} (h : RootOnTop c) {x : QuotaName}
    (hx : Leads (parentOf c.quotaParent c.quotas) koordRootQuota x) : x = koordRootQuota := by
  rcases Relation.ReflTransGen.cases_head hx with rfl | ⟨p, hp, _⟩
  · rfl
  · exact absurd hp (h p)

section Path

variable {c : CacheImpl} {u : QueueUnitInfo} {rate : ℚ}

variable {c' : CacheImpl} {visited : List QuotaName} {n : Nat} {q x : QuotaName}

theorem checkUsagePath_ok (hroot : RootOnTop c) (h : checkUsagePath c u rate n visited q = .ok ())
    (hx : Leads (parentOf c.quotaParent c.quotas) q x) (hne : x ≠ koordRootQuota) :
    ∃ info, c.quotas.lookup x = some info ∧ Info.checkUsage x u rate info = .ok () := by
  induction n generalizing visited q with
  | zero => cases h
  | succ n ih =>
    rw [checkUsagePath] at h
    split at h
    next hq =>
      subst q
      exact absurd (hroot.leads hx) hne
    next =>
      split at h
      next => cases h
      next =>
        split at h
        next => cases h
        next info hinfo =>
          cases hcheck : Info.checkUsage q u rate info with
          | error e =>
            rw [hcheck] at h
            cases h
          | ok _ =>
            rw [hcheck] at h
            rcases Relation.ReflTransGen.cases_head hx with rfl | ⟨p, hp, hrest⟩
            · exact ⟨info, hinfo, hcheck⟩
            · have hlink := ((parentOf_eq_some c.quotaParent).mp hp).1
              simp only [hlink] at h
              exact ih h hrest

theorem checkUsage_ok (hroot : RootOnTop c) (h : checkUsage c q u rate = .ok ())
    (hx : x ∈ chain c q) (hne : x ≠ koordRootQuota) :
    ∃ info, c.quotas.lookup x = some info ∧ Info.checkUsage x u rate info = .ok () :=
  checkUsagePath_ok hroot h ((mem_chain_iff c q x).mp hx).2 hne

theorem checkUsagePath_congr (hparent : c'.quotaParent = c.quotaParent) (hmem : ∀ x, x ∈ c'.quotas ↔ x ∈ c.quotas)
    (hsame : q ∈ c.quotas → ∀ x, Leads (parentOf c.quotaParent c.quotas) q x → x ≠ koordRootQuota →
      c'.quotas.lookup x = c.quotas.lookup x) :
    checkUsagePath c' u rate n visited q = checkUsagePath c u rate n visited q := by
  induction n generalizing visited q with
  | zero => rfl
  | succ n ih =>
    rw [checkUsagePath, checkUsagePath, hparent]
    split
    next => rfl
    next hq =>
      split
      next => rfl
      next =>
        cases hl : c.quotas.lookup q with
        | none =>
          have hl' : c'.quotas.lookup q = none := by
            rw [Finmap.lookup_eq_none] at hl ⊢
            rwa [hmem]
          simp only [hl']
        | some info =>
          have hexists : q ∈ c.quotas := Finmap.mem_iff.mpr ⟨info, hl⟩
          have hl' : c'.quotas.lookup q = some info := by rw [hsame hexists q .refl hq, hl]
          simp only [hl']
          cases hp : c.quotaParent.lookup q with
          | none => rfl
          | some p =>
            simp only
            rw [ih]
            intro hpe x hx
            exact hsame hexists x (.head ((parentOf_eq_some c.quotaParent).mpr ⟨hp, hpe⟩) hx)

theorem checkUsage_frame {p : QuotaName} (h : Frame c c' p)
    (hdisjoint : ∀ x ∈ chain c p, x ∈ chain c q → x = koordRootQuota) :
    checkUsage c' q u rate = checkUsage c q u rate := by
  have hcard : c'.quotas.keys = c.quotas.keys := by
    ext x
    rw [Finmap.mem_keys, Finmap.mem_keys, h.mem]
  rw [Cache.checkUsage, Cache.checkUsage, hcard]
  apply checkUsagePath_congr h.parent h.mem
  intro hq x hx hne
  exact h.off x (fun hxp => hne (hdisjoint x hxp ((mem_chain_iff c q x).mpr ⟨hq, hx⟩)))

end Path

end KoordQueue.Quota.CheckUsage
