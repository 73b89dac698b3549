import KoordQueue.Lib.Machine
import KoordQueue.Queue.Rightful
import Mathlib.Algebra.Order.BigOperators.Group.List
import Mathlib.Algebra.Order.BigOperators.Group.Multiset
import Mathlib.Algebra.Order.Ring.Int

namespace KoordQueue.Queue.Offering

open Api Resources UnitStatus Machine Victims Rightful

/-- What runs is within what is admitted. -/
structure Covered (ad : Admission) : Prop where
  nonneg : 0 ≤ ad.running.toInt
  le : ad.running.toInt ≤ ad.replicas.toInt

variable [ResourceHelpers]

def podRequest (qu : QueueUnit) (name : String) (k : ResourceName) : Int64 :=
  ((qu.spec.podSets.find? (fun ps => ps.name = name)).map (fun ps =>
    amount (newResource (ResourceHelpers.podRequests ps.template)).resources k)).getD 0

/-- No request is negative, and all that is admitted can be added up. -/
structure Affordable (qu : QueueUnit) : Prop where
  podRequest : ∀ name k, 0 ≤ (podRequest qu name k).toInt
  request : ∀ k, 0 ≤ (amount (newResource qu.spec.request).resources k).toInt
  total : ∀ k, (qu.status.admissions.map (fun ad => (Offering.podRequest qu ad.name k).toInt * ad.replicas.toInt)).sum < 2 ^ 63

/-- The podsets that can give something back are those with fewer pods running
than admitted and no request yet, each with the difference. -/
structure Offers (qu : QueueUnit) (pps : GoMap String FrameworkAdmission) : Prop where
  listed : ∀ name entry, pps.lookup name = some entry ↔ ∃ ad ∈ qu.status.admissions,
    ad.name = name ∧ ad.running < ad.replicas ∧ ad.reclaimState = none ∧
      entry.name = name ∧ entry.replicas.toInt = ad.replicas.toInt - ad.running.toInt
  positive : ∀ name entry, pps.lookup name = some entry → 0 < entry.replicas
  resource : ∀ k, 0 ≤ amount (convertFromAdmissionToResource qu pps).resources k

variable {qu : QueueUnit}

omit [ResourceHelpers] in
theorem nodup_idleAdmissions (hn : (qu.status.admissions.map Admission.name).Nodup) :
    ((idleAdmissions qu).map Prod.fst).Nodup := by
  rw [idleAdmissions, List.map_map]
  exact hn.sublist (List.filter_sublist.map Admission.name)

omit [ResourceHelpers] in
theorem lookup_idle_iff (hn : (qu.status.admissions.map Admission.name).Nodup)
    (hcovered : ∀ ad ∈ qu.status.admissions, Covered ad) (name : String) (entry : FrameworkAdmission) :
    (GoMap.ofList (idleAdmissions qu)).lookup name = some entry ↔ ∃ ad ∈ qu.status.admissions,
      ad.name = name ∧ ad.running < ad.replicas ∧ ad.reclaimState = none ∧
        entry.name = name ∧ entry.replicas.toInt = ad.replicas.toInt - ad.running.toInt := by
  have hdiff : ∀ ad ∈ qu.status.admissions, (ad.replicas - ad.running).toInt = ad.replicas.toInt - ad.running.toInt := by
    intro ad had
    have hc := hcovered ad had
    exact toInt_sub_of_nonneg (hc.nonneg.trans hc.le) hc.nonneg
  constructor
  · intro hl
    obtain ⟨ad, had, he⟩ := List.mem_map.mp (GoMap.mem_of_lookup_ofList hl)
    obtain ⟨had, hidle⟩ := List.mem_filter.mp had
    obtain ⟨hne, hnone⟩ := of_decide_eq_true hidle
    cases he
    refine ⟨ad, had, rfl, ?_, hnone, rfl, hdiff ad had⟩
    rw [Int64.lt_iff_toInt_lt]
    have hne' : ad.replicas.toInt ≠ ad.running.toInt := fun he => hne (Int64.toInt_inj.mp he)
    have hle := (hcovered ad had).le
    omega
  · rintro ⟨ad, had, rfl, hlt, hnone, hname, hreplicas⟩
    apply GoMap.lookup_ofList_of_mem (nodup_idleAdmissions hn)
    refine List.mem_map.mpr ⟨ad, List.mem_filter.mpr ⟨had, decide_eq_true ⟨?_, hnone⟩⟩, ?_⟩
    · rintro he
      rw [he] at hlt
      exact absurd hlt (Int64.lt_irrefl)
    · have he : entry.replicas = ad.replicas - ad.running := by
        rw [← Int64.toInt_inj, hreplicas, hdiff ad had]
      rw [← he]
      exact congrArg (Prod.mk ad.name) (by rw [← hname])

theorem amount_admittedAmount (r : Resource) (name : String) (entry : FrameworkAdmission) (k : ResourceName) :
    amount (r.add (admittedAmount qu name entry)).resources k =
      amount r.resources k + podRequest qu name k * entry.replicas := by
  rw [admittedAmount, podRequest]
  cases qu.spec.podSets.find? (fun ps => ps.name = name) with
  | none =>
    simp [amount_add]
  | some ps =>
    dsimp only
    rw [amount_add_resourceList, amount_scaleUp]
    rfl

theorem toInt_foldr_admitted (k : ResourceName) (s : Multiset (Sigma (fun _ : String => FrameworkAdmission)))
    (hpos : ∀ e ∈ s, 0 ≤ (podRequest qu e.1 k).toInt * e.2.replicas.toInt)
    (hfits : (s.map (fun e => (podRequest qu e.1 k).toInt * e.2.replicas.toInt)).sum < 2 ^ 63) :
    (amount (s.foldr (fun e converted => converted.add (admittedAmount qu e.1 e.2)) (newResource ∅)).resources k).toInt =
      (s.map (fun e => (podRequest qu e.1 k).toInt * e.2.replicas.toInt)).sum := by
  induction s using Multiset.induction_on with
  | empty => rfl
  | cons e s ih =>
    rw [Multiset.forall_mem_cons] at hpos
    rw [Multiset.map_cons, Multiset.sum_cons] at hfits ⊢
    have hrest : 0 ≤ (s.map (fun e => (podRequest qu e.1 k).toInt * e.2.replicas.toInt)).sum := by
      apply Multiset.sum_nonneg
      intro x hx
      obtain ⟨e', he', rfl⟩ := Multiset.mem_map.mp hx
      exact hpos.2 e' he'
    have hsum := ih hpos.2 (by omega)
    have hprod : (podRequest qu e.1 k * e.2.replicas).toInt = (podRequest qu e.1 k).toInt * e.2.replicas.toInt :=
      toInt_mul_of_fits (by omega) (by omega)
    rw [Multiset.foldr_cons, amount_admittedAmount, toInt_add_of_fits (by omega) (by omega), hprod, hsum]
    omega

theorem idle_le (h : Affordable qu) (hcovered : ∀ ad ∈ qu.status.admissions, Covered ad) (k : ResourceName) :
    ((idleAdmissions qu).map (fun e => (podRequest qu e.1 k).toInt * e.2.replicas.toInt)).sum ≤
      (qu.status.admissions.map (fun ad => (podRequest qu ad.name k).toInt * ad.replicas.toInt)).sum := by
  rw [idleAdmissions, List.map_map]
  have hle : ∀ ad ∈ qu.status.admissions.filter (fun ps => ps.replicas ≠ ps.running ∧ ps.reclaimState = none),
      (podRequest qu ad.name k).toInt * (ad.replicas - ad.running).toInt ≤
        (podRequest qu ad.name k).toInt * ad.replicas.toInt := by
    intro ad had
    have hc := hcovered ad (List.mem_of_mem_filter had)
    rw [toInt_sub_of_nonneg (hc.nonneg.trans hc.le) hc.nonneg]
    exact mul_le_mul_of_nonneg_left (by have := hc.nonneg; omega) (h.podRequest ad.name k)
  refine (List.sum_le_sum hle).trans ((List.filter_sublist.map _).sum_le_sum ?_)
  intro x hx
  obtain ⟨ad, had, rfl⟩ := List.mem_map.mp hx
  have hc := hcovered ad had
  exact mul_nonneg (h.podRequest ad.name k) (hc.nonneg.trans hc.le)

theorem idle_nonneg (h : Affordable qu) (hcovered : ∀ ad ∈ qu.status.admissions, Covered ad) (k : ResourceName) :
    ∀ e ∈ idleAdmissions qu, 0 ≤ (podRequest qu e.1 k).toInt * e.2.replicas.toInt := by
  intro e he
  obtain ⟨ad, had, rfl⟩ := List.mem_map.mp he
  have hc := hcovered ad (List.mem_of_mem_filter had)
  apply mul_nonneg (h.podRequest ad.name k)
  dsimp only
  rw [toInt_sub_of_nonneg (hc.nonneg.trans hc.le) hc.nonneg]
  have hle := hc.le
  omega

theorem nonneg_resource (hn : (qu.status.admissions.map Admission.name).Nodup) (h : Affordable qu)
    (hcovered : ∀ ad ∈ qu.status.admissions, Covered ad) (k : ResourceName) :
    0 ≤ amount (convertFromAdmissionToResource qu (GoMap.ofList (idleAdmissions qu))).resources k := by
  rw [Int64.le_iff_toInt_le, Int64.toInt_zero, convertFromAdmissionToResource]
  split
  next =>
    rw [amount_addResource]
    have hzero : amount (newResource ∅).resources k = 0 := rfl
    rw [hzero, Int64.zero_add]
    exact h.request k
  next =>
    rw [GoMap.entries_ofList (nodup_idleAdmissions hn)]
    have hsum := @toInt_foldr_admitted _ qu k
      (((idleAdmissions qu).map (fun p => (⟨p.1, p.2⟩ : Sigma (fun _ : String => FrameworkAdmission))) : List _) :
        Multiset _)
    simp only [Multiset.mem_coe, List.mem_map, forall_exists_index, and_imp, forall_apply_eq_imp_iff₂,
      Multiset.map_coe, Multiset.sum_coe, List.map_map] at hsum
    rw [hsum (idle_nonneg h hcovered k) ((idle_le h hcovered k).trans_lt (h.total k))]
    apply List.sum_nonneg
    intro x hx
    obtain ⟨e, he, rfl⟩ := List.mem_map.mp hx
    exact idle_nonneg h hcovered k e he

theorem offers_of_covered (hn : (qu.status.admissions.map Admission.name).Nodup) (h : Affordable qu)
    (hcovered : ∀ ad ∈ qu.status.admissions, Covered ad) {reclaimProtectTime : Int} {now : Time}
    (hfree : ¬ Protected qu reclaimProtectTime now) :
    ∃ pps, getResourcesCanReclaim qu reclaimProtectTime now = some pps ∧ Offers qu pps := by
  refine ⟨GoMap.ofList (idleAdmissions qu), if_neg hfree, lookup_idle_iff hn hcovered, ?_, nonneg_resource hn h hcovered⟩
  intro name entry hl
  obtain ⟨ad, _, _, hlt, _, _, hreplicas⟩ := (lookup_idle_iff hn hcovered name entry).mp hl
  rw [Int64.lt_iff_toInt_lt] at hlt ⊢
  rw [hreplicas, Int64.toInt_zero]
  omega

end KoordQueue.Queue.Offering
