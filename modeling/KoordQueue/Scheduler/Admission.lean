import KoordQueue.Scheduler.Dequeue
import Mathlib.Data.Finset.Sort
import Mathlib.Data.String.Basic

namespace KoordQueue.Scheduler.Admission

open Api UnitStatus UnitInfo Scheduler.Filter Dequeue

theorem sub_eq_maxInt64_iff {c o : Int64} (hc : c.toInt < 2 ^ 31) (h : o.toInt ≤ c.toInt) :
    c - o = maxInt64 ↔ c.toInt - o.toInt = 2 ^ 63 - 1 := by
  have ho := Int64.le_toInt o
  have hmax : maxInt64.toInt = 2 ^ 63 - 1 := rfl
  rw [← Int64.toInt_inj, Int64.toInt_sub, hmax]
  constructor
  · intro hb
    rw [Int.bmod_def] at hb
    split at hb <;> omega
  · intro hb
    rw [hb]
    rfl

section Grants

variable {count : Int32} {old : Int64}

theorem toInt64_eq_zero_iff : count.toInt64 = 0 ↔ count = 0 := by
  rw [← Int64.toInt_inj, Int32.toInt_toInt64, ← Int32.toInt_inj]
  rfl

theorem toInt64_lt (count : Int32) : count.toInt64.toInt < 2 ^ 31 :=
  Int32.toInt_toInt64 count ▸ Int32.toInt_lt count

theorem grant_of_lt (h : old.toInt < count.toInt) :
    grant count.toInt64 old =
      if count.toInt - old.toInt = 2 ^ 63 - 1 then none else some (count.toInt64 - old) := by
  have hcount : count.toInt64.toInt = count.toInt := Int32.toInt_toInt64 count
  have hask : ask count.toInt64 old = some (count.toInt64 - old) := by
    rw [ask, if_pos (Int64.lt_iff_toInt_lt.mpr (hcount ▸ h))]
  have hmax := sub_eq_maxInt64_iff (toInt64_lt count) (hcount ▸ h.le)
  have hpos : count.toInt64 - old ≠ 0 := by
    intro hzero
    have hsame : count.toInt64 = old := by grind
    exact h.ne (by rw [← hcount, hsame])
  rw [hcount] at hmax
  rw [grant, hask, Option.filter_some]
  simp [hpos, hmax]

theorem grant_of_eq (h : old.toInt = count.toInt) : grant count.toInt64 old = none := by
  have hsame : count.toInt64 = old := Int64.toInt_inj.mp ((Int32.toInt_toInt64 count).trans h.symm)
  rw [grant, ask, hsame, if_neg (Int64.lt_irrefl), if_pos rfl]
  rfl

theorem grant_of_gt (h : count.toInt < old.toInt) :
    grant count.toInt64 old = if count = 0 then none else some count.toInt64 := by
  have hcount : count.toInt64.toInt = count.toInt := Int32.toInt_toInt64 count
  have hask : ask count.toInt64 old = some count.toInt64 := by
    rw [ask, if_neg, if_neg]
    · rw [← Int64.toInt_inj, hcount]
      exact h.ne
    · rw [gt_iff_lt, Int64.lt_iff_toInt_lt, hcount]
      exact h.not_gt
  have hnotmax : count.toInt64 ≠ maxInt64 := by
    intro hmax
    have hlt := toInt64_lt count
    rw [hmax] at hlt
    exact absurd hlt (by decide)
  rw [grant, hask, Option.filter_some]
  simp [hnotmax, toInt64_eq_zero_iff]

end Grants

theorem grant_fills_iff (count : Int32) (old : Int64) :
    (old + (grant count.toInt64 old).getD 0).toInt = max count.toInt old.toInt ↔
      (count = 0 ∨ old.toInt ≤ count.toInt) ∧ count.toInt - old.toInt ≠ 2 ^ 63 - 1 := by
  rcases lt_trichotomy old.toInt count.toInt with hlt | heq | hgt
  · rw [grant_of_lt hlt, max_eq_left hlt.le]
    split
    next hfull =>
      rw [Option.getD_none, Int64.add_zero]
      exact iff_of_false hlt.ne (fun h => h.2 hfull)
    next hfull =>
      have hsum : old + (count.toInt64 - old) = count.toInt64 := by grind
      rw [Option.getD_some, hsum, Int32.toInt_toInt64]
      exact iff_of_true rfl ⟨Or.inr hlt.le, hfull⟩
  · rw [grant_of_eq heq, Option.getD_none, Int64.add_zero, heq, max_self]
    exact iff_of_true rfl ⟨Or.inr le_rfl, by omega⟩
  · rw [grant_of_gt hgt, max_eq_right hgt.le]
    split
    next hz =>
      rw [Option.getD_none, Int64.add_zero]
      exact iff_of_true rfl ⟨Or.inl hz, by omega⟩
    next hz =>
      rw [Option.getD_some, Int64.toInt_inj]
      refine iff_of_false (fun h => hz (toInt64_eq_zero_iff.mp ?_)) (fun h => h.1.elim hz hgt.not_ge)
      grind

theorem lookup_requirement {qu : QueueUnit} (hn : (qu.spec.podSets.map PodSet.name).Nodup) {ps : PodSet}
    (hps : ps ∈ qu.spec.podSets) :
    (getQueueUnitResourceRequirementAds qu).lookup ps.name = some ⟨ps.name, ps.count.toInt64⟩ := by
  rw [getQueueUnitResourceRequirementAds, if_neg (fun h => List.ne_nil_of_mem hps h.1)]
  apply GoMap.lookup_ofList_of_mem
  · simpa [List.map_map, Function.comp_def] using hn
  · exact List.mem_map.mpr ⟨ps, hps, rfl⟩

theorem admitted_eq_replicasOf {qu : QueueUnit} (hn : (qu.status.admissions.map Admission.name).Nodup) (name : String) :
    (((getAdmissionMap qu).lookup name).map FrameworkAdmission.replicas).getD 0 =
      replicasOf qu.status.admissions name := by
  have hkeys : ((qu.status.admissions.map (fun ad =>
      (ad.name, (⟨ad.name, ad.replicas⟩ : FrameworkAdmission)))).map Prod.fst).Nodup := by
    simpa [List.map_map, Function.comp_def] using hn
  rw [replicasOf, getAdmissionMap]
  cases hf : qu.status.admissions.find? (fun ad => ad.name = name) with
  | none =>
    have hnone : (GoMap.ofList (qu.status.admissions.map (fun ad =>
        (ad.name, (⟨ad.name, ad.replicas⟩ : FrameworkAdmission))))).lookup name = none := by
      rw [GoMap.lookup_ofList_none]
      simpa using hf
    rw [hnone]
    rfl
  | some ad =>
    have hname : ad.name = name := by simpa using List.find?_some hf
    have hmem : (name, (⟨name, ad.replicas⟩ : FrameworkAdmission)) ∈
        qu.status.admissions.map (fun ad => (ad.name, (⟨ad.name, ad.replicas⟩ : FrameworkAdmission))) :=
      List.mem_map.mpr ⟨ad, List.mem_of_find?_eq_some hf, by rw [hname]⟩
    rw [GoMap.lookup_ofList_of_mem hkeys hmem]
    rfl

/-- With at least one plugin, all passing the request through, a unit that is
then dequeued is filled up exactly when no podset has more than it asks for,
podsets that ask for nothing aside. -/
theorem dequeue_fills_iff {pls : List FilterPlugin} (hne : pls ≠ []) (hpls : ∀ pl ∈ pls, PassThrough pl)
    {unit : QueueUnitInfo} (hpodSets : (unit.unit.spec.podSets.map PodSet.name).Nodup)
    (hads : (unit.unit.status.admissions.map Admission.name).Nodup) :
    ∃ result, runFilterPlugins pls unit = .ok result ∧
      ∀ order, RangesOver order result → ∀ cfg timeNow,
        ((∀ ps ∈ unit.unit.spec.podSets,
            (replicasOf (newStatus cfg timeNow unit.unit order).admissions ps.name).toInt =
              max ps.count.toInt (replicasOf unit.unit.status.admissions ps.name).toInt) ↔
          ∀ ps ∈ unit.unit.spec.podSets,
            (ps.count = 0 ∨ (replicasOf unit.unit.status.admissions ps.name).toInt ≤ ps.count.toInt) ∧
              ps.count.toInt - (replicasOf unit.unit.status.admissions ps.name).toInt ≠ 2 ^ 63 - 1) := by
  obtain ⟨result, hok, hresult⟩ := runFilterPlugins_passThrough hne hpls unit
  refine ⟨result, hok, fun order horder cfg timeNow => forall₂_congr (fun ps hps => ?_)⟩
  have hkeyed : ∀ name ad, result.lookup name = some ad → ad.name = name := by
    intro name ad h
    rw [hresult] at h
    obtain ⟨_, _, h⟩ := Option.bind_eq_some_iff.mp h
    obtain ⟨_, _, rfl⟩ := Option.map_eq_some_iff.mp h
    rfl
  have hgrant : ((result.lookup ps.name).map FrameworkAdmission.replicas).getD 0 =
      (grant ps.count.toInt64 (replicasOf unit.unit.status.admissions ps.name)).getD 0 := by
    rw [hresult, lookup_requirement hpodSets hps, Option.bind_some, admitted_eq_replicasOf hads,
      Option.map_map]
    congr 1
    exact Option.map_id'
  rw [newStatus_admissions, replicasOf_rangesOver horder hkeyed, hgrant]
  exact grant_fills_iff ps.count _

def acceptAll : FilterPlugin := fun _ request =>
  .ok ((request.keys.sort).filterMap (fun name => (request.lookup name).filter (fun ad => ad.name = name)))

theorem acceptAll_passThrough : PassThrough acceptAll := by
  intro unit request
  refine ⟨_, rfl, fun ad => ?_⟩
  simp only [List.mem_filterMap, Finset.mem_sort, Finmap.mem_keys, Option.filter_eq_some_iff, decide_eq_true_eq]
  constructor
  · rintro ⟨name, _, h, rfl⟩
    exact h
  · intro h
    exact ⟨ad.name, Finmap.mem_of_lookup_eq_some h, h, rfl⟩

theorem rangesOver_singleton (ad : FrameworkAdmission) : RangesOver [ad] (Finmap.singleton ad.name ad) := by
  refine ⟨List.nodup_singleton _, fun other => ?_⟩
  rw [List.mem_singleton, GoMap.lookup_singleton]
  split
  next => rw [Option.some.injEq, eq_comm]
  next hne => exact iff_of_false (fun h => hne (by rw [h])) (by simp)

def workers (count : Int32) (admitted : Int64) : QueueUnitInfo where
  name := "workers"
  unit := { spec := { podSets := [{ name := "worker", count := count }] }
            status := { admissions := [{ name := "worker", replicas := admitted }] } }

theorem dequeue_fills_half_admitted :
    ∃ result, runFilterPlugins [acceptAll] (workers 2 1) = .ok result ∧
      ∀ order, RangesOver order result → ∀ cfg timeNow, ∀ ps ∈ (workers 2 1).unit.spec.podSets,
        (replicasOf (newStatus cfg timeNow (workers 2 1).unit order).admissions ps.name).toInt =
          max ps.count.toInt (replicasOf (workers 2 1).unit.status.admissions ps.name).toInt := by
  obtain ⟨result, hok, h⟩ := @dequeue_fills_iff [acceptAll] (List.cons_ne_nil _ _)
    (List.forall_mem_singleton.mpr acceptAll_passThrough) (workers 2 1) (by decide) (by decide)
  exact ⟨result, hok, fun order horder cfg timeNow => (h order horder cfg timeNow).mpr (by decide)⟩

/-- One worker wanted and two admitted: the one is admitted again, which makes three. -/
theorem dequeue_admits_again :
    PassThrough acceptAll ∧
      runFilterPlugins [acceptAll] (workers 1 2) = .ok (Finmap.singleton "worker" ⟨"worker", 1⟩) ∧
      RangesOver [⟨"worker", 1⟩] (Finmap.singleton "worker" ⟨"worker", 1⟩) ∧
      replicasOf (newStatus ⟨false, false, false⟩ 0 (workers 1 2).unit [⟨"worker", 1⟩]).admissions "worker" = 3 ∧
      ∃ ps ∈ (workers 1 2).unit.spec.podSets,
        (replicasOf (newStatus ⟨false, false, false⟩ 0 (workers 1 2).unit [⟨"worker", 1⟩]).admissions
            ps.name).toInt ≠
          max ps.count.toInt (replicasOf (workers 1 2).unit.status.admissions ps.name).toInt :=
  ⟨acceptAll_passThrough, by decide +kernel, rangesOver_singleton _, by decide, by decide⟩

end KoordQueue.Scheduler.Admission
