import KoordQueue.JobExt.Due

namespace KoordQueue.JobExt.Trimming

open Api Pods Pass Machine Reporter Effects
open Due (trimmedReplicas_eq)

def remaining (released : Int) (reclaim : Option Int) : Option Int :=
  reclaim.bind (fun r => if 0 < released then if r ≤ released then none else some (r - released) else some r)

def pending (ad : Admission) : Option Int := ad.reclaimState.map (fun rs => rs.replicas.toInt)

def needed (replicas : Int64) (live : Nat) (request : Int32) : Int :=
  min replicas.toInt (max (live : Int) request.toInt)

/-- An admission cut to what is needed. A pending reclaim shrinks by what was
released, and nothing else changes. -/
structure Trimmed (live : Nat) (request : Int32) (ad ad' : Admission) : Prop where
  replicas : ad'.replicas.toInt = needed ad.replicas live request
  reclaim : pending ad' = remaining (ad.replicas.toInt - ad'.replicas.toInt) (pending ad)
  name : ad'.name = ad.name
  running : ad'.running = ad.running
  resources : ad'.resources = ad.resources
  same : ad'.replicas = ad.replicas → ad' = ad

section One

variable {request : Int32} {pods : List Pod} {ad : Admission}

def liveCount (pods : List Pod) : Nat := (pods.filter Pod.live).length

def counted (pods : List Pod) : Int := (Int32.ofNat (liveCount pods)).toInt

theorem counted_of_lt (h : liveCount pods < 2 ^ 31) : counted pods = liveCount pods := Int32.toInt_ofNat_of_lt h

theorem toInt_trimmedReplicas {replicas : Int64} (h0 : -2 ^ 31 ≤ replicas.toInt) (h31 : replicas.toInt < 2 ^ 31) :
    (trimmedReplicas request pods replicas).map Int64.toInt =
      if max (counted pods) request.toInt < replicas.toInt then some (max (counted pods) request.toInt) else none := by
  have h32 := toInt_toInt32_of_fits h0 h31
  have hc : (Int32.ofNat (pods.filter Pod.live).length).toInt = counted pods := rfl
  rw [trimmedReplicas_eq]
  simp only [Int32.lt_iff_toInt_lt, h32, hc, max_comm (counted pods)]
  split
  next h => rw [Option.map_some, Int32.toInt_toInt64, toInt_max32, hc, if_pos (max_lt h.1 h.2)]
  next h => rw [Option.map_none, if_neg (mt max_lt_iff.mp h)]

variable {podSets : List PodSet} {byPs : String → List Pod}

def bound (podSets : List PodSet) (byPs : String → List Pod) (name : String) : Int :=
  max (counted (byPs name)) (requestPodSet podSets name).toInt

theorem trimAdmission_cases (h0 : -2 ^ 31 ≤ ad.replicas.toInt) (h31 : ad.replicas.toInt < 2 ^ 31) :
    (ad.replicas.toInt ≤ bound podSets byPs ad.name ∧ trimAdmission podSets byPs ad = ⟨(), ad, false⟩) ∨
      (bound podSets byPs ad.name < ad.replicas.toInt ∧ ∃ n : Int64, n.toInt = bound podSets byPs ad.name ∧
        trimAdmission podSets byPs ad =
          ⟨(), { ad with replicas := n, reclaimState := fulfil (ad.replicas - n) ad.reclaimState }, true⟩) := by
  have hcut := @toInt_trimmedReplicas (requestPodSet podSets ad.name) (byPs ad.name) ad.replicas h0 h31
  rw [trimAdmission]
  cases ht : trimmedReplicas (requestPodSet podSets ad.name) (byPs ad.name) ad.replicas with
  | none =>
    rw [ht, Option.map_none] at hcut
    split at hcut
    next => cases hcut
    next hge => exact Or.inl ⟨not_lt.mp hge, rfl⟩
  | some n =>
    rw [ht, Option.map_some] at hcut
    split at hcut
    next hlt => exact Or.inr ⟨hlt, n, Option.some.inj hcut, rfl⟩
    next => cases hcut

/-- The pending reclaim is reduced as it should be unless the difference is
below every 64-bit number. -/
theorem fulfil_iff {released : Int64} (hpos : 0 < released.toInt) (reclaim : Option ReclaimState) :
    (fulfil released reclaim).map (fun rs => rs.replicas.toInt) =
        remaining released.toInt (reclaim.map (fun rs => rs.replicas.toInt)) ↔
      ∀ rs, reclaim = some rs → -2 ^ 63 ≤ rs.replicas.toInt - released.toInt := by
  cases reclaim with
  | none => simp [fulfil, remaining]
  | some rs =>
    have hgt : released > 0 := by
      rw [gt_iff_toInt, Int64.toInt_zero]
      exact hpos
    have hup := Int64.toInt_lt rs.replicas
    have hlow := Int64.le_toInt rs.replicas
    have hlow' := Int64.le_toInt (rs.replicas - released)
    have hup' := Int64.toInt_lt released
    have hcases := toInt_sub_cases rs.replicas released
    simp only [fulfil, if_pos hgt, remaining, Option.map_some, Option.bind_some, if_pos hpos, Int64.le_iff_toInt_le,
      Int64.toInt_zero, Option.some.injEq, forall_eq']
    by_cases hle : rs.replicas.toInt ≤ released.toInt
    · rw [if_pos hle]
      split
      next => simp only [Option.map_none, true_iff]; omega
      next => simp only [Option.map_some, reduceCtorEq, false_iff]; omega
    · have hexact : (rs.replicas - released).toInt = rs.replicas.toInt - released.toInt := by omega
      rw [if_neg hle, if_neg (by omega), Option.map_some, Option.some.injEq, hexact]
      simp only [true_iff]
      omega

end One

section Pass

variable {qu : QueueUnit} {byPs : String → List Pod}

/-- The 32-bit counter holds the live pods, or says enough to keep all replicas. -/
def Countable (qu : QueueUnit) (byPs : String → List Pod) (ad : Admission) : Prop :=
  liveCount (byPs ad.name) < 2 ^ 31 ∨ ad.replicas.toInt ≤ bound qu.spec.podSets byPs ad.name

/-- A pending reclaim can be reduced by what is released. -/
def Reducible (qu : QueueUnit) (byPs : String → List Pod) (ad : Admission) : Prop :=
  let released := ad.replicas.toInt -
    needed ad.replicas (liveCount (byPs ad.name)) (requestPodSet qu.spec.podSets ad.name)
  0 < released → ∀ rs, ad.reclaimState = some rs → -2 ^ 63 ≤ rs.replicas.toInt - released

variable {ad : Admission} {podSets : List PodSet}

theorem needed_eq (h31 : ad.replicas.toInt < 2 ^ 31) :
    min ad.replicas.toInt (bound qu.spec.podSets byPs ad.name) =
        needed ad.replicas (liveCount (byPs ad.name)) (requestPodSet qu.spec.podSets ad.name) ↔
      Countable qu byPs ad := by
  rw [Countable, needed]
  by_cases hlt : liveCount (byPs ad.name) < 2 ^ 31
  · rw [bound, counted_of_lt hlt]
    exact iff_of_true rfl (Or.inl hlt)
  · simp only [hlt, false_or]
    omega

theorem trimmed_iff (h0 : 0 ≤ ad.replicas.toInt) (h31 : ad.replicas.toInt < 2 ^ 31) :
    Trimmed (liveCount (byPs ad.name)) (requestPodSet qu.spec.podSets ad.name) ad
        (trimAdmission qu.spec.podSets byPs ad).item ↔
      Countable qu byPs ad ∧ Reducible qu byPs ad := by
  rw [← needed_eq h31, Reducible]
  rcases @trimAdmission_cases ad qu.spec.podSets byPs (by omega) h31 with ⟨hle, heq⟩ | ⟨hlt, n, hn, heq⟩
  · rw [heq, min_eq_left hle]
    constructor
    · intro h
      have hr : ad.replicas.toInt = _ := h.replicas
      refine ⟨hr, ?_⟩
      rw [← hr]
      intro hpos
      omega
    · rintro ⟨hr, -⟩
      refine ⟨hr, ?_, rfl, rfl, rfl, fun _ => rfl⟩
      rw [Int.sub_self, remaining]
      cases pending ad with
      | none => rfl
      | some r => rfl
  · have hlow : -2 ^ 31 ≤ bound qu.spec.podSets byPs ad.name := (Int32.le_toInt _).trans (le_max_left _ _)
    have hdiff : (ad.replicas - n).toInt = ad.replicas.toInt - n.toInt := toInt_sub_of_fits (by omega) (by omega)
    have hpos : 0 < (ad.replicas - n).toInt := by omega
    have hfulfil := fulfil_iff hpos ad.reclaimState
    rw [heq, min_eq_right hlt.le, ← hn]
    rw [hdiff] at hfulfil
    constructor
    · intro h
      have hr : n.toInt = _ := h.replicas
      refine ⟨hr, ?_⟩
      rw [← hr]
      exact fun _ => hfulfil.mp h.reclaim
    · rintro ⟨hr, hred⟩
      rw [← hr] at hred
      refine ⟨hr, hfulfil.mpr (hred (by omega)), rfl, rfl, rfl, fun hsame => ?_⟩
      have hsame' : n = ad.replicas := hsame
      rw [hsame'] at hn
      omega

/-- The admissions after the pass are those before it, each cut to what is
needed; the pass says so, and another one changes nothing. -/
structure Trims (qu : QueueUnit) (byPs : String → List Pod) : Prop where
  each : List.Forall₂ (fun ad ad' =>
      Trimmed (liveCount (byPs ad.name)) (requestPodSet qu.spec.podSets ad.name) ad ad')
    qu.status.admissions (reconcileOveradmission qu byPs).item
  updated : (reconcileOveradmission qu byPs).updated = true ↔
    (reconcileOveradmission qu byPs).item.map Admission.replicas ≠ qu.status.admissions.map Admission.replicas
  again : reconcileOveradmission
      { qu with status := { qu.status with admissions := (reconcileOveradmission qu byPs).item } } byPs =
    ⟨(), (reconcileOveradmission qu byPs).item, false⟩

def InRange (ad : Admission) : Prop := 0 ≤ ad.replicas.toInt ∧ ad.replicas.toInt < 2 ^ 31

theorem trimAdmission_updated (h : InRange ad) :
    (trimAdmission podSets byPs ad).updated = true ↔ (trimAdmission podSets byPs ad).item.replicas ≠ ad.replicas := by
  rcases @trimAdmission_cases ad podSets byPs (by have := h.1; omega) h.2 with ⟨_, heq⟩ | ⟨hlt, n, hn, heq⟩
  · rw [heq]
    simp
  · rw [heq]
    refine iff_of_true rfl ?_
    rintro rfl
    omega

theorem updated_iff (hrange : ∀ ad ∈ qu.status.admissions, InRange ad) :
    (reconcileOveradmission qu byPs).updated = true ↔
      (reconcileOveradmission qu byPs).item.map Admission.replicas ≠ qu.status.admissions.map Admission.replicas := by
  rw [reconcileOveradmission, walk_unit]
  dsimp only
  revert hrange
  induction qu.status.admissions with
  | nil => simp
  | cons ad ads ih =>
    intro hrange
    rw [List.forall_mem_cons] at hrange
    rw [List.any_cons, Bool.or_eq_true, trimAdmission_updated hrange.1, ih hrange.2]
    simp only [List.map_cons, ne_eq, List.cons.injEq]
    tauto

theorem trimAdmission_again (h : InRange ad) :
    trimAdmission podSets byPs (trimAdmission podSets byPs ad).item =
      ⟨(), (trimAdmission podSets byPs ad).item, false⟩ := by
  rcases @trimAdmission_cases ad podSets byPs (by have := h.1; omega) h.2 with ⟨hle, heq⟩ | ⟨hlt, n, hn, heq⟩
  · rw [heq]
    exact heq
  · rw [heq]
    have hlow : -2 ^ 31 ≤ bound podSets byPs ad.name := (Int32.le_toInt _).trans (le_max_left _ _)
    have hup := h.2
    rcases @trimAdmission_cases
        { ad with replicas := n, reclaimState := fulfil (ad.replicas - n) ad.reclaimState } podSets byPs
        (by dsimp only; omega) (by dsimp only; omega) with ⟨_, hsame⟩ | ⟨hlt', _⟩
    · exact hsame
    · dsimp only at hlt'
      omega

theorem overadmission_again (hrange : ∀ ad ∈ qu.status.admissions, InRange ad) :
    reconcileOveradmission
        { qu with status := { qu.status with admissions := (reconcileOveradmission qu byPs).item } } byPs =
      ⟨(), (reconcileOveradmission qu byPs).item, false⟩ := by
  have hagain : ∀ ad ∈ qu.status.admissions,
      trimAdmission qu.spec.podSets byPs (trimAdmission qu.spec.podSets byPs ad).item =
        ⟨(), (trimAdmission qu.spec.podSets byPs ad).item, false⟩ :=
    fun ad had => trimAdmission_again (hrange ad had)
  have hitem : qu.status.admissions.map (fun ad =>
        (trimAdmission qu.spec.podSets byPs (trimAdmission qu.spec.podSets byPs ad).item).item) =
      qu.status.admissions.map (fun ad => (trimAdmission qu.spec.podSets byPs ad).item) :=
    List.map_congr_left (fun ad had => by rw [hagain ad had])
  have hupdated : qu.status.admissions.any (fun ad =>
      (trimAdmission qu.spec.podSets byPs (trimAdmission qu.spec.podSets byPs ad).item).updated) = false :=
    List.any_eq_false.mpr (fun ad had => by rw [hagain ad had]; exact Bool.false_ne_true)
  rw [reconcileOveradmission, reconcileOveradmission, walk_unit, walk_unit]
  dsimp only
  rw [List.map_map, List.any_map]
  exact congr (congrArg (Visit.mk ()) hitem) hupdated

theorem each_iff (hrange : ∀ ad ∈ qu.status.admissions, InRange ad) :
    List.Forall₂ (fun ad ad' => Trimmed (liveCount (byPs ad.name)) (requestPodSet qu.spec.podSets ad.name) ad ad')
        qu.status.admissions (reconcileOveradmission qu byPs).item ↔
      ∀ ad ∈ qu.status.admissions, Countable qu byPs ad ∧ Reducible qu byPs ad := by
  rw [reconcileOveradmission, walk_unit, List.forall₂_map_right_iff, List.forall₂_same]
  exact forall₂_congr (fun ad had => trimmed_iff (hrange ad had).1 (hrange ad had).2)

theorem reducible_of_nonneg (hrange : InRange ad)
    (h : ∀ rs, ad.reclaimState = some rs → 0 ≤ rs.replicas.toInt) : Reducible qu byPs ad := by
  have hlow : -2 ^ 31 ≤ (requestPodSet qu.spec.podSets ad.name).toInt := Int32.le_toInt _
  have hup := hrange.2
  intro _ rs hrs
  have hnonneg := h rs hrs
  rw [needed]
  omega

/-- Over-admission is cut to the closed form exactly where the 32-bit count of live pods and the 64-bit
difference do not overflow, and so wherever the pods are fewer and the requests not negative. -/
theorem overadmission_trims_iff (hrange : ∀ ad ∈ qu.status.admissions, InRange ad) :
    (Trims qu byPs ↔ ∀ ad ∈ qu.status.admissions, Countable qu byPs ad ∧ Reducible qu byPs ad) ∧
      ((∀ ad ∈ qu.status.admissions, liveCount (byPs ad.name) < 2 ^ 31 ∧
          ∀ rs, ad.reclaimState = some rs → 0 ≤ rs.replicas.toInt) → Trims qu byPs) := by
  have hmeets : (∀ ad ∈ qu.status.admissions, Countable qu byPs ad ∧ Reducible qu byPs ad) → Trims qu byPs :=
    fun h => ⟨(each_iff hrange).mpr h, updated_iff hrange, overadmission_again hrange⟩
  constructor
  · exact ⟨fun h => (each_iff hrange).mp h.each, hmeets⟩
  · intro h
    refine hmeets (fun ad had => ⟨Or.inl (h ad had).1, ?_⟩)
    exact reducible_of_nonneg (hrange ad had) (h ad had).2

end Pass

def overadmitted (reclaim : Int64) : QueueUnit :=
  (workerUnit .dequeued 2 [{ name := "worker", replicas := 5, reclaimState := some ⟨reclaim⟩ }]).toQueueUnit

def oneLive (name : String) : List Pod := podsByPs [worker "a" "node"] name

theorem overadmitted_trimmed : Trims (overadmitted 5) oneLive ∧
    (reconcileOveradmission (overadmitted 5) oneLive).item =
      [{ name := "worker", replicas := 2, reclaimState := some ⟨2⟩ }] := by
  refine ⟨(overadmission_trims_iff ?_).2 ?_, by decide⟩
  · intro ad had
    rw [List.mem_singleton.mp had]
    exact ⟨by decide, by decide⟩
  · intro ad had
    rw [List.mem_singleton.mp had]
    refine ⟨by decide, fun rs hrs => ?_⟩
    cases hrs
    decide

/-- The smallest request there is becomes the largest one. -/
theorem smallest_reclaim_wraps : ¬ Trims (overadmitted (-9223372036854775808)) oneLive ∧
    (reconcileOveradmission (overadmitted (-9223372036854775808)) oneLive).item =
      [{ name := "worker", replicas := 2, reclaimState := some ⟨9223372036854775805⟩ }] := by
  have hitem : (reconcileOveradmission (overadmitted (-9223372036854775808)) oneLive).item =
      [{ name := "worker", replicas := 2, reclaimState := some ⟨9223372036854775805⟩ }] := by decide
  refine ⟨fun h => ?_, hitem⟩
  have heach := h.each
  rw [hitem] at heach
  cases heach with
  | cons hfirst _ => exact absurd hfirst.reclaim (by decide)

end KoordQueue.JobExt.Trimming
