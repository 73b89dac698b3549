import KoordQueue.JobExt.Stuck
import KoordQueue.JobExt.RunningClock
import KoordQueue.Lib.Run

namespace KoordQueue.JobExt.Eviction

open Api UnitStatus Pods Records Pass Reporter Effects Due Conditions RunningClock
open Stuck (overadmitted_congr)
open Reconciler (Settings Moved deactivated timedOut store)

def Waits (qu : JobUnit) : Prop := qu.status.phase = .enqueued ∨ qu.status.phase = .backoff
deriving Decidable

/-- The ways in which a dequeued unit is evicted. -/
inductive Evicts (f : Features) (qu : JobUnit) : JobUnit → Prop
  | deactivation (now : Time) (h : isQueueUnitActive qu.toQueueUnit = false) : Evicts f qu (deactivated f now qu)
  | runningTimeout (now jitter : Time) (handle : JobHandle) (h : qu.status.phase = .dequeued) :
      Evicts f qu (timedOut f now jitter handle qu)
  | failedCheck {strict : Bool} {now jitter : Time} {qu' : JobUnit}
      (h : Controllers.QueueUnitController.reconcile f strict now jitter qu = some qu')
      (hp : qu'.status.phase = .backoff) : Evicts f qu qu'

/-- The job asks for these podsets, and no pod of it is live. -/
def Gone (podSet : List PodSet) (job : Job) : Prop :=
  job.podSet = podSet ∧ ∀ pods ∈ job.pods, ∀ pod ∈ pods, pod.live = false
deriving Decidable

structure World where
  unit : JobUnit
  reporter : ResourceReporter := {}
deriving DecidableEq

/-- A round of the resource reporter, or a reconcile of the job of which the
first few calls took effect. -/
inductive Action
  | round (now : Time) (handle : JobHandle) (job : Job)
  | reconcile (s : Settings) (now jitter : Time) (handle : JobHandle) (job : Job) (made : Nat)

/-- What happens to a unit while it waits and its job is as `ok` says. -/
def step (ok : Job → Prop) [DecidablePred ok] (w : World) : Action → Option World
  | .round now handle job =>
    if ok job then
      let outcome := Reporter.reconcileUnit now handle job w.reporter w.unit
      some ⟨Outcome.store outcome w.unit, outcome.reporter⟩
    else none
  | .reconcile s now jitter handle job made =>
    let unit := ((Reconciler.reconcileUnit s now jitter handle job w.unit).calls.take made).foldl store w.unit
    if ok job ∧ Waits unit then some { w with unit } else none

/-- The job has any pods. -/
def anyPods (_ : Job) : Prop := True

instance decidableAnyPods : DecidablePred anyPods := fun _ => isTrue trivial

def cut (request : Int32) : Int64 := if request ≤ 0 then 0 else request.toInt64

structure Kept (podSet : List PodSet) (a b : Admission) : Prop where
  name : b.name = a.name
  resources : b.resources = a.resources
  replicas : b.replicas = a.replicas ∨
    requestPodSet podSet a.name < a.replicas.toInt32 ∧ 0 < a.replicas.toInt32 ∧
      b.replicas = cut (requestPodSet podSet a.name)

section Trim

variable {podSet : List PodSet} {pods : List Pod}

theorem filter_live_of_dead (hdead : ∀ pod ∈ pods, pod.live = false) (name : String) :
    (podsByPs pods name).filter Pod.live = [] := by
  rw [List.filter_eq_nil_iff]
  intro pod hp hl
  rw [hdead pod (mem_podsByPs.mp hp).1] at hl
  cases hl

theorem trimmedReplicas_of_dead (hdead : ∀ pod ∈ pods, pod.live = false) (name : String) {request : Int32}
    {replicas cutTo : Int64} (h : trimmedReplicas request (podsByPs pods name) replicas = some cutTo) :
    request < replicas.toInt32 ∧ 0 < replicas.toInt32 ∧ cutTo = cut request := by
  rw [trimmedReplicas_eq, filter_live_of_dead hdead name] at h
  split at h
  next hover =>
    cases h
    exact ⟨hover.1, hover.2, apply_ite Int32.toInt64 (request ≤ 0) 0 request⟩
  next => cases h

theorem toInt32_cut (request : Int32) : (cut request).toInt32 = if request ≤ 0 then 0 else request := by
  rw [cut]
  split
  next => rfl
  next => exact Int32.toInt32_toInt64 request

theorem not_over_cut (request : Int32) : ¬ (request < (cut request).toInt32 ∧ 0 < (cut request).toInt32) := by
  rw [toInt32_cut]
  split
  next => exact fun h => Int32.lt_irrefl h.2
  next => exact fun h => Int32.lt_irrefl h.1

theorem kept_trim (hdead : ∀ pod ∈ pods, pod.live = false) {podSets : List PodSet}
    (hcounts : counts podSets = counts podSet) {a b : Admission} (hk : Kept podSet a b) :
    Kept podSet a (trimAdmission podSets (podsByPs pods) b).item := by
  have hreq : requestPodSet podSets b.name = requestPodSet podSet a.name := by
    rw [requestPodSet, requestPodSet, hcounts, hk.name]
  rw [trimAdmission]
  split
  next => exact hk
  next cutTo ht =>
    obtain ⟨hlt, hpos, rfl⟩ := trimmedReplicas_of_dead hdead b.name ht
    rw [hreq] at hlt
    refine ⟨hk.name, hk.resources, ?_⟩
    rcases hk.replicas with hr | ⟨_, _, hr⟩
    · rw [hr] at hlt hpos
      exact .inr ⟨hlt, hpos, congrArg cut hreq⟩
    · rw [hr] at hlt hpos
      exact absurd ⟨hlt, hpos⟩ (not_over_cut _)

end Trim

structure Waiting (podSet : List PodSet) (ads : List Admission) (qu : JobUnit) : Prop where
  waits : Waits qu
  kept : List.Forall₂ (Kept podSet) ads qu.status.admissions

section Rounds

variable {podSet : List PodSet} {ads : List Admission} {qu : JobUnit} {pods : List Pod}

theorem kept_refl (podSet : List PodSet) (ads : List Admission) : List.Forall₂ (Kept podSet) ads ads :=
  List.forall₂_same.mpr (fun _ _ => ⟨rfl, rfl, .inl rfl⟩)

theorem inFlight_of_waits (h : Waits qu) : inFlight qu.status.phase = false := by
  rw [inFlight]
  rcases h with hp | hp <;> simp [hp]

theorem kept_overadmission (hdead : ∀ pod ∈ pods, pod.live = false) {podSets : List PodSet}
    (hcounts : counts podSets = counts podSet) (hk : List.Forall₂ (Kept podSet) ads qu.status.admissions)
    (hp : qu.spec.podSets = podSets) :
    List.Forall₂ (Kept podSet) ads (reconcileOveradmission qu.toQueueUnit (podsByPs pods)).item := by
  have hwalk : List.Forall₂ (fun b c => ∀ a, Kept podSet a b → Kept podSet a c) qu.status.admissions
      (reconcileOveradmission qu.toQueueUnit (podsByPs pods)).item := by
    refine (walk_forall₂ (fun _ => True) _ (fun _ _ b _ => ⟨trivial, fun a hab => ?_⟩) trivial).2
    exact kept_trim hdead (hp ▸ hcounts) hab
  exact forall₂_comp (fun a b c hab hbc => hbc a hab) hk hwalk

variable {job : Job} {handle : JobHandle} {jitter now : Time}

theorem waiting_effect {observedPods : GoMap String (Finset String)}
    {firstSeen : GoMap String Time} {w : Write} (h : Waiting podSet ads qu)
    (hdead : ∀ pod ∈ pods, pod.live = false) (hcounts : counts qu.spec.podSets = counts podSet)
    (he : Effect now handle job observedPods firstSeen qu pods w) (stored : JobUnit) :
    Waiting podSet ads (Write.store w stored) := by
  cases he with
  | reclaim hne =>
    obtain ⟨ad, _, _, pod, hp, hw⟩ := (reconcileReclaim_ne_empty_iff _ _).mp hne
    rw [Pod.waiting, hdead pod (mem_podsByPs.mp hp).1] at hw
    cases hw
  | podDeletion hu =>
    rw [reconcilePodDeletion, if_pos] at hu
    · cases hu
    · rcases h.waits with hp | hp <;> simp [hp]
  | overadmission => exact ⟨h.waits, kept_overadmission hdead hcounts h.kept rfl⟩
  | partialRunning _ hu =>
    rw [reconcilePartialRunningTimeout, inFlight_of_waits h.waits] at hu
    cases hu
  | synced _ hphase =>
    rw [inFlight_of_waits h.waits] at hphase
    cases hphase

theorem counts_of_agreed (hgone : Gone podSet job) (hsame : (reconcilePodSets qu.spec.podSets job.podSet).1 = false) :
    counts (reconcilePodSets qu.spec.podSets job.podSet).2 = counts podSet := by
  rw [counts_reconcilePodSets hsame, ← hgone.1]
  by_contra hne
  rw [(needUpdate_iff _ _).mpr hne] at hsame
  cases hsame

theorem waiting_round {r : ResourceReporter} (h : Waiting podSet ads qu) (hgone : Gone podSet job) :
    Waiting podSet ads (Outcome.store (Reporter.reconcileUnit now handle job r qu) qu) := by
  refine store_round h (fun _ => ⟨h.waits, h.kept⟩) (fun pods w hsame hpods he => ?_)
  have hwaiting : Waiting podSet ads (qu.setPodSets (reconcilePodSets qu.spec.podSets job.podSet).2) :=
    ⟨h.waits, h.kept⟩
  exact waiting_effect hwaiting (hgone.2 pods hpods) (counts_of_agreed hgone hsame) he qu

theorem admissions_moved {f : Features} {status : JobStatus} {qu' : JobUnit}
    (h : Waits qu) (hm : Moved f now jitter handle status qu qu') (h' : Waits qu') : qu'.status.admissions = qu.status.admissions := by
  cases hm with
  | deactivated => rw [deactivated, evicted_status, sync_status, accumulate_eq]
  | exhausted =>
    rw [Reconciler.exhausted, evicted_status]
    rfl
  | preempted hp | timedOut hp | backToPending hp => rcases h with h | h <;> cases hp.symm.trans h
  | backoffOver =>
    rw [updateQueueUnitStatus, sync_status]
    rfl
  | running =>
    rw [Waits, phase_updateQueueUnitStatus] at h'
    rcases h' with h' | h' <;> cases h'
  | finished hp =>
    rw [Waits, phase_updateQueueUnitStatus] at h'
    rcases h' with rfl | rfl <;> rcases hp with hp | hp <;> cases hp

theorem waiting_reconcile {s : Settings} {made : Nat} (h : Waiting podSet ads qu)
    (hw : Waits (((Reconciler.reconcileUnit s now jitter handle job qu).calls.take made).foldl store qu)) :
    Waiting podSet ads (((Reconciler.reconcileUnit s now jitter handle job qu).calls.take made).foldl store qu) := by
  refine ⟨hw, ?_⟩
  rcases Reconciler.stored_cases s now jitter handle job qu made with hsame | ⟨qu', _, hmoved, hstored⟩
  · have hads := congrArg (fun u : JobUnit => u.status.admissions) hsame
    exact hads ▸ h.kept
  · have hads := congrArg (fun u : JobUnit => u.status.admissions) hstored
    have hphase := congrArg (fun u : JobUnit => u.status.phase) hstored
    have hsame := admissions_moved h.waits hmoved (hw.imp hphase.symm.trans hphase.symm.trans)
    exact (hads.trans hsame) ▸ h.kept

end Rounds

variable {a : Action} {as : List Action} {ads : List Admission} {podSet : List PodSet} {start t w : World}

theorem waiting_step
    (h : Waiting podSet ads w.unit) (hstep : step (Gone podSet) w a = some t) : Waiting podSet ads t.unit := by
  cases a with
  | round now handle job =>
    obtain ⟨hgone, ht⟩ := Option.ite_none_right_eq_some.mp hstep
    cases ht
    exact waiting_round h hgone
  | reconcile s now jitter handle job made =>
    obtain ⟨hwaits, ht⟩ := Option.ite_none_right_eq_some.mp hstep
    cases ht
    exact waiting_reconcile h hwaits.2

theorem waiting_run (h : Waiting podSet ads start.unit) (hrun : Run.exec (step (Gone podSet)) start as = some w) :
    Waiting podSet ads w.unit := by
  have hkeeps : ∀ s a t, Waiting podSet ads s.unit → True → step (Gone podSet) s a = some t →
      Waiting podSet ads t.unit :=
    fun _ _ _ h _ hstep => waiting_step h hstep
  exact Run.invariant hkeeps h (Run.guarded_true start as) hrun

theorem waits_step (h : Waits w.unit) (hstep : step anyPods w a = some t) : Waits t.unit := by
  cases a with
  | round now handle job =>
    rw [step, Option.ite_none_right_eq_some] at hstep
    obtain ⟨_, ht⟩ := hstep
    cases ht
    rw [Waits, round_frame.2.2]
    exact h
  | reconcile s now jitter handle job made =>
    rw [step, Option.ite_none_right_eq_some] at hstep
    obtain ⟨hwaits, ht⟩ := hstep
    cases ht
    exact hwaits.2

theorem waits_run (h : Waits start.unit) (hrun : Run.exec (step anyPods) start as = some w) : Waits w.unit := by
  have hkeeps : ∀ s a t, Waits s.unit → True → step anyPods s a = some t → Waits t.unit :=
    fun _ _ _ h _ hstep => waits_step h hstep
  exact Run.invariant hkeeps h (Run.guarded_true start as) hrun

theorem waits_evicts {f : Features} {qu qu' : JobUnit} (h : Evicts f qu qu') : Waits qu' := by
  cases h with
  | deactivation now =>
    left
    rw [deactivated, evicted_status, sync_status, accumulate_eq]
  | runningTimeout now => exact .inr (phase_updateQueueUnitStatus f now .backoff _ _)
  | failedCheck _ hp => exact .inr hp

def Requires (qu : QueueUnit) : Prop :=
  ∃ n r, (getQueueUnitResourceRequirementAds qu).lookup n = some r ∧ 0 < r.replicas

/-- The admission of the unit is given back, so that it can be handed out again. -/
structure GivenBack (qu : QueueUnit) : Prop where
  replicas : ∀ ad ∈ qu.status.admissions, ad.replicas = 0
  free : isQueueUnitReservedAnyResource qu = false
  again : Requires qu → isQueueUnitSatisfied qu = false ∧ isQueueUnitDequeued qu = false

def holdsResource (ad : Admission) : Bool := GoMap.any ad.resources (fun _ v => v.milli > 0)

/-- Nothing of the admission is left once the pods are gone: nothing was
admitted, or the job does not ask for such pods any more; and no resource of
it was reported. -/
def Returns (podSet : List PodSet) (ad : Admission) : Prop :=
  (ad.replicas = 0 ∨ 0 < ad.replicas.toInt32 ∧ requestPodSet podSet ad.name ≤ 0) ∧ holdsResource ad = false

section GiveBack

variable {podSet : List PodSet} {qu : JobUnit}

theorem not_satisfied_of_zero {qu : QueueUnit} (h : ∀ ad ∈ qu.status.admissions, ad.replicas = 0)
    (hr : Requires qu) : isQueueUnitSatisfied qu = false := by
  obtain ⟨n, r, hl, hpos⟩ := hr
  rw [Bool.eq_false_iff]
  intro hs
  obtain ⟨fa, hfa, hle⟩ := (isQueueUnitSatisfied_iff qu).mp hs n r hl
  obtain ⟨ad, had, he⟩ := List.mem_map.mp (GoMap.mem_of_lookup_ofList hfa)
  cases he
  rw [h ad had] at hle
  exact hle hpos

theorem not_dequeued_of_waits (hw : Waits qu) (hs : isQueueUnitSatisfied qu.toQueueUnit = false) :
    isQueueUnitDequeued qu.toQueueUnit = false := by
  have hv : isV1VersionDequeued qu.toQueueUnit = false := by
    rw [isV1VersionDequeued]
    rcases hw with hp | hp <;> simp [hp]
  have hd : ¬ (qu.status.phase = .succeed ∨ qu.status.phase = .failed) := by
    rcases hw with hp | hp <;> simp [hp]
  rw [isQueueUnitDequeued, hv, if_neg Bool.false_ne_true, if_neg hd, hs]
  rfl

theorem keptReplicas_of_zero {ad : Admission} (h : ad.replicas = 0) : ¬ keptReplicas ad > 0 := by
  rw [keptReplicas]
  cases ad.reclaimState with
  | none =>
    rw [h]
    decide
  | some rs =>
    dsimp only
    split
    next hpos =>
      rw [Machine.gt_iff_toInt] at hpos ⊢
      have hz : (0 : Int64).toInt = 0 := rfl
      have hsub : (ad.replicas - rs.replicas).toInt = 0 - rs.replicas.toInt := by
        rw [h, Machine.toInt_sub_of_nonneg (by decide) (by omega)]
        rfl
      omega
    next =>
      rw [h]
      decide

theorem reserved_iff_of_zero {ads : List Admission} (h : ∀ ad ∈ ads, ad.replicas = 0) (qu : QueueUnit)
    (hads : qu.status.admissions = ads) :
    isQueueUnitReservedAnyResource qu = false ↔ ∀ ad ∈ ads, holdsResource ad = false := by
  rw [isQueueUnitReservedAnyResource, hads, List.any_eq_false]
  refine forall₂_congr (fun ad had => ?_)
  rw [decide_eq_false (keptReplicas_of_zero (h ad had)), Bool.false_or, holdsResource]
  split
  next hnone =>
    rw [hnone.2]
    exact iff_of_true Bool.false_ne_true (by decide)
  next => simp

variable {b : Admission} {job : Job} {handle : JobHandle} {pods : List Pod} {r : ResourceReporter} {now : Time}

theorem returns_iff {a : Admission} (hk : Kept podSet a b)
    (hdone : ¬ (requestPodSet podSet b.name < b.replicas.toInt32 ∧ 0 < b.replicas.toInt32)) :
    Returns podSet a ↔ b.replicas = 0 ∧ holdsResource b = false := by
  have hholds : holdsResource b = holdsResource a := by rw [holdsResource, hk.resources, holdsResource]
  rw [Returns, hholds]
  refine and_congr_left (fun _ => ?_)
  rcases hk.replicas with hr | ⟨hlt, hpos, hr⟩
  · rw [hk.name, hr] at hdone
    rw [hr]
    refine or_iff_left (fun hcut => ?_)
    exact hdone ⟨Int32.lt_of_le_of_lt hcut.2 hcut.1, hcut.1⟩
  · have hne : a.replicas ≠ 0 := fun hz => by
      rw [hz] at hpos
      exact absurd hpos (by decide)
    rw [hr, or_iff_right hne, and_iff_right hpos, cut]
    split
    next hle => exact iff_of_true hle rfl
    next hle =>
      refine iff_of_false hle (fun hz => hle ?_)
      have hz32 := congrArg Int64.toInt32 hz
      rw [Int32.toInt32_toInt64] at hz32
      rw [hz32]
      exact Int32.le_refl _

theorem overadmission_of_no_write (hwaits : Waits qu) (hq : (afterPodSets now handle job r qu pods).write = none) :
    (reconcileOveradmission qu.toQueueUnit (podsByPs pods)).updated = false := by
  have hdeletion : reconcilePodDeletion r.observedPods qu.toQueueUnit (podsByPs pods) =
      ⟨r.observedPods, qu.status.admissions, false⟩ := by
    refine if_pos ?_
    rcases hwaits with hp | hp <;> simp [hp]
  simp only [afterPodSets] at hq
  split at hq
  next => cases hq
  next =>
    simp only [afterReclaim, hdeletion, Bool.false_eq_true, if_false, afterPodDeletion, setAdmissions_self] at hq
    split at hq
    next => cases hq
    next hover => exact Bool.eq_false_iff.mpr hover

theorem done_of_no_write (hwaits : Waits qu) (hgone : Gone podSet job) (hpods : job.pods = some pods)
    (hq : (Reporter.reconcileUnit now handle job r qu).write = none) (hb : b ∈ qu.status.admissions) :
    ¬ (requestPodSet podSet b.name < b.replicas.toInt32 ∧ 0 < b.replicas.toInt32) := by
  simp only [Reporter.reconcileUnit, hpods] at hq
  split at hq
  next => cases hq
  next hsame =>
    have hcounts := counts_of_agreed hgone (Bool.eq_false_iff.mpr hsame)
    have hwaits' : Waits (qu.setPodSets (reconcilePodSets qu.spec.podSets job.podSet).2) := hwaits
    have hover := Bool.eq_false_iff.mp (overadmission_of_no_write hwaits' hq)
    rw [Ne, reconcileOveradmission_updated_iff] at hover
    intro hcut
    refine hover ⟨b, hb, (overadmitted_congr hcounts (podsByPs pods) b).mpr ?_⟩
    rw [Overadmitted, filter_live_of_dead (hgone.2 pods hpods)]
    exact hcut

end GiveBack

/-- Once its pods are gone, the admission of an evicted unit is given back
exactly when there was nothing left to give. -/
theorem evicted_gives_back_iff {f : Features} {qu evicted : JobUnit} (he : Evicts f qu evicted)
    {r : ResourceReporter} {before after : List Action} {start w : World} {podSet : List PodSet}
    (hbefore : Run.exec (step anyPods) ⟨evicted, r⟩ before = some start)
    (hafter : Run.exec (step (Gone podSet)) start after = some w) {now : Time} {handle : JobHandle} {job : Job}
    {pods : List Pod} (hgone : Gone podSet job) (hpods : job.pods = some pods)
    (hq : (Reporter.reconcileUnit now handle job w.reporter w.unit).write = none) :
    GivenBack w.unit.toQueueUnit ↔ ∀ ad ∈ start.unit.status.admissions, Returns podSet ad := by
  have hw := waiting_run ⟨waits_run (waits_evicts he) hbefore, kept_refl podSet _⟩ hafter
  rw [forall_iff_of_forall₂ hw.kept (fun a b hb hk => returns_iff hk (done_of_no_write hw.waits hgone hpods hq hb))]
  constructor
  · intro h b hb
    exact ⟨h.replicas b hb, (reserved_iff_of_zero h.replicas w.unit.toQueueUnit rfl).mp h.free b hb⟩
  · intro h
    have hzero : ∀ ad ∈ w.unit.status.admissions, ad.replicas = 0 := fun b hb => (h b hb).1
    refine ⟨hzero, (reserved_iff_of_zero hzero w.unit.toQueueUnit rfl).mpr (fun b hb => (h b hb).2), ?_⟩
    intro hr
    have hs := not_satisfied_of_zero hzero hr
    exact ⟨hs, not_dequeued_of_waits hw.waits hs⟩

def switchedOff : JobUnit :=
  { workerUnit .dequeued 3 [{ name := "worker", replicas := 3 }] with
    spec := { podSets := [{ name := "worker", count := 3 }], active := some false } }

def withoutPods (count : Int32) : Job := { status := .queuing, podSet := [{ name := "worker", count }] }

/-- The job was scaled down to nothing, so the reporter takes the new podset and then cuts the admission. -/
theorem evicted_gives_back_scaled_down :
    ∃ w, Run.exec (step (Gone (withoutPods 0).podSet)) ⟨deactivated {} 0 switchedOff, {}⟩
        [.round 0 {} (withoutPods 0), .round 0 {} (withoutPods 0)] = some w ∧ GivenBack w.unit.toQueueUnit := by
  obtain ⟨w, hrun, h⟩ : ∃ w, Run.exec (step (Gone (withoutPods 0).podSet)) ⟨deactivated {} 0 switchedOff, {}⟩
      [.round 0 {} (withoutPods 0), .round 0 {} (withoutPods 0)] = some w ∧
      (Reporter.reconcileUnit 0 {} (withoutPods 0) w.reporter w.unit).write = none := by decide +kernel
  have hevicts : Evicts {} switchedOff (deactivated {} 0 switchedOff) := .deactivation 0 (by decide)
  have hgone : Gone (withoutPods 0).podSet (withoutPods 0) := by decide
  have hbefore : Run.exec (step anyPods) ⟨deactivated {} 0 switchedOff, {}⟩ [] =
      some ⟨deactivated {} 0 switchedOff, {}⟩ := rfl
  refine ⟨w, hrun, (evicted_gives_back_iff hevicts hbefore hrun hgone rfl h).mpr ?_⟩
  intro ad had
  cases List.mem_singleton.mp had
  exact ⟨.inr (by decide +kernel), by decide⟩

/-- The job still asks for its three workers. The reporter has nothing to write, and the unit keeps them. -/
theorem evicted_unit_keeps_admission :
    Evicts {} switchedOff (deactivated {} 0 switchedOff) ∧
      (Reporter.reconcileUnit 0 {} (withoutPods 3) {} (deactivated {} 0 switchedOff)).write = none ∧
      (deactivated {} 0 switchedOff).status.phase = .enqueued ∧
      isQueueUnitReservedAnyResource (deactivated {} 0 switchedOff).toQueueUnit = true ∧
      isQueueUnitSatisfied (deactivated {} 0 switchedOff).toQueueUnit = true ∧
      ¬ GivenBack (deactivated {} 0 switchedOff).toQueueUnit := by
  refine ⟨.deactivation 0 (by decide), by decide +kernel, by decide +kernel, by decide +kernel, by decide +kernel, ?_⟩
  intro h
  have hfree := h.free
  revert hfree
  decide +kernel

end KoordQueue.JobExt.Eviction
