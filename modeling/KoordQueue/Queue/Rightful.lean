import KoordQueue.Handles.Requests
import KoordQueue.Queue.Victims

namespace KoordQueue.Queue.Rightful

open Api Resources UnitStatus UnitInfo Memory Less Policy Queue.Preempt Victims

/-- The unit got its resources a short time ago. -/
def Protected (qu : QueueUnit) (reclaimProtectTime : Int) (now : Time) : Prop :=
  reclaimProtectTime > 0 ∧ qu.status.lastAllocateTime.any (fun t => now - t < reclaimProtectTime) = true

/-- What a victim must be like when it is selected, and a podset of it that is
asked to give something back. -/
structure Entitled (preemptor victim : QueueUnit) (reclaimProtectTime : Int) (now : Time) (name : String) : Prop where
  lower : priorityOf victim < priorityOf preemptor
  unprotected : ¬ Protected victim reclaimProtectTime now
  idle : ∃ ad ∈ victim.status.admissions, ad.name = name ∧ ad.running < ad.replicas ∧ ad.reclaimState = none

/-- Whatever version of a selected victim the lister has, a request that is
written into it is one that the preemptor is entitled to. -/
def Lawful (m : Infos) (reclaimProtectTime : Int) (now : Time) (preemptor : QueueUnit)
    (selected : Ref → GoMap String FrameworkAdmission → Prop) : Prop :=
  ∀ v pps, selected v pps → ∀ newQu newQuCopy : QueueUnit, ∀ written : Time,
    newQu.ns = (m.unit v).ns → newQu.name = (m.unit v).name →
    preemptQueueUnit pps written newQu = some newQuCopy →
    ∀ p ∈ newQu.status.admissions.zip newQuCopy.status.admissions, p.2.reclaimState ≠ p.1.reclaimState →
      Entitled preemptor (m.unit v) reclaimProtectTime now p.1.name

variable {m : Infos} {now : Time} {protect : Int} {qu preemptor : QueueUnit}
  {pps : GoMap String FrameworkAdmission} {name : String}

theorem requested_of_write {newQu newQuCopy : QueueUnit} {written : Time}
    (h : preemptQueueUnit pps written newQu = some newQuCopy) {p : Admission × Admission}
    (hp : p ∈ newQu.status.admissions.zip newQuCopy.status.admissions)
    (hne : p.2.reclaimState ≠ p.1.reclaimState) : 0 < reclaimOf pps p.1.name := by
  have hall := List.forall₂_iff_zip.mp (askBack_forall₂ (preemptQueueUnit_admissions h))
  rcases hall.2 hp with ⟨hpos, _⟩ | ⟨_, heq⟩
  · exact hpos
  · exact absurd (by rw [heq]) hne

def askable (qu : QueueUnit) (name : String) : QueueUnit :=
  { qu with
    spec := { qu.spec with podSets := [{ name, count := 2 }] }
    status := { qu.status with phase := .enqueued, admissions := [{ name, replicas := 1 }] } }

theorem askable_open (qu : QueueUnit) (name : String) : isQueueUnitDequeued (askable qu name) = false := by
  have hneeds : isQueueUnitSatisfied (askable qu name) = false := by
    rw [Bool.eq_false_iff, isQueueUnitSatisfied, ne_eq, GoMap.all_iff]
    intro h
    have hname := h name ⟨name, 2⟩ (by simp [getQueueUnitResourceRequirementAds, askable, GoMap.lookup_ofList])
    simp [getAdmissionMap, askable, GoMap.lookup_ofList] at hname
  have hv1 : isV1VersionDequeued (askable qu name) = false := rfl
  have hphase : ¬ ((askable qu name).status.phase = .succeed ∨ (askable qu name).status.phase = .failed) := by
    simp [askable]
  rw [isQueueUnitDequeued, hv1, if_neg (by simp), if_neg hphase, hneeds]
  rfl

theorem exists_write (hpos : 0 < reclaimOf pps name) (qu : QueueUnit) (written : Time) :
    ∃ newQuCopy, preemptQueueUnit pps written (askable qu name) = some newQuCopy ∧
      ∃ p ∈ (askable qu name).status.admissions.zip newQuCopy.status.admissions,
        p.1.name = name ∧ p.2.reclaimState ≠ p.1.reclaimState := by
  have hreserved : isQueueUnitReservedAnyResource (askable qu name) = true := by
    simp [isQueueUnitReservedAnyResource, askable, keptReplicas]
  have hask : askBack pps (askable qu name).status.admissions =
      some [{ name, replicas := 1, reclaimState := some ⟨reclaimOf pps name⟩ }] := by
    simp only [askable, askBack]
    rw [if_pos hpos, if_neg (by simp)]
    rfl
  rw [preemptQueueUnit, askable_open, hreserved, hask]
  refine ⟨_, rfl, _, List.mem_cons_self, rfl, ?_⟩
  simp

theorem lawful_iff {selected : Ref → GoMap String FrameworkAdmission → Prop} :
    Lawful m protect now preemptor selected ↔
      ∀ v pps, selected v pps → ∀ name, 0 < reclaimOf pps name →
        Entitled preemptor (m.unit v) protect now name := by
  constructor
  · intro h v pps hsel name hpos
    obtain ⟨newQuCopy, hwrite, p, hp, rfl, hne⟩ := exists_write hpos (m.unit v) now
    exact h v pps hsel (askable (m.unit v) p.1.name) newQuCopy now rfl rfl hwrite p hp hne
  · intro h v pps hsel newQu newQuCopy written _ _ hwrite p hp hne
    exact h v pps hsel p.1.name (requested_of_write hwrite hp hne)

/-- No difference between what is admitted and what runs wraps around. -/
def Counted (qu : QueueUnit) : Prop :=
  ∀ ad ∈ qu.status.admissions, ad.reclaimState = none → 0 < ad.replicas - ad.running → ad.running < ad.replicas

/-- The unit can be asked to give something back. -/
def GivesBack (qu : QueueUnit) (reclaimProtectTime : Int) (now : Time) : Prop :=
  ∃ pps name, getResourcesCanReclaim qu reclaimProtectTime now = some pps ∧ 0 < reclaimOf pps name

/-- What makes a unit that the preemptor comes before a rightful victim. -/
def Fair (preemptor victim : QueueUnit) : Prop := priorityOf victim ≠ priorityOf preemptor ∧ Counted victim

def idleAdmissions (qu : QueueUnit) : List (String × FrameworkAdmission) :=
  (qu.status.admissions.filter (fun ps => ps.replicas ≠ ps.running ∧ ps.reclaimState = none)).map
    (fun ps => (ps.name, ⟨ps.name, ps.replicas - ps.running⟩))

theorem canReclaim_eq_some (h : getResourcesCanReclaim qu protect now = some pps) :
    ¬ Protected qu protect now ∧ pps = GoMap.ofList (idleAdmissions qu) := by
  rw [getResourcesCanReclaim] at h
  split at h
  next => cases h
  next hfree => exact ⟨hfree, (Option.some.inj h).symm⟩

theorem canReclaim_requested (h : getResourcesCanReclaim qu protect now = some pps) (hpos : 0 < reclaimOf pps name) :
    ¬ Protected qu protect now ∧ ∃ ad ∈ qu.status.admissions, ad.name = name ∧ ad.reclaimState = none ∧
      reclaimOf pps name = ad.replicas - ad.running := by
  obtain ⟨hfree, rfl⟩ := canReclaim_eq_some h
  refine ⟨hfree, ?_⟩
  rw [reclaimOf] at hpos ⊢
  cases hl : (GoMap.ofList (idleAdmissions qu)).lookup name with
  | none =>
    rw [hl] at hpos
    exact absurd hpos (by decide)
  | some found =>
    obtain ⟨ps, hps, heq⟩ := List.mem_map.mp (GoMap.mem_of_lookup_ofList hl)
    obtain ⟨rfl, rfl⟩ := Prod.mk.inj heq
    rw [List.mem_filter, decide_eq_true_eq] at hps
    exact ⟨ps, hps.1, rfl, hps.2.2, rfl⟩

theorem reclaimOf_canReclaim (h : getResourcesCanReclaim qu protect now = some pps)
    (hnames : (qu.status.admissions.map Admission.name).Nodup) {ad : Admission} (had : ad ∈ qu.status.admissions)
    (hnone : ad.reclaimState = none) (hne : ad.replicas ≠ ad.running) :
    reclaimOf pps ad.name = ad.replicas - ad.running := by
  obtain ⟨_, rfl⟩ := canReclaim_eq_some h
  have hin : (ad.name, ⟨ad.name, ad.replicas - ad.running⟩) ∈ idleAdmissions qu :=
    List.mem_map.mpr ⟨ad, List.mem_filter.mpr ⟨had, by simp [hnone, hne]⟩, rfl⟩
  have hnodup : ((idleAdmissions qu).map Prod.fst).Nodup := by
    rw [idleAdmissions, List.map_map]
    exact hnames.sublist (List.Sublist.map _ List.filter_sublist)
  rw [reclaimOf, GoMap.lookup_ofList_of_mem hnodup hin]
  rfl

theorem priority_le_of_less {a b : QueueUnitInfo} (h : less a b < 0) : priorityOf b.unit ≤ priorityOf a.unit := by
  by_cases huid : a.unit.uid = b.unit.uid
  · rw [less_of_eq huid] at h
    exact absurd h (lt_irrefl 0)
  · have hrank := (less_of_ne huid).1.mp h
    rw [rank_lt_iff] at hrank
    rcases hrank with hlt | ⟨heq, _⟩
    · exact hlt.le
    · exact heq.ge

/-- The preemptor is entitled to all that it asks a unit behind it for exactly
when the unit is a fair victim. -/
theorem entitled_iff_fair (h : getResourcesCanReclaim qu protect now = some pps)
    (hnames : (qu.status.admissions.map Admission.name).Nodup)
    (hbehind : priorityOf qu ≤ priorityOf preemptor) (hsome : ∃ name, 0 < reclaimOf pps name) :
    (∀ name, 0 < reclaimOf pps name → Entitled preemptor qu protect now name) ↔ Fair preemptor qu := by
  constructor
  · intro hall
    obtain ⟨name, hpos⟩ := hsome
    refine ⟨(hall name hpos).lower.ne, fun ad had hnone hdiff => ?_⟩
    have hne : ad.replicas ≠ ad.running := by
      intro he
      rw [he, Int64.sub_self] at hdiff
      exact absurd hdiff (by decide)
    have hamount := reclaimOf_canReclaim h hnames had hnone hne
    obtain ⟨ps, hps, hname, hidle, _⟩ := (hall ad.name (hamount ▸ hdiff)).idle
    rwa [List.inj_on_of_nodup_map hnames hps had hname] at hidle
  · rintro ⟨hprio, hcounted⟩ name hpos
    obtain ⟨hfree, ad, had, hname, hnone, hamount⟩ := canReclaim_requested h hpos
    refine ⟨lt_of_le_of_ne hbehind hprio, hfree, ad, had, hname, ?_, hnone⟩
    exact hcounted ad had hnone (hamount ▸ hpos)

section

variable (fw : Handle) (m : Infos) (now : Time) (r : Ref) (order : List String) (q : PreemptingQueue)

/-- The reservation asks this unit to give back. -/
def ReserveVictim (v : Ref) (pps : GoMap String FrameworkAdmission) : Prop :=
  ∃ victims key, (reserve m now r q.toPriorityQueue).2 = .waitingForVictims victims ∧ key ∈ victims ∧
    q.queueUnits.lookup key = some v ∧ getResourcesCanReclaim (m.unit v) q.reclaimProtectTime now = some pps

theorem reserveVictim_iff (v : Ref) (pps : GoMap String FrameworkAdmission) :
    ReserveVictim m now r q v pps ↔ q.waitPodsRunning = true ∧ q.preemptFlag = false ∧
      (∃ key ∈ q.assumed, q.queueUnits.lookup key = some v) ∧ less (m.get r) (m.get v) < 0 ∧
      getResourcesCanReclaim (m.unit v) q.reclaimProtectTime now = some pps := by
  constructor
  · rintro ⟨victims, key, hres, hkey, hv, hpps⟩
    rw [reserve] at hres
    split at hres
    next hwait =>
      split at hres
      next => cases hres
      next hflag =>
        dsimp only at hres
        split at hres
        next =>
          cases hres
          obtain ⟨hin, hvictim⟩ := Finset.mem_filter.mp hkey
          rw [hv, Option.any_some, Bool.and_eq_true, decide_eq_true_eq] at hvictim
          exact ⟨hwait.1, Bool.eq_false_iff.mpr hflag, ⟨key, (Finset.mem_filter.mp hin).1, hv⟩, hvictim.1, hpps⟩
        next => cases hres
    next => cases hres
  · rintro ⟨hwait, hflag, ⟨key, hkey, hv⟩, hless, hpps⟩
    have hvictim : key ∈ (q.assumed.filter (fun key => key ∈ q.queueUnits)).filter (fun key =>
        (q.queueUnits.lookup key).any (fun a => less (m.get r) (m.get a) < 0 &&
          (getResourcesCanReclaim (m.unit a) q.reclaimProtectTime now).isSome)) := by
      refine Finset.mem_filter.mpr ⟨Finset.mem_filter.mpr ⟨hkey, Finmap.mem_of_lookup_eq_some hv⟩, ?_⟩
      rw [hv, Option.any_some, hpps, Bool.and_eq_true, decide_eq_true_eq]
      exact ⟨hless, rfl⟩
    refine ⟨_, key, ?_, hvictim, hv, hpps⟩
    rw [reserve, if_pos ⟨hwait, Finset.ne_empty_of_mem hkey⟩, if_neg (by rw [hflag]; simp)]
    exact congrArg Prod.snd (if_pos (Finset.ne_empty_of_mem hvictim))

/-- The call gets as far as looking for victims. -/
def Preempts : Prop :=
  q.waitPodsRunning = true ∧ q.enablePreempt = true ∧ q.preemptFlag = false ∧
    getQueueUnitBaseQuotaName fw (m.unit r) ≠ ""

variable [ResourceHelpers]

/-- The call after a failed filter asks this unit to give back. -/
def PreemptVictim (v : Ref) (pps : GoMap String FrameworkAdmission) : Prop :=
  ∃ victims, preempt fw m now r order q = .preempted victims ∧ (v, pps) ∈ victims

/-- The scan of the assumed units takes this one. -/
def Taken (v : Ref) : Prop :=
  Reached m now (m.get r) (preemptorResource (m.unit r)) q.reclaimProtectTime (lowestFirst m order q.toPriorityQueue)
    (newResource ∅) v

theorem canFree_eq_some {protect : Int} {v : Ref} {pps : GoMap String FrameworkAdmission} :
    (∃ res, canFree m now protect v = some (pps, res)) ↔
      pps ≠ ∅ ∧ getResourcesCanReclaim (m.unit v) protect now = some pps := by
  rw [canFree]
  cases getResourcesCanReclaim (m.unit v) protect now with
  | none => simp
  | some found =>
    by_cases hempty : found = ∅
    · simp only [hempty, if_true, Option.some.injEq, reduceCtorEq, exists_false, false_iff]
      rintro ⟨hne, rfl⟩
      exact hne rfl
    · simp only [hempty, if_false, Option.some.injEq, Prod.mk.injEq]
      constructor
      · rintro ⟨_, rfl, _⟩
        exact ⟨hempty, rfl⟩
      · rintro ⟨_, rfl⟩
        exact ⟨_, rfl, rfl⟩

theorem preemptVictim_iff (v : Ref) (pps : GoMap String FrameworkAdmission) :
    PreemptVictim fw m now r order q v pps ↔ Preempts fw m r q ∧ Taken m now r order q v ∧ pps ≠ ∅ ∧
      getResourcesCanReclaim (m.unit v) q.reclaimProtectTime now = some pps := by
  have hmem : (v, pps) ∈ dryRunPreemption fw m now r order q.toPriorityQueue ↔
      getQueueUnitBaseQuotaName fw (m.unit r) ≠ "" ∧ Taken m now r order q v ∧ pps ≠ ∅ ∧
        getResourcesCanReclaim (m.unit v) q.reclaimProtectTime now = some pps := by
    rw [dryRunPreemption]
    split
    next hquota => simp [hquota]
    next hquota =>
      rw [mem_selectVictims, canFree_eq_some]
      exact (and_iff_right hquota).symm
  constructor
  · rintro ⟨victims, hres, hin⟩
    rw [preempt] at hres
    split at hres
    next => cases hres
    next hwait =>
      split at hres
      next => cases hres
      next henable =>
        split at hres
        next => cases hres
        next hflag =>
          dsimp only at hres
          split at hres
          next => cases hres
          next =>
            cases hres
            obtain ⟨hquota, htaken⟩ := hmem.mp hin
            refine ⟨⟨?_, ?_, Bool.eq_false_iff.mpr hflag, hquota⟩, htaken⟩
            · simpa using hwait
            · simpa using henable
  · rintro ⟨⟨hwait, henable, hflag, hquota⟩, htaken⟩
    have hin := hmem.mpr ⟨hquota, htaken⟩
    refine ⟨_, ?_, hin⟩
    rw [preempt, hwait, henable, hflag]
    exact if_neg (List.ne_nil_of_mem hin)

end

/-- Requests to units behind the preemptor, each for what the unit can give
back, are lawful exactly when those units are fair victims. -/
theorem lawful_iff_fair {selected : Ref → GoMap String FrameworkAdmission → Prop} {P : Ref → Prop}
    (hsel : ∀ v pps name, 0 < reclaimOf pps name →
      (selected v pps ↔ P v ∧ getResourcesCanReclaim (m.unit v) protect now = some pps))
    (hnames : ∀ v, P v → ((m.unit v).status.admissions.map Admission.name).Nodup)
    (hbehind : ∀ v, P v → priorityOf (m.unit v) ≤ priorityOf preemptor) :
    Lawful m protect now preemptor selected ↔
      ∀ v, P v → GivesBack (m.unit v) protect now → Fair preemptor (m.unit v) := by
  rw [lawful_iff]
  constructor
  · rintro h v hv ⟨pps, name, hpps, hpos⟩
    rw [← entitled_iff_fair hpps (hnames v hv) (hbehind v hv) ⟨name, hpos⟩]
    exact fun n hn => h v pps ((hsel v pps n hn).mpr ⟨hv, hpps⟩) n hn
  · intro h v pps hs name hpos
    obtain ⟨hv, hpps⟩ := (hsel v pps name hpos).mp hs
    have hfair := h v hv ⟨pps, name, hpps, hpos⟩
    exact (entitled_iff_fair hpps (hnames v hv) (hbehind v hv) ⟨name, hpos⟩).mpr hfair name hpos

theorem ne_empty_of_requested (hpos : 0 < reclaimOf pps name) : pps ≠ ∅ := by
  rintro rfl
  rw [reclaimOf, Finmap.lookup_empty] at hpos
  exact absurd hpos (by decide)

section

variable [ResourceHelpers] {fw : Handle} {r v : Ref} {order : List String} {q : PreemptingQueue}

theorem held_of_taken (h : Taken m now r order q v) : ∃ key ∈ order, q.queueUnits.lookup key = some v := by
  obtain ⟨passed, rest, hsplit, _⟩ := h
  have hin : v ∈ lowestFirst m order q.toPriorityQueue := by
    rw [hsplit]
    exact List.mem_append_right passed List.mem_cons_self
  rw [lowestFirst, List.mem_reverse, sortQueue, List.mem_mergeSort] at hin
  exact List.mem_filterMap.mp hin

theorem behind_of_taken (h : Taken m now r order q v) : less (m.get r) (m.get v) < 0 := by
  obtain ⟨passed, rest, _, hless, _⟩ := h
  exact hless v (List.mem_append_right passed List.mem_cons_self)

/-- On either path, the preemptor takes only what it is entitled to exactly
when no unit that is asked has its own priority. -/
theorem reclaim_lawful_iff (fw : Handle) (m : Infos) (now : Time) (r : Ref) (order : List String)
    (q : PreemptingQueue) (hnames : ∀ key v, q.queueUnits.lookup key = some v →
      ((m.unit v).status.admissions.map Admission.name).Nodup) :
    (Lawful m q.reclaimProtectTime now (m.unit r) (PreemptVictim fw m now r order q) ↔
      (Preempts fw m r q → ∀ v, Taken m now r order q v →
        GivesBack (m.unit v) q.reclaimProtectTime now → Fair (m.unit r) (m.unit v))) ∧
    (Lawful m q.reclaimProtectTime now (m.unit r) (ReserveVictim m now r q) ↔
      (q.waitPodsRunning = true → q.preemptFlag = false → ∀ key ∈ q.assumed, ∀ v,
        q.queueUnits.lookup key = some v → less (m.get r) (m.get v) < 0 →
          GivesBack (m.unit v) q.reclaimProtectTime now → Fair (m.unit r) (m.unit v))) := by
  constructor
  · rw [lawful_iff_fair (P := fun v => Preempts fw m r q ∧ Taken m now r order q v)]
    · exact ⟨fun h hp v hv => h v ⟨hp, hv⟩, fun h v hv => h hv.1 v hv.2⟩
    · intro v pps name hpos
      rw [preemptVictim_iff, and_assoc]
      simp only [ne_eq, ne_empty_of_requested hpos, not_false_eq_true, true_and]
    · rintro v ⟨_, htaken⟩
      obtain ⟨key, _, hv⟩ := held_of_taken htaken
      exact hnames key v hv
    · exact fun v hv => priority_le_of_less (behind_of_taken hv.2)
  · rw [lawful_iff_fair (P := fun v => q.waitPodsRunning = true ∧ q.preemptFlag = false ∧
      (∃ key ∈ q.assumed, q.queueUnits.lookup key = some v) ∧ less (m.get r) (m.get v) < 0)]
    · constructor
      · exact fun h hwait hflag key hkey v hv hless => h v ⟨hwait, hflag, ⟨key, hkey, hv⟩, hless⟩
      · rintro h v ⟨hwait, hflag, ⟨key, hkey, hv⟩, hless⟩
        exact h hwait hflag key hkey v hv hless
    · intro v pps name _
      rw [reserveVictim_iff]
      simp only [and_assoc]
    · rintro v ⟨_, _, ⟨key, _, hv⟩, _⟩
      exact hnames key v hv
    · exact fun v hv => priority_le_of_less hv.2.2.2

end

/-- The pod arithmetic for containers without restart policies. -/
@[reducible] def plainPods : ResourceHelpers := ⟨Handles.Requests.podRequestsAndLimits⟩

def oneCpu : PodSpec := { containers := [{ requests := some (Finmap.singleton "cpu" ⟨1000⟩) }] }

def oneQuota : Handle := ⟨fun _ => some ["x"], false⟩

def reservedUnit (priority : Int32) : QueueUnit where
  ns := "ns"
  name := "a"
  uid := "a"
  creationTimestamp := 1
  spec := { priority := some ⟨1, priority⟩, podSets := [{ name := "worker", count := 1, template := oneCpu }] }
  status := { admissions := [{ name := "worker", replicas := 1 }] }

def preemptorUnit : QueueUnit where
  ns := "ns"
  name := "p"
  uid := "p"
  spec := { priority := some ⟨2, 5⟩, podSets := [{ name := "worker", count := 1, template := oneCpu }] }

def twoInfos (priority : Int32) : Infos :=
  (Infos.newQueueUnitInfo {} 0 preemptorUnit).newQueueUnitInfo 1 (reservedUnit priority)

def crowdedQueue : PreemptingQueue where
  waitPodsRunning := true
  enablePreempt := true
  queueUnits := GoMap.ofList [("ns/p", 0), ("ns/a", 1)]
  assumed := {"ns/a"}

theorem crowdedQueue_names (priority : Int32) (key : String) (v : Ref)
    (hv : crowdedQueue.queueUnits.lookup key = some v) :
    (((twoInfos priority).unit v).status.admissions.map Admission.name).Nodup := by
  have hin := GoMap.mem_of_lookup_ofList hv
  rcases List.mem_cons.mp hin with he | hin
  · cases he
    exact List.nodup_nil
  · cases List.mem_singleton.mp hin
    exact List.nodup_singleton _

theorem reclaim_lawful_below :
    Lawful (twoInfos 3) 0 10 preemptorUnit (ReserveVictim (twoInfos 3) 10 0 crowdedQueue) := by
  apply (@reclaim_lawful_iff plainPods oneQuota (twoInfos 3) 10 0 ["ns/a"] crowdedQueue (crowdedQueue_names 3)).2.mpr
  intro _ _ key hkey v hv _ _
  cases Finset.mem_singleton.mp hkey
  cases hv
  refine ⟨by decide, fun ad had _ _ => ?_⟩
  cases List.mem_singleton.mp had
  decide

/-- Both paths ask a unit of the preemptor's own priority to give back its
worker. -/
theorem equal_priority_asked :
    ¬ Lawful (twoInfos 5) 0 10 preemptorUnit (ReserveVictim (twoInfos 5) 10 0 crowdedQueue) ∧
      ¬ Lawful (twoInfos 5) 0 10 preemptorUnit
        (@PreemptVictim oneQuota (twoInfos 5) 10 0 ["ns/a"] crowdedQueue plainPods) := by
  have hpps : getResourcesCanReclaim ((twoInfos 5).unit 1) 0 10 =
      some (GoMap.ofList [("worker", ⟨"worker", 1⟩)]) := by decide +kernel
  have hpos : 0 < reclaimOf (GoMap.ofList [("worker", ⟨"worker", 1⟩)]) "worker" := by decide +kernel
  constructor
  · intro h
    have hvictim := (reserveVictim_iff (twoInfos 5) 10 0 crowdedQueue 1 _).mpr
      ⟨rfl, rfl, ⟨"ns/a", by decide, by decide +kernel⟩, by decide +kernel, hpps⟩
    exact absurd (lawful_iff.mp h 1 _ hvictim "worker" hpos).lower (by decide +kernel)
  · intro h
    have hres : @preempt plainPods oneQuota (twoInfos 5) 10 0 ["ns/a"] crowdedQueue =
        .preempted [(1, GoMap.ofList [("worker", ⟨"worker", 1⟩)])] := by decide +kernel
    exact absurd (lawful_iff.mp h 1 _ ⟨_, hres, List.mem_singleton_self _⟩ "worker" hpos).lower (by decide +kernel)

end KoordQueue.Queue.Rightful
