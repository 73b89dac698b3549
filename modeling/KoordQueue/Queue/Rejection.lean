import KoordQueue.Queue.IntelligentSteps

namespace KoordQueue.Queue.Rejection

open Api UnitStatus Memory
open Policy (Handle PriorityQueue)
open Intelligent (IntelligentQueue)

def marked (qu : QueueUnit) (assumed : Finset String) : Finset String :=
  if isQueueUnitReservedNotRun qu then insert qu.key assumed else assumed

theorem marked_eq_iff (qu : QueueUnit) (assumed : Finset String) :
    marked qu assumed = assumed ↔ (isQueueUnitReservedNotRun qu = true → qu.key ∈ assumed) := by
  rw [marked]
  split
  next hr => rw [Finset.insert_eq_self, forall_prop_of_true hr]
  next hr => exact iff_of_true rfl (fun h => absurd h hr)

section

variable {fw : Handle} {m : Infos} {r : Ref} {e : String}

theorem rejected_priority {q : PriorityQueue} (h : (Policy.addQueueUnitInfo fw m r q).2 = .error e) :
    (Policy.addQueueUnitInfo fw m r q).1 = { q with assumed := marked (m.unit r) q.assumed } := by
  have hmarks := (apply_ite (fun assumed => { q with assumed }) (isQueueUnitReservedNotRun (m.unit r) = true)
    (insert (m.unit r).key q.assumed) q.assumed).symm
  rw [Policy.addQueueUnitInfo] at h ⊢
  rw [hmarks] at h ⊢
  dsimp only at h ⊢
  split at h
  next => cases h
  next hd =>
    split at h
    next hf => rw [if_neg hd, if_pos hf, marked]
    next => split at h <;> cases h

theorem rejected_intelligent {q : IntelligentQueue} (h : (Intelligent.addQueueUnitInfo m r q).2 = .error e) :
    (Intelligent.addQueueUnitInfo m r q).1 = { q with assumed := marked (m.unit r) q.assumed } := by
  have hmarks := (apply_ite (fun assumed => { q with assumed }) (isQueueUnitReservedNotRun (m.unit r) = true)
    (insert (m.unit r).key q.assumed) q.assumed).symm
  rw [Intelligent.addQueueUnitInfo] at h ⊢
  rw [hmarks] at h ⊢
  dsimp only at h ⊢
  split at h
  next => cases h
  next hd =>
    split at h
    next hf => rw [if_neg hd, if_pos hf, marked]
    next => cases h

end

theorem priority_assumed_inj (q : PriorityQueue) (assumed : Finset String) :
    { q with assumed } = q ↔ assumed = q.assumed :=
  ⟨congrArg PriorityQueue.assumed, fun h => h ▸ rfl⟩

theorem intelligent_assumed_inj (q : IntelligentQueue) (assumed : Finset String) :
    { q with assumed } = q ↔ assumed = q.assumed :=
  ⟨congrArg IntelligentQueue.assumed, fun h => h ▸ rfl⟩

/-- A rejected addition can change nothing but the assumed units, and it leaves those alone exactly when
the unit is not reserved and waiting for its pods, or was assumed before. -/
theorem rejected_add_neutral_iff (fw : Handle) (m : Infos) (r : Ref) (e : String) :
    (∀ q : PriorityQueue, (Policy.addQueueUnitInfo fw m r q).2 = .error e →
      (∃ assumed, (Policy.addQueueUnitInfo fw m r q).1 = { q with assumed }) ∧
      ((Policy.addQueueUnitInfo fw m r q).1 = q ↔
        (isQueueUnitReservedNotRun (m.unit r) = true → m.key r ∈ q.assumed))) ∧
    ∀ q : IntelligentQueue, (Intelligent.addQueueUnitInfo m r q).2 = .error e →
      (∃ assumed, (Intelligent.addQueueUnitInfo m r q).1 = { q with assumed }) ∧
      ((Intelligent.addQueueUnitInfo m r q).1 = q ↔
        (isQueueUnitReservedNotRun (m.unit r) = true → m.key r ∈ q.assumed)) := by
  constructor
  · intro q h
    refine ⟨⟨_, rejected_priority h⟩, ?_⟩
    rw [rejected_priority h, priority_assumed_inj, marked_eq_iff, Infos.key]
  · intro q h
    refine ⟨⟨_, rejected_intelligent h⟩, ?_⟩
    rw [rejected_intelligent h, intelligent_assumed_inj, marked_eq_iff, Infos.key]

def queuedUnit : QueueUnit := Steps.jobUnit "a" "1" none 1 []

def reservedUnit : QueueUnit := Steps.jobUnit "a" "2" none 1 [{ name := "worker", replicas := 1 }]

def newPriority : Update.State := Steps.emptyQueue

def newIntelligent : Intelligent.State := { iq := Intelligent.newIntelligentQueue {} "q" 4 (-1) false [] }

theorem rejected_again_neutral :
    ∃ s t, Run.exec (Steps.step Steps.noQuotas) newPriority [.newInfo 0 queuedUnit, .add 0] = some s ∧
      Run.exec (IntelligentSteps.step Steps.noQuotas) newIntelligent [.newInfo 0 queuedUnit, .add 0] = some t ∧
      (Policy.addQueueUnitInfo Steps.noQuotas s.infos 0 s.pq).1 = s.pq ∧
      (Intelligent.addQueueUnitInfo t.infos 0 t.iq).1 = t.iq := by
  obtain ⟨s, hs, hps⟩ : ∃ s, Run.exec (Steps.step Steps.noQuotas) newPriority [.newInfo 0 queuedUnit, .add 0] =
      some s ∧ (Policy.addQueueUnitInfo Steps.noQuotas s.infos 0 s.pq).2 = .error "queueUnit ns/a already exists" ∧
      isQueueUnitReservedNotRun (s.infos.unit 0) = false := by decide +kernel
  obtain ⟨t, ht, hpt⟩ : ∃ t, Run.exec (IntelligentSteps.step Steps.noQuotas) newIntelligent
      [.newInfo 0 queuedUnit, .add 0] = some t ∧ (Intelligent.addQueueUnitInfo t.infos 0 t.iq).2 =
      .error "queueUnit ns/a already exists" ∧ isQueueUnitReservedNotRun (t.infos.unit 0) = false := by decide +kernel
  obtain ⟨hes, hrs⟩ := hps
  obtain ⟨het, hrt⟩ := hpt
  refine ⟨s, t, hs, ht, ?_, ?_⟩
  · refine (((rejected_add_neutral_iff Steps.noQuotas s.infos 0 _).1 s.pq hes).2.mpr ?_)
    intro hr
    cases hrs.symm.trans hr
  · refine (((rejected_add_neutral_iff Steps.noQuotas t.infos 0 _).2 t.iq het).2.mpr ?_)
    intro hr
    cases hrt.symm.trans hr

/-- The informer delivers the reserved version of a unit that is queued already: the addition is
refused, and the unit is assumed from then on. -/
theorem rejected_reserved_marked :
    (∃ s, Run.exec (Steps.step Steps.noQuotas) newPriority
        [.newInfo 0 queuedUnit, .add 0, .newInfo 0 reservedUnit] = some s ∧ s.pq.assumed = ∅ ∧
      (Policy.addQueueUnitInfo Steps.noQuotas s.infos 1 s.pq).2 = .error "queueUnit ns/a already exists" ∧
      (Policy.addQueueUnitInfo Steps.noQuotas s.infos 1 s.pq).1.assumed = {"ns/a"}) ∧
    ∃ t, Run.exec (IntelligentSteps.step Steps.noQuotas) newIntelligent
        [.newInfo 0 queuedUnit, .add 0, .newInfo 0 reservedUnit] = some t ∧ t.iq.assumed = ∅ ∧
      (Intelligent.addQueueUnitInfo t.infos 1 t.iq).2 = .error "queueUnit ns/a already exists" ∧
      (Intelligent.addQueueUnitInfo t.infos 1 t.iq).1.assumed = {"ns/a"} := by
  decide +kernel

end KoordQueue.Queue.Rejection
