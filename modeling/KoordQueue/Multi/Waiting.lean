import KoordQueue.Multi.Object
import KoordQueue.Queue.IntelligentSteps

namespace KoordQueue.Multi.Waiting

open Api UnitStatus KoordQueue.Queue Memory Multi.Object
open Policy (Handle ReserveResult)

namespace Impl

def reserve (now : Time) (m : Infos) (r : Ref) : Impl → Impl × ReserveResult
  | .priority pq => let (pq, result) := Policy.reserve m now r pq; (.priority pq, result)
  | .intelligent iq => let (iq, result) := IntelligentSteps.reserve m r iq; (.intelligent iq, result)

def addUnschedulableIfNotPresent (fw : Handle) (m : Infos) (r : Ref) (allocatableChanged : Bool) : Impl → Impl
  | .priority pq => .priority (Policy.addUnschedulableIfNotPresent fw m r allocatableChanged pq)
  | .intelligent iq => .intelligent (IntelligentSteps.addUnschedulableIfNotPresent fw m r allocatableChanged iq)

end Impl

def reserve (now : Time) (m : Infos) (qu : QueueUnit) (q : Queue) : Option (Infos × Queue × ReserveResult) :=
  let q := { q with scheduling := q.scheduling.filter (fun r => qu.name ≠ (m.unit r).name) }
  let (m, q) :=
    if !isQueueUnitPodsScheduleFinished qu && decide (qu.uid ∉ q.waitingForScheduling) then
      (m.newQueueUnitInfo now qu, { q with
        assumed := insert qu.uid q.assumed
        waitingForScheduling := q.waitingForScheduling.insert qu.uid m.heap.next })
    else (m, q)
  q.queueImpl.map (fun impl =>
    let (impl, result) := Impl.reserve now (m.newQueueUnitInfo now qu) m.heap.next impl
    (m.newQueueUnitInfo now qu, { q with queueImpl := some impl }, result))

def addUnschedulableIfNotPresent (fw : Handle) (m : Infos) (r : Ref) (doNotBlockQuota : Bool) (q : Queue) :
    Option Queue :=
  let q := { q with
    scheduling := none
    waitingForScheduling := q.waitingForScheduling.erase (m.unit r).uid }
  q.queueImpl.map (fun impl =>
    { q with queueImpl := some (Impl.addUnschedulableIfNotPresent fw m r doNotBlockQuota impl) })

/-- In strict mode a unit of lower priority than the last one has to wait until
the pods of every unit before it are scheduled. -/
def maySchedule (enableStrictDequeueMode quotaListEnabled : Bool) (priority lastScheduledPriority : Int) (q : Queue) :
    Bool :=
  !enableStrictDequeueMode || enableStrictDequeueMode &&
    (!quotaListEnabled || priority ≥ lastScheduledPriority || q.waitingForScheduling.keys.card = 0)

/-- A queue object, with the revision at which the latest dequeue of each unit
was written, and the units that were delivered in a finished phase since. A unit
is `reserved` from its reservation in an unfinished phase until it is shown in
one or deleted, and `dropped` from the moment it is given up or deleted until it
is added, reserved or shown in an unfinished phase. -/
structure World where
  infos : Infos := {}
  queue : Queue
  written : GoMap UID Nat := ∅
  finished : Finset UID := ∅
  reserved : Finset UID := queue.assumed
  dropped : Finset UID := ∅
deriving DecidableEq

/-- The calls on the queue, and the moment when a dequeue is written. An update
carries the revision of its new version. -/
inductive Action
  | newInfo (now : Time) (qu : QueueUnit)
  | add (now : Time) (r : Ref)
  | reserve (now : Time) (qu : QueueUnit)
  | dequeueWritten (uid : UID) (revision : Nat)
  | addUnschedulable (r : Ref) (doNotBlockQuota : Bool)
  | update (now : Time) (old new : QueueUnit) (revision : Nat)
  | delete (now : Time) (qu : QueueUnit)

def settles (w : World) (new : QueueUnit) (revision : Nat) : Bool :=
  isQueueUnitPodsScheduleFinished new && (w.written.lookup new.uid).any (fun dequeue => dequeue ≤ revision)

def unfinish (qu : QueueUnit) (finished : Finset UID) : Finset UID :=
  if isQueueUnitPodsScheduleFinished qu then finished else finished.erase qu.uid

def step (fw : Handle) (w : World) : Action → Option World
  | .newInfo now qu => some { w with infos := w.infos.newQueueUnitInfo now qu }
  | .add now r => (w.queue.addQueueUnitInfo fw now w.infos r).map (fun s =>
    { w with
      infos := s.1
      queue := s.2.1
      finished := unfinish (w.infos.unit r) w.finished
      dropped := unfinish (w.infos.unit r) w.dropped })
  | .reserve now qu => (reserve now w.infos qu w.queue).map (fun s =>
    { infos := s.1
      queue := s.2.1
      written := w.written.erase qu.uid
      finished := unfinish qu w.finished
      reserved := if isQueueUnitPodsScheduleFinished qu then w.reserved else insert qu.uid w.reserved
      dropped := unfinish qu w.dropped })
  | .dequeueWritten uid revision => some { w with written := w.written.insert uid revision }
  | .addUnschedulable r doNotBlockQuota =>
    (addUnschedulableIfNotPresent fw w.infos r doNotBlockQuota w.queue).map (fun queue =>
      { w with queue, dropped := insert (w.infos.unit r).uid w.dropped })
  | .update now old new revision => (w.queue.update fw now w.infos old new).map (fun s =>
    { w with
      infos := s.1
      queue := s.2
      finished := if settles w new revision then insert new.uid w.finished else unfinish new w.finished
      reserved := unfinish new w.reserved
      dropped := unfinish new w.dropped })
  | .delete now qu => (w.queue.delete fw now w.infos qu).map (fun s =>
    { w with
      infos := s.1
      queue := s.2
      reserved := w.reserved.erase qu.uid
      dropped := insert qu.uid w.dropped })

def Apart (uids : Finset UID) (q : Queue) : Prop := ∀ uid ∈ uids, uid ∉ q.waitingForScheduling

/-- A unit that is shown in a finished phase was shown in an unfinished one since
it was reserved, or was given up since. -/
def Paired (w : World) : Action → Prop
  | .update _ _ new revision => settles w new revision = true → new.uid ∉ w.reserved ∨ new.uid ∈ w.dropped
  | .newInfo .. | .add .. | .reserve .. | .dequeueWritten .. | .addUnschedulable .. | .delete .. => True

instance decidablePaired (w : World) (a : Action) : Decidable (Paired w a) := by
  delta Paired
  split <;> infer_instance

/-- Only a reserved unit is assumed, and no dropped or finished unit is waited for. -/
structure Tracked (w : World) : Prop where
  assumed : w.queue.assumed ⊆ w.reserved
  dropped : Apart w.dropped w.queue
  finished : Apart w.finished w.queue

variable {fw : Handle} {w t : World} {now : Time} {m n : Infos} {q p : Queue} {qu old new : QueueUnit} {uid : UID}

theorem mem_await (now : Time) (m : Infos) (qu : QueueUnit) (q : Queue) (uid : UID) :
    uid ∈ (q.await now m qu).2.waitingForScheduling ↔ uid = qu.uid ∨ uid ∈ q.waitingForScheduling := by
  rw [Queue.await]
  split
  next h =>
    constructor
    · exact Or.inr
    · rintro (rfl | h')
      · exact h
      · exact h'
  next => exact Finmap.mem_insert

variable {result : Except String Bool} {uids : Finset UID} {r : Ref}

theorem assumed_await (now : Time) (m : Infos) (qu : QueueUnit) (q : Queue) :
    (q.await now m qu).2.assumed = q.assumed := by
  rw [Queue.await]
  split <;> rfl

theorem sets_addQueueUnitInfo (h : q.addQueueUnitInfo fw now m r = some (n, p, result)) :
    p.assumed = q.assumed ∧ ∀ uid, uid ∈ p.waitingForScheduling ↔
      (isQueueUnitPodsScheduleFinished (m.unit r) = false ∧ uid = (m.unit r).uid) ∨ uid ∈ q.waitingForScheduling := by
  cases hf : isQueueUnitPodsScheduleFinished (m.unit r) with
  | true =>
    simp only [Queue.addQueueUnitInfo, hf, Bool.not_true, Bool.false_eq_true, if_false] at h
    obtain ⟨impl, _, heq⟩ := Option.map_eq_some_iff.mp h
    cases heq
    simp
  | false =>
    simp only [Queue.addQueueUnitInfo, hf, Bool.not_false, if_true] at h
    obtain ⟨impl, _, heq⟩ := Option.map_eq_some_iff.mp h
    cases heq
    simp [mem_await, assumed_await]

theorem sets_reserve {result : ReserveResult} (h : reserve now m qu q = some (n, p, result)) :
    p.assumed ⊆ (if isQueueUnitPodsScheduleFinished qu then q.assumed else insert qu.uid q.assumed) ∧
      ∀ uid, uid ∈ p.waitingForScheduling ↔
        (isQueueUnitPodsScheduleFinished qu = false ∧ uid = qu.uid) ∨ uid ∈ q.waitingForScheduling := by
  rw [reserve] at h
  by_cases hnew : (!isQueueUnitPodsScheduleFinished qu && decide (qu.uid ∉ q.waitingForScheduling)) = true
  · rw [if_pos hnew] at h
    obtain ⟨impl, _, heq⟩ := Option.map_eq_some_iff.mp h
    cases heq
    rw [Bool.and_eq_true, Bool.not_eq_true'] at hnew
    rw [hnew.1]
    exact ⟨Finset.Subset.refl _, fun _ => by simp [Finmap.mem_insert]⟩
  · rw [if_neg hnew] at h
    obtain ⟨impl, _, heq⟩ := Option.map_eq_some_iff.mp h
    cases heq
    refine ⟨?_, fun uid => ⟨Or.inr, ?_⟩⟩
    · dsimp only
      split
      next => exact Finset.Subset.refl _
      next => exact Finset.subset_insert _ _
    · rintro (⟨hf, rfl⟩ | hin)
      · by_contra hout
        exact hnew (by simp [hf, show qu.uid ∉ q.waitingForScheduling from hout])
      · exact hin

theorem sets_update (h : q.update fw now m old new = some (n, p)) :
    p.assumed = unfinish new q.assumed ∧ ∀ uid, uid ∈ p.waitingForScheduling ↔
      if isQueueUnitPodsScheduleFinished new = true then
        uid ∈ q.waitingForScheduling ∧ (uid = new.uid → uid ∈ q.assumed)
      else uid = new.uid ∨ uid ∈ q.waitingForScheduling := by
  cases hf : isQueueUnitPodsScheduleFinished new with
  | false =>
    simp only [Queue.update, hf, Bool.not_false, if_true] at h
    obtain ⟨impl, _, heq⟩ := Option.map_eq_some_iff.mp h
    cases heq
    simp [mem_await, assumed_await, unfinish, hf]
  | true =>
    rw [unfinish, hf, if_pos rfl]
    by_cases hin : new.uid ∈ q.assumed
    · simp only [Queue.update, hf, Bool.not_true, Bool.false_eq_true, if_false, hin, not_true_eq_false] at h
      obtain ⟨impl, _, heq⟩ := Option.map_eq_some_iff.mp h
      cases heq
      exact ⟨rfl, fun uid => ⟨fun hw => ⟨hw, fun he => he ▸ hin⟩, And.left⟩⟩
    · simp only [Queue.update, hf, Bool.not_true, Bool.false_eq_true, if_false, hin, not_false_eq_true,
        if_true] at h
      obtain ⟨impl, _, heq⟩ := Option.map_eq_some_iff.mp h
      cases heq
      refine ⟨rfl, fun uid => ?_⟩
      rw [if_pos rfl, Finmap.mem_erase]
      constructor
      · exact fun hw => ⟨hw.2, fun he => absurd he hw.1⟩
      · exact fun hw => ⟨fun he => hin (he ▸ hw.2 he), hw.1⟩

theorem unfinish_subset {s u : Finset UID} (h : s ⊆ u) (qu : QueueUnit) : unfinish qu s ⊆ unfinish qu u := by
  rw [unfinish, unfinish]
  split
  next => exact h
  next => exact Finset.erase_subset_erase _ h

theorem apart_awaited (h : Apart uids q) (hwait : ∀ uid, uid ∈ p.waitingForScheduling ↔
      (isQueueUnitPodsScheduleFinished qu = false ∧ uid = qu.uid) ∨ uid ∈ q.waitingForScheduling) :
    Apart (unfinish qu uids) p := by
  intro uid huid hin
  simp only [unfinish] at huid
  rcases (hwait uid).mp hin with ⟨hf, rfl⟩ | hbefore
  · simp [hf] at huid
  · split at huid
    next => exact h uid huid hbefore
    next => exact h uid (Finset.mem_of_mem_erase huid) hbefore

theorem apart_update (h : Apart uids q) (hup : q.update fw now m old new = some (n, p)) :
    Apart (unfinish new uids) p := by
  intro uid huid hin
  rw [(sets_update hup).2] at hin
  rw [unfinish] at huid
  split at hin
  next hf =>
    rw [if_pos hf] at huid
    exact h uid huid hin.1
  next hf =>
    rw [if_neg hf] at huid
    obtain ⟨hne, huid⟩ := Finset.mem_erase.mp huid
    exact h uid huid (hin.resolve_left hne)

theorem apart_erased (h : Apart uids q)
    (hwait : p.waitingForScheduling = q.waitingForScheduling.erase uid) : Apart (insert uid uids) p := by
  intro u hu hin
  rw [hwait, Finmap.mem_erase] at hin
  exact h u ((Finset.mem_insert.mp hu).resolve_left hin.1) hin.2

/-- The removal is skipped only for a unit that is assumed, and such a unit was
not shown in an unfinished phase since it was reserved. -/
theorem finished_update (h : Tracked w) {revision : Nat} (hok : Paired w (.update now old new revision))
    (hup : w.queue.update fw now w.infos old new = some (n, p)) :
    Apart (if settles w new revision then insert new.uid w.finished else unfinish new w.finished) p := by
  split
  next hs =>
    intro uid huid hin
    rw [(sets_update hup).2, if_pos (Bool.and_eq_true_iff.mp hs).1] at hin
    rcases Finset.mem_insert.mp huid with rfl | huid
    · rcases hok hs with hnot | hdropped
      · exact hnot (h.assumed (hin.2 rfl))
      · exact h.dropped _ hdropped hin.1
    · exact h.finished uid huid hin.1
  next => exact apart_update h.finished hup

theorem tracked_step {a : Action} (h : Tracked w) (hok : Paired w a) (hstep : step fw w a = some t) : Tracked t := by
  cases a with
  | newInfo | dequeueWritten =>
    cases hstep
    exact ⟨h.assumed, h.dropped, h.finished⟩
  | add now r =>
    obtain ⟨⟨n, p, result⟩, hadd, rfl⟩ := Option.map_eq_some_iff.mp hstep
    obtain ⟨hassumed, hwait⟩ := sets_addQueueUnitInfo hadd
    refine ⟨?_, apart_awaited h.dropped hwait, apart_awaited h.finished hwait⟩
    rw [hassumed]
    exact h.assumed
  | reserve now qu =>
    obtain ⟨⟨n, p, result⟩, hres, rfl⟩ := Option.map_eq_some_iff.mp hstep
    obtain ⟨hassumed, hwait⟩ := sets_reserve hres
    refine ⟨hassumed.trans ?_, apart_awaited h.dropped hwait, apart_awaited h.finished hwait⟩
    dsimp only
    split
    next => exact h.assumed
    next => exact Finset.insert_subset_insert _ h.assumed
  | addUnschedulable r doNotBlockQuota =>
    obtain ⟨p, hadd, rfl⟩ := Option.map_eq_some_iff.mp hstep
    obtain ⟨impl, _, rfl⟩ := Option.map_eq_some_iff.mp hadd
    refine ⟨h.assumed, apart_erased h.dropped rfl, fun uid huid hin => ?_⟩
    exact h.finished uid huid (Finmap.mem_erase.mp hin).2
  | update now old new revision =>
    obtain ⟨⟨n, p⟩, hup, rfl⟩ := Option.map_eq_some_iff.mp hstep
    refine ⟨?_, apart_update h.dropped hup, finished_update h hok hup⟩
    rw [(sets_update hup).1]
    exact unfinish_subset h.assumed new
  | delete now qu =>
    obtain ⟨⟨n, p⟩, hdel, rfl⟩ := Option.map_eq_some_iff.mp hstep
    obtain ⟨impl, _, heq⟩ := Option.map_eq_some_iff.mp hdel
    cases heq
    refine ⟨Finset.erase_subset_erase _ h.assumed, apart_erased h.dropped rfl, fun uid huid hin => ?_⟩
    exact h.finished uid huid (Finmap.mem_erase.mp hin).2

/-- In every run that meets the condition no unit that was shown in a finished
phase at or after its dequeue is waited for. -/
theorem waiting_does_not_leak (fw : Handle) (infos : Infos) (queue : Queue) (as : List Action) (w : World)
    (hg : Run.Guarded (step fw) Paired { infos, queue } as) (hrun : Run.exec (step fw) { infos, queue } as = some w) :
    ∀ uid ∈ w.finished, uid ∉ w.queue.waitingForScheduling := by
  refine (Run.invariant (fun _ _ _ h hok hs => tracked_step h hok hs) ⟨?_, ?_, ?_⟩ hg hrun : Tracked w).finished
  · exact Finset.Subset.refl _
  · exact fun uid huid => absurd huid (Finset.notMem_empty uid)
  · exact fun uid huid => absurd huid (Finset.notMem_empty uid)

def unitIn (phase : QueueUnitPhase) (version : String) (admissions : List Admission) : QueueUnit where
  ns := "ns"
  name := "a"
  uid := "a"
  resourceVersion := version
  spec := { podSets := [{ name := "worker", count := 1 }] }
  status := { phase, admissions }

def oneQueue : World :=
  { queue := { queueImpl := some (.priority (Policy.newPriorityQueue "q" "Priority" (-1) false 0 0)) } }

def someWorker : List Admission := [{ name := "worker", replicas := 1, running := 1 }]

/-- The first dequeue of the unit fails. The second is shown before the unit runs. -/
def shownPhase : List Action :=
  [.newInfo 0 (unitIn .enqueued "1" []), .add 0 0, .reserve 1 (unitIn .schedReady "1" []), .addUnschedulable 0 true,
    .reserve 2 (unitIn .schedReady "1" []), .dequeueWritten "a" 2,
    .update 3 (unitIn .enqueued "1" []) (unitIn .schedReady "2" []) 2,
    .update 4 (unitIn .schedReady "2" []) (unitIn .running "3" someWorker) 3]

theorem waiting_does_not_leak_shown :
    ∃ w, Run.exec (step ⟨fun _ => none, false⟩) oneQueue shownPhase = some w ∧ "a" ∈ w.finished ∧
      "a" ∉ w.queue.waitingForScheduling := by
  obtain ⟨w, hrun, h⟩ : ∃ w, Run.exec (step ⟨fun _ => none, false⟩) oneQueue shownPhase = some w ∧ "a" ∈ w.finished :=
      by decide +kernel
  have hfinished := h
  exact ⟨w, hrun, hfinished,
    waiting_does_not_leak ⟨fun _ => none, false⟩ {} oneQueue.queue shownPhase w (by decide +kernel) hrun "a" hfinished⟩

/-- The unit waits for its pods from its dequeue on. The informer skips that
phase and shows the unit when it runs. -/
def skippedPhase : List Action :=
  [.newInfo 0 (unitIn .enqueued "1" []), .add 0 0, .reserve 1 (unitIn .schedReady "1" []), .dequeueWritten "a" 2,
    .update 2 (unitIn .enqueued "1" []) (unitIn .running "3" someWorker) 3]

theorem running_unit_still_awaited :
    ∃ w, Run.exec (step ⟨fun _ => none, false⟩) oneQueue skippedPhase = some w ∧
      "a" ∈ w.finished ∧ "a" ∈ w.queue.waitingForScheduling ∧ maySchedule true true 1 5 w.queue = false := by
  obtain ⟨w, hrun, h⟩ : ∃ w, Run.exec (step ⟨fun _ => none, false⟩) oneQueue skippedPhase = some w ∧
      "a" ∈ w.finished ∧ "a" ∈ w.queue.waitingForScheduling ∧ maySchedule true true 1 5 w.queue = false :=
      by decide +kernel
  exact ⟨w, hrun, h⟩

end KoordQueue.Multi.Waiting
