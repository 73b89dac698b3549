import KoordQueue.JobExt.Reconciler
import KoordQueue.Queue.IntelligentVersions
import KoordQueue.Queue.Versions

namespace KoordQueue.Queue.BackingOff

open Api Memory Deliveries
open Queue.Representation (Objects)
open Policy (Handle PriorityQueue newPriorityQueue skips)
open Intelligent (passedOver newIntelligentQueue)
open JobExt.Records JobExt.Conditions JobExt.Reconciler

abbrev Phases := GoMap String QueueUnitPhase

/-- A queue together with what was observed of its units. -/
structure Observing (S : Type) where
  state : S
  phases : Phases := ∅

def note (qu : QueueUnit) (phases : Phases) : Phases := phases.insert qu.key qu.status.phase

/-- A unit is observed when it is added or updated, and when the scheduler
refreshes it after a failure. -/
def observe (m : Infos) (phases : Phases) : Delivery → Phases
  | .added r => note (m.unit r) phases
  | .updated qu | .refreshed _ qu => note qu phases
  | .removed key => phases.erase key
  | .nothing => phases

def observing (fw : Handle) (w : Observing Update.State) (a : Steps.Action) : Option (Observing Update.State) :=
  (Steps.step fw w.state a).map (fun t => ⟨t, observe w.state.infos w.phases (delivered w.state.infos a)⟩)

def observingIntelligent (fw : Handle) (w : Observing Intelligent.State) (a : IntelligentSteps.Action) :
    Option (Observing Intelligent.State) :=
  (IntelligentSteps.step fw w.state a).map (fun t =>
    ⟨t, observe w.state.infos w.phases (deliveredIntelligent w.state.infos a)⟩)

/-- A version in backoff that is delivered still has what it asks for, or is inactive; and the queue takes it
for the version it holds. -/
def Furnished (fw : Handle) (units : GoMap String Ref) (m : Infos) : Delivery → Prop
  | .added r => (m.unit r).status.phase = .backoff → needsNothing fw (m.unit r) = true ∧ m.key r ∉ units
  | .updated qu => qu.status.phase = .backoff → needsNothing fw qu = true
  | .refreshed r qu => qu.status.phase = .backoff → needsNothing fw qu = true ∧ ∀ x ∈ units.lookup qu.key, x = r
  | .removed _ | .nothing => True

instance decidableFurnished (fw : Handle) (units : GoMap String Ref) (m : Infos) (d : Delivery) :
    Decidable (Furnished fw units m d) := by
  delta Furnished
  split <;> infer_instance

def FurnishedRun (fw : Handle) (obj : Objects) (w : Observing Update.State) (a : Steps.Action) : Prop :=
  Versions.Traced fw obj w.state a ∧ Furnished fw w.state.pq.queueUnits w.state.infos (delivered w.state.infos a)
deriving Decidable

def FurnishedIntelligentRun (fw : Handle) (obj : Objects) (w : Observing Intelligent.State) (a : IntelligentSteps.Action) :
    Prop :=
  IntelligentVersions.Traced obj w.state a ∧
    Furnished fw w.state.iq.queueUnits w.state.infos (deliveredIntelligent w.state.infos a)
deriving Decidable

def PassesBackoff (fw : Handle) (units : GoMap String Ref) (m : Infos) (phases : Phases) : Prop :=
  ∀ key r, units.lookup key = some r → phases.lookup key = some .backoff → needsNothing fw (m.unit r) = true

section

variable {fw : Handle} {units : GoMap String Ref} {m : Infos} {phases : Phases} {key : String} {r : Ref}

variable {d : Delivery} {qu : QueueUnit}

theorem backoff_of_note (h : (note qu phases).lookup key = some .backoff) :
    key = qu.key ∧ qu.status.phase = .backoff ∨ key ≠ qu.key ∧ phases.lookup key = some .backoff := by
  rw [note, GoMap.lookup_insert_eq] at h
  split at h
  next hk => exact Or.inl ⟨hk, Option.some.inj h⟩
  next hk => exact Or.inr ⟨hk, h⟩

/-- A version that stays was in backoff before. -/
theorem backoff_of_kept (hok : Furnished fw units m d) (hr : units.lookup key = some r)
    (hd : ¬ d.Replaces key r) (h : (observe m phases d).lookup key = some .backoff) :
    phases.lookup key = some .backoff := by
  cases d with
  | added x =>
    rcases backoff_of_note h with ⟨rfl, hphase⟩ | ⟨-, hold⟩
    · exact absurd (Finmap.mem_of_lookup_eq_some hr) (hok hphase).2
    · exact hold
  | updated qu =>
    rcases backoff_of_note h with ⟨hk, -⟩ | ⟨-, hold⟩
    · exact absurd hk hd
    · exact hold
  | refreshed x qu =>
    rcases backoff_of_note h with ⟨rfl, hphase⟩ | ⟨-, hold⟩
    · exact absurd ((hok hphase).2 r hr).symm hd
    · exact hold
  | removed k =>
    rw [observe, GoMap.lookup_erase_eq] at h
    split at h
    next => cases h
    next => exact h
  | nothing => exact h

theorem needsNothing_of_held (h : PassesBackoff fw units m phases) (hok : Furnished fw units m d)
    (hheld : Held units m key d r qu) (hphase : (observe m phases d).lookup key = some .backoff) :
    needsNothing fw qu = true := by
  cases hheld with
  | kept hr hd => exact h key r hr (backoff_of_kept hok hr hd hphase)
  | added hkey hnew =>
    rcases backoff_of_note hphase with ⟨-, hbackoff⟩ | ⟨hne, -⟩
    · exact (hok hbackoff).1
    · exact absurd hkey.symm hne
  | updated hkey =>
    rcases backoff_of_note hphase with ⟨-, hbackoff⟩ | ⟨hne, -⟩
    · exact hok hbackoff
    · exact absurd hkey hne
  | refreshed hr hkey =>
    rcases backoff_of_note hphase with ⟨-, hbackoff⟩ | ⟨hne, -⟩
    · exact (hok hbackoff).1
    · exact absurd hkey.symm hne

end

section

variable {fw : Handle} {m : Infos} {now : Time} {q p : PriorityQueue} {r : Ref}

theorem passedOver_of_skips (h : skips fw m q r = false) : passedOver fw m r = false := by
  simp only [skips, Bool.or_eq_false_iff] at h
  rw [passedOver, h.1.2, h.1.1.2]
  rfl

theorem passedOver_of_next (h : (Policy.next fw m now q).2 = .unit r) : r ∈ q.queue ∧ passedOver fw m r = false := by
  obtain ⟨q', p, hp, hqueue, -⟩ := Scan.next_unit h
  exact ⟨hqueue ▸ hp.mem, passedOver_of_skips hp.unskipped⟩

end

section

variable {fw : Handle} {obj : Objects}

theorem passesBackoff_step {w t : Observing Update.State} {a : Steps.Action}
    (h : Slice.Represented obj w.state ∧ PassesBackoff fw w.state.pq.queueUnits w.state.infos w.phases)
    (hok : FurnishedRun fw obj w a) (hstep : observing fw w a = some t) :
    Slice.Represented obj t.state ∧ PassesBackoff fw t.state.pq.queueUnits t.state.infos t.phases := by
  obtain ⟨s, hs, rfl⟩ := Option.map_eq_some_iff.mp hstep
  refine ⟨Consistency.represented_step fw h.1 hok.1.1 hs, ?_⟩
  intro key r hr
  exact needsNothing_of_held h.2 hok.2 (Versions.held_step h.1.filed hok.1 hs hr)

theorem passesBackoff_intelligent_step {w t : Observing Intelligent.State} {a : IntelligentSteps.Action}
    (h : Halves.HalvedAt obj w.state ∧ PassesBackoff fw w.state.iq.queueUnits w.state.infos w.phases)
    (hok : FurnishedIntelligentRun fw obj w a) (hstep : observingIntelligent fw w a = some t) :
    Halves.HalvedAt obj t.state ∧
      PassesBackoff fw t.state.iq.queueUnits t.state.infos t.phases := by
  obtain ⟨s, hs, rfl⟩ := Option.map_eq_some_iff.mp hstep
  refine ⟨IntelligentVersions.halved_step h.1 hok.1 hs, ?_⟩
  intro key r hr
  exact needsNothing_of_held h.2 hok.2 (IntelligentVersions.held_step h.1 hok.1 hs hr)

end

theorem phase_exhausted (f : Features) (now : Time) (qu : JobUnit) :
    (exhausted f now qu).status.phase = qu.status.phase := by
  rw [exhausted, evicted_status]
  rfl

theorem elapsed_of_moved {f : Features} {now jitter : Time} {handle : JobHandle} {status : JobStatus}
    {qu qu' : JobUnit} (hm : Moved f now jitter handle status qu qu') (hb : qu.status.phase = .backoff)
    (ha : f.queueUnitActive = true → isQueueUnitActive qu.toQueueUnit = true) (hq : qu'.status.phase = .enqueued) :
    queueUnitRequeueBackoffElapsed f handle.backoffTime now qu = true := by
  cases hm with
  | deactivated hf hinactive =>
    rw [ha hf] at hinactive
    cases hinactive
  | exhausted =>
    rw [phase_exhausted] at hq
    cases hb.symm.trans hq
  | preempted hp => cases hb.symm.trans hp
  | backoffOver _ he => exact he
  | timedOut hp => cases hb.symm.trans hp
  | backToPending hp => cases hb.symm.trans hp
  | running =>
    rw [phase_updateQueueUnitStatus] at hq
    cases hq
  | finished hp =>
    rw [phase_updateQueueUnitStatus] at hq
    subst hq
    rcases hp with hp | hp <;> cases hp

/-- In runs that meet the condition neither queue hands out a unit that backs off, and an active one
stays in backoff until its time is over. -/
theorem backing_off_not_handed_out (fw : Handle) (obj : Objects) :
    (∀ (name queuePolicy : String) (maxDepth : Int) (waitPodsRunning : Bool) (reclaimProtectTime : Int) (start : Time)
      (as : List Steps.Action) (w : Observing Update.State) (now : Time) (r : Ref),
      let fresh := { state := ⟨{}, newPriorityQueue name queuePolicy maxDepth waitPodsRunning reclaimProtectTime start⟩ }
      Run.Guarded (observing fw) (FurnishedRun fw obj) fresh as → Run.exec (observing fw) fresh as = some w →
      (Policy.next fw w.state.infos now w.state.pq).2 = .unit r →
      w.phases.lookup (w.state.infos.key r) ≠ some .backoff) ∧
    (∀ (name : String) (threshold maxDepth : Int) (waitPodsRunning : Bool) (as : List IntelligentSteps.Action)
      (w : Observing Intelligent.State) (now : Time) (r : Ref),
      let fresh := { state := { iq := newIntelligentQueue {} name threshold maxDepth waitPodsRunning [] } }
      Run.Guarded (observingIntelligent fw) (FurnishedIntelligentRun fw obj) fresh as →
      Run.exec (observingIntelligent fw) fresh as = some w →
      (Intelligent.next fw w.state.infos now w.state.iq).2 = .unit r →
      w.phases.lookup (w.state.infos.key r) ≠ some .backoff) ∧
    ∀ (s : Settings) (now jitter : Time) (handle : JobHandle) (job : Job) (qu qu' : JobUnit),
      qu.status.phase = .backoff →
      (s.features.queueUnitActive = true → isQueueUnitActive qu.toQueueUnit = true) →
      .updateStatus qu' ∈ (reconcileUnit s now jitter handle job qu).calls → qu'.status.phase = .enqueued →
      queueUnitRequeueBackoffElapsed s.features handle.backoffTime now qu = true := by
  refine ⟨?_, ?_, ?_⟩
  · intro name queuePolicy maxDepth waitPodsRunning reclaimProtectTime start as w now r fresh hg hrun hnext hbackoff
    have hstart := Consistency.represented_newPriorityQueue obj name queuePolicy maxDepth waitPodsRunning
      reclaimProtectTime start
    have hw := Run.invariant (fun _ _ _ h hok hs => passesBackoff_step h hok hs)
      ⟨hstart, fun key r hr => by cases hr⟩ hg hrun
    obtain ⟨hr, hfree⟩ := passedOver_of_next hnext
    have hover := hw.2 _ r (hw.1.listed.mp hr) hbackoff
    exact absurd hover (ne_true_of_eq_false hfree)
  · intro name threshold maxDepth waitPodsRunning as w now r fresh hg hrun hnext hbackoff
    have hstart := Partition.current_newIntelligentQueue obj name threshold maxDepth waitPodsRunning
    have hw := Run.invariant (fun _ _ _ h hok hs => passesBackoff_intelligent_step h hok hs)
      ⟨hstart.halved, fun key r hr => by cases hr⟩ hg hrun
    obtain ⟨hfree, _, hplace⟩ := IntelligentScan.next_unit hnext
    have hlookup := IntelligentVersions.lookup_of_slot hw.1 (List.mem_append.mpr (hplace.imp_right And.left))
    exact absurd (hw.2 _ r hlookup hbackoff) (ne_true_of_eq_false hfree)
  · intro s now jitter handle job qu qu' hb ha hm hq
    exact elapsed_of_moved (moved_of_mem hm) hb ha hq

def workersIn (phase : QueueUnitPhase) (name version : String) (count : Int32) (admitted : Int64) : QueueUnit :=
  { ns := "ns", name, uid := name, resourceVersion := version
    spec := { podSets := [{ name := "worker", count }] }
    status := { phase, admissions := [{ name := "worker", replicas := admitted }] } }

def priorityStart : Observing Update.State := { state := Steps.emptyQueue }

def intelligentStart : Observing Intelligent.State := { state := IntelligentSteps.emptyIntelligent }

/-- A unit is dequeued and backs off with its replicas still admitted, beside one that waits. -/
def besideProvided : List Steps.Action :=
  [.newInfo 0 (workersIn .enqueued "a" "1" 1 0), .newInfo 0 (workersIn .enqueued "b" "1" 1 0), .add 0, .add 1, .next 0,
    .reserve 0 0, .update 0 (workersIn .enqueued "a" "1" 1 0) (workersIn .dequeued "a" "2" 1 1),
    .update 0 (workersIn .dequeued "a" "2" 1 1) (workersIn .backoff "a" "3" 1 1)]

def besideProvidedIntelligent : List IntelligentSteps.Action :=
  [.newInfo 0 (workersIn .enqueued "a" "1" 1 0), .newInfo 0 (workersIn .enqueued "b" "1" 1 0), .add 0, .add 1, .next 0,
    .reserve 0, .update 0 (workersIn .enqueued "a" "1" 1 0) (workersIn .dequeued "a" "2" 1 1),
    .update 0 (workersIn .dequeued "a" "2" 1 1) (workersIn .backoff "a" "3" 1 1)]

def recorded : JobUnit :=
  { status := { phase := .backoff, lastUpdateTime := some second }
    requeueState := some { count := 1, requeueAt := some (11 * second) } }

def requeued : JobUnit := updateQueueUnitStatus {} (11 * second) .enqueued "Enqueued because backoff timeout" recorded

theorem backing_off_not_handed_out_provided :
    (∃ w, Run.exec (observing Steps.noQuotas) priorityStart besideProvided = some w ∧
      w.phases.lookup "ns/a" = some .backoff ∧ "ns/a" ∈ w.state.pq.queueUnits ∧
      (Policy.next Steps.noQuotas w.state.infos (10 * second) w.state.pq).2 = .unit 1 ∧
      w.phases.lookup (w.state.infos.key 1) ≠ some .backoff) ∧
    (∃ w, Run.exec (observingIntelligent Steps.noQuotas) intelligentStart besideProvidedIntelligent = some w ∧
      w.phases.lookup "ns/a" = some .backoff ∧ "ns/a" ∈ w.state.iq.queueUnits ∧
      (Intelligent.next Steps.noQuotas w.state.infos (10 * second) w.state.iq).2 = .unit 1 ∧
      w.phases.lookup (w.state.infos.key 1) ≠ some .backoff) ∧
    queueUnitRequeueBackoffElapsed {} ({ : JobHandle }).backoffTime (11 * second) recorded = true := by
  have hmain := backing_off_not_handed_out Steps.noQuotas Consistency.namedObjects
  refine ⟨?_, ?_, ?_⟩
  · obtain ⟨w, hrun, hphase, hin, hnext⟩ : ∃ w, Run.exec (observing Steps.noQuotas) priorityStart besideProvided =
        some w ∧ w.phases.lookup "ns/a" = some .backoff ∧ "ns/a" ∈ w.state.pq.queueUnits ∧
        (Policy.next Steps.noQuotas w.state.infos (10 * second) w.state.pq).2 = .unit 1 := by decide +kernel
    exact ⟨w, hrun, hphase, hin, hnext, hmain.1 "q" "Priority" (-1) false 0 0 besideProvided w (10 * second) 1
      (by decide +kernel) hrun hnext⟩
  · obtain ⟨w, hrun, hphase, hin, hnext⟩ : ∃ w, Run.exec (observingIntelligent Steps.noQuotas) intelligentStart
        besideProvidedIntelligent = some w ∧ w.phases.lookup "ns/a" = some .backoff ∧ "ns/a" ∈ w.state.iq.queueUnits ∧
        (Intelligent.next Steps.noQuotas w.state.infos (10 * second) w.state.iq).2 = .unit 1 := by decide +kernel
    exact ⟨w, hrun, hphase, hin, hnext, hmain.2.1 "q" 4 (-1) false besideProvidedIntelligent w (10 * second) 1
      (by decide +kernel) hrun hnext⟩
  · exact hmain.2.2 {} (11 * second) 0 {} { status := .queuing } recorded requeued
      (by decide) (by decide) (by decide +kernel) (by decide +kernel)

/-- A unit is dequeued, loses its pods and with them its replicas, and then backs off because its job
was not running in time. -/
def lostItsPods : List Steps.Action :=
  [.newInfo 0 (workersIn .enqueued "a" "1" 1 0), .add 0, .next 0, .reserve 0 0,
    .update 0 (workersIn .enqueued "a" "1" 1 0) (workersIn .dequeued "a" "2" 1 1),
    .update 0 (workersIn .dequeued "a" "2" 1 1) (workersIn .dequeued "a" "3" 1 0),
    .update 0 (workersIn .dequeued "a" "3" 1 0) (workersIn .backoff "a" "4" 1 0)]

def lostItsPodsIntelligent : List IntelligentSteps.Action :=
  [.newInfo 0 (workersIn .enqueued "a" "1" 1 0), .add 0, .next 0, .reserve 0,
    .dequeueSuccess (workersIn .dequeued "a" "2" 1 1),
    .update 0 (workersIn .enqueued "a" "1" 1 0) (workersIn .dequeued "a" "2" 1 1),
    .update 0 (workersIn .dequeued "a" "2" 1 1) (workersIn .dequeued "a" "3" 1 0),
    .update 0 (workersIn .dequeued "a" "3" 1 0) (workersIn .backoff "a" "4" 1 0)]

theorem backing_off_unit_handed_out :
    (∃ w, Run.exec (observing Steps.noQuotas) priorityStart lostItsPods = some w ∧
      (Policy.next Steps.noQuotas w.state.infos (10 * second) w.state.pq).2 = .unit 0 ∧
      w.phases.lookup (w.state.infos.key 0) = some .backoff) ∧
    ∃ w, Run.exec (observingIntelligent Steps.noQuotas) intelligentStart lostItsPodsIntelligent = some w ∧
      (Intelligent.next Steps.noQuotas w.state.infos (10 * second) w.state.iq).2 = .unit 6 ∧
      w.phases.lookup (w.state.infos.key 6) = some .backoff := by
  decide +kernel

end KoordQueue.Queue.BackingOff
