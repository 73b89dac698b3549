import KoordQueue.Queue.IntelligentVersions

namespace KoordQueue.Queue.IntelligentServing

open Api Intelligent IntelligentSteps IntelligentScan IntelligentFrames Halves
open IntelligentVersions Deliveries
open Queue.Representation
open Policy (Handle second)
open Consistency (namedObjects)

/-- The namespace of a unit is what stands before the first slash of its key. -/
def nsOf (key : String) : String := String.ofList (key.toList.takeWhile (fun c => c ≠ '/'))

def Named (qu : QueueUnit) : Prop := qu.ns = nsOf qu.key
deriving Decidable

/-- A queue with the units in flight, those of them whose admission it has not been shown yet,
and the unit that was handed out last with the time of it. -/
structure Awaiting extends Watched where
  awaited : Finset String := ∅
  handed : Option (String × Time) := none

variable (fw : Handle)

/-- A reserved unit is awaited until a version of it is delivered that needs nothing more, and
again when a later version asks for more. -/
def awaitedAfter (w : Awaiting) : Action → Finset String
  | .reserve r => if (reserve w.state.infos r w.state.iq).2 = .ok then insert (w.state.infos.key r) w.awaited
      else w.awaited
  | .add r => if needsNothing fw (w.state.infos.unit r) then w.awaited else insert (w.state.infos.key r) w.awaited
  | .update _ _ new => if needsNothing fw new then w.awaited.erase new.key else insert new.key w.awaited
  | _ => w.awaited

def handedAfter (w : Awaiting) : Action → Option (String × Time)
  | .next now =>
    match (next fw w.state.infos now w.state.iq).2 with
    | .unit r => some (w.state.infos.key r, now)
    | .closed | .wait => w.handed
  | _ => w.handed

def awaiting (w : Awaiting) (a : Action) : Option Awaiting :=
  (step fw w.state a).map (fun s =>
    { state := s
      inFlight := inFlightAfter w.inFlight w.state a
      awaited := awaitedAfter fw w a ∩ inFlightAfter w.inFlight w.state a
      handed := handedAfter fw w a })

/-- `Next` is called while a reserved unit is awaited only if that is the unit handed out last, less
than five seconds ago. Versions are delivered as `Traced` says, under keys that tell the namespace. -/
def Prompt (obj : Objects) (w : Awaiting) (a : Action) : Prop :=
  Traced obj w.state a ∧ match a with
    | .next now => ∀ key ∈ w.awaited,
        w.handed.any (fun handed => handed.1 = key && decide (now - handed.2 < 5 * second)) = true
    | .add r => Named (w.state.infos.unit r)
    | .update _ _ new => Named new
    | _ => True

instance decidablePrompt (obj : Objects) (w : Awaiting) (a : Action) : Decidable (Prompt obj w a) := by
  delta Prompt
  induction a using IntelligentSteps.Action.casesOn <;> infer_instance

/-- A unit in flight that is not awaited needs nothing in the version that the queue holds. -/
structure Shown (obj : Objects) (w : Awaiting) : Prop where
  halved : Halved obj w.state.infos w.state.iq.queueUnits w.state.iq
  named : ∀ key r, w.state.iq.queueUnits.lookup key = some r → Named (w.state.infos.unit r)
  landed : ∀ key r, w.state.iq.queueUnits.lookup key = some r → key ∈ w.inFlight → key ∉ w.awaited →
    needsNothing fw (w.state.infos.unit r) = true
  last : ∀ key time, w.handed = some (key, time) →
    w.state.iq.lastScheduledQueueUnit = nsOf key ++ "/" ++ key ∧ w.state.iq.lastScheduledTime = time

variable {fw} {obj : Objects} {w t : Awaiting} {a : Action} {key : String}

theorem inFlight_or_awaited (h : key ∈ inFlightAfter w.inFlight w.state a) :
    key ∈ w.inFlight ∨ key ∈ awaitedAfter fw w a := by
  cases a with
  | reserve r =>
    rw [inFlightAfter] at h
    rw [awaitedAfter]
    split at h
    next hok =>
      rw [if_pos hok]
      exact (Finset.mem_insert.mp h).symm.imp_right (fun he => Finset.mem_insert.mpr (Or.inl he))
    next => exact Or.inl h
  | dequeueSuccess | delete | addUnschedulable => exact Or.inl (Finset.mem_of_mem_erase h)
  | errorFunc now r answer reasons changed =>
    cases answer with
    | updateNotFound => exact Or.inl h
    | getNotFound | getFailed | got => exact Or.inl (Finset.mem_of_mem_erase h)
  | newInfo | forgetInfos | add | update | next | fix | updateQueueCr => exact Or.inl h

variable {r : Ref} {s : State}

theorem awaited_of_not_replaces (ha : ¬ (deliveredIntelligent w.state.infos a).Replaces key r) (h : key ∈ w.awaited) :
    key ∈ awaitedAfter fw w a := by
  cases a with
  | reserve x =>
    rw [awaitedAfter]
    split
    next => exact Finset.mem_insert_of_mem h
    next => exact h
  | add x =>
    rw [awaitedAfter]
    split
    next => exact h
    next => exact Finset.mem_insert_of_mem h
  | update now old new =>
    rw [awaitedAfter]
    split
    next => exact Finset.mem_erase.mpr ⟨ha, h⟩
    next => exact Finset.mem_insert_of_mem h
  | newInfo | forgetInfos | delete | next | dequeueSuccess | addUnschedulable | fix | updateQueueCr | errorFunc => exact h

theorem landed_step (h : Shown fw obj w) (hok : Traced obj w.state a) (hstep : step fw w.state a = some s)
    (hr : s.iq.queueUnits.lookup key = some r) (hin : key ∈ inFlightAfter w.inFlight w.state a)
    (hnot : key ∉ awaitedAfter fw w a) : needsNothing fw (s.infos.unit r) = true := by
  have hheld := held_step h.halved hok hstep hr
  generalize hunit : s.infos.unit r = qu at hheld ⊢
  generalize hd : deliveredIntelligent w.state.infos a = d at hheld
  cases hheld with
  | kept hold ha =>
    rw [← hd] at ha
    have hflight := (@inFlight_or_awaited fw w _ key hin).resolve_right hnot
    exact h.landed key r hold hflight (fun haw => hnot (awaited_of_not_replaces ha haw))
  | added hkey hnew =>
    obtain rfl := eq_add_of_delivered hd
    by_contra hneeds
    rw [awaitedAfter, if_neg hneeds, hkey] at hnot
    exact hnot (Finset.mem_insert_self _ _)
  | updated hkey =>
    obtain ⟨_, _, rfl⟩ := eq_update_of_delivered hd
    by_contra hneeds
    rw [awaitedAfter, if_neg hneeds, hkey] at hnot
    exact hnot (Finset.mem_insert_self _ _)
  | refreshed hold hkey =>
    obtain ⟨_, _, _, _, rfl, -⟩ := eq_errorFunc_of_delivered hd
    refine absurd ?_ (Finset.ne_of_mem_erase (hin : key ∈ w.inFlight.erase (w.state.infos.key r)))
    exact (h.halved.own hold).symm

theorem named_step (h : Shown fw obj w) (hok : Prompt obj w a) (hstep : step fw w.state a = some s)
    (hr : s.iq.queueUnits.lookup key = some r) : Named (s.infos.unit r) := by
  have hheld := held_step h.halved hok.1 hstep hr
  generalize hunit : s.infos.unit r = qu at hheld ⊢
  generalize hd : deliveredIntelligent w.state.infos a = d at hheld
  cases hheld with
  | kept hold ha => exact h.named key r hold
  | added =>
    obtain rfl := eq_add_of_delivered hd
    exact hok.2
  | updated =>
    obtain ⟨_, _, rfl⟩ := eq_update_of_delivered hd
    exact hok.2
  | refreshed hold =>
    obtain ⟨_, qu, _, _, rfl, rfl⟩ := eq_errorFunc_of_delivered hd
    obtain ⟨⟨-, hns, hname⟩, -⟩ := (step_eq_some fw).mp hstep
    have hkey : qu.key = (w.state.infos.unit r).key := congrArg₂ (fun a b => a ++ "/" ++ b) hns hname
    have hold' : qu.ns = nsOf qu.key := by
      rw [hns, hkey]
      exact h.named key r hold
    exact hold'

theorem last_step (h : Shown fw obj w) (hstep : step fw w.state a = some s) {time : Time}
    (hhanded : handedAfter fw w a = some (key, time)) :
    s.iq.lastScheduledQueueUnit = nsOf key ++ "/" ++ key ∧ s.iq.lastScheduledTime = time := by
  rcases steady_step hstep with ⟨now, rfl, hq⟩ | ⟨hother, hsame⟩
  · have hsteady := steady_next fw w.state.infos now w.state.iq
    rw [← hq] at hsteady
    rw [handedAfter] at hhanded
    split at hhanded
    next r hnext =>
      cases hhanded
      rw [hnext] at hsteady
      have hlookup := lookup_of_slot h.halved (List.mem_append.mpr ((next_unit hnext).2.2.imp_right And.left))
      have hlabel := congrArg (fun part : Int × String × Time => part.2.1) hsteady
      dsimp only [steady] at hlabel
      rw [h.halved.built.name (h.halved.allocated hlookup), h.named _ r hlookup] at hlabel
      exact ⟨hlabel, congrArg (fun part : Int × String × Time => part.2.2) hsteady⟩
    next hnext =>
      rw [hnext] at hsteady
      obtain ⟨hunit, htime⟩ := h.last key time hhanded
      exact ⟨(congrArg (fun part => part.2.1) hsteady).trans hunit, (congrArg (fun part => part.2.2) hsteady).trans htime⟩
    next hnext =>
      rw [hnext] at hsteady
      obtain ⟨hunit, htime⟩ := h.last key time hhanded
      exact ⟨(congrArg (fun part => part.2.1) hsteady).trans hunit, (congrArg (fun part => part.2.2) hsteady).trans htime⟩
  · have hkept : w.handed = some (key, time) := by
      cases a with
      | next now => exact absurd rfl (hother now)
      | newInfo | forgetInfos | add | delete | update | reserve | dequeueSuccess | addUnschedulable | fix
      | updateQueueCr | errorFunc => exact hhanded
    obtain ⟨hunit, htime⟩ := h.last key time hkept
    exact ⟨(congrArg (fun part => part.2.1) hsame).trans hunit, (congrArg (fun part => part.2.2) hsame).trans htime⟩

theorem shown_step (h : Shown fw obj w) (hok : Prompt obj w a) (hstep : awaiting fw w a = some t) : Shown fw obj t := by
  obtain ⟨s, hs, rfl⟩ := Option.map_eq_some_iff.mp hstep
  refine ⟨halved_step h.halved hok.1 hs, fun key r hr => named_step h hok hs hr, ?_, fun key time => last_step h hs⟩
  intro key r hr hin hnot
  exact landed_step h hok.1 hs hr hin (fun haw => hnot (Finset.mem_inter.mpr ⟨haw, hin⟩))

/-- A new queue, of which nothing has been asked yet. -/
def unasked (name : String) (threshold maxDepth : Int) (waitPodsRunning : Bool) : Awaiting :=
  { state := { iq := newIntelligentQueue {} name threshold maxDepth waitPodsRunning [] }, inFlight := ∅ }

theorem shown_unasked (name : String) (threshold maxDepth : Int) (waitPodsRunning : Bool) :
    Shown fw obj (unasked name threshold maxDepth waitPodsRunning) where
  halved := (Partition.current_newIntelligentQueue obj name threshold maxDepth waitPodsRunning).halved
  named key r hr := by cases hr
  landed key r hr := by cases hr
  last key time hhanded := by cases hhanded

/-- In a run in which `Next` is called promptly, it hands out no unit in flight. -/
theorem intelligent_next_not_in_flight {name : String} {threshold maxDepth : Int} {waitPodsRunning : Bool}
    {as : List Action} {now : Time}
    (hg : Run.Guarded (awaiting fw) (Prompt obj) (unasked name threshold maxDepth waitPodsRunning) (as ++ [.next now]))
    (hrun : Run.exec (awaiting fw) (unasked name threshold maxDepth waitPodsRunning) as = some w) {r : Ref}
    (hnext : (next fw w.state.infos now w.state.iq).2 = .unit r) : w.state.infos.key r ∉ w.inFlight := by
  intro hin
  have hw : Shown fw obj w := Run.invariant (fun _ _ _ h hok hs => shown_step h hok hs)
    (shown_unasked name threshold maxDepth waitPodsRunning) (Run.guarded_left hg) hrun
  have hprompt : Prompt obj w (.next now) := by
    have hstep : step fw w.state (.next now) = some (act fw w.state (.next now)) :=
      (step_eq_some fw).mpr ⟨⟨by simp [Action.refs], trivial⟩, rfl⟩
    exact (Run.guarded_append hg hrun _ (by rw [awaiting, hstep]; rfl)).1
  obtain ⟨hfree, hfast, hplace⟩ := next_unit hnext
  have hlookup := lookup_of_slot hw.halved (List.mem_append.mpr (hplace.imp_right And.left))
  by_cases haw : w.state.infos.key r ∈ w.awaited
  · obtain ⟨⟨key, time⟩, hhanded, hlast⟩ := (Option.any_eq_true _ _).mp (hprompt.2 _ haw)
    obtain ⟨hkey, htime⟩ := (Bool.and_eq_true _ _).mp hlast
    obtain rfl : key = w.state.infos.key r := of_decide_eq_true hkey
    obtain ⟨hunit, hat⟩ := hw.last _ time hhanded
    refine hfast ⟨?_, ?_⟩
    · rw [hat]
      exact of_decide_eq_true htime
    · rw [hunit, hw.halved.built.name (hw.halved.allocated hlookup), hw.named _ r hlookup]
      rfl
  · have hnothing := hw.landed _ r hlookup hin haw
    rw [passedOver] at hfree
    rw [needsNothing, hfree] at hnothing
    cases hnothing

def observedInTime : List Action :=
  [.newInfo 0 (workers "a" "1" "x" 9 1 0), .newInfo 0 (workers "b" "1" "x" 8 1 0), .add 0, .add 1, .next 0,
    .reserve 0, .next second, .update second (workers "a" "1" "x" 9 1 0) (workers "a" "2" "x" 9 1 1)]

theorem intelligent_next_not_in_flight_observed :
    ∃ w, Run.exec (awaiting labelQuota) (unasked "q" 4 (-1) false) observedInTime = some w ∧ w.inFlight = {"ns/a"} ∧
      (next labelQuota w.state.infos (6 * second) w.state.iq).2 = .unit 1 ∧ w.state.infos.key 1 ∉ w.inFlight := by
  obtain ⟨w, hrun, hin, hnext⟩ : ∃ w, Run.exec (awaiting labelQuota) (unasked "q" 4 (-1) false) observedInTime =
      some w ∧ w.inFlight = {"ns/a"} ∧ (next labelQuota w.state.infos (6 * second) w.state.iq).2 = .unit 1 :=
      by decide +kernel
  have hg : Run.Guarded (awaiting labelQuota) (Prompt namedObjects) (unasked "q" 4 (-1) false)
      (observedInTime ++ [.next (6 * second)]) := by decide +kernel
  exact ⟨w, hrun, hin, hnext, intelligent_next_not_in_flight hg hrun hnext⟩

/-- A unit is reserved, and six seconds later its dequeue is still under way. -/
theorem slow_dequeue_handed_out_again :
    ∃ w, Run.exec (watched labelQuota) ⟨emptyIntelligent, ∅⟩
        [.newInfo 0 (workers "a" "1" "x" 9 1 0), .add 0, .next 0, .reserve 0] = some w ∧
      (next labelQuota w.state.infos (6 * second) w.state.iq).2 = .unit 0 ∧
      w.state.infos.key 0 ∈ w.inFlight := by
  obtain ⟨w, hrun, h⟩ : ∃ w, Run.exec (watched labelQuota) ⟨emptyIntelligent, ∅⟩
      [.newInfo 0 (workers "a" "1" "x" 9 1 0), .add 0, .next 0, .reserve 0] = some w ∧
      (next labelQuota w.state.infos (6 * second) w.state.iq).2 = .unit 0 ∧ w.state.infos.key 0 ∈ w.inFlight :=
      by decide +kernel
  exact ⟨w, hrun, h⟩

end KoordQueue.Queue.IntelligentServing
