import KoordQueue.Queue.IntelligentScan

namespace KoordQueue.Queue.IntelligentFrames

open Api UnitStatus UnitInfo Memory Intelligent IntelligentSteps IntelligentScan
open Policy (Handle)
open Update (activationChanged)
open Frames (rounds_cases)

section Parts

variable (fw : Handle) (m : Infos) (now : Time) (q : IntelligentQueue)

theorem distributeToQueue_eq (r : Ref) :
    ∃ high low, (distributeToQueue m r q).1 = { q with highPriorityQueue := high, lowPriorityQueue := low } := by
  rw [distributeToQueue]
  split
  next => exact ⟨_, _, rfl⟩
  next => exact ⟨_, _, rfl⟩

theorem foldl_distributeToQueue_eq (refs : List Ref) :
    ∃ high low, refs.foldl (fun q r => (distributeToQueue m r q).1) q =
      { q with highPriorityQueue := high, lowPriorityQueue := low } := by
  induction refs generalizing q with
  | nil => exact ⟨_, _, rfl⟩
  | cons r refs ih =>
    obtain ⟨high, low, he⟩ := distributeToQueue_eq m q r
    rw [List.foldl_cons, he]
    exact ih _

theorem removeFromQueue_eq (qi : QueueUnitInfo) :
    ∃ high low, removeFromQueue m qi q = { q with highPriorityQueue := high, lowPriorityQueue := low } := by
  rw [removeFromQueue]
  split
  next => exact ⟨_, _, rfl⟩
  next => exact ⟨_, _, rfl⟩

theorem releaseQuota_eq (qu : QueueUnit) : ∃ blocked, releaseQuota fw qu q = { q with blockedQuota := blocked } := by
  rw [releaseQuota]
  split
  next => exact ⟨_, rfl⟩
  next => exact ⟨_, rfl⟩

theorem judge_eq : ∃ i j reset blocked, (judge fw m now q).1 =
    { q with highNextIdx := i, lowNextIdx := j, resetNextIdxFlag := reset, blockedQuota := blocked } := by
  rcases hjudge : judge fw m now q with ⟨p, v⟩
  rcases judge_cases hjudge with ⟨_, _, ⟨-, rfl⟩ | ⟨-, rfl⟩ | ⟨_, -, rfl, -⟩⟩ <;> exact ⟨_, _, _, _, rfl⟩

theorem next_eq : ∃ i j reset blocked unit time, (next fw m now q).1 =
    { q with
      highNextIdx := i, lowNextIdx := j, resetNextIdxFlag := reset, blockedQuota := blocked
      lastScheduledQueueUnit := unit, lastScheduledTime := time } := by
  rw [next_eq_rounds]
  rcases rounds_cases q.closed (judge fw m now) (handOut m now) q (I := fun p => ∃ i j reset blocked,
    p = { q with highNextIdx := i, lowNextIdx := j, resetNextIdxFlag := reset, blockedQuota := blocked })
    ⟨_, _, _, _, rfl⟩ (by
      rintro _ ⟨_, _, _, _, rfl⟩
      obtain ⟨_, _, _, _, he⟩ := judge_eq fw m now _
      exact ⟨_, _, _, _, he⟩)
    with he | ⟨_, ⟨_, _, _, _, rfl⟩, he⟩ | ⟨_, r, ⟨_, _, _, _, rfl⟩, he⟩ <;>
    exact ⟨_, _, _, _, _, _, congrArg Prod.fst he⟩

theorem addUnschedulableIfNotPresent_eq (r : Ref) (changed : Bool) :
    ∃ reset j blocked, addUnschedulableIfNotPresent fw m r changed q =
      { q with
        resetNextIdxFlag := reset, lowNextIdx := j, blockedQuota := blocked
        assumed := q.assumed.erase (m.key r), updating := q.updating.erase (m.key r) } := by
  rw [addUnschedulableIfNotPresent]
  cases changed with
  | true => exact ⟨_, _, _, rfl⟩
  | false =>
    simp only [Bool.false_eq_true, if_false, blockQuota]
    split
    next =>
      split
      next => exact ⟨_, _, _, rfl⟩
      next => exact ⟨_, _, _, rfl⟩
    next =>
      split
      next => exact ⟨_, _, _, rfl⟩
      next => exact ⟨_, _, _, rfl⟩

theorem updateQueueCr_eq (threshold : Int) (waitPodsRunning : Bool) (order : List String) :
    ∃ high low reset, updateQueueCr m threshold waitPodsRunning order q =
      { q with
        priorityThreshold := threshold, highPriorityQueue := high, lowPriorityQueue := low
        resetNextIdxFlag := reset, waitPodsRunning } := by
  simp only [updateQueueCr]
  split
  next =>
    obtain ⟨high, low, he⟩ := foldl_distributeToQueue_eq m
      { q with priorityThreshold := threshold, highPriorityQueue := [], lowPriorityQueue := [] }
      (order.filterMap q.queueUnits.lookup)
    rw [he]
    exact ⟨_, _, _, rfl⟩
  next hsame =>
    rw [not_not] at hsame
    exact ⟨_, _, _, by rw [hsame]⟩

end Parts

section Calls

variable (fw : Handle) (m : Infos) (now : Time)

/-- A unit that needs nothing is ignored, one that the queue has is only looked
at for what it has reserved, and any other is filed. -/
theorem addQueueUnitInfo_cases (r : Ref) (q : IntelligentQueue) :
    isQueueUnitDequeued (m.unit r) = true ∧ (addQueueUnitInfo m r q).1 = q ∨ isQueueUnitDequeued (m.unit r) = false ∧
      ∃ marks, (marks = q.assumed ∨ marks = insert (m.unit r).key q.assumed) ∧
        ((m.unit r).key ∈ q.queueUnits ∧ (addQueueUnitInfo m r q).1 = { q with assumed := marks } ∨
          (m.unit r).key ∉ q.queueUnits ∧ ∃ reset, (addQueueUnitInfo m r q).1 =
            { (distributeToQueue m r { q with
                queueUnits := q.queueUnits.insert (m.unit r).key r, assumed := marks }).1 with
              resetNextIdxFlag := reset }) := by
  rw [addQueueUnitInfo]
  dsimp only
  split
  next hd => exact Or.inl ⟨hd, rfl⟩
  next hd =>
    refine Or.inr ⟨Bool.eq_false_of_not_eq_true hd, ?_⟩
    obtain ⟨marks, hmarks, hq⟩ : ∃ marks, (marks = q.assumed ∨ marks = insert (m.unit r).key q.assumed) ∧
        (if isQueueUnitReservedNotRun (m.unit r) = true then
          { q with assumed := insert (m.unit r).key q.assumed } else q) = { q with assumed := marks } := by
      split
      next => exact ⟨_, Or.inr rfl, rfl⟩
      next => exact ⟨_, Or.inl rfl, rfl⟩
    rw [hq]
    refine ⟨marks, hmarks, ?_⟩
    split
    next hmem => exact Or.inl ⟨hmem, rfl⟩
    next hnew =>
      refine Or.inr ⟨hnew, ?_⟩
      split
      next => exact ⟨_, rfl⟩
      next => exact ⟨_, rfl⟩

theorem addQueueUnitInfo_eq (r : Ref) (q : IntelligentQueue) :
    ∃ high low reset marks, (addQueueUnitInfo m r q).1 =
      { q with
        highPriorityQueue := high, lowPriorityQueue := low, resetNextIdxFlag := reset, assumed := marks
        queueUnits := if isQueueUnitDequeued (m.unit r) = true ∨ m.key r ∈ q.queueUnits then q.queueUnits
          else q.queueUnits.insert (m.key r) r } := by
  rcases addQueueUnitInfo_cases m r q with ⟨hd, he⟩ | ⟨hd, marks, _, ⟨hk, he⟩ | ⟨hk, reset, he⟩⟩
  · rw [he, if_pos (Or.inl hd)]
    exact ⟨_, _, _, _, rfl⟩
  · have hold : m.key r ∈ q.queueUnits := hk
    rw [he, if_pos (Or.inr hold)]
    exact ⟨_, _, _, _, rfl⟩
  · obtain ⟨_, _, hdistribute⟩ := distributeToQueue_eq m
      { q with queueUnits := q.queueUnits.insert (m.unit r).key r, assumed := marks } r
    have hnot : ¬(isQueueUnitDequeued (m.unit r) = true ∨ m.key r ∈ q.queueUnits) := by
      rw [hd]
      exact not_or.mpr ⟨Bool.false_ne_true, hk⟩
    rw [he, hdistribute, if_neg hnot]
    exact ⟨_, _, _, _, rfl⟩

theorem lookup_of_add {x : Ref} {q : IntelligentQueue} {key : String} {r : Ref}
    (hr : (addQueueUnitInfo m x q).1.queueUnits.lookup key = some r) :
    q.queueUnits.lookup key = some r ∨ r = x ∧ m.key x = key ∧ key ∉ q.queueUnits := by
  obtain ⟨_, _, _, _, he⟩ := addQueueUnitInfo_eq m x q
  rw [he] at hr
  dsimp only at hr
  split at hr
  next => exact Or.inl hr
  next hnew =>
    rw [GoMap.lookup_insert_eq] at hr
    split at hr
    next hk =>
      cases hr
      subst hk
      exact Or.inr ⟨rfl, rfl, (not_or.mp hnew).2⟩
    next => exact Or.inl hr

theorem delete_eq (qu : QueueUnit) (s : State) :
    ∃ blocked, (delete fw now qu s).iq =
      { removeFromQueue (filedInfo now qu s).1 (filedInfo now qu s).2 s.iq with
        queueUnits := s.iq.queueUnits.erase qu.key
        assumed := s.iq.assumed.erase qu.key
        updating := s.iq.updating.erase qu.key
        resetNextIdxFlag := true
        blockedQuota := blocked } := by
  obtain ⟨high, low, he⟩ := removeFromQueue_eq (filedInfo now qu s).1 s.iq (filedInfo now qu s).2
  simp only [delete]
  obtain ⟨blocked, hrelease⟩ := releaseQuota_eq fw { removeFromQueue (filedInfo now qu s).1 (filedInfo now qu s).2 s.iq with
    queueUnits := (removeFromQueue (filedInfo now qu s).1 (filedInfo now qu s).2 s.iq).queueUnits.erase qu.key
    assumed := (removeFromQueue (filedInfo now qu s).1 (filedInfo now qu s).2 s.iq).assumed.erase qu.key
    updating := (removeFromQueue (filedInfo now qu s).1 (filedInfo now qu s).2 s.iq).updating.erase qu.key
    resetNextIdxFlag := true } qu
  rw [hrelease, he]
  exact ⟨blocked, rfl⟩

theorem refresh_eq (old new : QueueUnit) (s : State) :
    ∃ reset blocked, (refresh fw old new s).iq = { s.iq with resetNextIdxFlag := reset, blockedQuota := blocked } := by
  rw [refresh]
  split
  next => exact ⟨_, _, rfl⟩
  next =>
    obtain ⟨reset, hq⟩ : ∃ reset, (if new.status.phase ≠ .schedFailed then { s.iq with resetNextIdxFlag := true }
        else s.iq) = { s.iq with resetNextIdxFlag := reset } := by
      split
      next => exact ⟨_, rfl⟩
      next => exact ⟨_, rfl⟩
    dsimp only
    rw [hq]
    split
    next =>
      obtain ⟨blocked, he⟩ := releaseQuota_eq fw { s.iq with resetNextIdxFlag := reset } new
      exact ⟨reset, blocked, he⟩
    next => exact ⟨_, _, rfl⟩

theorem dropDequeued_eq (old new : QueueUnit) (s : State) :
    ∃ reset blocked, (dropDequeued now old new s).iq =
      { removeFromQueue (s.infos.newQueueUnitInfo now old) (s.infos.fresh now old) s.iq with
        queueUnits := s.iq.queueUnits.erase new.key
        assumed := s.iq.assumed.erase new.key
        resetNextIdxFlag := reset
        blockedQuota := blocked } := by
  simp only [dropDequeued]
  obtain ⟨reset, blocked, hq⟩ : ∃ reset blocked, (if new.key ∈ s.iq.assumed then
      { s.iq with
        assumed := s.iq.assumed.erase new.key
        resetNextIdxFlag := true
        blockedQuota := if (!isQueueUnitDequeued old && s.iq.waitPodsRunning) = true then ∅ else s.iq.blockedQuota }
    else s.iq) = { s.iq with
      assumed := s.iq.assumed.erase new.key, resetNextIdxFlag := reset, blockedQuota := blocked } := by
    split
    next => exact ⟨_, _, rfl⟩
    next hnot => exact ⟨_, _, by rw [Finset.erase_eq_of_notMem hnot]⟩
  have hsame : isHighPriority (s.infos.fresh now old).unit { s.iq with
      assumed := s.iq.assumed.erase new.key, resetNextIdxFlag := reset, blockedQuota := blocked } =
      isHighPriority (s.infos.fresh now old).unit s.iq := rfl
  rw [hq, removeFromQueue, removeFromQueue, hsame]
  refine ⟨reset, blocked, ?_⟩
  cases isHighPriority (s.infos.fresh now old).unit s.iq with
  | true => rfl
  | false => rfl

theorem track_eq (new : QueueUnit) (q : IntelligentQueue) :
    ∃ reset marks, track new q = { q with resetNextIdxFlag := reset, assumed := marks } ∧
      marks ⊆ insert new.key q.assumed := by
  rw [track]
  split
  next => exact ⟨_, _, rfl, (Finset.erase_subset _ _).trans (Finset.subset_insert _ _)⟩
  next =>
    split
    next => exact ⟨_, _, rfl, (Finset.erase_subset _ _).trans (Finset.subset_insert _ _)⟩
    next =>
      split
      next => exact ⟨_, _, rfl, Finset.Subset.refl _⟩
      next => exact ⟨_, _, rfl, Finset.subset_insert _ _⟩

theorem reinsert_eq (old new : QueueUnit) (s : State) :
    ∃ high low, (reinsert now old new s).iq =
      { s.iq with
        highPriorityQueue := high, lowPriorityQueue := low
        queueUnits := s.iq.queueUnits.insert new.key (s.infos.newQueueUnitInfo now old).heap.next } := by
  simp only [reinsert]
  obtain ⟨high, low, hremove⟩ := removeFromQueue_eq ((s.infos.newQueueUnitInfo now old).newQueueUnitInfo now new)
    s.iq (s.infos.fresh now old)
  rw [hremove]
  obtain ⟨high', low', hdistribute⟩ := distributeToQueue_eq
    ((s.infos.newQueueUnitInfo now old).newQueueUnitInfo now new)
    { s.iq with highPriorityQueue := high, lowPriorityQueue := low } (s.infos.newQueueUnitInfo now old).heap.next
  rw [hdistribute]
  exact ⟨high', low', rfl⟩

abbrev withReset (reset : Bool) (s : State) : State := { s with iq := { s.iq with resetNextIdxFlag := reset } }

theorem updateBody_cases (old new : QueueUnit) (s : State) :
    ∃ reset,
      (unchanged fw old new = true ∧ updateBody fw now old new s = withReset reset s) ∨
      (unchanged fw old new = false ∧ isQueueUnitDequeued new = true ∧
        updateBody fw now old new s = dropDequeued now old new (withReset reset s)) ∨
      (unchanged fw old new = false ∧ isQueueUnitDequeued new = false ∧
        updateBody fw now old new s = { reinsert now old new (withReset reset s) with
          iq := track new (reinsert now old new (withReset reset s)).iq }) := by
  obtain ⟨reset, hs⟩ : ∃ reset, (if activationChanged fw old new = true then
      { s with iq := { s.iq with resetNextIdxFlag := true } } else s) = withReset reset s := by
    split
    next => exact ⟨_, rfl⟩
    next => exact ⟨_, rfl⟩
  refine ⟨reset, ?_⟩
  simp only [updateBody]
  rw [hs]
  cases unchanged fw old new with
  | true => exact Or.inl ⟨rfl, if_pos rfl⟩
  | false =>
    rw [if_neg Bool.false_ne_true]
    cases isQueueUnitDequeued new with
    | true => exact Or.inr (Or.inl ⟨rfl, rfl, if_pos rfl⟩)
    | false => exact Or.inr (Or.inr ⟨rfl, rfl, if_neg Bool.false_ne_true⟩)

/-- The body of an update changes the map at most under the key of the unit. -/
theorem updateBody_eq (old new : QueueUnit) (s : State) :
    ∃ high low reset blocked marks, (updateBody fw now old new s).iq =
      { s.iq with
        highPriorityQueue := high, lowPriorityQueue := low, resetNextIdxFlag := reset, blockedQuota := blocked
        assumed := marks
        queueUnits := if unchanged fw old new = true then s.iq.queueUnits
          else if isQueueUnitDequeued new = true then s.iq.queueUnits.erase new.key
          else s.iq.queueUnits.insert new.key (s.infos.newQueueUnitInfo now old).heap.next } := by
  obtain ⟨reset, ⟨hu, hbody⟩ | ⟨hu, hd, hbody⟩ | ⟨hu, hd, hbody⟩⟩ := updateBody_cases fw now old new s
  · rw [hbody, hu]
    exact ⟨_, _, _, _, _, rfl⟩
  · obtain ⟨_, _, hdrop⟩ := dropDequeued_eq now old new (withReset reset s)
    obtain ⟨_, _, hremove⟩ := removeFromQueue_eq (s.infos.newQueueUnitInfo now old)
      (withReset reset s).iq (s.infos.fresh now old)
    rw [hbody, hdrop, hremove, hu, hd]
    exact ⟨_, _, _, _, _, rfl⟩
  · obtain ⟨_, _, hreinsert⟩ := reinsert_eq now old new (withReset reset s)
    obtain ⟨_, _, htrack, -⟩ := track_eq new (reinsert now old new (withReset reset s)).iq
    rw [hbody, htrack, hreinsert, hu, hd]
    exact ⟨_, _, _, _, _, rfl⟩

theorem fix_eq (order : List String) (q : IntelligentQueue) :
    ∃ high low, fix m order q =
      { q with
        highPriorityQueue := high, lowPriorityQueue := low
        queueUnits := (order.filterMap q.queueUnits.lookup).foldl (fun units r => units.erase (m.key r))
          q.queueUnits } := by
  rw [fix]
  generalize order.filterMap q.queueUnits.lookup = refs
  induction refs generalizing q with
  | nil => exact ⟨_, _, rfl⟩
  | cons r refs ih =>
    obtain ⟨high, low, he⟩ := removeFromQueue_eq m q (m.get r)
    rw [List.foldl_cons, List.foldl_cons, he]
    exact ih _

end Calls

section Steady

variable {fw : Handle} {s t : State} {a : Action}

/-- What only `Next` may change: the depth limit and the unit that was handed out last. -/
def steady (q : IntelligentQueue) : Int × String × Time := (q.maxDepth, q.lastScheduledQueueUnit, q.lastScheduledTime)

theorem steady_judge (fw : Handle) (m : Infos) (now : Time) (q : IntelligentQueue) :
    steady (judge fw m now q).1 = steady q := by
  obtain ⟨_, _, _, _, he⟩ := judge_eq fw m now q
  rw [he]
  rfl

theorem steady_next (fw : Handle) (m : Infos) (now : Time) (q : IntelligentQueue) :
    steady (next fw m now q).1 = match (next fw m now q).2 with
      | .unit r => (q.maxDepth, (m.unit r).ns ++ "/" ++ (m.get r).name, now)
      | .closed | .wait => steady q := by
  rw [next_eq_rounds]
  rcases rounds_cases q.closed (judge fw m now) (handOut m now) q (I := fun p => steady p = steady q) rfl
    (fun p hp => (steady_judge fw m now p).trans hp) with he | ⟨p, hp, he⟩ | ⟨p, r, hp, he⟩
  · rw [he]
  · rw [he]
    exact hp
  · rw [he]
    exact congrArg (fun part => (part.1, (m.unit r).ns ++ "/" ++ (m.get r).name, now)) hp

theorem steady_update (now : Time) (old new : QueueUnit) : steady (update fw now old new s).iq = steady s.iq := by
  obtain ⟨_, _, hrefresh⟩ := refresh_eq fw old new (updateBody fw now old new s)
  obtain ⟨_, _, _, _, _, hbody⟩ := updateBody_eq fw now old new s
  rw [update, hrefresh, hbody]
  rfl

theorem steady_delete (now : Time) (qu : QueueUnit) : steady (delete fw now qu s).iq = steady s.iq := by
  obtain ⟨blocked, hdelete⟩ := delete_eq fw now qu s
  obtain ⟨high, low, hremove⟩ := removeFromQueue_eq (filedInfo now qu s).1 s.iq (filedInfo now qu s).2
  rw [hdelete, hremove]
  rfl

theorem steady_addUnschedulable (r : Ref) (changed : Bool) :
    steady (addUnschedulable fw r changed s).iq = steady s.iq := by
  obtain ⟨reset, j, blocked, he⟩ := addUnschedulableIfNotPresent_eq fw s.infos s.iq r changed
  rw [addUnschedulable, he]
  rfl

theorem steady_step (hstep : step fw s a = some t) :
    (∃ now, a = .next now ∧ t.iq = (next fw s.infos now s.iq).1) ∨ (∀ now, a ≠ .next now) ∧ steady t.iq = steady s.iq := by
  obtain ⟨_, rfl⟩ := (step_eq_some fw).mp hstep
  cases a with
  | next now => exact Or.inl ⟨now, rfl, rfl⟩
  | newInfo | forgetInfos | dequeueSuccess => exact Or.inr ⟨by simp, rfl⟩
  | add r =>
    refine Or.inr ⟨by simp, ?_⟩
    rw [act]
    obtain ⟨_, _, _, _, he⟩ := addQueueUnitInfo_eq s.infos r s.iq
    rw [he]
    rfl
  | delete now qu => exact Or.inr ⟨by simp, steady_delete now qu⟩
  | update now old new => exact Or.inr ⟨by simp, steady_update now old new⟩
  | reserve r =>
    refine Or.inr ⟨by simp, ?_⟩
    simp only [act, reserve]
    split <;> rfl
  | addUnschedulable r changed => exact Or.inr ⟨by simp, steady_addUnschedulable r changed⟩
  | fix g order =>
    refine Or.inr ⟨by simp, ?_⟩
    obtain ⟨high, low, he⟩ := fix_eq s.infos order s.iq
    rw [act, he]
    rfl
  | updateQueueCr threshold wait order =>
    refine Or.inr ⟨by simp, ?_⟩
    obtain ⟨high, low, reset, he⟩ := updateQueueCr_eq s.infos s.iq threshold wait order
    rw [act, he]
    rfl
  | errorFunc now r answer reasons changed =>
    refine Or.inr ⟨by simp, ?_⟩
    cases answer with
    | getNotFound => exact steady_delete now _
    | getFailed => exact steady_addUnschedulable r changed
    | updateNotFound => rfl
    | got qu => exact steady_addUnschedulable r changed

theorem maxDepth_step (hstep : step fw s a = some t) : t.iq.maxDepth = s.iq.maxDepth := by
  rcases steady_step hstep with ⟨now, -, ht⟩ | ⟨-, hsame⟩
  · obtain ⟨_, _, _, _, _, _, he⟩ := next_eq fw s.infos now s.iq
    rw [ht, he]
  · exact congrArg Prod.fst hsame

end Steady

end KoordQueue.Queue.IntelligentFrames
