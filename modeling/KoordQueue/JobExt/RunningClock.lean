import KoordQueue.JobExt.Reconciler
import KoordQueue.Controllers.QueueUnitController

namespace KoordQueue.JobExt.RunningClock

open Api Records Conditions Reconciler

def banked (qu : JobUnit) : Int := (qu.accumulatedPastExecutionTimeSeconds.getD 0).toInt

def since (qu : JobUnit) : Option Time := podsReadySince qu.conditions

def openInterval (now : Time) (qu : JobUnit) : Int := ((since qu).map (now - ·)).getD 0

def spent (now : Time) (qu : JobUnit) : Int := banked qu * second + openInterval now qu

def bankedAfter (f : Features) (now : Time) (since : Option Time) (accumulated : Option Int32) : Option Int32 :=
  if f.maximumExecutionTime then
    match since with
    | none => accumulated
    | some start =>
      if seconds (now - start) ≤ 0 then accumulated else some (accumulated.getD 0 + seconds (now - start))
  else accumulated

inductive Ticks (f : Features) (now : Time) (qu qu' : JobUnit) : Prop
  | kept (hs : since qu' = since qu)
      (hb : qu'.accumulatedPastExecutionTimeSeconds = qu.accumulatedPastExecutionTimeSeconds)
  | started (h0 : since qu = none) (hs : since qu' = some (wholeSeconds now))
      (hb : qu'.accumulatedPastExecutionTimeSeconds = qu.accumulatedPastExecutionTimeSeconds)
  | closed (hs : since qu' = none)
      (hb : qu'.accumulatedPastExecutionTimeSeconds =
        bankedAfter f now (since qu) qu.accumulatedPastExecutionTimeSeconds)

section

variable {f : Features} {now jitter : Time} {qu : JobUnit}

theorem accumulate_eq (f : Features) (now : Time) (qu : JobUnit) :
    accumulateExecutionTime f now qu =
      { qu with
        accumulatedPastExecutionTimeSeconds :=
          bankedAfter f now (since qu) qu.accumulatedPastExecutionTimeSeconds } := by
  rw [accumulateExecutionTime, since]
  simp only [bankedAfter]
  split
  next =>
    cases podsReadySince qu.conditions with
    | none => rfl
    | some start =>
      dsimp only
      split <;> rfl
  next => rfl

theorem Ticks.congr {qu₁ qu₂ : JobUnit} (ht : Ticks f now qu qu₁) (hc : qu₂.conditions = qu₁.conditions)
    (hb : qu₂.accumulatedPastExecutionTimeSeconds = qu₁.accumulatedPastExecutionTimeSeconds) : Ticks f now qu qu₂ := by
  have hs : since qu₂ = since qu₁ := congrArg podsReadySince hc
  cases ht with
  | kept hs₁ hb₁ => exact .kept (hs.trans hs₁) (hb.trans hb₁)
  | started h0 hs₁ hb₁ => exact .started h0 (hs.trans hs₁) (hb.trans hb₁)
  | closed hs₁ hb₁ => exact .closed (hs.trans hs₁) (hb.trans hb₁)

theorem since_update (hf : f.queueUnitConditions = true) (phase : QueueUnitPhase) (msg : String) :
    since (updateQueueUnitStatus f now phase msg qu) = clockOf now phase (since qu) :=
  since_sync hf now _

theorem accumulated_update (phase : QueueUnitPhase) (msg : String) :
    (updateQueueUnitStatus f now phase msg qu).accumulatedPastExecutionTimeSeconds =
      qu.accumulatedPastExecutionTimeSeconds := sync_accumulated f now _

theorem evicted_accumulated (reason message : String) :
    (setQueueUnitEvictedCondition f now reason message qu).accumulatedPastExecutionTimeSeconds =
      qu.accumulatedPastExecutionTimeSeconds := by
  rw [setQueueUnitEvictedCondition]
  split <;> rfl

variable {handle : JobHandle} {status : JobStatus} {qu' : JobUnit} {phase : QueueUnitPhase}

theorem ticks_update_of_kept (hf : f.queueUnitConditions = true) (msg : String)
    (hk : clockOf now phase (since qu) = since qu) : Ticks f now qu (updateQueueUnitStatus f now phase msg qu) :=
  .kept ((since_update hf phase msg).trans hk) (accumulated_update phase msg)

theorem ticks_running (hf : f.queueUnitConditions = true) (msg : String) :
    Ticks f now qu (updateQueueUnitStatus f now .running msg qu) := by
  cases hs : since qu with
  | none =>
    refine .started hs ?_ (accumulated_update .running msg)
    rw [since_update hf, hs]
    rfl
  | some t =>
    refine ticks_update_of_kept hf msg ?_
    rw [hs]
    rfl

theorem ticks_preempted (hf : f.queueUnitConditions = true) (msg : String) :
    Ticks f now qu (updateQueueUnitStatus f now .enqueued msg (accumulateExecutionTime f now qu)) := by
  refine .closed (since_update hf .enqueued msg) ?_
  rw [accumulated_update, accumulate_eq]

theorem ticks_timedOut (hf : f.queueUnitConditions = true) (handle : JobHandle) :
    Ticks f now qu (timedOut f now jitter handle qu) := by
  refine .closed (since_update hf .backoff _) ?_
  obtain ⟨r, hr⟩ := record_eq f handle.backoffTime now jitter (accumulateExecutionTime f now qu)
  rw [timedOut, accumulated_update, hr, accumulate_eq]

theorem ticks_deactivated (hf : f.queueUnitConditions = true) : Ticks f now qu (deactivated f now qu) := by
  refine .closed ?_ ?_
  · rw [since, deactivated, since_evicted, since_sync hf, accumulate_eq]
    rfl
  · rw [deactivated, evicted_accumulated, sync_accumulated, accumulate_eq]
    rfl

theorem exhausted_off (f : Features) (now : Time) (qu : JobUnit) :
    since (exhausted f now qu) = none ∧ (exhausted f now qu).accumulatedPastExecutionTimeSeconds = none := by
  rw [since, exhausted, since_evicted, since_stopped, evicted_accumulated]
  exact ⟨rfl, rfl⟩

/-- Whatever a reconcile makes of the status, it keeps the clock, starts it, or banks the interval that
it closes; once the budget is used up it resets both. -/
theorem ticks_moved (hf : f.queueUnitConditions = true)
    (hoff : qu.status.phase = .backoff → since qu = none) (hm : Moved f now jitter handle status qu qu') :
    Ticks f now qu qu' ∨ qu' = exhausted f now (setActive false qu) := by
  cases hm with
  | deactivated => exact .inl (ticks_deactivated hf)
  | exhausted => exact .inr rfl
  | preempted => exact .inl (ticks_preempted hf _)
  | backoffOver hp =>
    refine .inl (ticks_update_of_kept hf _ ?_)
    rw [hoff hp]
    rfl
  | timedOut => exact .inl (ticks_timedOut hf handle)
  | backToPending => exact .inl (ticks_update_of_kept hf _ rfl)
  | running => exact .inl (ticks_running hf _)
  | finished hp =>
    rcases hp with rfl | rfl
    · exact .inl (ticks_update_of_kept hf _ rfl)
    · exact .inl (ticks_update_of_kept hf _ rfl)

/-- The job of a running unit has not ended, and its pods do not make the unit pending again. -/
def Stays (handle : JobHandle) (status : JobStatus) : Prop :=
  status ≠ .succeeded ∧ status ≠ .failed ∧ ¬(status = .pending ∧ handle.enableRunningToPending = true)
deriving Decidable

theorem follows_update (hf : f.queueUnitConditions = true) (msg : String)
    (hp : phase ≠ .running) (hoff : clockOf now phase (since qu) = none) :
    since (updateQueueUnitStatus f now phase msg qu) = none ∧
      (updateQueueUnitStatus f now phase msg qu).status.phase ≠ .running := by
  rw [since_update hf, phase_updateQueueUnitStatus]
  exact ⟨hoff, hp⟩

/-- A reconcile turns the clock on with the phase `Running`, and off with every
other phase that it sets. -/
theorem follows_moved (hf : f.queueUnitConditions = true)
    (hoff : qu.status.phase ≠ .running → since qu = none) (hstays : qu.status.phase = .running → Stays handle status)
    (hm : Moved f now jitter handle status qu qu') :
    qu' = exhausted f now (setActive false qu) ∨ (since qu' = none ∧ qu'.status.phase ≠ .running) ∨
      (status = .running ∧ since qu' ≠ none ∧ qu'.status.phase = .running ∧ qu.status.phase ≠ .running) := by
  cases hm with
  | deactivated =>
    refine .inr (.inl ⟨?_, ?_⟩)
    · rw [since, deactivated, since_evicted, since_sync hf, accumulate_eq]
      rfl
    · rw [deactivated, evicted_status, sync_status, accumulate_eq]
      exact nofun
  | exhausted => exact .inl rfl
  | preempted | backoffOver | timedOut => exact .inr (.inl (follows_update hf _ nofun rfl))
  | backToPending hp he hj => exact absurd ⟨hj, he⟩ (hstays hp).2.2
  | running hp hj =>
    refine .inr (.inr ⟨hj, ?_, phase_updateQueueUnitStatus .., hp⟩)
    rw [since_update hf]
    exact Option.some_ne_none _
  | finished hp hj =>
    have hnot : qu.status.phase ≠ .running :=
      fun hr => hj.elim (hstays hr).1 (hstays hr).2.1
    rcases hp with rfl | rfl
    · exact .inr (.inl (follows_update hf _ nofun (hoff hnot)))
    · exact .inr (.inl (follows_update hf _ nofun (hoff hnot)))

end

section

variable {f : Features} {now : Int} {qu qu' : JobUnit}

theorem second_eq : (second : Int) = 1000000000 := rfl

theorem wholeSeconds_le (t : Int) : wholeSeconds t ≤ t := by
  rw [wholeSeconds, second_eq]
  omega

theorem sub_wholeSeconds_le (t : Int) : t - wholeSeconds t ≤ second := by
  rw [wholeSeconds, second_eq]
  omega

theorem openInterval_off (hs : since qu = none) : openInterval now qu = 0 := by
  rw [openInterval, hs]
  rfl

theorem openInterval_on {start : Int} (hs : since qu = some start) : openInterval now qu = now - start := by
  rw [openInterval, hs]
  rfl

theorem toInt_seconds {d : Int} (h0 : 0 ≤ d) (hd : d < 2 ^ 31 * second) : (seconds d).toInt = d / second := by
  rw [second_eq] at hd ⊢
  rw [seconds, second_eq, Int.tdiv_eq_ediv_of_nonneg h0]
  apply Int32.toInt_ofInt_of_le <;> omega

theorem toInt_bankedAfter (hf : f.maximumExecutionTime = true) {start : Int} {accumulated : Option Int32}
    (h0 : 0 ≤ (accumulated.getD 0).toInt) (hstart : start ≤ now)
    (hfit : (accumulated.getD 0).toInt * second + (now - start) < 2 ^ 31 * second) :
    ((bankedAfter f now (some start) accumulated).getD 0).toInt =
      (accumulated.getD 0).toInt + (now - start) / second := by
  rw [second_eq] at hfit
  have hsec : (seconds (now - start)).toInt = (now - start) / second :=
    toInt_seconds (by omega) (by rw [second_eq]; omega)
  simp only [bankedAfter, if_pos hf]
  rw [second_eq] at hsec ⊢
  split
  next hle =>
    rw [Int32.le_iff_toInt_le, hsec, Int32.toInt_zero] at hle
    omega
  next =>
    rw [Option.getD_some, Int32.toInt_add, hsec]
    apply Int.bmod_eq_of_le <;> omega

theorem started_ticks (hstart : ∀ start : Int, since qu = some start → start ≤ now) (ht : Ticks f now qu qu')
    (start : Int) (hs : since qu' = some start) : start ≤ now := by
  cases ht with
  | kept hk => exact hstart start (hk.symm.trans hs)
  | started _ hk =>
    cases hk.symm.trans hs
    exact wholeSeconds_le now
  | closed hk => cases hk.symm.trans hs

/-- The start of an interval is recorded up to a second early, and of the time of a closed one the part of a
second is lost. -/
theorem spent_ticks (hf : f.maximumExecutionTime = true) (h0 : 0 ≤ banked qu)
    (hstart : ∀ start : Int, since qu = some start → start ≤ now) (hfit : spent now qu < 2 ^ 31 * second)
    (ht : Ticks f now qu qu') :
    0 ≤ banked qu' ∧
      spent now qu' ≤ spent now qu + (if since qu = none ∧ since qu' ≠ none then now - wholeSeconds now else 0) ∧
      spent now qu ≤ spent now qu' + (if since qu ≠ none ∧ since qu' = none then second else 0) := by
  have hlost : (0 : Int) ≤ if since qu ≠ none ∧ since qu' = none then second else 0 := by
    split
    next => exact second_eq ▸ by omega
    next => exact le_rfl
  have hearly := wholeSeconds_le now
  have hgain : (0 : Int) ≤ if since qu = none ∧ since qu' ≠ none then now - wholeSeconds now else 0 := by
    split
    next => omega
    next => exact le_rfl
  cases ht with
  | kept hs hb =>
    have hbank : banked qu' = banked qu := by rw [banked, hb, banked]
    have hspent : spent now qu' = spent now qu := by rw [spent, spent, openInterval, hs, hbank, openInterval]
    exact ⟨hbank ▸ h0, hspent ▸ le_add_of_nonneg_right hgain, hspent ▸ le_add_of_nonneg_right hlost⟩
  | started h1 hs hb =>
    have hbank : banked qu' = banked qu := by rw [banked, hb, banked]
    have hspent : spent now qu' = spent now qu + (now - wholeSeconds now) := by
      rw [spent, spent, openInterval_on hs, openInterval_off h1, hbank]
      omega
    rw [if_pos ⟨h1, hs ▸ Option.some_ne_none _⟩, hspent]
    exact ⟨hbank ▸ h0, le_rfl, by omega⟩
  | closed hs hb =>
    have hspent' : spent now qu' = banked qu' * second := by rw [spent, openInterval_off hs, add_zero]
    cases hon : since qu with
    | none =>
      have hbank : banked qu' = banked qu := by
        rw [banked, hb, hon, banked]
        simp only [bankedAfter, ite_self]
      have hspent : spent now qu' = spent now qu := by
        rw [hspent', hbank, spent, openInterval_off hon, add_zero]
      rw [hon] at hlost hgain
      exact ⟨hbank ▸ h0, hspent ▸ le_add_of_nonneg_right hgain, hspent ▸ le_add_of_nonneg_right hlost⟩
    | some start =>
      have hspent : spent now qu = banked qu * second + (now - start) := by rw [spent, openInterval_on hon]
      have hbank : banked qu' = banked qu + (now - start) / second := by
        rw [banked, hb, hon]
        exact toInt_bankedAfter hf h0 (hstart start hon) (hspent ▸ hfit)
      have hle := hstart start hon
      rw [hspent', hspent, hbank, second_eq, if_neg (fun h => Option.some_ne_none start h.1),
        if_pos ⟨Option.some_ne_none start, hs⟩]
      omega

end

section

variable {f : Features} {strict : Bool} {now jitter : Time} {qu qu' : JobUnit}

theorem since_check (hf : f.queueUnitConditions = true) (hoff : since qu = none)
    (h : Controllers.QueueUnitController.reconcile f strict now jitter qu = some qu') : since qu' = none := by
  obtain ⟨_, qu₁, hc, rfl⟩ := Controllers.QueueUnitController.reconcile_eq_some h
  have hphase : clockOf now qu₁.status.phase none = none := by
    rcases hc.outcome with ⟨hd | hd, _⟩ | hd <;> rw [hd] <;> rfl
  have hs : since qu₁ = none := (congrArg podsReadySince hc.conditions).trans hoff
  exact (since_sync hf now qu₁).trans ((congrArg (clockOf now qu₁.status.phase) hs).trans hphase)

theorem ticks_check (hf : f.queueUnitConditions = true) (hoff : since qu = none)
    (h : Controllers.QueueUnitController.reconcile f strict now jitter qu = some qu') : Ticks f now qu qu' := by
  refine .kept ((since_check hf hoff h).trans hoff.symm) ?_
  obtain ⟨_, qu₁, hc, rfl⟩ := Controllers.QueueUnitController.reconcile_eq_some h
  exact (sync_accumulated f now qu₁).trans hc.accumulated

end

end KoordQueue.JobExt.RunningClock
