import KoordQueue.JobExt.RunningClock
import KoordQueue.Scheduler.DequeueWrite

namespace KoordQueue.JobExt.ExecutionBudget

open Api UnitStatus Records Conditions Reconciler RunningClock
open Scheduler.AdmissionChecks (dequeue overwrite)

/-- A unit at some moment, with the time it spent in phase `Running` since its
budget was reset and the intervals of its clock that were opened and closed
since then. `evicting` tells that the unit still runs although the budget was reset. -/
structure World where
  unit : JobUnit
  clock : Int := 0
  ran : Int := 0
  opened : Nat := 0
  closed : Nat := 0
  evicting : Bool := false
deriving DecidableEq

/-- A reconcile of the job of which the first few calls took effect, the two
other writers of the phase, a change of the spec, a report of the running pods,
and a phase that something outside the repository sets. -/
inductive Action
  | reconcile (now jitter : Time) (handle : JobHandle) (job : Job) (made : Nat)
  | dequeue (now : Time) (strictDequeue smallTaskAcclerate : Bool) (cached : JobUnit)
      (admissions : List FrameworkAdmission) (matched : List String)
  | check (now jitter : Time) (enableStrictDequeueMode : Bool)
  | respec (now : Time) (active : Option Bool) (maximum : Option Int32)
  | report (now : Time) (admissions : List Admission) (podState : PodState)
  | setPhase (now : Time) (phase : QueueUnitPhase)

def Action.now : Action → Int
  | .reconcile now .. | .dequeue now .. | .check now .. | .respec now .. | .report now .. | .setPhase now _ => now

variable (s : Settings)

def act (unit : JobUnit) : Action → JobUnit
  | .reconcile now jitter handle job made =>
    ((reconcileUnit s now jitter handle job unit).calls.take made).foldl store unit
  | .dequeue now strict small cached admissions matched =>
    overwrite s.features now unit (dequeue strict small now cached admissions matched)
  | .check now jitter strict =>
    (Controllers.QueueUnitController.reconcile s.features strict now jitter unit).getD unit
  | .respec _ active maximum =>
    { unit with spec := { unit.spec with active }, maximumExecutionTimeSeconds := maximum }
  | .report _ admissions podState => { unit.setAdmissions admissions with podState }
  | .setPhase _ phase => { unit with status := { unit.status with phase } }

def resets (unit : JobUnit) : Action → Bool
  | .reconcile now jitter handle job made =>
    decide (written ((reconcileUnit s now jitter handle job unit).calls.take made) =
      some (exhausted s.features now (setActive false unit)))
  | .dequeue .. | .check .. | .respec .. | .report .. | .setPhase .. => false

/-- The time in phase `Running` since the budget was reset. -/
def total (now : Int) (w : World) : Int :=
  w.ran + if w.unit.status.phase = .running then now - w.clock else 0

def step (w : World) (a : Action) : Option World :=
  if a.now < w.clock then none
  else
    let unit := act s w.unit a
    let reset := resets s w.unit a
    some
      { unit
        clock := a.now
        ran := if reset then 0 else total a.now w
        opened := if reset then 0 else if since w.unit = none ∧ since unit ≠ none then w.opened + 1 else w.opened
        closed := if reset then 0 else if since w.unit ≠ none ∧ since unit = none then w.closed + 1 else w.closed
        evicting := (reset || w.evicting) && decide (unit.status.phase = .running) }

/-- The job of a running unit goes on running, the scheduler dequeues a unit that does not run, from a copy
with its clock and its bank, and nothing outside the repository starts or ends the phase `Running`. -/
def Steady (unit : JobUnit) : Action → Prop
  | .reconcile _ _ handle job _ => unit.status.phase = .running → Stays handle job.status
  | .dequeue _ _ _ cached _ _ =>
    unit.status.phase ≠ .running ∧ since cached = since unit ∧
      cached.accumulatedPastExecutionTimeSeconds = unit.accumulatedPastExecutionTimeSeconds
  | .setPhase _ phase => phase = .running ↔ unit.status.phase = .running
  | .check .. | .respec .. | .report .. => True

instance decidableSteady (unit : JobUnit) (a : Action) : Decidable (Steady unit a) := by
  delta Steady
  split <;> infer_instance

/-- A unit whose budget is used up is evicted at once, and the seconds fit into 32 bits. -/
@[mk_iff]
structure InStep (w : World) (a : Action) : Prop where
  steady : Steady w.unit a
  prompt : w.evicting = true → a.now = w.clock
  fits : spent a.now w.unit < 2 ^ 31 * second

instance decidableInStep (w : World) (a : Action) : Decidable (InStep w a) :=
  decidable_of_iff _ (inStep_iff w a).symm

/-- A reconcile that may start the clock is at most so long after a whole second. -/
def Early (slack : Int) : Action → Prop
  | .reconcile now _ _ job _ => job.status = .running → now - wholeSeconds now ≤ slack
  | .dequeue .. | .check .. | .respec .. | .report .. | .setPhase .. => True

instance decidableEarly (slack : Int) (a : Action) : Decidable (Early slack a) := by
  delta Early
  split <;> infer_instance

theorem early_second (a : Action) : Early second a := by
  cases a with
  | reconcile now => exact fun _ => sub_wholeSeconds_le now
  | dequeue | check | respec | report | setPhase => trivial

/-- The clock follows the phase, and the time on it and in the bank is the time
in phase `Running`, up to `slack` for each opened interval and a second for each
closed one. -/
structure Exact (slack : Int) (w : World) : Prop where
  follows : since w.unit ≠ none ↔ w.unit.status.phase = .running ∧ w.evicting = false
  running : w.evicting = true → w.unit.status.phase = .running
  bank : 0 ≤ banked w.unit
  started : ∀ start : Int, since w.unit = some start → start ≤ w.clock
  upper : spent w.clock w.unit ≤ w.ran + w.opened * slack
  lower : w.ran ≤ spent w.clock w.unit + w.closed * second

/-- A unit that has not run yet. -/
def Created (w : World) : Prop :=
  since w.unit = none ∧ w.unit.accumulatedPastExecutionTimeSeconds = none ∧ w.unit.status.phase ≠ .running ∧
    w.ran = 0 ∧ w.opened = 0 ∧ w.closed = 0 ∧ w.evicting = false
deriving Decidable

theorem spent_reset (now : Int) {qu : JobUnit} (hoff : since qu = none)
    (hnone : qu.accumulatedPastExecutionTimeSeconds = none) : banked qu = 0 ∧ spent now qu = 0 := by
  have hbank : banked qu = 0 := by
    rw [banked, hnone]
    rfl
  refine ⟨hbank, ?_⟩
  rw [spent, hbank, openInterval_off hoff]
  omega

theorem exact_created {slack : Int} {w : World} (h : Created w) : Exact slack w := by
  obtain ⟨hoff, hnone, hphase, hran, hopened, hclosed, hevicting⟩ := h
  obtain ⟨hbank, hspent⟩ := spent_reset w.clock hoff hnone
  refine ⟨?_, ?_, hbank.ge, ?_, ?_, ?_⟩
  · exact iff_of_false (not_not.mpr hoff) (fun h => hphase h.1)
  · rw [hevicting]
    exact nofun
  · intro start hs
    cases hoff.symm.trans hs
  · simp [hspent, hran, hopened]
  · simp [hspent, hran, hclosed]

section

variable {s} {w : World} {slack : Int}

variable {a : Action} {unit : JobUnit} {now : Time}

theorem ticks_of_same {f : Features} {qu qu' : JobUnit} (hc : qu'.conditions = qu.conditions)
    (hb : qu'.accumulatedPastExecutionTimeSeconds = qu.accumulatedPastExecutionTimeSeconds) : Ticks f now qu qu' :=
  .kept (congrArg podsReadySince hc) hb

theorem clockOf_newStatus (now : Time) (cfg : Scheduler.Dequeue.Config) (qu : QueueUnit)
    (grants : List FrameworkAdmission) (start : Option Time) :
    clockOf now (Scheduler.Dequeue.newStatus cfg now qu grants).phase start = start := by
  have hphase := Scheduler.DequeueWrite.phase_newStatus cfg now qu grants
  simp only [List.mem_cons, List.not_mem_nil, or_false] at hphase
  rcases hphase with hp | hp | hp <;> rw [hp] <;> rfl

/-- A step that does not reset the budget keeps the clock and the phase `Running`,
turns both off, or turns both on, which only a reconcile of a running job does. -/
inductive Followed (unit : JobUnit) (a : Action) (unit' : JobUnit) : Prop
  | kept (hs : since unit' = since unit) (hp : unit'.status.phase = .running ↔ unit.status.phase = .running)
  | off (hs : since unit' = none) (hp : unit'.status.phase ≠ .running)
  | on (hs : since unit' ≠ none) (hp : unit'.status.phase = .running) (h0 : unit.status.phase ≠ .running)
      (hearly : ∀ slack, Early slack a → a.now - wholeSeconds a.now ≤ slack)

theorem followed_reconcile (hf : s.features.queueUnitConditions = true) {jitter : Time}
    {handle : JobHandle} {job : Job} {made : Nat} (hoff : unit.status.phase ≠ .running → since unit = none)
    (hstays : unit.status.phase = .running → Stays handle job.status)
    (hr : resets s unit (.reconcile now jitter handle job made) = false) :
    Ticks s.features now unit (act s unit (.reconcile now jitter handle job made)) ∧
      Followed unit (.reconcile now jitter handle job made) (act s unit (.reconcile now jitter handle job made)) := by
  rcases stored_cases s now jitter handle job unit made with hsame | ⟨qu, hw, hmoved, hstored⟩
  · have hc := congrArg JobUnit.conditions hsame
    have hb := congrArg JobUnit.accumulatedPastExecutionTimeSeconds hsame
    have hp := congrArg (fun u : JobUnit => u.status.phase) hsame
    exact ⟨ticks_of_same hc hb, .kept (congrArg podsReadySince hc) (iff_of_eq (congrArg (· = _) hp))⟩
  · have hc := congrArg JobUnit.conditions hstored
    have hb := congrArg JobUnit.accumulatedPastExecutionTimeSeconds hstored
    have hs : since (act s unit (.reconcile now jitter handle job made)) = since qu := congrArg podsReadySince hc
    have hp := congrArg (fun u : JobUnit => u.status.phase) hstored
    have hnot : qu ≠ exhausted s.features now (setActive false unit) := by
      intro hex
      rw [resets, hw, hex, decide_eq_true rfl] at hr
      cases hr
    have hbackoff : unit.status.phase = .backoff → since unit = none := fun h => hoff (h ▸ nofun)
    refine ⟨((ticks_moved hf hbackoff hmoved).resolve_right hnot).congr hc hb, ?_⟩
    rcases (follows_moved hf hoff hstays hmoved).resolve_left hnot with ⟨hnone, hphase⟩ | ⟨hj, hon, hphase, h0⟩
    · exact .off (hs.trans hnone) (fun hrun => hphase (hp.symm.trans hrun))
    · exact .on (hs ▸ hon) (hp.trans hphase) h0 (fun _ he => he hj)

theorem followed_dequeue (hf : s.features.queueUnitConditions = true)
    {strict small : Bool} {cached : JobUnit} {grants : List FrameworkAdmission} {matched : List String}
    (hoff : since unit = none) (hs : since cached = since unit)
    (hb : cached.accumulatedPastExecutionTimeSeconds = unit.accumulatedPastExecutionTimeSeconds) :
    Ticks s.features now unit (act s unit (.dequeue now strict small cached grants matched)) ∧
      Followed unit (.dequeue now strict small cached grants matched)
        (act s unit (.dequeue now strict small cached grants matched)) := by
  rw [act, overwrite]
  split
  next => exact ⟨ticks_of_same rfl rfl, .kept rfl Iff.rfl⟩
  next =>
    have hsince : since (unit.storeStatus (syncQueueUnitConditions s.features now
        (unit.storeStatus (dequeue strict small now cached grants matched)))) = since cached :=
      (since_sync hf now _).trans (clockOf_newStatus now _ _ _ _)
    have hphase : (unit.storeStatus (dequeue strict small now cached grants matched)).status.phase ∈
        [QueueUnitPhase.reserved, .schedReady, .dequeued] := Scheduler.DequeueWrite.phase_newStatus ..
    refine ⟨.kept (hsince.trans hs) ((sync_accumulated s.features now _).trans hb),
      .off (hsince.trans (hs.trans hoff)) ?_⟩
    change (syncQueueUnitConditions _ _ _).status.phase ≠ _
    rw [sync_status]
    intro he
    simp [he] at hphase

theorem followed_act (hf : s.features.queueUnitConditions = true)
    (hoff : unit.status.phase ≠ .running → since unit = none) (hsteady : Steady unit a) (hr : resets s unit a = false) :
    Ticks s.features a.now unit (act s unit a) ∧ Followed unit a (act s unit a) := by
  cases a with
  | reconcile now jitter handle job made => exact followed_reconcile hf hoff hsteady hr
  | dequeue now strict small cached grants matched =>
    exact followed_dequeue hf (hoff hsteady.1) hsteady.2.1 hsteady.2.2
  | check now jitter strict =>
    rw [act]
    cases hc : Controllers.QueueUnitController.reconcile s.features strict now jitter unit with
    | none => exact ⟨ticks_of_same rfl rfl, .kept rfl Iff.rfl⟩
    | some qu =>
      have hp := (Controllers.QueueUnitController.reconcile_eq_some hc).1
      have hnone : since unit = none := hoff (hp ▸ nofun)
      refine ⟨ticks_check hf hnone hc, .off (since_check hf hnone hc) ?_⟩
      rcases Controllers.QueueUnitController.outcome_reconcile hc with ⟨hd | hd, _⟩ | hd
      · exact hd ▸ nofun
      · exact hd ▸ nofun
      · exact hd ▸ nofun
  | respec | report => exact ⟨ticks_of_same rfl rfl, .kept rfl Iff.rfl⟩
  | setPhase => exact ⟨ticks_of_same rfl rfl, .kept rfl hsteady⟩

theorem act_of_resets (hr : resets s w.unit a = true) :
    since (act s w.unit a) = none ∧ (act s w.unit a).accumulatedPastExecutionTimeSeconds = none := by
  cases a with
  | reconcile now jitter handle job made =>
    have hw := of_decide_eq_true hr
    have hstored := foldl_store ((reconcileUnit s now jitter handle job w.unit).calls.take made) w.unit
    have hc := congrArg JobUnit.conditions hstored
    have hb := congrArg JobUnit.accumulatedPastExecutionTimeSeconds hstored
    rw [hw] at hc hb
    obtain ⟨hoff, hnone⟩ := exhausted_off s.features now (setActive false w.unit)
    exact ⟨(congrArg podsReadySince hc).trans hoff, hb.trans hnone⟩
  | dequeue | check | respec | report | setPhase => cases hr

theorem spent_advance {now : Int} (h : Exact slack w) (hprompt : w.evicting = true → now = w.clock) :
    spent now w.unit - spent w.clock w.unit = total now w - w.ran := by
  rw [total, spent, spent]
  cases hs : since w.unit with
  | none =>
    rw [openInterval_off hs, openInterval_off hs]
    split
    next hp =>
      have hev : w.evicting = true := by
        by_contra hnot
        exact h.follows.mpr ⟨hp, Bool.not_eq_true _ ▸ hnot⟩ hs
      rw [hprompt hev]
      omega
    next => omega
  | some start =>
    have hp := (h.follows.mp (hs ▸ Option.some_ne_none start)).1
    rw [openInterval_on hs, openInterval_on hs, if_pos hp]
    omega

theorem follows_step (h : Exact slack w) (hfollow : Followed w.unit a unit) :
    since unit ≠ none ↔
      unit.status.phase = .running ∧ (w.evicting && decide (unit.status.phase = .running)) = false := by
  cases hfollow with
  | kept hs hp =>
    rw [hs, h.follows]
    constructor
    · rintro ⟨hrun, hev⟩
      exact ⟨hp.mpr hrun, by rw [hev, Bool.false_and]⟩
    · rintro ⟨hrun, hev⟩
      rw [decide_eq_true hrun, Bool.and_true] at hev
      exact ⟨hp.mp hrun, hev⟩
  | off hs hp => exact iff_of_false (not_not.mpr hs) (fun h => hp h.1)
  | on hs hp h0 =>
    refine iff_of_true hs ⟨hp, ?_⟩
    rw [Bool.eq_false_iff.mpr (mt h.running h0), Bool.false_and]

theorem exact_step (hf : s.features.queueUnitConditions = true) (hm : s.features.maximumExecutionTime = true)
    {t : World} (h : Exact slack w) (hin : Early slack a ∧ InStep w a) (hstep : step s w a = some t) :
    Exact slack t := by
  obtain ⟨hearly, hin⟩ := hin
  rw [step] at hstep
  split at hstep
  next => cases hstep
  next hnow =>
    cases hstep
    have hadvance := spent_advance h hin.prompt
    have hstarted : ∀ start : Int, since w.unit = some start → start ≤ a.now :=
      fun start hs => (h.started start hs).trans (not_lt.mp hnow)
    cases hr : resets s w.unit a with
    | true =>
      obtain ⟨hoff, hnone⟩ := act_of_resets hr
      obtain ⟨hbank, hspent⟩ := spent_reset a.now hoff hnone
      refine ⟨?_, ?_, hbank.ge, ?_, ?_, ?_⟩
      · exact iff_of_false (not_not.mpr hoff) (fun h => by simp at h)
      · simp only [Bool.and_eq_true, decide_eq_true_eq]
        exact And.right
      · intro start hs
        cases hoff.symm.trans hs
      · simp [hspent]
      · simp [hspent]
    | false =>
      have hnone : w.unit.status.phase ≠ .running → since w.unit = none := by
        intro hp
        by_contra hon
        exact hp (h.follows.mp hon).1
      obtain ⟨ht, hfollow⟩ := followed_act hf hnone hin.steady hr
      obtain ⟨hbank, hupper, hlower⟩ := spent_ticks hm h.bank hstarted hin.fits ht
      have hu := h.upper
      have hl := h.lower
      refine ⟨?_, ?_, hbank, started_ticks hstarted ht, ?_, ?_⟩
      · simpa only [Bool.false_or] using follows_step h hfollow
      · simp only [Bool.and_eq_true, decide_eq_true_eq]
        exact And.right
      · simp only [Bool.false_eq_true, if_false]
        split at hupper
        next hc =>
          have hsub : a.now - wholeSeconds a.now ≤ slack := by
            cases hfollow with
            | kept hs => exact absurd (hs ▸ hc.1) hc.2
            | off hs => exact absurd hs hc.2
            | on _ _ _ he => exact he slack hearly
          rw [if_pos hc]
          push_cast
          rw [add_mul, one_mul]
          omega
        next hc =>
          rw [if_neg hc]
          omega
      · simp only [Bool.false_eq_true, if_false]
        rw [second_eq] at hl ⊢
        split at hlower
        next hc =>
          rw [if_pos hc, second_eq] at *
          push_cast
          omega
        next hc =>
          rw [if_neg hc]
          omega

end

/-- What is spent has reached the budget. -/
def BudgetReached (now : Int) (qu : JobUnit) : Prop :=
  ∃ budget, qu.maximumExecutionTimeSeconds = some budget ∧ budget.toInt * second ≤ spent now qu

theorem exhausts_iff {f : Features} (hm : f.maximumExecutionTime = true) (now : Int) (qu : JobUnit) :
    (reconcileMaxExecutionTime f now qu).2 ≠ [] ↔
      isQueueUnitActive qu.toQueueUnit = true ∧ since qu ≠ none ∧ BudgetReached now qu := by
  rw [reconcileMaxExecutionTime, remainingBudget, hm]
  cases ha : isQueueUnitActive qu.toQueueUnit with
  | false => simp
  | true =>
    rw [if_neg (by simp)]
    cases hs : since qu with
    | none =>
      rw [since] at hs
      simp [hs]
    | some start =>
      have hopen : openInterval now qu = now - start := openInterval_on hs
      rw [since] at hs
      rw [hs, BudgetReached, spent, hopen, banked]
      cases hb : qu.maximumExecutionTimeSeconds with
      | none => simp
      | some budget =>
        rw [Option.bind_some, Option.map_some]
        dsimp only
        split
        next hr =>
          change (0 : Int) < _ at hr
          simp only [ne_eq, not_true, false_iff, true_and, not_and, not_exists]
          rintro _ b hsome hle
          cases hsome
          omega
        next hr =>
          change ¬ (0 : Int) < _ at hr
          simp only [ne_eq, reduceCtorEq, not_false_eq_true, true_and, true_iff]
          exact ⟨budget, rfl, by omega⟩

/-- Along every run that meets the condition, the time spent is the time in phase `Running`, up to a second
for each opened or closed interval, and never above it if the clock is started at whole seconds; and the unit is
deactivated exactly when it has used up its budget. -/
theorem execution_budget_exact {s : Settings} (hf : s.features.queueUnitConditions = true)
    (hm : s.features.maximumExecutionTime = true) {start w : World} {as : List Action} (hstart : Created start)
    (hg : Run.Guarded (step s) InStep start as) (hrun : Run.exec (step s) start as = some w) :
    (∀ now, (w.evicting = true → now = w.clock) →
      spent now w.unit ≤ total now w + w.opened * second ∧
        total now w ≤ spent now w.unit + w.closed * second ∧
        ((∀ a ∈ as, Early 0 a) → spent now w.unit ≤ total now w)) ∧
    ∀ now, (since w.unit = none → ¬ BudgetReached now w.unit) →
      ((reconcileMaxExecutionTime s.features now w.unit).2 ≠ [] ↔
        isQueueUnitActive w.unit.toQueueUnit = true ∧
          (w.unit.status.phase ≠ .succeed ∧ w.unit.status.phase ≠ .failed) ∧ BudgetReached now w.unit) := by
  have hexact : ∀ slack, (∀ a ∈ as, Early slack a) → Exact slack w := by
    intro slack hearly
    have hguard := Run.guarded_and hearly hg
    exact Run.invariant (fun _ _ _ h hin hstep => exact_step hf hm h hin hstep) (exact_created hstart) hguard hrun
  have hloose := hexact second (fun a _ => early_second a)
  constructor
  · intro now hprompt
    have hadvance := spent_advance hloose hprompt
    have hu := hloose.upper
    have hl := hloose.lower
    refine ⟨by omega, by omega, fun hearly => ?_⟩
    have hupper := (hexact 0 hearly).upper
    omega
  · intro now hidle
    rw [exhausts_iff hm now w.unit]
    refine and_congr_right (fun _ => ?_)
    constructor
    · rintro ⟨hon, hreached⟩
      have hp := (hloose.follows.mp hon).1
      refine ⟨⟨?_, ?_⟩, hreached⟩
      · rw [hp]
        exact nofun
      · rw [hp]
        exact nofun
    · rintro ⟨-, hreached⟩
      exact ⟨fun hoff => hidle hoff hreached, hreached⟩

def limited (budget : Int32) : World :=
  { unit := { status := { phase := .dequeued, lastUpdateTime := some 0 }, maximumExecutionTimeSeconds := some budget } }

def reconcileAt (now : Time) (budget : Int32) (status : JobStatus) : Action :=
  .reconcile now 0 { runningTimeout := 600 * second, enableRunningToPending := true }
    { status, maximumExecutionTime := some budget } 2

def interrupted : List Action :=
  [reconcileAt 0 3 .running, .respec 2500000000 (some false) (some 3), reconcileAt 2500000000 3 .queuing,
    .respec 3000000000 (some true) (some 3), reconcileAt 4000000000 3 .running]

theorem execution_budget_exact_interrupted :
    ∃ w, Run.exec (step {}) (limited 3) interrupted = some w ∧ w.closed = 1 ∧
      (spent 5000000000 w.unit ≤ total 5000000000 w ∧
        total 5000000000 w ≤ spent 5000000000 w.unit + w.closed * second) ∧
      (reconcileMaxExecutionTime {} 5000000000 w.unit).2 ≠ [] := by
  obtain ⟨w, hrun, hclosed, hev, hon, hp, hactive, hmax, hle⟩ : ∃ w, Run.exec (step {}) (limited 3) interrupted =
      some w ∧ w.closed = 1 ∧ w.evicting = false ∧ since w.unit ≠ none ∧ w.unit.status.phase = .running ∧
      isQueueUnitActive w.unit.toQueueUnit = true ∧ w.unit.maximumExecutionTimeSeconds = some 3 ∧
      (3 : Int32).toInt * second ≤ spent 5000000000 w.unit := by decide +kernel
  have hexact := execution_budget_exact (s := {}) rfl rfl (by decide : Created (limited 3)) (by decide +kernel) hrun
  obtain ⟨-, hlower, hupper⟩ := hexact.1 5000000000 (fun h => by cases hev.symm.trans h)
  refine ⟨w, hrun, hclosed, ⟨hupper (by decide +kernel), hlower⟩, ?_⟩
  refine (hexact.2 5000000000 (fun hoff => absurd hoff hon)).mpr ⟨hactive, ?_, 3, hmax, hle⟩
  rw [hp]
  exact ⟨nofun, nofun⟩

/-- The pods of a running unit are pending again for ten seconds, and those seconds are charged. A unit
that has succeeded is deactivated ten seconds later. A unit that runs since 0.9 s is charged from 0 s on. -/
theorem clock_runs_on :
    (∃ w, Run.exec (step {}) (limited 60) [reconcileAt 0 60 .running, reconcileAt 10000000000 60 .pending] = some w ∧
      w.unit.status.phase = .dequeued ∧ total 20000000000 w = 10 * second ∧ w.closed = 0 ∧
      spent 20000000000 w.unit = 20 * second) ∧
    (∃ w, Run.exec (step {}) (limited 15) [reconcileAt 0 15 .running, reconcileAt 10000000000 15 .succeeded] = some w ∧
      w.unit.status.phase = .succeed ∧ (reconcileMaxExecutionTime {} 20000000000 w.unit).2 ≠ []) ∧
    ∃ w, Run.exec (step {}) (limited 60) [reconcileAt 900000000 60 .running] = some w ∧
      total 1100000000 w = 200000000 ∧ w.closed = 0 ∧ spent 1100000000 w.unit = 1100000000 := by
  decide +kernel

end KoordQueue.JobExt.ExecutionBudget
