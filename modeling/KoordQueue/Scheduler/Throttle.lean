import KoordQueue.Lib.CondSemaphore
import KoordQueue.Scheduler.Cycle

namespace KoordQueue.Scheduler.Throttle

open Api Quota.Cache Scheduler.Cycle CondSemaphore

/-- The number of `handleDequeue` calls that run at one time. -/
def maxDequeuing : Int := 200

/-- The scheduling cycles with the goroutines that they start: each waits on
`cond`, handles the dequeue of its unit and signals. -/
structure World where
  cycles : Cycle.World
  dequeuers : CondSemaphore.State QueueUnit

/-- How `handleDequeue` ends for a unit: the status could not be written and the plugins
release the unit as the info has it by then, or it could, and the plugins see the written unit. -/
inductive Handled
  | fails (current : QueueUnit)
  | succeeds (updated : QueueUnit)

def Handled.action (unit : QueueUnit) : Handled → CycleAction
  | .fails current => .dequeueFails unit current
  | .succeeds updated => .dequeueSucceeds unit updated

inductive Action
  | cycle (a : CycleAction)
  | go (q : QueueName)
  | move (i : Nat)
  | handle (i : Nat) (outcome : Handled)

def ofCycle : CycleAction → Bool
  | .queueReserve _ | .dequeueFails .. | .dequeueSucceeds .. => false
  | _ => true

def Action.starts : Action → Bool
  | .go _ => true
  | _ => false

def Action.ofDequeuer : Action → Bool
  | .move _ | .handle .. => true
  | _ => false

def start (cache : CacheImpl) : World := ⟨idleWorld cache, {}⟩

/-- The semaphore is sound, and the units that wait to be written are those of the
goroutines that have not come out of `handleDequeue`. -/
structure Inv (w : World) : Prop where
  sem : CondSemaphore.Inv maxDequeuing w.dequeuers
  pending : w.cycles.dequeuing.Perm (jobs Stage.pending w.dequeuers.threads)

theorem inv_start (cache : CacheImpl) : Inv (start cache) :=
  ⟨CondSemaphore.inv_start (by decide), List.Perm.refl _⟩

section Runs

variable [ResourceHelpers]

/-- `go` is the end of a cycle whose unit the queue has reserved. A goroutine inside
`handleDequeue` goes on by `handle` only. -/
def step (overSellRate : ℚ) (w : World) : Action → Option World
  | .cycle a =>
    if ofCycle a then (cycleStep overSellRate w.cycles a).map (fun cycles => { w with cycles }) else none
  | .go q =>
    match w.cycles.cycle q with
    | .reserved unit => (cycleStep overSellRate w.cycles (.queueReserve q)).map
        (fun cycles => ⟨cycles, w.dequeuers.spawn unit⟩)
    | _ => none
  | .move i =>
    if has (· = .working) w.dequeuers.threads i then none
    else (move maxDequeuing w.dequeuers i).map (fun dequeuers => { w with dequeuers })
  | .handle i outcome =>
    match w.dequeuers.threads[i]? with
    | some ⟨unit, .working⟩ =>
      (cycleStep overSellRate w.cycles (outcome.action unit)).bind (fun cycles =>
        (move maxDequeuing w.dequeuers i).map (fun dequeuers => ⟨cycles, dequeuers⟩))
    | _ => none

variable {overSellRate : ℚ} {w w' : World}

variable {a : Action} {c c' : Cycle.World} {as : List Action}

theorem dequeuing_of_ofCycle {a : CycleAction} (h : cycleStep overSellRate c a = some c')
    (ha : ofCycle a = true) : c'.dequeuing = c.dequeuing := by
  have ht := taken_of_cycleStep h
  cases a with
  | filter q unit =>
    obtain rfl | ⟨_, _, rfl⟩ := ht
    · rfl
    · rfl
  | reject q =>
    obtain ⟨_, _, rfl⟩ := ht
    rfl
  | reserve q =>
    obtain ⟨_, _, _, ⟨_, rfl⟩ | ⟨_, _, _, _, rfl⟩⟩ := ht
    · rfl
    · rfl
  | laterReserveFails q =>
    obtain ⟨_, _, _, _, rfl⟩ := ht
    rfl
  | queueReserveFails q current =>
    obtain ⟨_, _, _, _, rfl⟩ := ht
    rfl
  | queueReserve _ | dequeueFails _ _ | dequeueSucceeds _ _ => cases ha

theorem dequeuing_of_handled {unit : QueueUnit} {outcome : Handled}
    (h : cycleStep overSellRate c (outcome.action unit) = some c') : c'.dequeuing = c.dequeuing.erase unit := by
  have ht := taken_of_cycleStep h
  cases outcome with
  | fails current =>
    obtain ⟨_, _, _, rfl⟩ := ht
    rfl
  | succeeds updated =>
    obtain ⟨_, _, _, rfl⟩ := ht
    rfl

inductive Stepped (w w' : World) : Action → Prop
  | cycle (a : CycleAction) (hd : w'.cycles.dequeuing = w.cycles.dequeuing) (ht : w'.dequeuers = w.dequeuers) :
      Stepped w w' (.cycle a)
  | go (q : QueueName) (unit : QueueUnit) (hd : w'.cycles.dequeuing = unit :: w.cycles.dequeuing)
      (ht : w'.dequeuers = w.dequeuers.spawn unit) : Stepped w w' (.go q)
  | move (i : Nat) (thread : Thread QueueUnit) (hi : w.dequeuers.threads[i]? = some thread)
      (hs : thread.stage ≠ .working) (hd : w'.cycles = w.cycles)
      (ht : CondSemaphore.move maxDequeuing w.dequeuers i = some w'.dequeuers) : Stepped w w' (.move i)
  | handle (i : Nat) (outcome : Handled) (unit : QueueUnit) (hi : w.dequeuers.threads[i]? = some ⟨unit, .working⟩)
      (hd : w'.cycles.dequeuing = w.cycles.dequeuing.erase unit)
      (ht : CondSemaphore.move maxDequeuing w.dequeuers i = some w'.dequeuers) : Stepped w w' (.handle i outcome)

theorem stepped (h : step overSellRate w a = some w') : Stepped w w' a := by
  cases a with
  | cycle a =>
    rw [step] at h
    split at h
    next ha =>
      obtain ⟨cycles, hc, rfl⟩ := Option.map_eq_some_iff.mp h
      exact .cycle a (dequeuing_of_ofCycle hc ha) rfl
    next => cases h
  | go q =>
    rw [step] at h
    split at h
    next unit hq =>
      obtain ⟨cycles, hc, rfl⟩ := Option.map_eq_some_iff.mp h
      obtain ⟨unit', hq', rfl⟩ := taken_of_cycleStep hc
      cases hq.symm.trans hq'
      exact .go q unit rfl rfl
    next => cases h
  | move i =>
    rw [step] at h
    split at h
    next => cases h
    next hw =>
      obtain ⟨dequeuers, hm, rfl⟩ := Option.map_eq_some_iff.mp h
      obtain ⟨thread, hi, -⟩ := moved_of_move hm
      rw [has_of_getElem? hi, decide_eq_true_iff] at hw
      exact .move i thread hi hw rfl hm
  | handle i outcome =>
    rw [step] at h
    split at h
    next unit hi =>
      obtain ⟨cycles, hc, h⟩ := Option.bind_eq_some_iff.mp h
      obtain ⟨dequeuers, hm, rfl⟩ := Option.map_eq_some_iff.mp h
      exact .handle i outcome unit hi (dequeuing_of_handled hc) hm
    next => cases h

theorem inv_step (hw : Inv w) (h : step overSellRate w a = some w') : Inv w' := by
  cases stepped h with
  | cycle a hd ht => exact ⟨ht ▸ hw.sem, by rw [hd, ht]; exact hw.pending⟩
  | go q unit hd ht =>
    refine ⟨ht ▸ inv_spawn hw.sem unit, ?_⟩
    rw [hd, ht, State.spawn, jobs_append rfl]
    exact (hw.pending.cons unit).trans (List.perm_append_singleton unit _).symm
  | move i thread hi hs hd ht =>
    refine ⟨inv_move hw.sem ht, ?_⟩
    have hp := pending_move hi ht
    rw [if_neg hs] at hp
    rw [hd]
    exact hw.pending.trans hp.symm
  | handle i outcome unit hi hd ht =>
    refine ⟨inv_move hw.sem ht, ?_⟩
    have hp := pending_move hi ht
    rw [if_pos rfl] at hp
    rw [hd]
    have := (hw.pending.trans hp.symm).erase unit
    rwa [List.erase_cons_head] at this

theorem inv_run {cache : CacheImpl} (h : Run.exec (step overSellRate) (start cache) as = some w) : Inv w :=
  Run.invariant (fun _ _ _ hi _ hs => inv_step hi hs) (inv_start cache) (Run.guarded_true _ _) h

/-- At any moment at most two hundred goroutines are inside `handleDequeue`, the counter is the
number of those between admission and release, and a reserved unit waits in the background exactly
while its goroutine has not come out of `handleDequeue`. -/
theorem handleDequeue_bounded (cache : CacheImpl) (as : List Action)
    (h : Run.exec (step overSellRate) (start cache) as = some w) :
    number (· = .working) w.dequeuers.threads ≤ 200 ∧
      w.dequeuers.count = number Stage.counted w.dequeuers.threads ∧
      w.cycles.dequeuing.Perm (jobs Stage.pending w.dequeuers.threads) := by
  have hw := inv_run h
  refine ⟨?_, hw.sem.count, hw.pending⟩
  have hle : number (· = .working) w.dequeuers.threads ≤ number Stage.counted w.dequeuers.threads := by
    refine number_le (fun stage hs => ?_) _
    rw [decide_eq_true_iff] at hs
    rw [hs]
    rfl
  have hc := hw.sem.count
  have hb : w.dequeuers.count ≤ 200 := hw.sem.bound
  omega

theorem rank_step (h : step overSellRate w a = some w') :
    rank w'.dequeuers.threads + a.ofDequeuer.toNat ≤ rank w.dequeuers.threads + 13 * a.starts.toNat := by
  cases stepped h with
  | cycle a hd ht =>
    rw [ht]
    exact le_refl _
  | go q unit hd ht =>
    rw [ht, State.spawn, rank, total_append]
    exact le_refl _
  | move i thread hi hs hd ht => exact rank_move ht
  | handle i outcome unit hi hd ht => exact rank_move ht

theorem rank_run {v : World} (h : Run.exec (step overSellRate) v as = some w) :
    rank w.dequeuers.threads + as.countP Action.ofDequeuer ≤
      rank v.dequeuers.threads + 13 * as.countP Action.starts := by
  induction as generalizing v with
  | nil =>
    cases h
    exact le_refl _
  | cons a as ih =>
    obtain ⟨u, hu, hr⟩ := (Run.exec_cons _ _ _ _ _).mp h
    have h1 := rank_step hu
    have h2 := ih hr
    have hnum (b : Bool) : (if b = true then 1 else 0) = b.toNat := by cases b <;> rfl
    rw [List.countP_cons, List.countP_cons, hnum, hnum]
    omega

/-- Together the goroutines take at most thirteen steps for each one that was started, in any order,
and when no one of them is inside `handleDequeue` or able to take a step, then all have ended and every
reserved unit has been handled: no signal is lost. -/
theorem dequeues_complete (cache : CacheImpl) (as : List Action)
    (h : Run.exec (step overSellRate) (start cache) as = some w) :
    as.countP Action.ofDequeuer ≤ 13 * as.countP Action.starts ∧
      ((∀ i, has (· = .working) w.dequeuers.threads i = false ∧ step overSellRate w (.move i) = none) →
        (∀ thread ∈ w.dequeuers.threads, thread.stage = .done) ∧ w.cycles.dequeuing = []) := by
  have hw := inv_run h
  constructor
  · have hr := rank_run h
    have h0 : rank (start cache).dequeuers.threads = 0 := rfl
    omega
  · intro hrest
    have hdone : ∀ thread ∈ w.dequeuers.threads, thread.stage = .done := by
      intro thread ht
      by_contra hd
      obtain ⟨i, hi⟩ := progress hw.sem (by decide) ht hd
      obtain ⟨hnot, hmove⟩ := hrest i
      rw [step, hnot, if_neg Bool.false_ne_true, Option.map_eq_none_iff] at hmove
      rw [hmove] at hi
      cases hi
    refine ⟨hdone, ?_⟩
    have hjobs : jobs Stage.pending w.dequeuers.threads = [] := by
      refine List.filterMap_eq_nil_iff.mpr (fun thread ht => ?_)
      rw [hdone thread ht]
      rfl
    exact (hjobs ▸ hw.pending).eq_nil

end Runs

def oneQuota : CacheImpl := addOrUpdateQuota buildCache (Quota.Info.cpuQuota "a" Quota.Info.koordRootQuota 10)

def oneUnit : QueueUnit := Quota.Info.cpuUnit "u" "a" 0 .enqueued

def schedules : List Action := [.cycle (.filter "q" oneUnit), .cycle (.reserve "q"), .go "q"]

/-- The unit is scheduled once more than there is room for, and the goroutine that comes last finds
all places taken. -/
def crowd : List Action :=
  (List.replicate 201 schedules).flatten ++ (List.range 201).reverse.flatMap (fun i => [.move i, .move i, .move i])

theorem handleDequeue_bounded_crowd :
    ∃ w, Run.exec (@step noPods 1) (start oneQuota) crowd = some w ∧ w.dequeuers.waiters = [0] ∧
      number Stage.counted w.dequeuers.threads = 200 ∧ number (· = .working) w.dequeuers.threads ≤ 200 := by
  have hrun : (Run.exec (@step noPods 1) (start oneQuota) crowd).any
      (fun w => w.dequeuers.waiters = [0] ∧ w.dequeuers.count = 200) = true := by decide +kernel
  obtain ⟨w, hw, hd⟩ := (Option.any_eq_true _ _).mp hrun
  obtain ⟨hwaiters, hcount⟩ := of_decide_eq_true hd
  obtain ⟨hbound, hcounted, -⟩ := @handleDequeue_bounded noPods 1 w oneQuota crowd hw
  exact ⟨w, hw, hwaiters, by omega, hbound⟩

/-- The second goroutine waits for the mutex while the first one has it. -/
def bothEnd : List Action :=
  schedules ++ schedules ++ [.move 0, .move 0, .move 0, .move 1, .handle 0 (.succeeds oneUnit), .move 1, .move 1,
    .move 0, .move 0, .move 0, .handle 1 (.succeeds oneUnit), .move 0, .move 1, .move 1, .move 1, .move 1]

theorem dequeues_complete_both :
    ∃ w, Run.exec (@step noPods 1) (start oneQuota) bothEnd = some w ∧
      w.dequeuers.threads = [⟨oneUnit, .done⟩, ⟨oneUnit, .done⟩] ∧ w.cycles.dequeuing = [] := by
  have hrun : (Run.exec (@step noPods 1) (start oneQuota) bothEnd).any
      (fun w => w.dequeuers.threads = [⟨oneUnit, .done⟩, ⟨oneUnit, .done⟩]) = true := by decide +kernel
  obtain ⟨w, hw, hd⟩ := (Option.any_eq_true _ _).mp hrun
  have ht := of_decide_eq_true hd
  refine ⟨w, hw, ht, ((@dequeues_complete noPods 1 w oneQuota bothEnd hw).2 (fun i => ?_)).2⟩
  have hidle : move maxDequeuing w.dequeuers i = none ∧ has (· = .working) w.dequeuers.threads i = false := by
    rw [move, has, ht]
    rcases i with _ | _ | i <;> exact ⟨rfl, rfl⟩
  exact ⟨hidle.2, by simp [step, hidle]⟩

end KoordQueue.Scheduler.Throttle
