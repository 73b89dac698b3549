import KoordQueue.Lib.Run
import KoordQueue.Multi.Object
import KoordQueue.Queue.Rightful
import KoordQueue.Queue.Steps

namespace KoordQueue.Queue.Switches

open Api Resources UnitStatus Less Policy Update Queue.Preempt Victims Rightful
open Multi.Object (QueueCr parseInt32)

structure World where
  state : State
  enablePreempt : Bool
deriving DecidableEq

def World.queue (w : World) : PreemptingQueue := ⟨w.state.pq, w.enablePreempt⟩

/-- A call on the queue, the call after a failed filter, or a new description
of the queue. -/
inductive Action
  | call (a : Steps.Action)
  | preempt (now : Time) (r : Ref) (order : List String)
  | updateQueueCr (cr : QueueCr)

def updateQueueCr (cr : QueueCr) (w : World) : World where
  state := { w.state with pq := { w.state.pq with
    waitPodsRunning := cr.annotation "koord-queue/wait-for-pods-running" = "true"
    maxDepth := (parseInt32 (cr.annotation "koord-queue/max-depth")).getD w.state.pq.maxDepth } }
  enablePreempt := cr.annotation "koord-queue/enable-queueunit-preemption" = "true"

def step (fw : Handle) (w : World) : Action → Option World
  | .call a => (Steps.step fw w.state a).map (fun s => { w with state := s })
  | .preempt _ r order =>
    if w.state.infos.heap.Allocated r ∧ order.Nodup ∧ order.toFinset = w.state.pq.assumed then some w else none
  | .updateQueueCr cr => some (updateQueueCr cr w)

/-- The configuration enables waiting for pods and preemption. -/
def SwitchedOn (w : World) : Prop := w.state.pq.waitPodsRunning = true ∧ w.enablePreempt = true

/-- What the code checks before it looks for victims. -/
def Gated (w : World) : Action → Prop
  | .call (.reserve _ _) => w.state.pq.waitPodsRunning = true
  | .preempt .. => SwitchedOn w
  | .call _ | .updateQueueCr _ => False

/-- Without the second switch, a reservation in a queue that waits for its pods
finds no unit behind the preemptor that could give something back. -/
def Quiet (w : World) : Action → Prop
  | .call (.reserve now r) => w.enablePreempt = true ∨ w.state.pq.waitPodsRunning = false ∨
      w.state.pq.preemptFlag = true ∨ ∀ key ∈ w.state.pq.assumed, ∀ v ∈ w.state.pq.queueUnits.lookup key,
        less (w.state.infos.get r) (w.state.infos.get v) < 0 →
          ¬ GivesBack (w.state.infos.unit v) w.state.pq.reclaimProtectTime now
  | _ => True

section

variable [ResourceHelpers] {fw : Handle} {w : World}

def Victim (fw : Handle) (w : World) : Action → Ref → GoMap String FrameworkAdmission → Prop
  | .call (.reserve now r) => ReserveVictim w.state.infos now r w.queue
  | .preempt now r order => PreemptVictim fw w.state.infos now r order w.queue
  | _ => fun _ _ => False

/-- Some version of a victim gets a reclaim request that it did not have. -/
def Requests (fw : Handle) (w : World) (a : Action) : Prop :=
  ∃ v pps, Victim fw w a v pps ∧ ∃ (newQu newQuCopy : QueueUnit) (written : Time),
    newQu.ns = (w.state.infos.unit v).ns ∧ newQu.name = (w.state.infos.unit v).name ∧
    preemptQueueUnit pps written newQu = some newQuCopy ∧
    ∃ p ∈ newQu.status.admissions.zip newQuCopy.status.admissions, p.2.reclaimState ≠ p.1.reclaimState

theorem requests_iff (a : Action) : Requests fw w a ↔ ∃ v pps name, Victim fw w a v pps ∧ 0 < reclaimOf pps name := by
  constructor
  · rintro ⟨v, pps, hv, newQu, newQuCopy, written, _, _, hwrite, p, hp, hne⟩
    exact ⟨v, pps, p.1.name, hv, requested_of_write hwrite hp hne⟩
  · rintro ⟨v, pps, name, hv, hpos⟩
    obtain ⟨newQuCopy, hwrite, p, hp, _, hne⟩ := exists_write hpos (w.state.infos.unit v) 0
    exact ⟨v, pps, hv, askable (w.state.infos.unit v) name, newQuCopy, 0, rfl, rfl, hwrite, p, hp, hne⟩

theorem gated_of_requests {a : Action} (h : Requests fw w a) : Gated w a := by
  obtain ⟨v, pps, hvictim, _⟩ := h
  cases a with
  | call c =>
    cases c with
    | reserve now r => exact ((reserveVictim_iff w.state.infos now r w.queue v pps).mp hvictim).1
    | _ => exact hvictim
  | preempt now r order =>
    obtain ⟨⟨hwait, henable, _⟩, _⟩ := (preemptVictim_iff fw w.state.infos now r order w.queue v pps).mp hvictim
    exact ⟨hwait, henable⟩
  | updateQueueCr cr => exact hvictim

theorem quiet_reserve (now : Time) (r : Ref) :
    (Requests fw w (.call (.reserve now r)) → SwitchedOn w) ↔ Quiet w (.call (.reserve now r)) := by
  rw [requests_iff]
  constructor
  · intro h
    by_contra hloud
    simp only [Quiet, not_or, not_forall, Bool.not_eq_true, Bool.not_eq_false, Classical.not_not] at hloud
    obtain ⟨hoff, hwait, hflag, key, hkey, v, hv, hless, pps, name, hpps, hpos⟩ := hloud
    have hvictim : ReserveVictim w.state.infos now r w.queue v pps :=
      (reserveVictim_iff w.state.infos now r w.queue v pps).mpr ⟨hwait, hflag, ⟨key, hkey, hv⟩, hless, hpps⟩
    rw [(h ⟨v, pps, name, hvictim, hpos⟩).2] at hoff
    cases hoff
  · rintro hquiet ⟨v, pps, name, hvictim, hpos⟩
    obtain ⟨hwait, hflag, ⟨key, hkey, hv⟩, hless, hpps⟩ :=
      (reserveVictim_iff w.state.infos now r w.queue v pps).mp hvictim
    refine ⟨hwait, ?_⟩
    rcases hquiet with hon | hno | hbusy | hnone
    · exact hon
    · exact absurd (hwait.symm.trans hno) (by simp)
    · exact absurd (hflag.symm.trans hbusy) (by simp)
    · exact absurd ⟨pps, name, hpps, hpos⟩ (hnone key hkey v hv hless)

theorem quiet_iff (a : Action) : (Requests fw w a → SwitchedOn w) ↔ Quiet w a := by
  cases a with
  | call c =>
    cases c with
    | reserve now r => exact quiet_reserve now r
    | _ => exact iff_of_true (fun ⟨_, _, hvictim, _⟩ => hvictim.elim) trivial
  | preempt now r order => exact iff_of_true gated_of_requests trivial
  | updateQueueCr cr => exact iff_of_true (fun ⟨_, _, hvictim, _⟩ => hvictim.elim) trivial

/-- In a run, `Preempt` writes reclaim requests only while both switches are on and `Reserve` only while the
queue waits for pods. All are written with both switches on precisely when no reservation finds victims
with the second one off. -/
theorem requests_switched_on_iff (fw : Handle) (start : World) (as : List Action) :
    Run.Guarded (step fw) (fun w a => Requests fw w a → Gated w a) start as ∧
      (Run.Guarded (step fw) (fun w a => Requests fw w a → SwitchedOn w) start as ↔
        Run.Guarded (step fw) Quiet start as) :=
  ⟨(Run.guarded_congr (fun _ _ => iff_of_true gated_of_requests trivial) start as).mpr (Run.guarded_true start as),
    Run.guarded_congr (fun _ a => quiet_iff a) start as⟩

end

def waitingOnly : QueueCr := { annotations := Finmap.singleton "koord-queue/wait-for-pods-running" "true" }

/-- The reserved unit is taken over into a queue that then starts to wait for
its pods. -/
def waitForPods : List Action :=
  [.call (.newInfo 0 preemptorUnit), .call (.newInfo 0 (reservedUnit 3)), .call (.add 0), .call (.add 1),
    .updateQueueCr waitingOnly]

theorem switched_off_reserve_requests :
    ∃ w, Run.exec (step oneQuota) ⟨{ pq := newPriorityQueue "q" "Priority" (-1) false 0 0 }, false⟩ waitForPods =
        some w ∧ @Requests plainPods oneQuota w (.call (.reserve 10 0)) ∧ ¬ SwitchedOn w := by
  obtain ⟨w, hrun, hwait, hflag, hkey, hv, hless, hpps, hoff⟩ : ∃ w,
      Run.exec (step oneQuota) ⟨{ pq := newPriorityQueue "q" "Priority" (-1) false 0 0 }, false⟩ waitForPods =
      some w ∧ w.state.pq.waitPodsRunning = true ∧ w.state.pq.preemptFlag = false ∧ "ns/a" ∈ w.state.pq.assumed ∧
      w.state.pq.queueUnits.lookup "ns/a" = some 1 ∧ less (w.state.infos.get 0) (w.state.infos.get 1) < 0 ∧
      getResourcesCanReclaim (w.state.infos.unit 1) w.state.pq.reclaimProtectTime 10 =
      some (GoMap.ofList [("worker", ⟨"worker", 1⟩)]) ∧ w.enablePreempt = false := by decide +kernel
  have hvictim := (reserveVictim_iff w.state.infos 10 0 w.queue 1 _).mpr
    ⟨hwait, hflag, ⟨"ns/a", hkey, hv⟩, hless, hpps⟩
  refine ⟨w, hrun, ?_, fun hon => absurd (hoff.symm.trans hon.2) (by simp)⟩
  exact (@requests_iff plainPods oneQuota w _).mpr ⟨1, _, "worker", hvictim, by decide +kernel⟩

end KoordQueue.Queue.Switches
