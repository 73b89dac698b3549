import KoordQueue.Lib.Run
import KoordQueue.Queue.Assumed
import KoordQueue.Queue.Settings

namespace KoordQueue.Queue.Exclusivity

open Api Memory Policy Update Steps Frames Filing Settings Assumed

variable {s : State} (fw : Handle)

structure Exclusive (s : State) : Prop where
  waits : s.pq.waitPodsRunning = true
  filed : Filed s
  tracked : Tracked s

theorem exclusive_step {a : Action} {t : State} (h : Exclusive s) (hok : Covered fw s a)
    (hstep : step fw s a = some t) : Exclusive t where
  waits := by
    have hset := (framed_step fw hstep).1
    simp only [settings, Prod.mk.injEq] at hset
    rw [hset.2.2.2, h.waits]
  filed := filed_step fw h.filed hstep
  tracked := tracked_step fw h.tracked h.filed hok hstep

theorem exclusive_newPriorityQueue (infos : Infos) (name queuePolicy : String) (maxDepth reclaimProtectTime : Int)
    (now : Time) : Exclusive ⟨infos, newPriorityQueue name queuePolicy maxDepth true reclaimProtectTime now⟩ where
  waits := rfl
  filed := filed_newPriorityQueue infos name queuePolicy maxDepth true reclaimProtectTime now
  tracked := fun _ _ hk => absurd hk (by simp [newPriorityQueue])

/-- In a run whose steps are all covered, a `Reserve` succeeds only while no
other unit of the queue is pending. -/
theorem reserve_exclusive {infos : Infos} {name queuePolicy : String} {maxDepth reclaimProtectTime : Int}
    {start : Time} {as : List Action} {t : State} (hg : Run.Guarded (step fw) (Covered fw)
      ⟨infos, newPriorityQueue name queuePolicy maxDepth true reclaimProtectTime start⟩ as) (hrun : Run.exec (step fw)
      ⟨infos, newPriorityQueue name queuePolicy maxDepth true reclaimProtectTime start⟩ as = some t)
    {now : Time} {r : Ref} (hok : (reserve t.infos now r t.pq).2 = .ok) :
    ∀ key x, t.pq.queueUnits.lookup key = some x → key ≠ t.infos.key r → pending (t.infos.unit x) = false := by
  have ht : Exclusive t := Run.invariant (fun _ _ _ h hc hs => exclusive_step fw h hc hs)
    (exclusive_newPriorityQueue infos name queuePolicy maxDepth reclaimProtectTime start) hg hrun
  have hempty : t.pq.assumed = ∅ := by
    rcases reserve_cases t.infos now t.pq r with ⟨_, hassumed, _⟩ | ⟨hfail, _⟩
    · exact hassumed ht.waits
    · exact absurd hok hfail
  intro key x hk _
  cases hp : pending (t.infos.unit x) with
  | false => rfl
  | true =>
    have hmem := ht.tracked key x hk hp
    rw [hempty] at hmem
    exact absurd hmem (Finset.notMem_empty key)

def waitingQueue : State := { pq := newPriorityQueue "q" "Priority" (-1) true 0 0 }

/-- One of the two workers of `u` is admitted, and so many of them run. -/
def halfAdmitted (running : Int64) : QueueUnit :=
  jobUnit "u" "1" none 2 [{ name := "worker", replicas := 1, running }]

def besideRunning : List Action := [.newInfo 0 (halfAdmitted 1), .newInfo 0 (jobUnit "v" "1" none 1 []), .add 0, .add 1]

theorem reserve_exclusive_beside_running :
    ∃ t, Run.exec (step noQuotas) waitingQueue besideRunning = some t ∧
      (reserve t.infos 0 1 t.pq).2 = .ok ∧
      ∀ key x, t.pq.queueUnits.lookup key = some x → key ≠ t.infos.key 1 → pending (t.infos.unit x) = false := by
  obtain ⟨t, hrun, hok⟩ : ∃ t, Run.exec (step noQuotas) waitingQueue besideRunning = some t ∧
      (reserve t.infos 0 1 t.pq).2 = .ok := by decide +kernel
  refine ⟨t, hrun, hok, ?_⟩
  apply reserve_exclusive noQuotas _ hrun hok
  exact fun _ _ => ⟨trivial, fun _ _ => ⟨trivial, fun _ _ => ⟨trivial, fun _ _ => ⟨trivial, trivial⟩⟩⟩⟩

/-- The pending unit `u` is handed out to be topped up, refused because it is
itself assumed, and reported as failed. -/
def refusedTopUp : List Action :=
  [.newInfo 0 (halfAdmitted 0), .newInfo 0 (jobUnit "v" "1" none 1 []), .add 0, .add 1, .next 0, .reserve 0 0,
    .addUnschedulable 0 false, .next 0]

/-- After that `v` is reserved while the admitted worker of `u` does not run. -/
theorem reserve_beside_pending :
    ∃ t, Run.exec (step noQuotas) waitingQueue refusedTopUp = some t ∧
      (reserve t.infos 0 1 t.pq).2 = .ok ∧
      ∃ x, t.pq.queueUnits.lookup "ns/u" = some x ∧ "ns/u" ≠ t.infos.key 1 ∧
        pending (t.infos.unit x) = true := by
  decide +kernel

end KoordQueue.Queue.Exclusivity
