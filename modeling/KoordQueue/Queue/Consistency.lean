import KoordQueue.Lib.Run
import KoordQueue.Queue.SliceOps

namespace KoordQueue.Queue.Consistency

open Api UnitStatus Less Policy Update Steps Frames Filing Queue.Representation Slice SliceOps

variable {obj : Objects} {s : State} (fw : Handle) (now : Time)

/-- The queued version is the one that a step looks for or overwrites, up to
what does not count for the order. -/
def Settled (obj : Objects) (s : State) : Action → Prop
  | .newInfo _ qu | .delete _ qu => obj.Has qu
  | .update _ old new => obj.Has old ∧ obj.Has new ∧ old.key = new.key ∧
      ∀ r, s.pq.queueUnits.lookup new.key = some r →
        if unchanged old new then Overwrites s r old new
        else if isQueueUnitDequeued new then Matches s r new
        else if needsReinsert fw old new s.pq then Matches s r old
        else Overwrites s r old new
  | .errorFunc _ r (.got qu) _ _ => obj.Has qu ∧ qu.uid = (s.infos.unit r).uid ∧
      (r ∈ s.pq.queue → priorityOf qu = priorityOf (s.infos.unit r))
  | _ => True

instance (obj : Objects) (s : State) (a : Action) : Decidable (Settled fw obj s a) := by
  delta Settled
  induction a using Steps.Action.casesOn with
  | errorFunc _ _ answer => induction answer using Answer.casesOn <;> infer_instance
  | _ => infer_instance

theorem represented_update (h : Represented obj s) {old new : QueueUnit}
    (hok : Settled fw obj s (.update now old new)) : Represented obj (update fw now old new s) := by
  obtain ⟨hold, hnew, hkey, hmatch⟩ := hok
  rw [update]
  rcases updateBody_cases fw now rfl with ⟨hu, heq⟩ | ⟨hu, hd, heq⟩ | ⟨hu, hd, hr, heq⟩ | ⟨hu, hd, hr, heq⟩
  · rw [heq]
    apply represented_refresh fw h hnew
    intro r hl
    have hover := hmatch r hl
    rwa [if_pos hu] at hover
  · have hdropped := represented_dropDequeued now h old hnew (fun r hl => by simpa [hu, hd] using hmatch r hl)
    rw [heq, refresh_dropDequeued]
    exact hdropped
  · have hin := represented_reinsert now h hold hnew hkey (fun r hl => by simpa [hu, hd, hr] using hmatch r hl)
    rw [heq]
    apply represented_refresh fw
    · rw [settle_eq]
      exact hin.same rfl rfl
    · exact hnew
    · intro r hl
      left
      have hlook : (settle fw old new (reinsert now old new s).pq).queueUnits.lookup new.key =
          some (reinserted now old s) := by
        rw [settle_eq]
        exact (lookup_reinsert now old new s new.key).trans (if_pos rfl)
      cases hlook.symm.trans hl
      exact congrArg QueueUnit.resourceVersion (unit_reinserted now old new s)
  · rw [heq]
    apply represented_refresh fw
    · rw [settle_eq]
      exact h.same rfl rfl
    · exact hnew
    · intro r hl
      rw [settle_eq] at hl
      have hover := hmatch r hl
      rw [hu, hd, hr] at hover
      exact hover

theorem represented_addUnschedulable (h : Represented obj s) (r : Ref) (changed : Bool) :
    Represented obj (addUnschedulable fw r changed s) := by
  obtain ⟨b, _, heq⟩ := addUnschedulableIfNotPresent_eq fw s.infos s.pq r changed
  rw [addUnschedulable, heq]
  exact h.same rfl rfl

theorem represented_attempted (h : Represented obj s) {r : Ref} (hr : s.infos.heap.Allocated r) :
    Represented obj ⟨attempted now r s.infos, s.pq⟩ :=
  h.extend (extends_attempted now hr) (built_set h.built hr (h.built.has hr) rfl rfl rfl)

theorem represented_errorFunc (h : Represented obj s) {r : Ref} {answer : Answer} {reasons : String} {changed : Bool}
    (he : Enabled s (.errorFunc now r answer reasons changed))
    (hok : Settled fw obj s (.errorFunc now r answer reasons changed)) :
    Represented obj (errorFunc fw now r answer reasons changed s) := by
  have hr := allocated_of_enabled now he
  have hext := extends_attempted now hr
  have hmore := represented_attempted now h hr
  cases answer with
  | getNotFound => exact represented_delete fw now hmore (h.built.has hr)
  | getFailed => exact represented_addUnschedulable fw hmore r changed
  | updateNotFound => exact hmore
  | got qu =>
    obtain ⟨hqu, huid, hprio⟩ := hok
    have hfailed : obj.Has (failedVersion now reasons qu) := hqu
    apply represented_addUnschedulable
    apply hmore.setUnit (hext r hr).1 hfailed
    · exact huid.trans (congrArg QueueUnit.uid (hext.unit hr)).symm
    · intro hmem
      exact (hprio hmem).trans (congrArg priorityOf (hext.unit hr)).symm

theorem represented_step {a : Action} {t : State} (h : Represented obj s) (hok : Settled fw obj s a)
    (hstep : step fw s a = some t) : Represented obj t := by
  obtain ⟨he, rfl⟩ := (step_eq_some fw).mp hstep
  cases a with
  | newInfo now qu =>
    exact h.extend (extends_newQueueUnitInfo s.infos now qu) (built_newQueueUnitInfo h.built hok now)
  | forgetInfos present => exact h.extend (Extends.refl s.infos) (built_forgetQueueUnitInfo h.built present)
  | add r => exact represented_add fw h (he.1 r List.mem_cons_self)
  | delete now qu => exact represented_delete fw now h hok
  | update now old new => exact represented_update fw now h hok
  | next now =>
    obtain ⟨i, f, t, b, _, l, n, heq⟩ := next_eq fw s.infos now s.pq
    rw [act, heq]
    exact h.same rfl rfl
  | reserve now r =>
    rcases reserve_cases s.infos now s.pq r with ⟨_, _, heq⟩ | ⟨_, a, _, heq⟩
    · rw [act, heq]
      exact h.same rfl rfl
    · rw [act, heq]
      exact h.same rfl rfl
  | dequeueSuccess qu => exact h
  | addUnschedulable r changed => exact represented_addUnschedulable fw h r changed
  | fix now g order => exact represented_fix fw now h order
  | fixQueue =>
    rw [act, fixQueue]
    split
    next => exact represented_sort h.toListed rfl rfl
    next => exact h
  | errorFunc now r answer reasons changed => exact represented_errorFunc fw now h he hok

/-- The slice is sorted by the ordering function, has no two entries of one
key, and its entries are exactly what the map holds, under the same keys. -/
structure Consistent (s : State) : Prop where
  sorted : s.pq.queue.Pairwise (fun a b => less (s.infos.get a) (s.infos.get b) ≤ 0)
  keys : (s.pq.queue.map s.infos.key).Nodup
  entries : ∀ key r, s.pq.queueUnits.lookup key = some r ↔ r ∈ s.pq.queue ∧ s.infos.key r = key

theorem consistent_of_represented (h : Represented obj s) : Consistent s where
  sorted := h.sorted.imp (fun hlt => less_nonpos_of_rank_lt hlt)
  keys := by
    apply List.Nodup.map_on _ h.nodup
    exact fun a ha b hb he => h.eq_of_key ha hb he
  entries key r := by
    constructor
    · intro hk
      have hown := h.filed.own hk
      exact ⟨h.listed.mpr (hown ▸ hk), hown⟩
    · rintro ⟨hr, rfl⟩
      exact h.listed.mp hr

theorem represented_newPriorityQueue (obj : Objects) (name queuePolicy : String) (maxDepth : Int)
    (waitPodsRunning : Bool) (reclaimProtectTime : Int) (now : Time) :
    Represented obj ⟨{}, newPriorityQueue name queuePolicy maxDepth waitPodsRunning reclaimProtectTime now⟩ where
  built := ⟨fun hr => absurd hr (Nat.not_lt_zero _), fun hr => absurd hr (Nat.not_lt_zero _),
    fun hr => absurd hr (Nat.not_lt_zero _), fun hc => absurd hc (by simp)⟩
  filed := filed_newPriorityQueue {} name queuePolicy maxDepth waitPodsRunning reclaimProtectTime now
  nodup := List.nodup_nil
  listed := by simp [newPriorityQueue]
  sorted := List.Pairwise.nil

/-- A run in which the queued version always matches what the steps look for
keeps the slice sorted and in step with the map. -/
theorem representation_kept {name queuePolicy : String} {maxDepth : Int} {waitPodsRunning : Bool}
    {reclaimProtectTime : Int} {start : Time} {as : List Action} {t : State}
    (hg : Run.Guarded (step fw) (Settled fw obj)
      ⟨{}, newPriorityQueue name queuePolicy maxDepth waitPodsRunning reclaimProtectTime start⟩ as)
    (hrun : Run.exec (step fw)
      ⟨{}, newPriorityQueue name queuePolicy maxDepth waitPodsRunning reclaimProtectTime start⟩ as = some t) :
    Consistent t := by
  have hstart := represented_newPriorityQueue obj name queuePolicy maxDepth waitPodsRunning reclaimProtectTime start
  have ht : Represented obj t := Run.invariant (fun _ _ _ h hc hs => represented_step fw h hc hs) hstart hg hrun
  exact consistent_of_represented ht

/-- Units in the namespace `ns` that are named by their UIDs. -/
def namedObjects : Objects := ⟨fun uid => "ns" ++ "/" ++ uid, fun _ => 0⟩

def high : QueueUnit := jobUnit "a" "1" (some ⟨1, 10⟩) 1 []

def low : QueueUnit := jobUnit "b" "1" (some ⟨2, 5⟩) 1 []

def twoUnits : List Action :=
  [.newInfo 0 high, .newInfo 0 low, .add 1, .add 0, .next 0, .addUnschedulable 0 false]

theorem representation_kept_two_units :
    ∃ t, Run.exec (step noQuotas) emptyQueue twoUnits = some t ∧ t.pq.queue = [0, 1] ∧ Consistent t := by
  obtain ⟨t, hrun, hq⟩ : ∃ t, Run.exec (step noQuotas) emptyQueue twoUnits = some t ∧ t.pq.queue = [0, 1] :=
      by decide +kernel
  refine ⟨t, hrun, hq, ?_⟩
  apply @representation_kept namedObjects noQuotas _ _ _ _ _ _ twoUnits t _ hrun
  exact fun _ _ => ⟨⟨rfl, rfl⟩, fun _ _ => ⟨⟨rfl, rfl⟩, fun _ _ => ⟨trivial, fun _ _ => ⟨trivial,
    fun _ _ => ⟨trivial, fun _ _ => ⟨trivial, trivial⟩⟩⟩⟩⟩⟩

/-- The priority of the handed out unit was lowered meanwhile, and its failure
refreshes the queued info. -/
def loweredWhileScheduled : List Action :=
  [.newInfo 0 high, .newInfo 0 low, .add 0, .add 1, .next 0,
    .errorFunc 0 0 (.got (jobUnit "a" "2" (some ⟨3, 1⟩) 1 [])) "no quota" false]

theorem refreshed_queue_not_sorted :
    ∃ t, Run.exec (step noQuotas) emptyQueue loweredWhileScheduled = some t ∧ ¬ Consistent t := by
  obtain ⟨t, hrun, hq⟩ : ∃ t, Run.exec (step noQuotas) emptyQueue loweredWhileScheduled = some t ∧
      ¬ t.pq.queue.Pairwise (fun a b => less (t.infos.get a) (t.infos.get b) ≤ 0) := by decide +kernel
  exact ⟨t, hrun, fun h => hq h.sorted⟩

end KoordQueue.Queue.Consistency
