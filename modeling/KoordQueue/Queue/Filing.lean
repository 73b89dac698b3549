import KoordQueue.Queue.Frames
import KoordQueue.Queue.Steps

namespace KoordQueue.Queue.Filing

open Api UnitInfo Memory Policy Update Steps Frames

/-- The infos of `m` are still there in `m'`, with the same units. -/
def Extends (m m' : Infos) : Prop :=
  ∀ r, m.heap.Allocated r → m'.heap.Allocated r ∧ SameInfo (m'.get r) (m.get r)

theorem Extends.refl (m : Infos) : Extends m m := fun _ hr => ⟨hr, SameInfo.refl _⟩

theorem Extends.trans {a b c : Infos} (hab : Extends a b) (hbc : Extends b c) : Extends a c := by
  intro r hr
  obtain ⟨hb, hsame⟩ := hab r hr
  obtain ⟨hc, hsame'⟩ := hbc r hb
  exact ⟨hc, hsame'.trans hsame⟩

theorem Extends.unit {m m' : Infos} (h : Extends m m') {r : Ref} (hr : m.heap.Allocated r) :
    m'.unit r = m.unit r := (h r hr).2.1

theorem extends_newQueueUnitInfo (m : Infos) (now : Time) (qu : QueueUnit) : Extends m (m.newQueueUnitInfo now qu) := by
  intro r hr
  rw [Infos.get_newQueueUnitInfo hr]
  exact ⟨(Heap.allocated_alloc m.heap _ r).mpr (Or.inl hr), SameInfo.refl _⟩

theorem extends_set {m : Infos} {r : Ref} {info : QueueUnitInfo} (hr : m.heap.Allocated r)
    (h : SameInfo info (m.get r)) : Extends m (m.set r info) := by
  intro x hx
  refine ⟨(Heap.allocated_set m.heap r x info).mpr hx, ?_⟩
  rw [Infos.get_set hr]
  split
  next he =>
    subst he
    exact h
  next => exact SameInfo.refl _

/-- Every pointer of the queue is good, and the map files each unit under its key. -/
structure Filed (s : State) : Prop where
  slice : ∀ r ∈ s.pq.queue, s.infos.heap.Allocated r
  allocated : ∀ {key r}, s.pq.queueUnits.lookup key = some r → s.infos.heap.Allocated r
  own : ∀ {key r}, s.pq.queueUnits.lookup key = some r → s.infos.key r = key

variable {s : State} {m : Infos} {q : PriorityQueue}

theorem Filed.shrink (h : Filed s) (hm : Extends s.infos m) (hqueue : ∀ r ∈ q.queue, r ∈ s.pq.queue)
    (hunits : ∀ key r, q.queueUnits.lookup key = some r → s.pq.queueUnits.lookup key = some r) : Filed ⟨m, q⟩ where
  slice r hr := (hm r (h.slice r (hqueue r hr))).1
  allocated hk := (hm _ (h.allocated (hunits _ _ hk))).1
  own hk := by
    have hold := hunits _ _ hk
    rw [Infos.key, hm.unit (h.allocated hold)]
    exact h.own hold

theorem Filed.same (h : Filed s) (hm : Extends s.infos m) (hqueue : q.queue = s.pq.queue)
    (hunits : q.queueUnits = s.pq.queueUnits) : Filed ⟨m, q⟩ :=
  h.shrink hm (fun _ hr => hqueue ▸ hr) (fun _ _ hk => hunits ▸ hk)

theorem Filed.file (h : Filed s) {r : Ref} {key : String} (hm : Extends s.infos m) (hr : m.heap.Allocated r)
    (hkey : m.key r = key) (hqueue : ∀ x ∈ q.queue, x = r ∨ x ∈ s.pq.queue)
    (hunits : q.queueUnits = s.pq.queueUnits.insert key r) : Filed ⟨m, q⟩ where
  slice x hx := by
    rcases hqueue x hx with rfl | hx
    · exact hr
    · exact (hm x (h.slice x hx)).1
  allocated hk := by
    rw [hunits, GoMap.lookup_insert_eq] at hk
    split at hk
    next =>
      cases hk
      exact hr
    next => exact (hm _ (h.allocated hk)).1
  own hk := by
    rw [hunits, GoMap.lookup_insert_eq] at hk
    split at hk
    next he =>
      cases hk
      rw [hkey, he]
    next =>
      rw [Infos.key, hm.unit (h.allocated hk)]
      exact h.own hk

theorem Filed.setUnit (h : Filed s) {r : Ref} (hr : s.infos.heap.Allocated r) {qu : QueueUnit}
    (hkey : qu.key = s.infos.key r) : Filed ⟨s.infos.setUnit r qu, s.pq⟩ where
  slice x hx := (Heap.allocated_set _ _ _ _).mpr (h.slice x hx)
  allocated hk := (Heap.allocated_set _ _ _ _).mpr (h.allocated hk)
  own {key x} hk := by
    change s.pq.queueUnits.lookup key = some x at hk
    rw [Infos.key, Infos.unit_setUnit hr]
    split
    next he =>
      subst he
      rw [hkey]
      exact h.own hk
    next => exact h.own hk

variable (fw : Handle) (now : Time)

theorem extends_filedInfo (qu : QueueUnit) (s : State) : Extends s.infos (filedInfo now qu s).1 := by
  rw [filedInfo]
  split
  next => exact Extends.refl s.infos
  next => exact extends_newQueueUnitInfo s.infos now qu

theorem filed_deleteWithoutLock (h : Filed s) (qu : QueueUnit) : Filed (deleteWithoutLock fw now qu s) := by
  obtain ⟨b, _, heq⟩ := deleteWithoutLock_eq fw now qu s
  rw [heq]
  apply h.shrink (extends_filedInfo now qu s)
  · exact fun r hr => mem_removeFound _ hr
  · exact fun key r hk => GoMap.lookup_of_erase hk

theorem filed_delete (h : Filed s) (qu : QueueUnit) : Filed (delete fw now qu s) := by
  rw [delete]
  apply filed_deleteWithoutLock
  exact h.same (Extends.refl s.infos) rfl rfl

theorem filed_add (h : Filed s) {r : Ref} (hr : s.infos.heap.Allocated r) :
    Filed ⟨s.infos, (addQueueUnitInfo fw s.infos r s.pq).1⟩ := by
  rcases addQueueUnitInfo_cases fw rfl with ⟨_, heq⟩ | ⟨_, heq⟩ | ⟨_, _, heq⟩ | ⟨_, _, b, _, heq⟩
  · rw [heq]
    exact h
  · rw [heq]
    exact h.same (Extends.refl s.infos) rfl rfl
  · rw [heq]
    exact h.file (Extends.refl s.infos) hr rfl (fun _ hx => Or.inr hx) rfl
  · rw [heq]
    exact h.file (Extends.refl s.infos) hr rfl (fun _ hx => List.eq_or_mem_of_mem_insertIdx hx) rfl

def reinserted (old : QueueUnit) (s : State) : Ref := (s.infos.newQueueUnitInfo now old).heap.next

theorem extends_reinsert (old new : QueueUnit) (s : State) : Extends s.infos (reinsert now old new s).infos :=
  (extends_newQueueUnitInfo s.infos now old).trans (extends_newQueueUnitInfo _ now new)

theorem unit_reinserted (old new : QueueUnit) (s : State) :
    (reinsert now old new s).infos.unit (reinserted now old s) = new := Infos.unit_newQueueUnitInfo _ now new

theorem lookup_reinsert (old new : QueueUnit) (s : State) (key : String) :
    (reinsert now old new s).pq.queueUnits.lookup key =
      if key = new.key then some (reinserted now old s) else s.pq.queueUnits.lookup key :=
  GoMap.lookup_insert_eq _ _ _ _

theorem filed_reinsert (h : Filed s) (old new : QueueUnit) : Filed (reinsert now old new s) := by
  apply h.file (extends_reinsert now old new s)
  · exact (Heap.allocated_alloc _ _ _).mpr (Or.inr rfl)
  · exact congrArg QueueUnit.key (unit_reinserted now old new s)
  · intro x hx
    rcases List.eq_or_mem_of_mem_insertIdx hx with rfl | hx
    · exact Or.inl rfl
    · exact Or.inr (mem_removeFound _ hx)
  · rfl

theorem filed_settle (h : Filed ⟨m, q⟩) (old new : QueueUnit) : Filed ⟨m, settle fw old new q⟩ := by
  rw [settle_eq]
  exact h.same (Extends.refl m) rfl rfl

theorem filed_updateBody (h : Filed s) (old new : QueueUnit) : Filed (updateBody fw now old new s) := by
  rcases updateBody_cases fw now rfl with ⟨_, heq⟩ | ⟨_, _, heq⟩ | ⟨_, _, _, heq⟩ | ⟨_, _, _, heq⟩
  · rw [heq]
    exact h
  · obtain ⟨b, _, hdrop⟩ := dropDequeued_eq now old new s
    rw [heq, hdrop]
    apply h.shrink (extends_newQueueUnitInfo s.infos now new)
    · exact fun r hr => mem_removeFound _ hr
    · exact fun key r hk => GoMap.lookup_of_erase hk
  · rw [heq]
    exact filed_settle fw (filed_reinsert now h old new) old new
  · rw [heq]
    exact filed_settle fw h old new

theorem filed_refresh (h : Filed s) (old new : QueueUnit) : Filed (refresh fw old new s) := by
  cases hr : s.pq.queueUnits.lookup new.key with
  | none =>
    rw [refresh, hr]
    exact h
  | some r =>
    obtain ⟨b, _, heq⟩ := refresh_eq fw old hr
    rw [heq]
    have hset : Filed ⟨if (s.infos.unit r).resourceVersion ≠ new.resourceVersion then s.infos.setUnit r new
        else s.infos, s.pq⟩ := by
      split
      next => exact h.setUnit (h.allocated hr) (h.own hr).symm
      next => exact h
    apply hset.shrink (Extends.refl _)
    · intro x hx
      dsimp only at hx
      split at hx
      next => exact (mem_sortQueue _ _ _).mp hx
      next => exact hx
    · exact fun _ _ hk => hk

theorem filed_addUnschedulable (h : Filed s) (r : Ref) (allocatableChanged : Bool) :
    Filed (addUnschedulable fw r allocatableChanged s) := by
  obtain ⟨b, _, heq⟩ := addUnschedulableIfNotPresent_eq fw s.infos s.pq r allocatableChanged
  rw [addUnschedulable, heq]
  exact h.same (Extends.refl s.infos) rfl rfl

theorem extends_attempted {r : Ref} (hr : m.heap.Allocated r) : Extends m (attempted now r m) :=
  extends_set hr (SameInfo.refl _)

theorem unit_refreshed {r : Ref} (hr : m.heap.Allocated r) (reasons : String) (qu : QueueUnit) {x : Ref}
    (hx : m.heap.Allocated x) :
    (refreshed now r reasons qu m).unit x = if x = r then failedVersion now reasons qu else m.unit x := by
  have hext := extends_attempted now hr
  rw [refreshed, Infos.unit_setUnit (hext r hr).1, hext.unit hx]

variable {r : Ref} {answer : Answer} {reasons : String} {changed : Bool} {qu : QueueUnit}

theorem allocated_of_enabled (he : Enabled s (.errorFunc now r answer reasons changed)) :
    s.infos.heap.Allocated r := he.1 r List.mem_cons_self

theorem key_of_enabled (he : Enabled s (.errorFunc now r (.got qu) reasons changed)) :
    (failedVersion now reasons qu).key = s.infos.key r :=
  congrArg₂ (fun a b => a ++ "/" ++ b) he.2.1 he.2.2

theorem filed_refreshed (h : Filed s) (he : Enabled s (.errorFunc now r (.got qu) reasons changed)) :
    Filed ⟨refreshed now r reasons qu s.infos, s.pq⟩ := by
  have hr := allocated_of_enabled now he
  have hext := extends_attempted now hr
  have hmore : Filed ⟨attempted now r s.infos, s.pq⟩ := h.same hext rfl rfl
  apply hmore.setUnit (hext r hr).1
  rw [key_of_enabled now he]
  exact (congrArg QueueUnit.key (hext.unit hr)).symm

theorem filed_errorFunc (h : Filed s) (he : Enabled s (.errorFunc now r answer reasons changed)) :
    Filed (errorFunc fw now r answer reasons changed s) := by
  have hmore : Filed ⟨attempted now r s.infos, s.pq⟩ :=
    h.same (extends_attempted now (allocated_of_enabled now he)) rfl rfl
  cases answer with
  | getNotFound => exact filed_delete fw now hmore _
  | getFailed => exact filed_addUnschedulable fw hmore r changed
  | updateNotFound => exact hmore
  | got qu => exact filed_addUnschedulable fw (filed_refreshed now h he) r changed

theorem filed_step {a : Action} {t : State} (h : Filed s) (hstep : step fw s a = some t) : Filed t := by
  obtain ⟨he, rfl⟩ := (step_eq_some fw).mp hstep
  cases a with
  | newInfo now qu =>
    exact h.same (extends_newQueueUnitInfo s.infos now qu) rfl rfl
  | forgetInfos present => exact ⟨h.slice, h.allocated, h.own⟩
  | add r => exact filed_add fw h (he.1 r List.mem_cons_self)
  | delete now qu => exact filed_delete fw now h qu
  | update now old new => exact filed_refresh fw (filed_updateBody fw now h old new) old new
  | next now =>
    obtain ⟨i, f, t, b, _, l, n, heq⟩ := next_eq fw s.infos now s.pq
    rw [act, heq]
    exact h.same (Extends.refl s.infos) rfl rfl
  | reserve now r =>
    rcases reserve_cases s.infos now s.pq r with ⟨_, _, heq⟩ | ⟨_, a, _, heq⟩
    · rw [act, heq]
      exact h.same (Extends.refl s.infos) rfl rfl
    · rw [act, heq]
      exact h.same (Extends.refl s.infos) rfl rfl
  | dequeueSuccess qu => exact h
  | addUnschedulable r changed => exact filed_addUnschedulable fw h r changed
  | fix now g order => exact fix_rule (P := Filed) fw now h (fun _ qu h => filed_deleteWithoutLock fw now h qu) order
  | fixQueue =>
    rw [act, fixQueue]
    split
    next => exact h.shrink (Extends.refl _) (fun _ hx => (mem_sortQueue _ _ _).mp hx) (fun _ _ hk => hk)
    next => exact h
  | errorFunc now r answer reasons changed => exact filed_errorFunc fw now h he

theorem filed_newPriorityQueue (infos : Infos) (name queuePolicy : String) (maxDepth : Int)
    (waitPodsRunning : Bool) (reclaimProtectTime : Int) (now : Time) :
    Filed ⟨infos, newPriorityQueue name queuePolicy maxDepth waitPodsRunning reclaimProtectTime now⟩ where
  slice _ hr := absurd hr List.not_mem_nil
  allocated hk := absurd hk (by simp [newPriorityQueue])
  own hk := absurd hk (by simp [newPriorityQueue])

end KoordQueue.Queue.Filing
