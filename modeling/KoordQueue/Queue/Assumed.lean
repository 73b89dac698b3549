import KoordQueue.Queue.Filing

namespace KoordQueue.Queue.Assumed

open Api UnitStatus Memory Policy Update Steps Frames Filing

def pending (qu : QueueUnit) : Bool := isQueueUnitReservedAnyResource qu && !isQueueUnitAllRunning qu

/-- Every pending unit of the queue is assumed. -/
def Tracked (s : State) : Prop :=
  ∀ key r, s.pq.queueUnits.lookup key = some r → pending (s.infos.unit r) = true → key ∈ s.pq.assumed

variable (fw : Handle)

/-- A failure is reported only for a unit that is not pending, an update that
is skipped makes no unit pending that is not assumed, and a version that the
queue keeps is no more pending than the one that was sent. -/
def Covered (s : State) : Action → Prop
  | .update _ old new => ∀ r, s.pq.queueUnits.lookup new.key = some r →
      pending (keptVersion (s.infos.unit r) new) = true →
        (unchanged old new = true → new.key ∈ s.pq.assumed) ∧
        (unchanged old new = false → needsReinsert fw old new s.pq = false → pending new = true)
  | .addUnschedulable r _ | .errorFunc _ r .getFailed _ _ =>
    ∀ x, s.pq.queueUnits.lookup (s.infos.key r) = some x → pending (s.infos.unit x) = false
  | .errorFunc _ r (.got qu) _ _ =>
    ∀ x, s.pq.queueUnits.lookup (s.infos.key r) = some x → pending (if x = r then qu else s.infos.unit x) = false
  | _ => True

variable {s : State} {m : Infos} {q : PriorityQueue}

theorem Tracked.shrink (h : Tracked s) (hf : Filed s) (hm : Extends s.infos m)
    (hunits : ∀ key r, q.queueUnits.lookup key = some r → s.pq.queueUnits.lookup key = some r)
    (hassumed : ∀ key ∈ s.pq.assumed, key ∈ q.queueUnits → key ∈ q.assumed) : Tracked ⟨m, q⟩ := by
  intro key r hk hp
  have hold := hunits key r hk
  apply hassumed key
  · apply h key r hold
    rwa [← hm.unit (hf.allocated hold)]
  · exact Finmap.mem_of_lookup_eq_some hk

theorem Tracked.same (h : Tracked s) (hf : Filed s) (hm : Extends s.infos m)
    (hunits : q.queueUnits = s.pq.queueUnits) (hassumed : s.pq.assumed ⊆ q.assumed) : Tracked ⟨m, q⟩ :=
  h.shrink hf hm (fun _ _ hk => hunits ▸ hk) (fun _ hk _ => hassumed hk)

theorem tracked_deleteWithoutLock (h : Tracked s) (hf : Filed s) (now : Time) (qu : QueueUnit) :
    Tracked (deleteWithoutLock fw now qu s) := by
  obtain ⟨b, _, heq⟩ := deleteWithoutLock_eq fw now qu s
  rw [heq]
  apply h.shrink hf (extends_filedInfo now qu s)
  · exact fun key r hk => GoMap.lookup_of_erase hk
  · intro key hk hunits
    exact Finset.mem_erase.mpr ⟨(Finmap.mem_erase.mp hunits).1, hk⟩

theorem tracked_fix (h : Tracked s) (hf : Filed s) (now : Time) (order : List String) :
    Tracked (fix fw now order s) := by
  exact (fix_rule (P := fun t => Tracked t ∧ Filed t) fw now ⟨h, hf⟩ (fun _ qu h =>
    ⟨tracked_deleteWithoutLock fw h.1 h.2 now qu, filed_deleteWithoutLock fw now h.2 qu⟩) order).1

theorem reservedNotRun_of_pending {qu : QueueUnit} (h : pending qu = true) : isQueueUnitReservedNotRun qu = true := by
  rw [pending, Bool.and_eq_true] at h
  have hne : qu.status.admissions ≠ [] := by
    intro hnil
    have hany := h.1
    rw [isQueueUnitReservedAnyResource, hnil] at hany
    exact Bool.false_ne_true hany
  rw [isQueueUnitReservedNotRun, Bool.and_eq_true]
  exact ⟨decide_eq_true hne, h.2⟩

theorem tracked_add (h : Tracked s) (hf : Filed s) (r : Ref) :
    Tracked ⟨s.infos, (addQueueUnitInfo fw s.infos r s.pq).1⟩ := by
  have hgrow : s.pq.assumed ⊆ assumedAfterAdd s.infos s.pq r := by
    rw [assumedAfterAdd]
    split
    next => exact Finset.subset_insert _ _
    next => exact Finset.Subset.refl _
  have hfile : ∀ q : PriorityQueue, q.assumed = assumedAfterAdd s.infos s.pq r →
      q.queueUnits = s.pq.queueUnits.insert (s.infos.key r) r → Tracked ⟨s.infos, q⟩ := by
    intro q hassumed hunits key x hk hp
    rw [hassumed]
    rw [hunits, GoMap.lookup_insert_eq] at hk
    split at hk
    next he =>
      cases hk
      rw [assumedAfterAdd, if_pos (reservedNotRun_of_pending hp), he]
      exact Finset.mem_insert_self _ _
    next => exact hgrow (h key x hk hp)
  rcases addQueueUnitInfo_cases fw rfl with ⟨_, heq⟩ | ⟨_, heq⟩ | ⟨_, _, heq⟩ | ⟨_, _, b, _, heq⟩
  · rw [heq]
    exact h
  · rw [heq]
    exact h.same hf (Extends.refl s.infos) rfl hgrow
  · rw [heq]
    exact hfile _ rfl rfl
  · rw [heq]
    exact hfile _ rfl rfl

def TrackedBut (key : String) (s : State) : Prop :=
  ∀ k r, k ≠ key → s.pq.queueUnits.lookup k = some r → pending (s.infos.unit r) = true → k ∈ s.pq.assumed

theorem Tracked.but (h : Tracked s) (key : String) : TrackedBut key s := fun k r _ => h k r

theorem TrackedBut.extend {key : String} (h : TrackedBut key s) (hf : Filed s) (hm : Extends s.infos m)
    (hunits : ∀ k, k ≠ key → q.queueUnits.lookup k = s.pq.queueUnits.lookup k)
    (hassumed : ∀ k, k ≠ key → k ∈ s.pq.assumed → k ∈ q.assumed) : TrackedBut key ⟨m, q⟩ := by
  intro k r hne hk hp
  have hold : s.pq.queueUnits.lookup k = some r := (hunits k hne).symm.trans hk
  apply hassumed k hne
  apply h k r hne hold
  rwa [← hm.unit (hf.allocated hold)]

variable {new old : QueueUnit} {r : Ref} {now : Time}

theorem mem_assumed_settle_of_pending (h : pending new = true) (old : QueueUnit)
    (q : PriorityQueue) : new.key ∈ (settle fw old new q).assumed := by
  rw [pending] at h
  simp only [settle_eq, h, if_true]
  exact Finset.mem_insert_self _ _

theorem mem_assumed_settle_of_ne {k : String} (hne : k ≠ new.key) (old : QueueUnit)
    (hk : k ∈ q.assumed) : k ∈ (settle fw old new q).assumed := by
  simp only [settle_eq]
  split
  next => exact Finset.mem_insert_of_mem hk
  next =>
    split
    next => exact hk
    next => exact Finset.mem_erase.mpr ⟨hne, hk⟩

theorem tracked_refresh (hf : Filed s) (hother : TrackedBut new.key s)
    (hkey : ∀ r, s.pq.queueUnits.lookup new.key = some r →
      pending (keptVersion (s.infos.unit r) new) = true → new.key ∈ s.pq.assumed) : Tracked (refresh fw old new s) := by
  cases hr : s.pq.queueUnits.lookup new.key with
  | none =>
    rw [refresh, hr]
    intro k r hk hp
    refine hother k r ?_ hk hp
    rintro rfl
    rw [hr] at hk
    cases hk
  | some r =>
    obtain ⟨b, _, heq⟩ := refresh_eq fw old hr
    rw [heq]
    intro k x hk hp
    change s.pq.queueUnits.lookup k = some x at hk
    change pending (Infos.unit (if (s.infos.unit r).resourceVersion ≠ new.resourceVersion then
      s.infos.setUnit r new else s.infos) x) = true at hp
    rw [unit_kept (hf.allocated hr)] at hp
    split at hp
    next he =>
      subst he
      have hk' : k = new.key := (hf.own hk).symm.trans (hf.own hr)
      rw [hk']
      exact hkey x hr hp
    next hne =>
      refine hother k x ?_ hk hp
      rintro rfl
      rw [hr] at hk
      exact hne (Option.some.inj hk).symm

theorem tracked_update (h : Tracked s) (hf : Filed s)
    (hok : Covered fw s (.update now old new)) : Tracked (update fw now old new s) := by
  have hfiled := filed_updateBody fw now hf old new
  rw [update]
  rcases updateBody_cases fw now rfl with ⟨hu, heq⟩ | ⟨_, _, heq⟩ | ⟨_, _, _, heq⟩ | ⟨hu, _, hr, heq⟩
  · rw [heq]
    exact tracked_refresh fw hf (h.but _) (fun r hr hp => (hok r hr hp).1 hu)
  · obtain ⟨b, _, hdrop⟩ := dropDequeued_eq now old new s
    rw [heq, refresh_dropDequeued, hdrop]
    apply h.shrink hf (extends_newQueueUnitInfo s.infos now new)
    · exact fun key r hk => GoMap.lookup_of_erase hk
    · intro key hk hunits
      exact Finset.mem_erase.mpr ⟨(Finmap.mem_erase.mp hunits).1, hk⟩
  · rw [heq] at hfiled ⊢
    have hunits : ∀ k, (settle fw old new (reinsert now old new s).pq).queueUnits.lookup k =
        if k = new.key then some (reinserted now old s) else s.pq.queueUnits.lookup k := by
      intro k
      rw [settle_eq]
      exact lookup_reinsert now old new s k
    apply tracked_refresh fw hfiled
    · apply (h.but new.key).extend hf (extends_reinsert now old new s)
      · intro k hne
        rw [hunits, if_neg hne]
      · exact fun k hne hk => mem_assumed_settle_of_ne fw hne old hk
    · intro r hr hp
      rw [hunits, if_pos rfl] at hr
      cases hr
      apply mem_assumed_settle_of_pending
      rw [unit_reinserted, keptVersion, if_neg (not_not.mpr rfl)] at hp
      exact hp
  · rw [heq] at hfiled ⊢
    have hunits : (settle fw old new s.pq).queueUnits = s.pq.queueUnits := by rw [settle_eq]
    apply tracked_refresh fw hfiled
    · apply (h.but new.key).extend hf (Extends.refl s.infos)
      · intro k _
        rw [hunits]
      · exact fun k hne hk => mem_assumed_settle_of_ne fw hne old hk
    · intro r hr' hp
      rw [hunits] at hr'
      exact mem_assumed_settle_of_pending fw ((hok r hr' hp).2 hu hr) old s.pq

theorem tracked_addUnschedulable (h : TrackedBut (s.infos.key r) s) (changed : Bool)
    (hok : ∀ x, s.pq.queueUnits.lookup (s.infos.key r) = some x → pending (s.infos.unit x) = false) :
    Tracked (addUnschedulable fw r changed s) := by
  obtain ⟨b, _, heq⟩ := addUnschedulableIfNotPresent_eq fw s.infos s.pq r changed
  rw [addUnschedulable, heq]
  intro key x hk hp
  have hne : key ≠ s.infos.key r := by
    rintro rfl
    exact Bool.false_ne_true ((hok x hk).symm.trans hp)
  exact Finset.mem_erase.mpr ⟨hne, h key x hne hk hp⟩

theorem tracked_delete (h : Tracked s) (hf : Filed s) (now : Time) (qu : QueueUnit) : Tracked (delete fw now qu s) := by
  rw [delete]
  apply tracked_deleteWithoutLock
  · exact h.same hf (Extends.refl s.infos) rfl (Finset.Subset.refl _)
  · exact hf.same (Extends.refl s.infos) rfl rfl

theorem tracked_errorFunc (h : Tracked s) (hf : Filed s) {answer : Answer}
    {reasons : String} {changed : Bool} (he : Enabled s (.errorFunc now r answer reasons changed))
    (hok : Covered fw s (.errorFunc now r answer reasons changed)) :
    Tracked (errorFunc fw now r answer reasons changed s) := by
  have hr := allocated_of_enabled now he
  have hext := extends_attempted now hr
  have hmore : Tracked ⟨attempted now r s.infos, s.pq⟩ := h.same hf hext rfl (Finset.Subset.refl _)
  cases answer with
  | getNotFound => exact tracked_delete fw hmore (hf.same hext rfl rfl) now _
  | getFailed =>
    apply tracked_addUnschedulable fw (hmore.but _) changed
    intro x hx
    rw [Infos.key, hext.unit hr] at hx
    exact (congrArg pending (hext.unit (hf.allocated hx))).trans (hok x hx)
  | updateNotFound => exact hmore
  | got qu =>
    have hunit : ∀ {x}, s.infos.heap.Allocated x → (refreshed now r reasons qu s.infos).unit x =
        if x = r then failedVersion now reasons qu else s.infos.unit x := unit_refreshed now hr reasons qu
    have hkey : (refreshed now r reasons qu s.infos).key r = s.infos.key r := by
      rw [Infos.key, hunit hr, if_pos rfl, key_of_enabled now he]
    apply tracked_addUnschedulable fw _ changed
    · intro x hx
      rw [hkey] at hx
      have hpend := hok x hx
      rw [hunit (hf.allocated hx)]
      split
      next hxr =>
        rw [if_pos hxr] at hpend
        exact hpend
      next hxr =>
        rw [if_neg hxr] at hpend
        exact hpend
    · intro k x hne hk hp
      have hx : x ≠ r := by
        rintro rfl
        exact hne (hkey.trans (hf.own hk)).symm
      rw [hunit (hf.allocated hk), if_neg hx] at hp
      exact h k x hk hp

theorem tracked_step {a : Action} {t : State} (h : Tracked s) (hf : Filed s) (hok : Covered fw s a)
    (hstep : step fw s a = some t) : Tracked t := by
  obtain ⟨he, rfl⟩ := (step_eq_some fw).mp hstep
  have hrefl := Extends.refl s.infos
  cases a with
  | newInfo now qu => exact h.same hf (extends_newQueueUnitInfo s.infos now qu) rfl (Finset.Subset.refl _)
  | forgetInfos present => exact h
  | add r => exact tracked_add fw h hf r
  | delete now qu => exact tracked_delete fw h hf now qu
  | update now old new => exact tracked_update fw h hf hok
  | next now =>
    obtain ⟨i, f, t, b, _, l, n, heq⟩ := next_eq fw s.infos now s.pq
    rw [act, heq]
    exact h.same hf hrefl rfl (Finset.Subset.refl _)
  | reserve now r =>
    rcases reserve_cases s.infos now s.pq r with ⟨_, _, heq⟩ | ⟨_, a, ha, heq⟩
    · rw [act, heq]
      exact h.same hf hrefl rfl (Finset.subset_insert _ _)
    · rw [act, heq]
      exact h.shrink hf hrefl (fun _ _ hk => hk) ha
  | dequeueSuccess qu => exact h
  | addUnschedulable r changed => exact tracked_addUnschedulable fw (h.but _) changed hok
  | fix now g order => exact tracked_fix fw h hf now order
  | fixQueue =>
    rw [act, fixQueue]
    split
    next => exact h.same hf hrefl rfl (Finset.Subset.refl _)
    next => exact h
  | errorFunc now r answer reasons changed => exact tracked_errorFunc fw h hf he hok

end KoordQueue.Queue.Assumed
