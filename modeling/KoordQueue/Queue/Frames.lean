import KoordQueue.Queue.Update

namespace KoordQueue.Queue.Frames

open Api UnitStatus UnitInfo Memory Policy Update

section Rounds

variable {Q : Type} (closed : Bool) (judge : Q → Q × Verdict) (handOut : Ref → Q → Q) (q : Q)

/-- The rounds of `Next`, which are the same in both kinds of queue. -/
def rounds : Q × NextResult :=
  if closed then (q, .closed)
  else match judge q with
    | (q, .found r) => (handOut r q, .unit r)
    | (q, .wait) => (q, .wait)
    | (q, .rejudge) =>
      match judge q with
      | (q, .found r) => (handOut r q, .unit r)
      | (q, _) => (q, .wait)

variable {I : Q → Prop}

theorem rounds_cases (h : I q) (hjudge : ∀ p, I p → I (judge p).1) : rounds closed judge handOut q = (q, .closed) ∨
    (∃ p, I p ∧ rounds closed judge handOut q = (p, .wait)) ∨
    ∃ p r, I p ∧ rounds closed judge handOut q = (handOut r p, .unit r) := by
  have hfirst := hjudge q h
  rw [rounds]
  split
  next => exact Or.inl rfl
  next =>
    right
    split
    next p r hp =>
      rw [hp] at hfirst
      exact Or.inr ⟨p, r, hfirst, rfl⟩
    next p hp =>
      rw [hp] at hfirst
      exact Or.inl ⟨p, hfirst, rfl⟩
    next p hp =>
      rw [hp] at hfirst
      have hsecond := hjudge p hfirst
      split
      next p' r hp' =>
        rw [hp'] at hsecond
        exact Or.inr ⟨p', r, hsecond, rfl⟩
      next p' v _ hp' =>
        rw [hp'] at hsecond
        exact Or.inl ⟨p', hsecond, rfl⟩

variable {closed judge handOut q}

theorem rounds_unit {r : Ref} (h : (rounds closed judge handOut q).2 = .unit r) :
    ∃ q' p, judge q' = (p, .found r) ∧ (q' = q ∨ judge q = (q', .rejudge)) := by
  rw [rounds] at h
  split at h
  next => cases h
  next =>
    split at h
    next p x hp =>
      cases h
      exact ⟨q, p, hp, Or.inl rfl⟩
    next => cases h
    next p hp =>
      split at h
      next p' x hp' =>
        cases h
        exact ⟨p, p', hp', Or.inr hp⟩
      next => cases h

end Rounds

variable (fw : Handle) (m : Infos) (now : Time) (q : PriorityQueue)

theorem next_eq_rounds : next fw m now q = rounds q.closed (judge fw m now) (handOut m now) q := by
  rw [next, rounds]
  rcases judge fw m now q with ⟨p, v⟩
  cases v with
  | found r => rfl
  | wait => rfl
  | rejudge =>
    dsimp only
    rcases judge fw m now p with ⟨p', v⟩
    cases v <;> rfl

theorem releaseQuota_eq (qu : QueueUnit) :
    ∃ b ⊆ q.blockedQuota, releaseQuota fw qu q = { q with blockedQuota := b } := by
  rw [releaseQuota]
  split
  next quota _ => exact ⟨_, Finset.erase_subset quota _, rfl⟩
  next => exact ⟨_, Finset.Subset.refl _, rfl⟩

theorem blockQuota_eq (qu : QueueUnit) : ∃ b, blockQuota fw qu q = { q with blockedQuota := b } := by
  rw [blockQuota]
  split
  next quota _ => exact ⟨_, rfl⟩
  next => exact ⟨_, rfl⟩

theorem rewind_eq : ∃ i f t, rewind now q =
    { q with nextIdx := i, resetNextIdxFlag := f, lastResetTime := t } := by
  rw [rewind]
  split
  next => exact ⟨_, _, _, rfl⟩
  next => exact ⟨_, _, _, rfl⟩

theorem findNextQueueUnit_eq : ∃ i f t, (findNextQueueUnit fw m now q).1 =
    { q with nextIdx := i, resetNextIdxFlag := f, lastResetTime := t } := by
  obtain ⟨i, f, t, h⟩ := rewind_eq now q
  rw [findNextQueueUnit, h]
  exact ⟨_, _, _, rfl⟩

theorem judge_eq : ∃ i f t, ∃ b ⊆ q.blockedQuota, (judge fw m now q).1 =
    { q with nextIdx := i, resetNextIdxFlag := f, lastResetTime := t, blockedQuota := b } := by
  obtain ⟨i, f, t, h⟩ := findNextQueueUnit_eq fw m now q
  rw [judge]
  split
  next q' hq =>
    rw [hq] at h
    subst h
    split
    next => exact ⟨_, _, _, _, Finset.empty_subset _, rfl⟩
    next => exact ⟨_, _, _, _, Finset.Subset.refl _, rfl⟩
  next q' r hq =>
    rw [hq] at h
    subst h
    split
    next => exact ⟨_, _, _, _, Finset.Subset.refl _, rfl⟩
    next => exact ⟨_, _, _, _, Finset.Subset.refl _, rfl⟩

theorem next_eq : ∃ i f t, ∃ b ⊆ q.blockedQuota, ∃ l n, (next fw m now q).1 =
    { q with
      nextIdx := i, resetNextIdxFlag := f, lastResetTime := t, blockedQuota := b
      lastScheduledTime := l, lastScheduledQueueUnit := n } := by
  rw [next_eq_rounds]
  rcases rounds_cases q.closed (judge fw m now) (handOut m now) q (I := fun p => ∃ i f t, ∃ b ⊆ q.blockedQuota,
    p = { q with nextIdx := i, resetNextIdxFlag := f, lastResetTime := t, blockedQuota := b })
    ⟨_, _, _, _, Finset.Subset.refl _, rfl⟩ (by
      rintro _ ⟨_, _, _, b, hb, rfl⟩
      obtain ⟨_, _, _, b', hb', heq⟩ := judge_eq fw m now _
      exact ⟨_, _, _, b', hb'.trans hb, heq⟩)
    with heq | ⟨_, ⟨_, _, _, b, hb, rfl⟩, heq⟩ | ⟨_, r, ⟨_, _, _, b, hb, rfl⟩, heq⟩
  · rw [heq]
    exact ⟨_, _, _, _, Finset.Subset.refl _, _, _, rfl⟩
  · rw [heq]
    exact ⟨_, _, _, b, hb, _, _, rfl⟩
  · rw [heq]
    exact ⟨_, _, _, b, hb, _, _, rfl⟩

/-- A `Reserve` that succeeds marks the unit and moves the scan on; one that
fails only drops marks of units that are not here. -/
theorem reserve_cases (r : Ref) :
    ((reserve m now r q).2 = .ok ∧ (q.waitPodsRunning = true → q.assumed = ∅) ∧
      (reserve m now r q).1 = { q with
        resetNextIdxFlag := q.blocked || q.resetNextIdxFlag
        nextIdx := if q.blocked then q.nextIdx else q.nextIdx + 1
        assumed := insert (m.key r) q.assumed
        updating := insert (m.key r) q.updating }) ∨
    ((reserve m now r q).2 ≠ .ok ∧ ∃ a, (∀ key ∈ q.assumed, key ∈ q.queueUnits → key ∈ a) ∧
      (reserve m now r q).1 = { q with assumed := a }) := by
  rw [reserve]
  split
  next h =>
    right
    split
    next => exact ⟨by simp, q.assumed, fun _ hk _ => hk, rfl⟩
    next =>
      have hkeep : ∀ key ∈ q.assumed, key ∈ q.queueUnits → key ∈ q.assumed.filter (fun key => key ∈ q.queueUnits) :=
        fun key hk hq => Finset.mem_filter.mpr ⟨hk, hq⟩
      dsimp only
      split
      next => exact ⟨by simp, _, hkeep, rfl⟩
      next => exact ⟨by simp, _, hkeep, rfl⟩
  next h =>
    left
    refine ⟨rfl, fun hw => not_not.mp (fun ha => h ⟨hw, ha⟩), ?_⟩
    cases q.blocked <;> simp

theorem addUnschedulableIfNotPresent_eq (r : Ref) (allocatableChanged : Bool) :
    ∃ b, (q.blocked = false → b = q.blockedQuota) ∧ addUnschedulableIfNotPresent fw m r allocatableChanged q = { q with
      resetNextIdxFlag := (allocatableChanged || q.blocked) || q.resetNextIdxFlag
      nextIdx := if allocatableChanged || q.blocked then q.nextIdx else q.nextIdx + 1
      blockedQuota := b
      assumed := q.assumed.erase (m.key r)
      updating := q.updating.erase (m.key r) } := by
  cases hb : q.blocked with
  | false =>
    cases allocatableChanged <;> exact ⟨q.blockedQuota, fun _ => rfl, by simp [addUnschedulableIfNotPresent, hb]⟩
  | true =>
    cases allocatableChanged with
    | true => exact ⟨q.blockedQuota, fun _ => rfl, by simp [addUnschedulableIfNotPresent, hb]⟩
    | false =>
      obtain ⟨b, h⟩ := blockQuota_eq fw { q with resetNextIdxFlag := true } (m.unit r)
      simp only [hb] at h
      exact ⟨b, by simp, by simp [addUnschedulableIfNotPresent, hb, h]⟩

/-- The marks after an `AddQueueUnitInfo` that does not turn the unit away. -/
def assumedAfterAdd (r : Ref) : Finset String :=
  if isQueueUnitReservedNotRun (m.unit r) then insert (m.key r) q.assumed else q.assumed

variable {new old : QueueUnit} {r : Ref} {s : State}

theorem addQueueUnitInfo_cases {m : Infos} {q p : PriorityQueue} (h : (addQueueUnitInfo fw m r q).1 = p) :
    (isQueueUnitDequeued (m.unit r) = true ∧ p = q) ∨
    (m.key r ∈ q.queueUnits ∧ p = { q with assumed := assumedAfterAdd m q r }) ∨
    (m.key r ∉ q.queueUnits ∧ (position m q.queue (m.get r)).2 = true ∧
      p = { q with assumed := assumedAfterAdd m q r, queueUnits := q.queueUnits.insert (m.key r) r }) ∨
    (m.key r ∉ q.queueUnits ∧ (position m q.queue (m.get r)).2 = false ∧
      ∃ b ⊆ q.blockedQuota, p = { q with
        assumed := assumedAfterAdd m q r, queueUnits := q.queueUnits.insert (m.key r) r
        resetNextIdxFlag := true, queue := q.queue.insertIdx (position m q.queue (m.get r)).1 r
        blockedQuota := b }) := by
  rw [addQueueUnitInfo] at h
  split at h
  next hd => exact Or.inl ⟨hd, h.symm⟩
  next hd =>
    right
    have hassumed : (if isQueueUnitReservedNotRun (m.unit r) then
        { q with assumed := insert (m.unit r).key q.assumed } else q) =
        { q with assumed := assumedAfterAdd m q r } := by
      rw [assumedAfterAdd, Infos.key]
      split <;> rfl
    rw [hassumed] at h
    dsimp only at h
    split at h
    next hk => exact Or.inl ⟨hk, h.symm⟩
    next hk =>
      right
      split at h
      next i hp => exact Or.inl ⟨hk, by rw [hp], h.symm⟩
      next i hp =>
        right
        rw [hp]
        obtain ⟨b, hsub, hb⟩ := releaseQuota_eq fw { q with
          assumed := assumedAfterAdd m q r, queueUnits := q.queueUnits.insert (m.key r) r
          resetNextIdxFlag := true, queue := q.queue.insertIdx i r } (m.unit r)
        exact ⟨hk, rfl, b, hsub, h.symm.trans hb⟩

theorem settle_eq (old new : QueueUnit) : settle fw old new q = { q with
    resetNextIdxFlag := q.resetNextIdxFlag || activationChanged fw old new ||
      (isQueueUnitReservedAnyResource new && isQueueUnitAllRunning new && decide (new.key ∉ q.updating))
    assumed :=
      if isQueueUnitReservedAnyResource new && !isQueueUnitAllRunning new then insert new.key q.assumed
      else if isQueueUnitReservedAnyResource new && decide (new.key ∈ q.updating) then q.assumed
      else q.assumed.erase new.key
    updating :=
      if !isQueueUnitReservedAnyResource new && !isQueueUnitSatisfied new then q.updating.erase new.key
      else q.updating } := by
  have hflag : (if activationChanged fw old new then { q with resetNextIdxFlag := true } else q) =
      { q with resetNextIdxFlag := q.resetNextIdxFlag || activationChanged fw old new } := by
    cases activationChanged fw old new <;> simp
  rw [settle, hflag, track]
  cases isQueueUnitReservedAnyResource new with
  | false => cases isQueueUnitSatisfied new <;> simp
  | true =>
    by_cases hu : new.key ∈ q.updating
    · cases isQueueUnitAllRunning new <;> simp [hu]
    · cases isQueueUnitAllRunning new <;> simp [hu]

/-- Only the unit itself is freed, and only with nothing reserved and something
still missing. -/
theorem mem_updating_settle {k : String} (hk : k ∈ q.updating)
    (hok : k = new.key → (isQueueUnitReservedAnyResource new || isQueueUnitSatisfied new) = true) :
    k ∈ (settle fw old new q).updating := by
  rw [settle_eq]
  dsimp only
  split
  next hfree =>
    refine Finset.mem_erase.mpr ⟨fun he => ?_, hk⟩
    rw [← Bool.not_or, hok he] at hfree
    cases hfree
  next => exact hk

theorem updateBody_cases {t : State} (h : updateBody fw now old new s = t) :
    (unchanged old new = true ∧ t = s) ∨
    (unchanged old new = false ∧ isQueueUnitDequeued new = true ∧ t = dropDequeued now old new s) ∨
    (unchanged old new = false ∧ isQueueUnitDequeued new = false ∧ needsReinsert fw old new s.pq = true ∧
      t = ⟨(reinsert now old new s).infos, settle fw old new (reinsert now old new s).pq⟩) ∨
    (unchanged old new = false ∧ isQueueUnitDequeued new = false ∧ needsReinsert fw old new s.pq = false ∧
      t = ⟨s.infos, settle fw old new s.pq⟩) := by
  rw [updateBody] at h
  cases hu : unchanged old new with
  | true => simp_all
  | false =>
    cases hd : isQueueUnitDequeued new with
    | true => simp_all
    | false =>
      cases hr : needsReinsert fw old new s.pq with
      | true => simp_all
      | false => simp_all

theorem mem_removeFound {queue : List Ref} {target : QueueUnitInfo}
    (h : r ∈ removeFound m queue target) : r ∈ queue := by
  rw [removeFound] at h
  split at h
  next => exact List.mem_of_mem_eraseIdx h
  next => exact h

theorem mem_sortQueue (queue : List Ref) (r : Ref) : r ∈ sortQueue m queue ↔ r ∈ queue :=
  List.mem_mergeSort

theorem releaseQuota_if_eq (c : Bool) (qu : QueueUnit) :
    ∃ b ⊆ q.blockedQuota, (if c then releaseQuota fw qu q else q) = { q with blockedQuota := b } := by
  cases c with
  | false => exact ⟨_, Finset.Subset.refl _, rfl⟩
  | true => exact releaseQuota_eq fw q qu

theorem deleteWithoutLock_eq (qu : QueueUnit) (s : State) : ∃ b ⊆ s.pq.blockedQuota, deleteWithoutLock fw now qu s =
    ⟨(filedInfo now qu s).1, { s.pq with
      queue := removeFound (filedInfo now qu s).1 s.pq.queue (filedInfo now qu s).2
      queueUnits := s.pq.queueUnits.erase qu.key
      assumed := s.pq.assumed.erase qu.key
      updating := s.pq.updating.erase qu.key
      blockedQuota := b }⟩ := by
  obtain ⟨b, hsub, h⟩ := releaseQuota_if_eq fw { s.pq with
    queue := removeFound (filedInfo now qu s).1 s.pq.queue (filedInfo now qu s).2
    queueUnits := s.pq.queueUnits.erase qu.key
    assumed := s.pq.assumed.erase qu.key
    updating := s.pq.updating.erase qu.key } s.pq.blocked qu
  exact ⟨b, hsub, by rw [deleteWithoutLock, ← h]⟩

theorem dropDequeued_eq (old new : QueueUnit) (s : State) : ∃ b ⊆ s.pq.blockedQuota, dropDequeued now old new s =
    ⟨s.infos.newQueueUnitInfo now new, { s.pq with
      resetNextIdxFlag := decide (new.key ∈ s.pq.assumed) || s.pq.resetNextIdxFlag
      queue := removeFound (s.infos.newQueueUnitInfo now new) s.pq.queue (s.infos.fresh now new)
      queueUnits := s.pq.queueUnits.erase new.key
      assumed := s.pq.assumed.erase new.key
      updating := s.pq.updating.erase new.key
      blockedQuota := b }⟩ := by
  rw [dropDequeued]
  split
  next h =>
    refine ⟨if !isQueueUnitDequeued old && s.pq.waitPodsRunning then ∅ else s.pq.blockedQuota, ?_, by simp [h]⟩
    split
    next => exact Finset.empty_subset _
    next => exact Finset.Subset.refl _
  next h => exact ⟨s.pq.blockedQuota, Finset.Subset.refl _, by simp [h]⟩

def keptVersion (cached new : QueueUnit) : QueueUnit :=
  if cached.resourceVersion ≠ new.resourceVersion then new else cached

theorem refresh_eq (old : QueueUnit) (hr : s.pq.queueUnits.lookup new.key = some r) :
    ∃ b ⊆ s.pq.blockedQuota, refresh fw old new s =
      let infos := if (s.infos.unit r).resourceVersion ≠ new.resourceVersion then s.infos.setUnit r new
        else s.infos
      let rewinds := isResourceReleased old new && decide (new.status.phase ≠ .schedFailed)
      ⟨infos, { s.pq with
        resetNextIdxFlag := rewinds || s.pq.resetNextIdxFlag
        queue := if rewinds then sortQueue infos s.pq.queue else s.pq.queue
        blockedQuota := b }⟩ := by
  simp only [refresh, hr]
  cases isResourceReleased old new with
  | false => exact ⟨s.pq.blockedQuota, Finset.Subset.refl _, by simp⟩
  | true =>
    by_cases hphase : new.status.phase = .schedFailed
    · obtain ⟨b, hsub, h⟩ := releaseQuota_if_eq fw s.pq s.pq.blocked new
      exact ⟨b, hsub, by simp [hphase, h]⟩
    · obtain ⟨b, hsub, h⟩ := releaseQuota_if_eq fw { s.pq with
        resetNextIdxFlag := true
        queue := sortQueue (if (s.infos.unit r).resourceVersion ≠ new.resourceVersion then
          s.infos.setUnit r new else s.infos) s.pq.queue } s.pq.blocked new
      refine ⟨b, hsub, ?_⟩
      simp only [hphase, ne_eq, not_false_eq_true, if_true, decide_true, Bool.and_true, Bool.true_or]
      simpa using h

theorem unit_kept {m : Infos} (hr : m.heap.Allocated r) (new : QueueUnit) (x : Ref) :
    (if (m.unit r).resourceVersion ≠ new.resourceVersion then m.setUnit r new else m).unit x =
      if x = r then keptVersion (m.unit r) new else m.unit x := by
  rw [keptVersion]
  split
  next => rw [Infos.unit_setUnit hr]
  next =>
    split
    next he => rw [he]
    next => rfl

theorem marks_refresh (old new : QueueUnit) (s : State) :
    (refresh fw old new s).pq.updating = s.pq.updating ∧ (refresh fw old new s).pq.assumed = s.pq.assumed := by
  cases hr : s.pq.queueUnits.lookup new.key with
  | none =>
    rw [refresh, hr]
    exact ⟨rfl, rfl⟩
  | some r =>
    obtain ⟨b, _, heq⟩ := refresh_eq fw old hr
    rw [heq]
    exact ⟨rfl, rfl⟩

theorem addQueueUnitInfo_eq (r : Ref) : ∃ a u l f, (q.resetNextIdxFlag = true → f = true) ∧ ∃ b ⊆ q.blockedQuota,
    (addQueueUnitInfo fw m r q).1 = { q with
      assumed := a, queueUnits := u, queue := l, resetNextIdxFlag := f, blockedQuota := b } := by
  rcases addQueueUnitInfo_cases fw (m := m) (q := q) (r := r) rfl with
    ⟨_, heq⟩ | ⟨_, heq⟩ | ⟨_, _, heq⟩ | ⟨_, _, b, hsub, heq⟩
  · exact ⟨_, _, _, _, id, _, Finset.Subset.refl _, heq⟩
  · exact ⟨_, _, _, _, id, _, Finset.Subset.refl _, heq⟩
  · exact ⟨_, _, _, _, id, _, Finset.Subset.refl _, heq⟩
  · exact ⟨_, _, _, _, fun _ => rfl, b, hsub, heq⟩

theorem updateBody_eq (old new : QueueUnit) (s : State) :
    ∃ i l u a d f, (s.pq.resetNextIdxFlag = true → f = true) ∧ ∃ b ⊆ s.pq.blockedQuota,
      updateBody fw now old new s = ⟨i, { s.pq with
        queue := l, queueUnits := u, assumed := a, updating := d, resetNextIdxFlag := f, blockedQuota := b }⟩ := by
  rcases updateBody_cases fw now rfl with ⟨_, heq⟩ | ⟨_, _, heq⟩ | ⟨_, _, _, heq⟩ | ⟨_, _, _, heq⟩
  · exact ⟨_, _, _, _, _, _, id, _, Finset.Subset.refl _, heq⟩
  · obtain ⟨b, hsub, hdrop⟩ := dropDequeued_eq now old new s
    exact ⟨_, _, _, _, _, _, fun h => by simp [h], b, hsub, heq.trans hdrop⟩
  · rw [settle_eq] at heq
    exact ⟨_, _, _, _, _, _, fun h => by simp [reinsert, h], _, Finset.Subset.refl _, heq⟩
  · rw [settle_eq] at heq
    exact ⟨_, _, _, _, _, _, fun h => by simp [h], _, Finset.Subset.refl _, heq⟩

theorem update_eq (old new : QueueUnit) (s : State) :
    ∃ i l u a d f, (s.pq.resetNextIdxFlag = true → f = true) ∧ ∃ b ⊆ s.pq.blockedQuota,
      update fw now old new s = ⟨i, { s.pq with
        queue := l, queueUnits := u, assumed := a, updating := d, resetNextIdxFlag := f, blockedQuota := b }⟩ := by
  obtain ⟨i, l, u, a, d, f, hflag, b, hsub, hbody⟩ := updateBody_eq fw now old new s
  rw [update, hbody]
  cases hr : u.lookup new.key with
  | none => exact ⟨_, _, _, _, _, _, hflag, _, hsub, by rw [refresh, hr]⟩
  | some r =>
    obtain ⟨b', hsub', heq⟩ := refresh_eq (s := ⟨i, { s.pq with
      queue := l, queueUnits := u, assumed := a, updating := d, resetNextIdxFlag := f, blockedQuota := b }⟩) fw old hr
    exact ⟨_, _, _, _, _, _, fun h => by simp [hflag h], b', hsub'.trans hsub, heq⟩

theorem fix_rule {P : State → Prop} (h : P s) (hdelete : ∀ t qu, P t → P (deleteWithoutLock fw now qu t))
    (order : List String) : P (fix fw now order s) := by
  rw [fix]
  generalize order.filterMap s.pq.queueUnits.lookup = refs
  induction refs generalizing s with
  | nil => exact h
  | cons r refs ih => exact ih (hdelete s _ h)

theorem refresh_dropDequeued (old new : QueueUnit) (s : State) :
    refresh fw old new (dropDequeued now old new s) = dropDequeued now old new s := by
  have hnone : (dropDequeued now old new s).pq.queueUnits.lookup new.key = none := by
    obtain ⟨b, _, heq⟩ := dropDequeued_eq now old new s
    rw [heq, GoMap.lookup_erase_eq, if_pos rfl]
  rw [refresh, hnone]

end KoordQueue.Queue.Frames
