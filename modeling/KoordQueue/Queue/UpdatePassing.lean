import KoordQueue.Queue.Passing

namespace KoordQueue.Queue.UpdatePassing

open Api UnitStatus Cursor Memory Less Policy Update Frames Filing Queue.Representation
open Slice SliceOps Scan Passing

def frees (old new : QueueUnit) : Bool :=
  !unchanged old new && !isQueueUnitReservedAnyResource new && !isQueueUnitSatisfied new

def WaitsAfter (fw : Handle) (handed : Finset String) (s : State) (old new qu : QueueUnit) : Prop :=
  wants fw qu = true ∧ (new.key ∈ s.pq.updating → frees old new = true) ∧ new.key ∉ handed
deriving Decidable

def landing (now : Time) (new : QueueUnit) (s : State) : Nat :=
  (s.pq.queue.filter (fun r =>
    s.infos.key r ≠ new.key ∧ less (s.infos.get r) (s.infos.fresh now new) < 0)).length

def rewindsScan (fw : Handle) (s : State) (old new : QueueUnit) : Bool :=
  (isResourceReleased old new && decide (new.status.phase ≠ .schedFailed)) ||
    (!unchanged old new && (activationChanged fw old new ||
      (isQueueUnitReservedAnyResource new && isQueueUnitAllRunning new && decide (new.key ∉ s.pq.updating))))

def UpdatesInTurn (fw : Handle) (handed : Finset String) (now : Time) (old new : QueueUnit) (s : State) : Prop :=
  if unchanged old new = false ∧ isQueueUnitDequeued new = true then
    new.key ∈ s.pq.assumed ∨ NotPassed s new.key ∨ EdgeClear fw handed s new.key
  else rewindsScan fw s old new = true ∨
    if unchanged old new = false ∧ needsReinsert fw old new s.pq = true then
      if landing now new s < s.pq.nextIdx then ¬ WaitsAfter fw handed s old new new
      else NotPassed s new.key ∨ EdgeClear fw handed s new.key
    else ∀ r ∈ s.pq.queue.take s.pq.nextIdx, s.infos.key r = new.key →
      ¬ WaitsAfter fw handed s old new (keptVersion (s.infos.unit r) new)
deriving Decidable

variable {obj : Objects} {fw : Handle} {handed : Finset String} {s : State} {old new : QueueUnit}

variable {q : PriorityQueue} {x : Ref}

theorem flag_refresh (hl : s.pq.queueUnits.lookup new.key = some x) (h : s.pq.resetNextIdxFlag = true ∨
      (isResourceReleased old new && decide (new.status.phase ≠ .schedFailed)) = true) :
    (refresh fw old new s).pq.resetNextIdxFlag = true := by
  obtain ⟨b, _, heq⟩ := refresh_eq fw old hl
  rw [heq]
  dsimp only
  rcases h with h | h
  · rw [h, Bool.or_true]
  · rw [h, Bool.true_or]

/-- The deferred part of an update: the other units are as they were, and the
updated one gets its version. -/
theorem scanned_refresh (hrep : Listed obj s) (hl : s.pq.queueUnits.lookup new.key = some x)
    (hothers : Swept (fun r => Waiting fw handed s r ∧ s.infos.key r ≠ new.key) s.pq.queue s.pq.nextIdx)
    (hown : ∀ r ∈ s.pq.queue.take s.pq.nextIdx, s.infos.key r = new.key → new.key ∉ s.pq.updating →
      wants fw (keptVersion (s.infos.unit r) new) = true → new.key ∈ handed) :
    Scanned fw handed (refresh fw old new s) := by
  cases hreleased : isResourceReleased old new && decide (new.status.phase ≠ .schedFailed) with
  | true => exact Or.inl (flag_refresh hl (Or.inr hreleased))
  | false =>
    obtain ⟨b, _, heq⟩ := refresh_eq fw old hl
    rw [heq]
    dsimp only
    rw [hreleased]
    right
    have halloc := hrep.filed.allocated hl
    have hkey := hrep.filed.own hl
    have hunit := unit_kept halloc new
    intro r hr hw
    change r ∈ s.pq.queue.take s.pq.nextIdx at hr
    by_cases hrx : r = x
    · subst hrx
      obtain ⟨⟨hnot, hwants⟩, hhanded⟩ := hw
      dsimp only at hnot hwants hhanded
      have hkept : (keptVersion (s.infos.unit r) new).key = new.key := by
        rw [keptVersion]
        split
        next => rfl
        next => exact hkey
      rw [Infos.key, hunit, if_pos rfl, hkept] at hnot hhanded
      rw [hunit, if_pos rfl] at hwants
      exact hhanded (hown r hr hkey hnot hwants)
    · apply hothers r hr
      refine ⟨waiting_of_same ((hunit r).trans (if_neg hrx)) id hw, fun he => hrx ?_⟩
      apply hrep.eq_of_key (List.mem_of_mem_take hr)
      · exact hrep.listed.mpr (hkey.symm ▸ hl)
      · exact he.trans hkey.symm

theorem frees_of_settle (hu : unchanged old new = false)
    (hnot : new.key ∉ (settle fw old new q).updating) (hin : new.key ∈ q.updating) : frees old new = true := by
  rw [settle_eq] at hnot
  dsimp only at hnot
  split at hnot
  next hfree => rw [frees, hu, Bool.not_false, Bool.true_and, hfree]
  next => exact absurd hin hnot

theorem flag_settle (h : q.resetNextIdxFlag = true ∨ (activationChanged fw old new ||
    (isQueueUnitReservedAnyResource new && isQueueUnitAllRunning new && decide (new.key ∉ q.updating))) = true) :
    (settle fw old new q).resetNextIdxFlag = true := by
  rw [settle_eq]
  dsimp only
  rcases h with h | h
  · simp [h]
  · rw [Bool.or_assoc, h, Bool.or_true]

/-- An update of a filed unit that is not skipped: the marks and the flag, then
the deferred part. -/
theorem scanned_settle (hrep : Represented obj s) (hu : unchanged old new = false)
    (hl : s.pq.queueUnits.lookup new.key = some x) (h : s.pq.resetNextIdxFlag = true ∨ rewindsScan fw s old new = true ∨
      Swept (fun r => Waiting fw handed s r ∧ s.infos.key r ≠ new.key) s.pq.queue s.pq.nextIdx ∧
        ∀ r ∈ s.pq.queue.take s.pq.nextIdx, s.infos.key r = new.key →
          ¬ WaitsAfter fw handed s old new (keptVersion (s.infos.unit r) new)) :
    Scanned fw handed (refresh fw old new ⟨s.infos, settle fw old new s.pq⟩) := by
  have hlook : (settle fw old new s.pq).queueUnits.lookup new.key = some x := by
    rw [settle_eq]
    exact hl
  have hflag : (settle fw old new s.pq).resetNextIdxFlag = true →
      Scanned fw handed (refresh fw old new ⟨s.infos, settle fw old new s.pq⟩) :=
    fun hf => Or.inl (flag_refresh hlook (Or.inl hf))
  rcases h with h | h | ⟨hothers, hown⟩
  · exact hflag (flag_settle (Or.inl h))
  · rw [rewindsScan, hu, Bool.not_false, Bool.true_and, Bool.or_eq_true] at h
    rcases h with h | h
    · exact Or.inl (flag_refresh hlook (Or.inr h))
    · exact hflag (flag_settle (Or.inr h))
  · have hpq : (settle fw old new s.pq).queue = s.pq.queue ∧ (settle fw old new s.pq).nextIdx = s.pq.nextIdx := by
      rw [settle_eq]
      exact ⟨rfl, rfl⟩
    have hsettled : Represented obj ⟨s.infos, settle fw old new s.pq⟩ := by
      rw [settle_eq]
      exact hrep.same rfl rfl
    apply scanned_refresh hsettled.toListed hlook
    · rw [hpq.1, hpq.2]
      apply hothers.imp
      rintro r _ ⟨hw, hne⟩
      exact ⟨waiting_of_same rfl (fun hin => mem_updating_settle fw s.pq hin (fun he => absurd he hne)) hw, hne⟩
    · rw [hpq.1, hpq.2]
      intro r hr hkey hnot hwants
      by_contra hhanded
      exact hown r hr hkey ⟨hwants, fun hin => frees_of_settle hu hnot hin, hhanded⟩

theorem scanned_dropDequeued (hrep : Represented obj s) (h : Scanned fw handed s) (now : Time)
    (hnew : obj.Has new) (hmatch : ∀ r, s.pq.queueUnits.lookup new.key = some r → Matches s r new)
    (hok : new.key ∈ s.pq.assumed ∨ NotPassed s new.key ∨ EdgeClear fw handed s new.key) :
    Scanned fw handed (dropDequeued now old new s) := by
  obtain ⟨b, _, heq⟩ := dropDequeued_eq now old new s
  have hext := extends_newQueueUnitInfo s.infos now new
  rw [heq]
  rcases hok with hin | hok
  · exact Or.inl (by simp [hin])
  · refine scanned_drop hrep.toListed h ?_ ?_ rfl ?_ ?_ hok
    · exact fun r hr => hext.unit (hrep.filed.slice r hr)
    · dsimp only
      rw [removeFound_fresh now hrep hext (built_newQueueUnitInfo hrep.built hnew now) hnew hmatch]
      apply List.filter_congr
      intro r hr
      rw [Infos.key, hext.unit (hrep.filed.slice r hr), Infos.key]
    · intro hflag
      simp [hflag]
    · exact fun k hk hne => Finset.mem_erase.mpr ⟨hne, hk⟩

end KoordQueue.Queue.UpdatePassing
