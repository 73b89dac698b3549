import KoordQueue.Multi.Contents

namespace KoordQueue.Multi.Calls

open Api UnitStatus KoordQueue.Queue Memory Policy Update Frames Filing Object Contents

section Implementations

variable (fw : Handle) (now : Time) {m : Infos} (impl : Impl)

def added (m : Infos) (r : Ref) (units : GoMap String Ref) : GoMap String Ref :=
  if isQueueUnitDequeued (m.unit r) = true ∨ m.key r ∈ units then units else units.insert (m.key r) r

theorem units_add (m : Infos) (r : Ref) : (impl.addQueueUnitInfo fw m r).1.units = added m r impl.units := by
  cases impl with
  | intelligent iq =>
    obtain ⟨_, _, _, _, he⟩ := IntelligentFrames.addQueueUnitInfo_eq m r iq
    exact congrArg Intelligent.IntelligentQueue.queueUnits he
  | priority pq =>
    change (Policy.addQueueUnitInfo fw m r pq).1.queueUnits = added m r pq.queueUnits
    rw [added]
    by_cases hd : isQueueUnitDequeued (m.unit r) = true
    · rw [if_pos (Or.inl hd), Policy.addQueueUnitInfo, if_pos hd]
    · rcases addQueueUnitInfo_cases fw rfl with ⟨hd', _⟩ | ⟨hk, heq⟩ | ⟨hk, _, heq⟩ | ⟨hk, _, b, _, heq⟩
      · exact absurd hd' hd
      · rw [heq, if_pos (Or.inr hk)]
      · rw [heq, if_neg (not_or.mpr ⟨hd, hk⟩)]
      · rw [heq, if_neg (not_or.mpr ⟨hd, hk⟩)]

theorem add_ok {r : Ref} (hk : m.key r ∉ impl.units) : ∃ b, (impl.addQueueUnitInfo fw m r).2 = .ok b := by
  cases impl with
  | priority pq =>
    change ∃ b, (Policy.addQueueUnitInfo fw m r pq).2 = .ok b
    have hk' : (m.unit r).key ∉ (if isQueueUnitReservedNotRun (m.unit r) then
        { pq with assumed := insert (m.unit r).key pq.assumed } else pq).queueUnits := by
      split <;> exact hk
    rw [Policy.addQueueUnitInfo]
    split
    next => exact ⟨false, rfl⟩
    next =>
      dsimp only
      rw [if_neg hk']
      split <;> exact ⟨true, rfl⟩
  | intelligent iq =>
    change ∃ b, (Intelligent.addQueueUnitInfo m r iq).2 = .ok b
    have hk' : (m.unit r).key ∉ (if isQueueUnitReservedNotRun (m.unit r) then
        { iq with assumed := insert (m.unit r).key iq.assumed } else iq).queueUnits := by
      split <;> exact hk
    rw [Intelligent.addQueueUnitInfo]
    split
    next => exact ⟨false, rfl⟩
    next =>
      dsimp only
      rw [if_neg hk']
      exact ⟨true, rfl⟩

theorem delete_spec (qu : QueueUnit) : Extends m (impl.delete fw now qu m).1 ∧
    (impl.delete fw now qu m).2.units = impl.units.erase qu.key := by
  cases impl with
  | intelligent iq => exact deleteIntelligent fw now qu ⟨m, iq⟩
  | priority pq =>
    obtain ⟨b, _, heq⟩ := deleteWithoutLock_eq fw now qu ⟨m, { pq with resetNextIdxFlag := true }⟩
    change Extends m (Update.delete fw now qu ⟨m, pq⟩).infos ∧
      (Update.delete fw now qu ⟨m, pq⟩).pq.queueUnits = pq.queueUnits.erase qu.key
    rw [Update.delete, heq]
    exact ⟨extends_filedInfo now qu ⟨m, { pq with resetNextIdxFlag := true }⟩, rfl⟩

theorem update_spec (old new : QueueUnit) (h : Filed m impl.units) :
    Updated (impl.unchanged fw old new) new m (impl.update fw now old new m).1 impl.units
      (impl.update fw now old new m).2.units := by
  cases impl with
  | priority pq => exact updated_priority fw now old new ⟨m, pq⟩ h
  | intelligent iq => exact updated_intelligent fw now old new ⟨m, iq⟩ h

theorem fixPriority_fold (refs : List Ref) (s : Update.State) (halloc : ∀ r ∈ refs, s.infos.heap.Allocated r) :
    Extends s.infos (refs.foldl (fun t r => deleteWithoutLock fw now (t.infos.unit r) t) s).infos ∧
      ∀ key, (refs.foldl (fun t r => deleteWithoutLock fw now (t.infos.unit r) t) s).pq.queueUnits.lookup key =
        if key ∈ refs.map s.infos.key then none else s.pq.queueUnits.lookup key := by
  induction refs generalizing s with
  | nil => exact ⟨Extends.refl _, fun _ => rfl⟩
  | cons r refs ih =>
    obtain ⟨b, _, heq⟩ := deleteWithoutLock_eq fw now (s.infos.unit r) s
    have hext : Extends s.infos (deleteWithoutLock fw now (s.infos.unit r) s).infos := by
      rw [heq]
      exact extends_filedInfo now _ s
    obtain ⟨hext', hunits⟩ := ih (deleteWithoutLock fw now (s.infos.unit r) s)
      (fun x hx => (hext x (halloc x (List.mem_cons_of_mem r hx))).1)
    have hkeys : refs.map (deleteWithoutLock fw now (s.infos.unit r) s).infos.key = refs.map s.infos.key := by
      apply List.map_congr_left
      intro x hx
      exact congrArg QueueUnit.key (hext.unit (halloc x (List.mem_cons_of_mem r hx)))
    refine ⟨hext.trans hext', fun key => ?_⟩
    rw [List.foldl_cons, hunits, hkeys, heq, List.map_cons]
    dsimp only
    rw [GoMap.lookup_erase_eq, ← Infos.key.eq_def]
    by_cases hr : key = s.infos.key r <;> simp [hr]

theorem fix_spec {order : List String} (h : Filed m impl.units) : Extends m (impl.fix fw now order m).1 ∧
    ∀ key, (impl.fix fw now order m).2.units.lookup key = if key ∈ order then none else impl.units.lookup key := by
  cases impl with
  | intelligent iq => exact ⟨Extends.refl m, fixIntelligent m h⟩
  | priority pq =>
    obtain ⟨hext, hunits⟩ := fixPriority_fold fw now (order.filterMap pq.queueUnits.lookup) ⟨m, pq⟩
      (GoMap.forall_mem_lookups (fun _ _ => h.allocated) order)
    exact ⟨hext, fun key => (hunits key).trans (h.lookup_without order key)⟩

theorem units_updateQueueCr (m : Infos) (cr : QueueCr) (order : List String) :
    (impl.updateQueueCr m cr order).units = impl.units := by
  cases impl with
  | priority pq => rfl
  | intelligent iq =>
    obtain ⟨_, _, _, he⟩ := IntelligentFrames.updateQueueCr_eq m iq (Impl.thresholdOf cr)
      (cr.annotation "kube-queue/wait-for-pods-running" = "true") order
    rw [Impl.updateQueueCr, he]
    rfl

theorem units_changePolicy (policy : String) : (impl.changePolicy policy).units = impl.units := by
  cases impl <;> rfl

end Implementations

section Objects

variable {fw : Handle} {now : Time} {m m' : Infos} {q q' : Queue} {r : Ref}

def Awaiting (m : Infos) (q : Queue) (waiting : Infos × Queue) : Prop :=
  Extends m waiting.1 ∧ waiting.2.queueImpl = q.queueImpl ∧ waiting.2.name = q.name

theorem awaiting_refl (m : Infos) (q : Queue) : Awaiting m q (m, q) := ⟨Extends.refl m, rfl, rfl⟩

theorem awaiting_await (m : Infos) (qu : QueueUnit) (q : Queue) : Awaiting m q (q.await now m qu) := by
  rw [Queue.await]
  split
  next => exact awaiting_refl m q
  next => exact ⟨extends_newQueueUnitInfo m now qu, rfl, rfl⟩

theorem awaiting_add (m : Infos) (qu : QueueUnit) (q : Queue) :
    Awaiting m q (if (!isQueueUnitPodsScheduleFinished qu) = true then q.await now m qu else (m, q)) := by
  split
  next => exact awaiting_await m qu q
  next => exact awaiting_refl m q

theorem awaiting_update (m : Infos) (new : QueueUnit) (q : Queue) :
    Awaiting m q (if (!isQueueUnitPodsScheduleFinished new) = true then
      Queue.await now m new { q with assumed := q.assumed.erase new.uid }
      else if new.uid ∉ q.assumed then (m, { q with waitingForScheduling := q.waitingForScheduling.erase new.uid })
      else (m, q)) := by
  split
  next => exact awaiting_await m new { q with assumed := q.assumed.erase new.uid }
  next =>
    split
    next => exact ⟨Extends.refl m, rfl, rfl⟩
    next => exact awaiting_refl m q

theorem added_congr (hm : Extends m m') (hr : m.heap.Allocated r) (units : GoMap String Ref) :
    added m' r units = added m r units := by
  rw [added, added, Infos.key, Infos.key, hm.unit hr]

theorem units_of_impl {impl : Impl} (h : q.queueImpl = some impl) : q.units = impl.units := by
  rw [Queue.units, h]
  rfl

variable {result : Except String Bool} {new old : QueueUnit}

theorem queue_add_impl (h : q.addQueueUnitInfo fw now m r = some (m', q', result)) :
    ∃ impl, q.queueImpl = some impl ∧ Extends m m' ∧ q'.name = q.name ∧
      q'.queueImpl = some (impl.addQueueUnitInfo fw m' r).1 ∧ result = (impl.addQueueUnitInfo fw m' r).2 := by
  rw [Queue.addQueueUnitInfo] at h
  have hw := @awaiting_add now m (m.unit r) q
  revert h hw
  generalize (if (!isQueueUnitPodsScheduleFinished (m.unit r)) = true then q.await now m (m.unit r)
    else (m, q)) = waiting
  rintro h ⟨hext, himpl, hname⟩
  obtain ⟨impl, hi, heq⟩ := Option.map_eq_some_iff.mp h
  cases heq
  rw [himpl] at hi
  exact ⟨impl, hi, hext, hname, rfl, rfl⟩

theorem queue_add (hr : m.heap.Allocated r) (h : q.addQueueUnitInfo fw now m r = some (m', q', result)) :
    Extends m m' ∧ q'.units = added m r q.units ∧ q'.name = q.name ∧
      (m.key r ∉ q.units → ∃ b, result = .ok b) := by
  obtain ⟨impl, hi, hext, hname, hi', rfl⟩ := queue_add_impl h
  refine ⟨hext, ?_, hname, ?_⟩
  · rw [units_of_impl hi', units_add, added_congr hext hr, units_of_impl hi]
  · intro hk
    rw [units_of_impl hi] at hk
    exact add_ok fw impl (by rwa [Infos.key, hext.unit hr])

theorem queue_delete {qu : QueueUnit} (h : q.delete fw now m qu = some (m', q')) :
    Extends m m' ∧ q'.units = q.units.erase qu.key ∧ q'.name = q.name := by
  obtain ⟨impl, hi, heq⟩ := Option.map_eq_some_iff.mp h
  cases heq
  obtain ⟨hext, hunits⟩ := @delete_spec fw now m impl qu
  have hi' : q.queueImpl = some impl := hi
  exact ⟨hext, hunits.trans (by rw [units_of_impl hi']), rfl⟩

def skips (fw : Handle) (old new : QueueUnit) (q : Queue) : Bool := q.queueImpl.any (Impl.unchanged fw old new)

theorem queue_update_impl (h : q.update fw now m old new = some (m', q')) :
    ∃ impl m₁, q.queueImpl = some impl ∧ Extends m m₁ ∧ q'.name = q.name ∧
      m' = (impl.update fw now old new m₁).1 ∧ q'.queueImpl = some (impl.update fw now old new m₁).2 := by
  rw [Queue.update] at h
  have hw := @awaiting_update now m new q
  revert h hw
  generalize (if (!isQueueUnitPodsScheduleFinished new) = true then
      Queue.await now m new { q with assumed := q.assumed.erase new.uid }
      else if new.uid ∉ q.assumed then (m, { q with waitingForScheduling := q.waitingForScheduling.erase new.uid })
      else (m, q)) = waiting
  rintro h ⟨hext, himpl, hname⟩
  obtain ⟨impl, hi, heq⟩ := Option.map_eq_some_iff.mp h
  cases heq
  rw [himpl] at hi
  exact ⟨impl, waiting.1, hi, hext, hname, rfl, rfl⟩

theorem queue_update (hf : Filed m q.units) (h : q.update fw now m old new = some (m', q')) :
    ∃ m₁, Extends m m₁ ∧ Updated (skips fw old new q) new m₁ m' q.units q'.units ∧ q'.name = q.name := by
  obtain ⟨impl, m₁, hi, hext, hname, rfl, hi'⟩ := queue_update_impl h
  have hskip : skips fw old new q = impl.unchanged fw old new := by
    rw [skips, hi]
    rfl
  rw [units_of_impl hi] at hf ⊢
  rw [hskip, units_of_impl hi']
  exact ⟨m₁, hext, update_spec fw now impl old new (hf.mono hext (fun _ _ hk => hk)), hname⟩

theorem queue_fix {order : List String} (hf : Filed m q.units) : Extends m (q.fix fw now m order).1 ∧
    (∀ key, (q.fix fw now m order).2.units.lookup key = if key ∈ order then none else q.units.lookup key) ∧
      (q.fix fw now m order).2.name = q.name := by
  rw [Queue.fix]
  cases hi : q.queueImpl with
  | none =>
    have hunits : q.units = ∅ := by
      rw [Queue.units, hi]
      rfl
    exact ⟨Extends.refl m, fun key => by simp [hunits], rfl⟩
  | some impl =>
    rw [units_of_impl hi] at hf ⊢
    obtain ⟨hext, hunits⟩ := @fix_spec fw now m impl order hf
    exact ⟨hext, hunits, rfl⟩

end Objects

section Policies

variable {m : Infos} {units units' : GoMap String Ref}

def Within (units' units : GoMap String Ref) : Prop := ∀ key r, units'.lookup key = some r → units.lookup key = some r

variable {impl : Impl} {items : List Ref} {fw : MultiHandle} {q : Queue} {cr : QueueCr} {r : Ref} {now : Time}

theorem Within.insert (h : Within units' units) {key : String} (hr : units.lookup key = some r) :
    Within (units'.insert key r) units := GoMap.forall_insert h hr

theorem Within.added (h : Within units' units) (hr : units.lookup (m.key r) = some r) :
    Within (added m r units') units := by
  rw [Calls.added]
  split
  next => exact h
  next => exact h.insert hr

theorem within_foldl_add (fw : Handle) (hitems : ∀ r ∈ items, units.lookup (m.key r) = some r)
    (h : Within impl.units units) :
    Within (items.foldl (fun impl r => (impl.addQueueUnitInfo fw m r).1) impl).units units ∧
      (∀ key ∈ impl.units, key ∈ (items.foldl (fun impl r => (impl.addQueueUnitInfo fw m r).1) impl).units) ∧
      ∀ r ∈ items, isQueueUnitDequeued (m.unit r) = false →
        m.key r ∈ (items.foldl (fun impl r => (impl.addQueueUnitInfo fw m r).1) impl).units := by
  induction items generalizing impl with
  | nil => exact ⟨h, fun _ hk => hk, fun r hr => absurd hr List.not_mem_nil⟩
  | cons r items ih =>
    have hunits := units_add fw impl m r
    have hstep : Within (impl.addQueueUnitInfo fw m r).1.units units := by
      rw [hunits]
      exact h.added (hitems r List.mem_cons_self)
    obtain ⟨hwithin, hkeep, hadd⟩ := ih (fun x hx => hitems x (List.mem_cons_of_mem r hx)) hstep
    refine ⟨hwithin, fun key hk => hkeep key ?_, ?_⟩
    · rw [hunits, Calls.added]
      split
      next => exact hk
      next => exact Finmap.mem_insert.mpr (Or.inr hk)
    · intro x hx hd
      rcases List.mem_cons.mp hx with rfl | hx
      · apply hkeep
        rw [hunits, Calls.added]
        split
        next hc => exact hc.resolve_left (by simp [hd])
        next => exact Finmap.mem_insert.mpr (Or.inl rfl)
      · exact hadd x hx hd

theorem within_create (hitems : ∀ r ∈ items, units.lookup (m.key r) = some r)
    (h : createSchedulingQueue fw m now cr items = some impl) : Within impl.units units := by
  rw [createSchedulingQueue] at h
  split at h
  next =>
    cases h
    intro key r hr
    simp [Impl.units, newPriorityQueue] at hr
  next =>
    split at h
    next =>
      cases h
      have hfold : ∀ (items : List Ref) (q : Intelligent.IntelligentQueue),
          (∀ r ∈ items, units.lookup (m.key r) = some r) → Within q.queueUnits units →
          Within (items.foldl (fun q r => (Intelligent.distributeToQueue m r
            { q with queueUnits := q.queueUnits.insert (m.key r) r }).1) q).queueUnits units := by
        intro items
        induction items with
        | nil => exact fun _ _ h => h
        | cons r items ih =>
          intro q hitems h
          apply ih _ (fun x hx => hitems x (List.mem_cons_of_mem r hx))
          obtain ⟨_, _, he⟩ := IntelligentFrames.distributeToQueue_eq m
            { q with queueUnits := q.queueUnits.insert (m.key r) r } r
          dsimp only
          rw [he]
          exact h.insert (hitems r List.mem_cons_self)
      apply hfold _ _ hitems
      intro key r hr
      simp at hr
    next => cases h

theorem queue_sync {redistributed listed : List String} {q' : Queue}
    (hf : Filed m q.units) (hlisted : ∀ key ∈ q.units, key ∈ listed)
    (h : q.sync now m fw cr redistributed listed = some q') :
    Within q'.units q.units ∧ (∀ key r, q.units.lookup key = some r → isQueueUnitDequeued (m.unit r) = false →
      key ∈ q'.units) ∧ q'.name = q.name := by
  obtain ⟨impl, hi, h⟩ := Option.bind_eq_some_iff.mp h
  have hunits : q.units = (impl.updateQueueCr m cr redistributed).units := by
    rw [units_of_impl hi, units_updateQueueCr]
  rw [hunits] at hf hlisted ⊢
  generalize impl.updateQueueCr m cr redistributed = impl at h hf hlisted
  dsimp only at h
  split at h
  next =>
    cases h
    have hsame : Queue.units { q with queueImpl := some (impl.changePolicy cr.queuePolicy) } = impl.units :=
      units_changePolicy impl cr.queuePolicy
    rw [hsame]
    exact ⟨fun _ _ hk => hk, fun key r hr _ => Finmap.mem_iff.mpr ⟨r, hr⟩, rfl⟩
  next =>
    have hitems : ∀ r ∈ listed.filterMap impl.units.lookup, impl.units.lookup (m.key r) = some r := by
      intro r hr
      obtain ⟨key, _, hk⟩ := List.mem_filterMap.mp hr
      rw [hf.own hk]
      exact hk
    split at h
    next created hcreated =>
      cases h
      obtain ⟨hwithin, _, hadd⟩ := within_foldl_add fw.toHandle hitems (within_create hitems hcreated)
      refine ⟨hwithin, ?_, rfl⟩
      intro key r hr hd
      have hmem := hadd r (List.mem_filterMap.mpr ⟨key, hlisted key (Finmap.mem_iff.mpr ⟨r, hr⟩), hr⟩) hd
      rw [hf.own hr] at hmem
      exact hmem
    next =>
      split at h
      next hnone =>
        cases h
        refine ⟨fun key r hr => absurd hr (by simp [Queue.units]), ?_, rfl⟩
        intro key r hr _
        have hmem : r ∈ listed.filterMap impl.units.lookup :=
          List.mem_filterMap.mpr ⟨key, hlisted key (Finmap.mem_iff.mpr ⟨r, hr⟩), hr⟩
        rw [hnone] at hmem
        cases hmem
      next => cases h

theorem newQueue_spec (h : newQueue fw m now cr = some q) : q.units = ∅ ∧ q.name = cr.name := by
  obtain ⟨impl, hi, rfl⟩ := Option.map_eq_some_iff.mp h
  refine ⟨?_, rfl⟩
  have hwithin : Within impl.units ∅ := within_create (fun r hr => absurd hr List.not_mem_nil) hi
  apply Finmap.ext_lookup
  intro key
  cases hk : Finmap.lookup key (Queue.units { name := cr.name, queueImpl := some impl }) with
  | none => rw [Finmap.lookup_empty]
  | some r => exact absurd (hwithin key r hk) (by simp)

end Policies

end KoordQueue.Multi.Calls
