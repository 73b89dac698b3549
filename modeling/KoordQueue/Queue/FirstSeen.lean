import KoordQueue.Lib.Run
import KoordQueue.Queue.Memory

namespace KoordQueue.Queue.FirstSeen

open Api UnitInfo Memory

/-- The infos next to the indexer, which files the units under namespace and
name, and every info that was returned so far. -/
structure World where
  infos : Infos := {}
  indexer : GoMap String QueueUnit := ∅
  returned : List QueueUnitInfo := []
deriving DecidableEq

inductive Action
  | newInfo (now : Time) (qu : QueueUnit)
  | sweep
  | store (qu : QueueUnit)
  | remove (key : String)

def forgetQueueUnitInfo (indexer : GoMap String QueueUnit) (m : Infos) : Infos :=
  m.forgetQueueUnitInfo (fun uid => decide (uid ∈ indexer))

def step (w : World) : Action → Option World
  | .newInfo now qu => some { w with
      infos := w.infos.newQueueUnitInfo now qu
      returned := w.returned ++ [w.infos.fresh now qu] }
  | .sweep => some { w with infos := forgetQueueUnitInfo w.indexer w.infos }
  | .store qu => some { w with indexer := w.indexer.insert qu.key qu }
  | .remove key => some { w with indexer := w.indexer.erase key }

def Listed (w : World) (uid : UID) : Prop := ∃ key qu, w.indexer.lookup key = some qu ∧ qu.uid = uid

/-- A sweep leaves the UID on record. -/
def Spared (uid : UID) (w : World) : Action → Prop
  | .sweep => uid ∈ w.infos.cache → uid ∈ w.indexer
  | .newInfo .. | .store .. | .remove .. => True

instance decidableSpared (uid : UID) (w : World) (a : Action) : Decidable (Spared uid w a) := by
  delta Spared
  split <;> infer_instance

/-- Calls for the UID are given units of that age. -/
def Aged (uid : UID) (created : Time) : Action → Prop
  | .newInfo _ qu => qu.uid = uid → qu.creationTimestamp = created
  | .sweep | .store .. | .remove .. => True

theorem lookup_forget (indexer : GoMap String QueueUnit) (m : Infos) (uid : UID) :
    (forgetQueueUnitInfo indexer m).cache.lookup uid = if uid ∈ indexer then m.cache.lookup uid else none := by
  simp only [forgetQueueUnitInfo, Infos.forgetQueueUnitInfo, GoMap.lookup_range]
  cases m.cache.lookup uid with
  | none => simp
  | some r => simp

theorem mem_forget (indexer : GoMap String QueueUnit) (m : Infos) (uid : UID) :
    uid ∈ (forgetQueueUnitInfo indexer m).cache ↔ uid ∈ m.cache ∧ uid ∈ indexer := by
  rw [Finmap.mem_iff, lookup_forget]
  by_cases h : uid ∈ indexer
  · rw [if_pos h, and_iff_left h, Finmap.mem_iff]
  · simp [h]

def SameTimes (a b : QueueUnitInfo) : Prop :=
  a.timestamp = b.timestamp ∧ a.initialAttemptTimestamp = b.initialAttemptTimestamp

structure Seen (uid : UID) (w : World) : Prop where
  none : w.infos.cache.lookup uid = none → ∀ info ∈ w.returned, info.unit.uid ≠ uid
  some : ∀ r, w.infos.cache.lookup uid = some r → w.infos.heap.Allocated r ∧
    ∀ info ∈ w.returned, info.unit.uid = uid → SameTimes (w.infos.get r) info

structure OfAge (uid : UID) (created : Time) (w : World) : Prop where
  cached : ∀ r, w.infos.cache.lookup uid = some r →
    w.infos.heap.Allocated r ∧ (w.infos.get r).initialAttemptTimestamp = created
  returned : ∀ info ∈ w.returned, info.unit.uid = uid → info.initialAttemptTimestamp = created

section

variable {m : Infos} {uid : UID} {now : Time} {qu : QueueUnit} {r : Ref}

theorem lookup_newInfo (h : (m.newQueueUnitInfo now qu).cache.lookup uid = some r) :
    m.cache.lookup uid = some r ∨ m.cache.lookup uid = none ∧ qu.uid = uid ∧ r = m.heap.next := by
  rw [Infos.newQueueUnitInfo] at h
  dsimp only at h
  split at h
  next => exact .inl h
  next hnew =>
    rw [GoMap.lookup_insert_eq] at h
    split at h
    next he =>
      cases h
      exact .inr ⟨he ▸ Finmap.lookup_eq_none.mpr hnew, he.symm, rfl⟩
    next => exact .inl h

theorem lookup_newInfo_none (h : (m.newQueueUnitInfo now qu).cache.lookup uid = none) :
    m.cache.lookup uid = none ∧ qu.uid ≠ uid := by
  rw [Infos.newQueueUnitInfo] at h
  dsimp only at h
  split at h
  next hold =>
    refine ⟨h, ?_⟩
    rintro rfl
    exact Finmap.lookup_eq_none.mp h hold
  next =>
    rw [GoMap.lookup_insert_eq] at h
    split at h
    next => cases h
    next hne => exact ⟨h, Ne.symm hne⟩

theorem allocated_newInfo (hr : m.heap.Allocated r) : (m.newQueueUnitInfo now qu).heap.Allocated r :=
  (Heap.allocated_alloc m.heap _ r).mpr (.inl hr)

theorem times_fresh (h : m.cache.lookup qu.uid = some r) : SameTimes (m.get r) (m.fresh now qu) := by
  rw [Infos.fresh, h]
  exact ⟨rfl, rfl⟩

theorem age_fresh_of_new (h : m.cache.lookup qu.uid = none) :
    (m.fresh now qu).initialAttemptTimestamp = qu.creationTimestamp := by
  rw [Infos.fresh, h]
  rfl

end

section

variable {uid : UID} {created : Time} {w t : World}

theorem seen_newInfo (h : Seen uid w) (now : Time) (qu : QueueUnit) :
    Seen uid { w with
      infos := w.infos.newQueueUnitInfo now qu, returned := w.returned ++ [w.infos.fresh now qu] } where
  none hnone info hinfo := by
    obtain ⟨hold, hne⟩ := lookup_newInfo_none hnone
    rcases List.mem_append.mp hinfo with hinfo | hinfo
    · exact h.none hold info hinfo
    · rw [List.mem_singleton.mp hinfo, Infos.fresh_unit]
      exact hne
  some r hr := by
    rcases lookup_newInfo hr with hold | ⟨hnone, huid, rfl⟩
    · obtain ⟨halloc, hsame⟩ := h.some r hold
      refine ⟨allocated_newInfo halloc, ?_⟩
      intro info hinfo hu
      rw [Infos.get_newQueueUnitInfo halloc]
      rcases List.mem_append.mp hinfo with hinfo | hinfo
      · exact hsame info hinfo hu
      · rw [List.mem_singleton.mp hinfo] at hu ⊢
        rw [Infos.fresh_unit] at hu
        exact times_fresh (hu ▸ hold)
    · refine ⟨(Heap.allocated_alloc _ _ _).mpr (.inr rfl), ?_⟩
      intro info hinfo hu
      rw [Infos.get_newQueueUnitInfo_next]
      rcases List.mem_append.mp hinfo with hinfo | hinfo
      · exact absurd hu (h.none hnone info hinfo)
      · rw [List.mem_singleton.mp hinfo]
        exact ⟨rfl, rfl⟩

theorem seen_step (w : World) (a : Action) (t : World) (h : Seen uid w) (hok : Spared uid w a)
    (hstep : step w a = some t) : Seen uid t := by
  cases a with
  | newInfo now qu =>
    cases hstep
    exact seen_newInfo h now qu
  | store qu =>
    cases hstep
    exact ⟨h.none, h.some⟩
  | remove key =>
    cases hstep
    exact ⟨h.none, h.some⟩
  | sweep =>
    cases hstep
    constructor
    · intro hnone
      rw [lookup_forget] at hnone
      split at hnone
      next => exact h.none hnone
      next hout => exact h.none (Finmap.lookup_eq_none.mpr (fun hin => hout (hok hin)))
    · intro r hr
      rw [lookup_forget] at hr
      split at hr
      next => exact h.some r hr
      next => cases hr

theorem ofAge_step (w : World) (a : Action) (t : World) (h : OfAge uid created w) (hok : Aged uid created a)
    (hstep : step w a = some t) : OfAge uid created t := by
  cases a with
  | store qu =>
    cases hstep
    exact ⟨h.cached, h.returned⟩
  | remove key =>
    cases hstep
    exact ⟨h.cached, h.returned⟩
  | sweep =>
    cases hstep
    refine ⟨?_, h.returned⟩
    intro r hr
    rw [lookup_forget] at hr
    split at hr
    next => exact h.cached r hr
    next => cases hr
  | newInfo now qu =>
    cases hstep
    have hfresh : qu.uid = uid → (w.infos.fresh now qu).initialAttemptTimestamp = created := by
      intro hu
      cases hl : w.infos.cache.lookup qu.uid with
      | none => exact (age_fresh_of_new hl).trans (hok hu)
      | some r => exact (times_fresh hl).2.symm.trans (h.cached r (hu ▸ hl)).2
    constructor
    · intro r hr
      rcases lookup_newInfo hr with hold | ⟨-, huid, rfl⟩
      · obtain ⟨halloc, hage⟩ := h.cached r hold
        refine ⟨allocated_newInfo halloc, ?_⟩
        rw [Infos.get_newQueueUnitInfo halloc, hage]
      · refine ⟨(Heap.allocated_alloc _ _ _).mpr (.inr rfl), ?_⟩
        rw [Infos.get_newQueueUnitInfo_next]
        exact hfresh huid
    · intro info hinfo hu
      rcases List.mem_append.mp hinfo with hinfo | hinfo
      · exact h.returned info hinfo hu
      · rw [List.mem_singleton.mp hinfo] at hu ⊢
        rw [Infos.fresh_unit] at hu
        exact hfresh hu

end

/-- All calls for a UID return the same times as long as no sweep drops it, which each one does unless
the UID reads like the key of a unit. The age is the same in any case when all versions are of one age,
and a sweep leaves no unknown UID unless there is one that reads like a key. -/
theorem first_seen_stable_unless_swept (uid : UID) (as : List Action) (w : World)
    (hrun : Run.exec step {} as = some w) :
    (Run.Guarded step (Spared uid) {} as → ∀ a ∈ w.returned, ∀ b ∈ w.returned,
      a.unit.uid = uid → b.unit.uid = uid → SameTimes a b) ∧
    (∀ created, (∀ a ∈ as, Aged uid created a) → ∀ a ∈ w.returned,
      a.unit.uid = uid → a.initialAttemptTimestamp = created) ∧
    ∀ t, step w .sweep = some t →
      ((∀ u ∈ t.infos.cache, Listed t u) ↔ ∀ u ∈ w.infos.cache, u ∈ w.indexer → Listed w u) := by
  refine ⟨?_, ?_, ?_⟩
  · intro hg a ha b hb hau hbu
    have hstart : Seen uid {} := ⟨fun _ info hinfo => absurd hinfo List.not_mem_nil, fun r hr => by cases hr⟩
    have hseen : Seen uid w := Run.invariant seen_step hstart hg hrun
    cases hl : w.infos.cache.lookup uid with
    | none => exact absurd hau (hseen.none hl a ha)
    | some r =>
      obtain ⟨hat, hai⟩ := (hseen.some r hl).2 a ha hau
      obtain ⟨hbt, hbi⟩ := (hseen.some r hl).2 b hb hbu
      exact ⟨hat.symm.trans hbt, hai.symm.trans hbi⟩
  · intro created hage a ha hau
    have hstart : OfAge uid created {} := ⟨fun r hr => (by cases hr), fun info hinfo => absurd hinfo List.not_mem_nil⟩
    have hg : Run.Guarded step (fun _ a => Aged uid created a ∧ True) {} as :=
      Run.guarded_and hage (Run.guarded_true _ as)
    have hofAge : OfAge uid created w :=
      Run.invariant (fun w a t h hok => ofAge_step w a t h hok.1) hstart hg hrun
    exact hofAge.returned a ha hau
  · intro t ht
    cases ht
    refine forall_congr' (fun u => ?_)
    rw [mem_forget, and_imp]
    exact Iff.rfl

def liveUnit : QueueUnit := { ns := "ns", name := "a", uid := "1", creationTimestamp := 3 }

def sweptBefore : List Action :=
  [.store liveUnit, .newInfo 2 { liveUnit with name := "b", uid := "2" }, .sweep, .newInfo 4 liveUnit, .newInfo 9 liveUnit]

/-- A sweep that drops another unit before the first call for this one. -/
theorem sweptBefore_times_agree :
    ∃ w, Run.exec step {} sweptBefore = some w ∧ w.returned.length = 3 ∧ "2" ∉ w.infos.cache ∧
      (∀ a ∈ w.returned, ∀ b ∈ w.returned, a.unit.uid = "1" → b.unit.uid = "1" → SameTimes a b) ∧
      ∀ a ∈ w.returned, a.unit.uid = "1" → a.initialAttemptTimestamp = 3 := by
  obtain ⟨hsame, hage, -⟩ := first_seen_stable_unless_swept "1" sweptBefore _ rfl
  refine ⟨_, rfl, rfl, by decide +kernel, hsame (by decide +kernel), hage 3 ?_⟩
  simp [sweptBefore, Aged, liveUnit]

/-- The unit is in the indexer all along, and the second call is given another time than the first. -/
theorem swept_time_moves :
    ∃ w, Run.exec step {} [.store liveUnit, .newInfo 4 liveUnit, .sweep, .newInfo 9 liveUnit] = some w ∧
      w.indexer.lookup "ns/a" = some liveUnit ∧ w.returned.map QueueUnitInfo.timestamp = [4, 9] ∧
      w.returned.map QueueUnitInfo.initialAttemptTimestamp = [3, 3] := by
  refine ⟨_, rfl, ?_⟩
  decide +kernel

end KoordQueue.Queue.FirstSeen
