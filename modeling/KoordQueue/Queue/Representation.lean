import KoordQueue.Lib.SortedSlice
import KoordQueue.Queue.Filing

namespace KoordQueue.Queue.Representation

open Api UnitInfo Memory Policy

/-- What stays the same in all versions of an object, by its UID. -/
structure Objects where
  key : UID → String
  created : UID → Time

def Objects.Has (obj : Objects) (qu : QueueUnit) : Prop :=
  qu.key = obj.key qu.uid ∧ qu.creationTimestamp = obj.created qu.uid
deriving Decidable

/-- Every info is one that `NewQueueUnitInfo` builds for its unit. -/
structure Built (obj : Objects) (m : Infos) : Prop where
  has : ∀ {r}, m.heap.Allocated r → obj.Has (m.unit r)
  name : ∀ {r}, m.heap.Allocated r → (m.get r).name = m.key r
  initial : ∀ {r}, m.heap.Allocated r → (m.get r).initialAttemptTimestamp = obj.created (m.unit r).uid
  cached : ∀ {uid r}, m.cache.lookup uid = some r →
    m.heap.Allocated r ∧ (m.get r).initialAttemptTimestamp = obj.created uid

variable {obj : Objects} {m : Infos}

variable {qu : QueueUnit} {r : Ref}

theorem Built.key (h : Built obj m) (hr : m.heap.Allocated r) : m.key r = obj.key (m.unit r).uid :=
  (h.has hr).1

theorem fresh_initial (h : Built obj m) (hqu : obj.Has qu) (now : Time) :
    (m.fresh now qu).initialAttemptTimestamp = obj.created qu.uid := by
  rw [Infos.fresh]
  cases hc : m.cache.lookup qu.uid with
  | none => exact hqu.2
  | some r => exact (h.cached hc).2

theorem built_newQueueUnitInfo (h : Built obj m) (hqu : obj.Has qu) (now : Time) :
    Built obj (m.newQueueUnitInfo now qu) := by
  have hold : ∀ {r}, m.heap.Allocated r → (m.newQueueUnitInfo now qu).get r = m.get r :=
    fun hr => Infos.get_newQueueUnitInfo hr now qu
  have hnew := Infos.get_newQueueUnitInfo_next m now qu
  have hsplit : ∀ {r}, (m.newQueueUnitInfo now qu).heap.Allocated r → m.heap.Allocated r ∨ r = m.heap.next :=
    fun hr => (Heap.allocated_alloc _ _ _).mp hr
  refine ⟨?_, ?_, ?_, ?_⟩
  · intro r hr
    rcases hsplit hr with hr | rfl
    · rw [Infos.unit, hold hr]
      exact h.has hr
    · rw [Infos.unit_newQueueUnitInfo]
      exact hqu
  · intro r hr
    rcases hsplit hr with hr | rfl
    · rw [Infos.key, Infos.unit, hold hr]
      exact h.name hr
    · rw [Infos.key, Infos.unit, hnew, Infos.fresh_unit, Infos.fresh_name]
  · intro r hr
    rcases hsplit hr with hr | rfl
    · rw [Infos.unit, hold hr]
      exact h.initial hr
    · rw [Infos.unit, hnew, Infos.fresh_unit, fresh_initial h hqu]
  · intro uid r hc
    have hkeep : m.cache.lookup uid = some r →
        (m.newQueueUnitInfo now qu).heap.Allocated r ∧
          ((m.newQueueUnitInfo now qu).get r).initialAttemptTimestamp = obj.created uid := by
      intro hc
      obtain ⟨hr, hi⟩ := h.cached hc
      rw [hold hr]
      exact ⟨(Heap.allocated_alloc _ _ _).mpr (Or.inl hr), hi⟩
    change (if qu.uid ∈ m.cache then m.cache else m.cache.insert qu.uid m.heap.next).lookup uid = some r at hc
    split at hc
    next => exact hkeep hc
    next =>
      rw [GoMap.lookup_insert_eq] at hc
      split at hc
      next he =>
        cases hc
        rw [hnew, fresh_initial h hqu, he]
        exact ⟨(Heap.allocated_alloc _ _ _).mpr (Or.inr rfl), rfl⟩
      next => exact hkeep hc

theorem built_forgetQueueUnitInfo (h : Built obj m) (present : UID → Bool) :
    Built obj (m.forgetQueueUnitInfo present) where
  has := h.has
  name := h.name
  initial := h.initial
  cached {uid r} hc := by
    change (GoMap.range (fun uid r _ => if present uid then r else none) m.cache m.cache).lookup uid = some r at hc
    apply h.cached
    rw [GoMap.lookup_range] at hc
    cases hm : m.cache.lookup uid with
    | none =>
      rw [hm] at hc
      cases hc
    | some x =>
      rw [hm] at hc
      dsimp only at hc
      split at hc
      next => exact hc
      next => cases hc

theorem built_set (h : Built obj m) (hr : m.heap.Allocated r) {info : QueueUnitInfo}
    (hhas : obj.Has info.unit) (huid : info.unit.uid = (m.unit r).uid) (hname : info.name = (m.get r).name)
    (hinitial : info.initialAttemptTimestamp = (m.get r).initialAttemptTimestamp) : Built obj (m.set r info) := by
  have hget := Infos.get_set hr info
  have hunit := Infos.unit_set hr info
  have halloc : ∀ {x}, (m.set r info).heap.Allocated x ↔ m.heap.Allocated x := Heap.allocated_set _ _ _ _
  have hkey : info.unit.key = m.key r := by rw [hhas.1, huid, ← h.key hr]
  refine ⟨?_, ?_, ?_, ?_⟩
  · intro x hx
    rw [hunit]
    split
    next => exact hhas
    next => exact h.has (halloc.mp hx)
  · intro x hx
    rw [Infos.key, hunit, hget]
    split
    next => rw [hname, h.name hr, hkey]
    next => exact h.name (halloc.mp hx)
  · intro x hx
    rw [hunit, hget]
    split
    next => rw [hinitial, h.initial hr, huid]
    next => exact h.initial (halloc.mp hx)
  · intro uid x hc
    obtain ⟨hx, hi⟩ := h.cached hc
    refine ⟨halloc.mpr hx, ?_⟩
    rw [hget]
    split
    next he =>
      rw [hinitial, ← he]
      exact hi
    next => exact hi

end KoordQueue.Queue.Representation
