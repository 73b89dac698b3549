import KoordQueue.Queue.Slice

namespace KoordQueue.Queue.SliceOps

open Api UnitStatus SortedSlice Memory Less Policy Update Frames Filing Queue.Representation Slice

variable {obj : Objects} {s : State} {m : Infos} {q : PriorityQueue} (fw : Handle) (now : Time)

variable {qu : QueueUnit}

theorem built_filedInfo (h : Built obj s.infos) (hqu : obj.Has qu) : Built obj (filedInfo now qu s).1 := by
  rw [filedInfo]
  split
  next => exact h
  next => exact built_newQueueUnitInfo h hqu now

theorem removeFound_filedInfo (h : Represented obj s) (hqu : obj.Has qu) :
    removeFound (filedInfo now qu s).1 s.pq.queue (filedInfo now qu s).2 =
      s.pq.queue.filter (fun r => (filedInfo now qu s).1.key r ≠ qu.key) := by
  apply removeFound_eq (h.extend (extends_filedInfo now qu s) (built_filedInfo now h.built hqu))
  · rw [filedInfo]
    split
    next r hr => exact (h.built.key (h.filed.allocated hr)).symm.trans (h.filed.own hr)
    next => rw [Infos.fresh_unit, hqu.1]
  · rw [filedInfo]
    split
    next r hr => exact (h.built.name (h.filed.allocated hr)).trans (h.filed.own hr)
    next => exact Infos.fresh_name _ now qu
  · intro r hr
    simp only [filedInfo, hr]
    rfl

theorem represented_deleteWithoutLock (h : Represented obj s) (hqu : obj.Has qu) :
    Represented obj (deleteWithoutLock fw now qu s) := by
  obtain ⟨b, _, heq⟩ := deleteWithoutLock_eq fw now qu s
  rw [heq]
  have hext := h.extend (extends_filedInfo now qu s) (built_filedInfo now h.built hqu)
  exact represented_drop hext (removeFound_filedInfo now h hqu) rfl

theorem represented_delete (h : Represented obj s) (hqu : obj.Has qu) : Represented obj (delete fw now qu s) := by
  apply represented_deleteWithoutLock fw now _ hqu
  exact h.same rfl rfl

theorem represented_fix (h : Represented obj s) (order : List String) : Represented obj (fix fw now order s) := by
  have hrefs := GoMap.forall_mem_lookups (fun _ _ => h.filed.allocated) order
  rw [fix]
  revert hrefs
  generalize order.filterMap s.pq.queueUnits.lookup = refs
  intro hrefs
  induction refs generalizing s with
  | nil => exact h
  | cons r refs ih =>
    rw [List.foldl_cons]
    have hqu := h.built.has (hrefs r List.mem_cons_self)
    apply ih (represented_deleteWithoutLock fw now h hqu)
    intro x hx
    obtain ⟨b, _, heq⟩ := deleteWithoutLock_eq fw now (s.infos.unit r) s
    rw [heq]
    exact (extends_filedInfo now _ s x (hrefs x (List.mem_cons_of_mem r hx))).1

theorem represented_add (h : Represented obj s) {r : Ref} (hr : s.infos.heap.Allocated r) :
    Represented obj ⟨s.infos, (addQueueUnitInfo fw s.infos r s.pq).1⟩ := by
  rcases addQueueUnitInfo_cases fw rfl with ⟨_, heq⟩ | ⟨_, heq⟩ | ⟨hk, hfound, _⟩ | ⟨hk, _, b, _, heq⟩
  · rw [heq]
    exact h
  · rw [heq]
    exact h.same rfl rfl
  · have hname := h.built.name hr
    have habsent := Finmap.lookup_eq_none.mpr hk
    rw [position_of_absent h (by rw [hname]; exact (h.built.key hr).symm) (by rw [hname]; exact habsent)] at hfound
    cases hfound
  · rw [heq]
    exact represented_file h hr (Finmap.lookup_eq_none.mpr hk) rfl rfl

theorem rankOf_eq_fresh (h : Built obj s.infos) {qu : QueueUnit} (hqu : obj.Has qu) {r : Ref}
    (hr : s.infos.heap.Allocated r) (huid : (s.infos.unit r).uid = qu.uid)
    (hprio : priorityOf (s.infos.unit r) = priorityOf qu) : rankOf s.infos r = rank (s.infos.fresh now qu) := by
  apply (rank_eq_iff _ _).mpr
  refine ⟨?_, ?_, ?_⟩
  · rw [Infos.fresh_unit]
    exact hprio
  · rw [h.initial hr, fresh_initial h hqu, huid]
  · rw [h.name hr, Infos.fresh_name, h.key hr, hqu.1, huid]

def Matches (s : State) (r : Ref) (qu : QueueUnit) : Prop :=
  (s.infos.unit r).uid = qu.uid ∧ priorityOf (s.infos.unit r) = priorityOf qu
deriving Decidable

theorem removeFound_fresh (h : Represented obj s) (hm : Extends s.infos m) (hb : Built obj m)
    (hqu : obj.Has qu) (hok : ∀ r, s.pq.queueUnits.lookup qu.key = some r → Matches s r qu) :
    removeFound m s.pq.queue (s.infos.fresh now qu) = s.pq.queue.filter (fun r => m.key r ≠ qu.key) := by
  apply removeFound_eq (h.extend hm hb)
  · rw [Infos.fresh_unit, hqu.1]
  · exact Infos.fresh_name _ now qu
  · intro r hr
    have hmatch := hok r hr
    rw [← rankOf_eq_fresh now h.built hqu (h.filed.allocated hr) hmatch.1 hmatch.2]
    exact rank_congr (hm r (h.filed.allocated hr)).2

theorem represented_dropDequeued (h : Represented obj s) (old : QueueUnit) {new : QueueUnit} (hnew : obj.Has new)
    (hok : ∀ r, s.pq.queueUnits.lookup new.key = some r → Matches s r new) :
    Represented obj (dropDequeued now old new s) := by
  obtain ⟨b, _, heq⟩ := dropDequeued_eq now old new s
  have hm := extends_newQueueUnitInfo s.infos now new
  have hb := built_newQueueUnitInfo h.built hnew now
  rw [heq]
  exact represented_drop (h.extend hm hb) (removeFound_fresh now h hm hb hnew hok) rfl

theorem insert_erase (units : GoMap String Ref) (key : String) (r : Ref) :
    (units.erase key).insert key r = units.insert key r := by
  apply Finmap.ext_lookup
  intro k
  rw [GoMap.lookup_insert_eq, GoMap.lookup_insert_eq]
  split
  next => rfl
  next hne => rw [GoMap.lookup_erase_eq, if_neg hne]

def withoutKey (key : String) (q : PriorityQueue) (m : Infos) : PriorityQueue :=
  { q with queue := q.queue.filter (fun r => m.key r ≠ key), queueUnits := q.queueUnits.erase key }

theorem represented_withoutKey (h : Represented obj s) (key : String) :
    Represented obj ⟨s.infos, withoutKey key s.pq s.infos⟩ := represented_drop h rfl rfl

section Reinsert

variable {old new : QueueUnit}

theorem extend_reinsert (h : Represented obj s) (hold : obj.Has old) (hnew : obj.Has new) :
    Represented obj ⟨(reinsert now old new s).infos, s.pq⟩ :=
  h.extend (extends_reinsert now old new s)
    (built_newQueueUnitInfo (built_newQueueUnitInfo h.built hold now) hnew now)

theorem key_reinserted (old new : QueueUnit) (s : State) :
    (reinsert now old new s).infos.key (reinserted now old s) = new.key :=
  congrArg QueueUnit.key (unit_reinserted now old new s)

theorem allocated_reinserted (old new : QueueUnit) (s : State) :
    (reinsert now old new s).infos.heap.Allocated (reinserted now old s) :=
  (Heap.allocated_alloc _ _ _).mpr (Or.inr rfl)

theorem lookup_withoutKey (key : String) (q : PriorityQueue) (m : Infos) :
    (withoutKey key q m).queueUnits.lookup key = none := by
  rw [withoutKey, GoMap.lookup_erase_eq, if_pos rfl]

variable (h : Represented obj s) (hold : obj.Has old) (hnew : obj.Has new) (hkey : old.key = new.key)
  (hok : ∀ r, s.pq.queueUnits.lookup new.key = some r → Matches s r old)

include h hold hnew hkey hok

theorem removeFound_reinsert :
    removeFound (reinsert now old new s).infos s.pq.queue (s.infos.fresh now old) =
      (withoutKey new.key s.pq (reinsert now old new s).infos).queue := by
  rw [← hkey] at hok
  rw [withoutKey, ← hkey]
  exact removeFound_fresh now h (extends_reinsert now old new s) (extend_reinsert now h hold hnew).built hold hok

theorem represented_reinsert : Represented obj (reinsert now old new s) := by
  have hdropped := represented_withoutKey (extend_reinsert now h hold hnew) new.key
  apply represented_file hdropped (allocated_reinserted now old new s)
  · rw [key_reinserted]
    exact lookup_withoutKey _ _ _
  · rw [← removeFound_reinsert now h hold hnew hkey hok]
    rfl
  · rw [key_reinserted]
    exact (insert_erase _ _ _).symm

theorem queue_reinsert : (reinsert now old new s).pq.queue =
    let others := (withoutKey new.key s.pq (reinsert now old new s).infos).queue
    let target := rankOf (reinsert now old new s).infos (reinserted now old s)
    below (rankOf (reinsert now old new s).infos) target others ++
      reinserted now old s :: above (rankOf (reinsert now old new s).infos) target others := by
  have hdropped := represented_withoutKey (extend_reinsert now h hold hnew) new.key
  have hinsert := insertIdx_position hdropped (allocated_reinserted now old new s) (by
    rw [key_reinserted]
    exact lookup_withoutKey _ _ _)
  dsimp only at hinsert ⊢
  rw [← hinsert, ← removeFound_reinsert now h hold hnew hkey hok]
  rfl

end Reinsert

/-- An update in place changes neither the object nor its rank, or the slice is
sorted afterwards. -/
def Overwrites (s : State) (r : Ref) (old new : QueueUnit) : Prop :=
  (s.infos.unit r).resourceVersion = new.resourceVersion ∨
    (s.infos.unit r).uid = new.uid ∧ (priorityOf (s.infos.unit r) = priorityOf new ∨
      isResourceReleased old new = true ∧ new.status.phase ≠ .schedFailed)
deriving Decidable

theorem represented_refresh (h : Represented obj s) {old new : QueueUnit} (hnew : obj.Has new)
    (hok : ∀ r, s.pq.queueUnits.lookup new.key = some r → Overwrites s r old new) :
    Represented obj (refresh fw old new s) := by
  cases hr : s.pq.queueUnits.lookup new.key with
  | none =>
    rw [refresh, hr]
    exact h
  | some r =>
    have halloc := h.filed.allocated hr
    obtain ⟨b, _, heq⟩ := refresh_eq fw old hr
    rw [heq]
    dsimp only
    have hlisted : Listed obj ⟨if (s.infos.unit r).resourceVersion ≠ new.resourceVersion then
        s.infos.setUnit r new else s.infos, s.pq⟩ := by
      split
      next hne => exact h.toListed.setUnit halloc hnew ((hok r hr).resolve_left hne).1.symm
      next => exact h.toListed
    by_cases hrewinds : (isResourceReleased old new && decide (new.status.phase ≠ .schedFailed)) = true
    · apply represented_sort hlisted
      · exact if_pos hrewinds
      · rfl
    · have hkept : Represented obj ⟨if (s.infos.unit r).resourceVersion ≠ new.resourceVersion then
          s.infos.setUnit r new else s.infos, s.pq⟩ := by
        split
        next hne =>
          obtain ⟨huid, hprio⟩ := (hok r hr).resolve_left hne
          apply h.setUnit halloc hnew huid.symm
          intro _
          exact (hprio.resolve_right (fun hrel => hrewinds (by simp [hrel.1, hrel.2]))).symm
        next => exact h
      apply hkept.same
      · exact if_neg hrewinds
      · rfl

end KoordQueue.Queue.SliceOps
