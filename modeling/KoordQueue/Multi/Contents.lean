import KoordQueue.Multi.Object
import KoordQueue.Queue.Filing
import KoordQueue.Queue.IntelligentFrames

namespace KoordQueue.Multi.Contents

open Api UnitStatus UnitInfo KoordQueue.Queue Memory Policy Update Frames Filing

/-- Every pointer in the map is good, and files its unit under the unit's key. -/
structure Filed (m : Infos) (units : GoMap String Ref) : Prop where
  allocated : ∀ {key r}, units.lookup key = some r → m.heap.Allocated r
  own : ∀ {key r}, units.lookup key = some r → m.key r = key

variable {units : GoMap String Ref} {m : Infos}

theorem Filed.mono {m' : Infos} {units' : GoMap String Ref} (h : Filed m units) (hm : Extends m m')
    (hunits : ∀ key r, units'.lookup key = some r → units.lookup key = some r) : Filed m' units' where
  allocated hk := (hm _ (h.allocated (hunits _ _ hk))).1
  own hk := by
    rw [Infos.key, hm.unit (h.allocated (hunits _ _ hk))]
    exact h.own (hunits _ _ hk)

theorem Filed.mem_listed (h : Filed m units) (order : List String)
    (key : String) : key ∈ (order.filterMap units.lookup).map m.key ↔ key ∈ order ∧ key ∈ units := by
  simp only [List.mem_map, List.mem_filterMap]
  constructor
  · rintro ⟨r, ⟨key', hkey', hr⟩, rfl⟩
    rw [h.own hr]
    exact ⟨hkey', Finmap.mem_iff.mpr ⟨r, hr⟩⟩
  · rintro ⟨hkey, hheld⟩
    obtain ⟨r, hr⟩ := Finmap.mem_iff.mp hheld
    exact ⟨r, ⟨key, hkey, hr⟩, h.own hr⟩

theorem Filed.lookup_without (h : Filed m units) (order : List String)
    (key : String) : (if key ∈ (order.filterMap units.lookup).map m.key then none else units.lookup key) =
      if key ∈ order then none else units.lookup key := by
  have hmem := h.mem_listed order key
  by_cases hkey : key ∈ order
  · by_cases hheld : key ∈ units
    · simp [hmem, hkey, hheld]
    · simp [hmem, hkey, hheld, Finmap.lookup_eq_none.mpr hheld]
  · simp [hmem, hkey]

section Intelligent

variable (m : Infos)

theorem extends_filedIntelligent (now : Time) (qu : QueueUnit) (s : Intelligent.State) :
    Extends s.infos (Intelligent.filedInfo now qu s).1 := by
  rw [Intelligent.filedInfo]
  split
  next => exact Extends.refl s.infos
  next => exact extends_newQueueUnitInfo s.infos now qu

theorem deleteIntelligent (fw : Handle) (now : Time) (qu : QueueUnit) (s : Intelligent.State) :
    Extends s.infos (Intelligent.delete fw now qu s).infos ∧
      (Intelligent.delete fw now qu s).iq.queueUnits = s.iq.queueUnits.erase qu.key := by
  obtain ⟨_, he⟩ := IntelligentFrames.delete_eq fw now qu s
  exact ⟨extends_filedIntelligent now qu s, by rw [he]⟩

theorem fixIntelligent {order : List String} {q : Intelligent.IntelligentQueue} (h : Filed m q.queueUnits) (key : String) :
    (Intelligent.fix m order q).queueUnits.lookup key =
      if key ∈ order then none else q.queueUnits.lookup key := by
  obtain ⟨_, _, he⟩ := IntelligentFrames.fix_eq m order q
  rw [he, GoMap.lookup_foldl_erase]
  exact h.lookup_without order key

end Intelligent

/-- What an `Update` did to the units of a queue and to the infos. -/
inductive Updated (skipped : Bool) (new : QueueUnit) (m m' : Infos) (units units' : GoMap String Ref) : Prop
  | untouched (skip : skipped = true) (absent : new.key ∉ units) (infos : m' = m) (same : units' = units)
  | kept (r : Ref) (quiet : skipped = true ∨ isQueueUnitDequeued new = false)
      (held : units.lookup new.key = some r) (same : units' = units)
      (infos : ∀ x, m.heap.Allocated x → m'.heap.Allocated x ∧
        (m'.unit x = if x = r then keptVersion (m.unit r) new else m.unit x) ∧ (m'.get x).name = (m.get x).name)
  | dropped (seen : skipped = false) (dequeued : isQueueUnitDequeued new = true) (infos : Extends m m')
      (erased : units' = units.erase new.key)
  | filed (r : Ref) (seen : skipped = false) (waits : isQueueUnitDequeued new = false) (infos : Extends m m')
      (fresh : ¬ m.heap.Allocated r) (allocated : m'.heap.Allocated r) (version : m'.unit r = new)
      (named : (m'.get r).name = new.key) (inserted : units' = units.insert new.key r)

variable {units : GoMap String Ref} {m : Infos} {new : QueueUnit} {r : Ref}

theorem allocated_kept (new : QueueUnit) (x : Ref) :
    (if (m.unit r).resourceVersion ≠ new.resourceVersion then m.setUnit r new else m).heap.Allocated x ↔
      m.heap.Allocated x := by
  split
  next => exact Heap.allocated_set m.heap r x _
  next => rfl

theorem name_kept (hr : m.heap.Allocated r) (new : QueueUnit) (x : Ref) :
    ((if (m.unit r).resourceVersion ≠ new.resourceVersion then m.setUnit r new else m).get x).name =
      (m.get x).name := by
  split
  next => exact Infos.name_setUnit hr new x
  next => rfl

def refreshedInfos (m : Infos) (units : GoMap String Ref) (new : QueueUnit) : Infos :=
  match units.lookup new.key with
  | none => m
  | some r => if (m.unit r).resourceVersion ≠ new.resourceVersion then m.setUnit r new else m

theorem Updated.of_refresh {skipped : Bool} {m' : Infos}
    (h : Filed m units) (quiet : skipped = true ∨ isQueueUnitDequeued new = false)
    (hheld : isQueueUnitDequeued new = false → skipped = false → new.key ∈ units)
    (hm : m' = refreshedInfos m units new) : Updated skipped new m m' units units := by
  rw [refreshedInfos] at hm
  cases hr : units.lookup new.key with
  | none =>
    rw [hr] at hm
    have habsent : new.key ∉ units := Finmap.lookup_eq_none.mp hr
    refine .untouched ?_ habsent hm rfl
    rcases quiet with hs | hd
    · exact hs
    · exact Bool.eq_true_of_not_eq_false (fun hs => habsent (hheld hd hs))
  | some r =>
    rw [hr] at hm
    refine .kept r quiet hr rfl ?_
    intro x hx
    rw [hm]
    exact ⟨(allocated_kept new x).mpr hx, unit_kept (h.allocated hr) new x, name_kept (h.allocated hr) new x⟩

theorem infos_refresh (fw : Handle) (old new : QueueUnit) (s : Update.State) :
    (Update.refresh fw old new s).infos = refreshedInfos s.infos s.pq.queueUnits new := by
  cases hr : s.pq.queueUnits.lookup new.key with
  | none => rw [Update.refresh, refreshedInfos, hr]
  | some r =>
    obtain ⟨b, _, heq⟩ := refresh_eq fw old hr
    rw [heq, refreshedInfos, hr]

theorem queueUnits_refresh (fw : Handle) (old new : QueueUnit) (s : Update.State) :
    (Update.refresh fw old new s).pq.queueUnits = s.pq.queueUnits := by
  cases hr : s.pq.queueUnits.lookup new.key with
  | none => rw [Update.refresh, hr]
  | some r =>
    obtain ⟨b, _, heq⟩ := refresh_eq fw old hr
    rw [heq]

theorem infos_refreshIntelligent (fw : Handle) (old new : QueueUnit) (s : Intelligent.State) :
    (Intelligent.refresh fw old new s).infos = refreshedInfos s.infos s.iq.queueUnits new := by
  rw [Intelligent.refresh, refreshedInfos]
  cases s.iq.queueUnits.lookup new.key with
  | none => rfl
  | some r =>
    dsimp only
    split <;> rfl

theorem refreshedInfos_of_absent (h : new.key ∉ units) : refreshedInfos m units new = m := by
  rw [refreshedInfos, Finmap.lookup_eq_none.mpr h]

theorem refreshedInfos_of_latest
    (hr : units.lookup new.key = some r) (hnew : m.unit r = new) : refreshedInfos m units new = m := by
  rw [refreshedInfos, hr]
  dsimp only
  rw [hnew, if_neg (not_not.mpr rfl)]

theorem next_fresh (m : Infos) (now : Time) (old : QueueUnit) :
    ¬ m.heap.Allocated (m.newQueueUnitInfo now old).heap.next := by
  simp only [Heap.Allocated, Heap.next, Infos.newQueueUnitInfo, Heap.alloc, List.length_append, List.length_singleton]
  exact Nat.not_lt.mpr (Nat.le_succ _)

theorem updated_priority (fw : Handle) (now : Time) (old new : QueueUnit) (s : Update.State)
    (h : Filed s.infos s.pq.queueUnits) :
    Updated (Update.unchanged old new) new s.infos (Update.update fw now old new s).infos s.pq.queueUnits
      (Update.update fw now old new s).pq.queueUnits := by
  rw [Update.update, infos_refresh, queueUnits_refresh]
  rcases updateBody_cases fw now rfl with ⟨hu, heq⟩ | ⟨hu, hd, heq⟩ | ⟨hu, hd, _, heq⟩ | ⟨hu, hd, hn, heq⟩
  · rw [heq, hu]
    exact .of_refresh h (Or.inl rfl) (fun _ hs => absurd hs (by simp)) rfl
  · obtain ⟨b, _, hdrop⟩ := dropDequeued_eq now old new s
    rw [heq, hdrop, hu, refreshedInfos_of_absent (by simp [Finmap.mem_erase])]
    exact .dropped rfl hd (extends_newQueueUnitInfo s.infos now new) rfl
  · have hr := lookup_reinsert now old new s new.key
    rw [if_pos rfl] at hr
    rw [heq, settle_eq, hu, refreshedInfos_of_latest hr (unit_reinserted now old new s)]
    refine .filed (reinserted now old s) rfl hd (extends_reinsert now old new s) (next_fresh s.infos now old) ?_
      (unit_reinserted now old new s) (Infos.name_newQueueUnitInfo (s.infos.newQueueUnitInfo now old) now new) rfl
    exact (Heap.allocated_alloc _ _ _).mpr (Or.inr rfl)
  · have hheld : new.key ∈ s.pq.queueUnits := by
      by_contra hk
      simp [needsReinsert, hk] at hn
    rw [heq, settle_eq, hu]
    exact .of_refresh h (Or.inr hd) (fun _ _ => hheld) rfl

theorem updated_intelligent (fw : Handle) (now : Time) (old new : QueueUnit) (s : Intelligent.State)
    (h : Filed s.infos s.iq.queueUnits) :
    Updated (Intelligent.unchanged fw old new) new s.infos (Intelligent.update fw now old new s).infos
      s.iq.queueUnits (Intelligent.update fw now old new s).iq.queueUnits := by
  obtain ⟨_, _, hrefresh⟩ := IntelligentFrames.refresh_eq fw old new (Intelligent.updateBody fw now old new s)
  obtain ⟨_, _, _, _, _, hbody⟩ := IntelligentFrames.updateBody_eq fw now old new s
  rw [Intelligent.update, infos_refreshIntelligent, hrefresh, hbody]
  dsimp only
  obtain ⟨reset, ⟨hu, he⟩ | ⟨hu, hd, he⟩ | ⟨hu, hd, he⟩⟩ := IntelligentFrames.updateBody_cases fw now old new s
  · rw [he, hu]
    exact .of_refresh h (Or.inl rfl) (fun _ hs => absurd hs (by simp)) rfl
  · have hinfos : (Intelligent.updateBody fw now old new s).infos = s.infos.newQueueUnitInfo now old := by
      rw [he]
      rfl
    rw [hinfos, hu, hd, if_neg Bool.false_ne_true, if_pos rfl, refreshedInfos_of_absent (by simp [Finmap.mem_erase])]
    exact .dropped rfl hd (extends_newQueueUnitInfo s.infos now old) rfl
  · have hinfos : (Intelligent.updateBody fw now old new s).infos =
        (s.infos.newQueueUnitInfo now old).newQueueUnitInfo now new := by
      rw [he]
      rfl
    have hversion := Infos.unit_newQueueUnitInfo (s.infos.newQueueUnitInfo now old) now new
    rw [hinfos, hu, hd, if_neg Bool.false_ne_true, if_neg Bool.false_ne_true,
      refreshedInfos_of_latest (Finmap.lookup_insert _) hversion]
    refine .filed _ rfl hd ?_ (next_fresh s.infos now old) ?_ hversion (Infos.name_newQueueUnitInfo _ now new) rfl
    · exact (extends_newQueueUnitInfo s.infos now old).trans (extends_newQueueUnitInfo _ now new)
    · exact (Heap.allocated_alloc _ _ _).mpr (Or.inr rfl)

end KoordQueue.Multi.Contents
