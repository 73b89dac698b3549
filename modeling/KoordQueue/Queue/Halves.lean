import KoordQueue.Queue.IntelligentFrames
import KoordQueue.Queue.SliceOps

namespace KoordQueue.Queue.Halves

open Api UnitInfo Memory Less Intelligent IntelligentFrames
open Filing Queue.Representation Slice
open Policy (Handle removeFound position)

def half (high : Bool) (q : IntelligentQueue) : List Ref := if high then q.highPriorityQueue else q.lowPriorityQueue

def select (high : Bool) (m : Infos) (q : IntelligentQueue) (units : GoMap String Ref) : GoMap String Ref :=
  GoMap.range (fun _ _ r => if isHighPriority (m.unit r) q = high then some r else none) ∅ units

def view (high : Bool) (m : Infos) (units : GoMap String Ref) (q : IntelligentQueue) : Update.State :=
  ⟨m, { queue := half high q, queueUnits := select high m q units }⟩

def Halved (obj : Objects) (m : Infos) (units : GoMap String Ref) (q : IntelligentQueue) : Prop :=
  ∀ high, Represented obj (view high m units q)

abbrev HalvedAt (obj : Objects) (s : State) : Prop := Halved obj s.infos s.iq.queueUnits s.iq

variable {obj : Objects} {m m' : Infos} {units : GoMap String Ref} {q q' : IntelligentQueue} {high : Bool}

theorem lookup_select {key : String} {r : Ref} :
    (select high m q units).lookup key = some r ↔
      units.lookup key = some r ∧ isHighPriority (m.unit r) q = high := by
  rw [select, GoMap.lookup_range, Finmap.lookup_empty]
  cases units.lookup key with
  | none => simp
  | some x =>
    dsimp only
    constructor
    · intro h
      rw [Option.ite_none_right_eq_some] at h
      obtain ⟨hx, he⟩ := h
      cases he
      exact ⟨rfl, hx⟩
    · rintro ⟨he, hx⟩
      cases he
      exact if_pos hx

theorem lookup_select_none {key : String} (h : units.lookup key = none) : (select high m q units).lookup key = none := by
  rw [Option.eq_none_iff_forall_ne_some]
  intro r hr
  rw [(lookup_select.mp hr).1] at h
  cases h

theorem select_congr {units' : GoMap String Ref}
    (h : ∀ key r, (units'.lookup key = some r ∧ isHighPriority (m'.unit r) q' = high) ↔
      (units.lookup key = some r ∧ isHighPriority (m.unit r) q = high)) :
    select high m' q' units' = select high m q units := by
  apply Finmap.ext_lookup
  intro key
  apply Option.ext
  intro r
  rw [lookup_select, lookup_select]
  exact h key r

theorem isHighPriority_congr {qu qu' : QueueUnit} (hprio : priorityOf qu' = priorityOf qu)
    (hthreshold : q'.priorityThreshold = q.priorityThreshold) : isHighPriority qu' q' = isHighPriority qu q := by
  rw [isHighPriority, isHighPriority, hprio, hthreshold]

theorem half_removeFromQueue (target : QueueUnitInfo) : half high (removeFromQueue m target q) =
    if isHighPriority target.unit q = high then removeFound m (half high q) target else half high q := by
  rw [removeFromQueue, removeSorted_eq, removeSorted_eq]
  cases isHighPriority target.unit q with
  | true => cases high <;> rfl
  | false => cases high <;> rfl

theorem half_distributeToQueue (r : Ref) : half high (distributeToQueue m r q).1 =
    if isHighPriority (m.unit r) q = high then (insertSorted m (half high q) r).2 else half high q := by
  rw [distributeToQueue]
  cases isHighPriority (m.unit r) q with
  | true => cases high <;> rfl
  | false => cases high <;> rfl

theorem threshold_removeFromQueue (target : QueueUnitInfo) :
    (removeFromQueue m target q).priorityThreshold = q.priorityThreshold := by
  obtain ⟨_, _, he⟩ := removeFromQueue_eq m q target
  rw [he]

theorem threshold_distributeToQueue (r : Ref) :
    (distributeToQueue m r q).1.priorityThreshold = q.priorityThreshold := by
  obtain ⟨_, _, he⟩ := distributeToQueue_eq m q r
  rw [he]

namespace Halved

theorem built (h : Halved obj m units q) : Built obj m := (h true).built

theorem mem_half (h : Halved obj m units q) {r : Ref} :
    r ∈ half high q ↔ units.lookup (m.key r) = some r ∧ isHighPriority (m.unit r) q = high := by
  have hlisted : r ∈ half high q ↔ (select high m q units).lookup (m.key r) = some r := (h high).listed
  rw [hlisted, lookup_select]

theorem allocated (h : Halved obj m units q) {key : String} {r : Ref} (hr : units.lookup key = some r) :
    m.heap.Allocated r := (h (isHighPriority (m.unit r) q)).filed.allocated (lookup_select.mpr ⟨hr, rfl⟩)

theorem own (h : Halved obj m units q) {key : String} {r : Ref} (hr : units.lookup key = some r) : m.key r = key :=
  (h (isHighPriority (m.unit r) q)).filed.own (lookup_select.mpr ⟨hr, rfl⟩)

theorem congr (h : Halved obj m units q) (hhigh : q'.highPriorityQueue = q.highPriorityQueue)
    (hlow : q'.lowPriorityQueue = q.lowPriorityQueue) (hthreshold : q'.priorityThreshold = q.priorityThreshold) :
    Halved obj m units q' := by
  intro high
  have hhalf : half high q' = half high q := by rw [half, half, hhigh, hlow]
  have hselect : select high m q' units = select high m q units :=
    select_congr (fun key r => by rw [isHighPriority_congr rfl hthreshold])
  rw [view, hhalf, hselect]
  exact h high

theorem extend (h : Halved obj m units q) (hm : Extends m m') (hb : Built obj m') : Halved obj m' units q := by
  intro high
  have hselect : select high m' q units = select high m q units := by
    apply select_congr
    intro key r
    apply and_congr_right
    intro hr
    rw [hm.unit (h.allocated hr)]
  rw [view, hselect]
  exact (h high).extend hm hb

theorem setUnit (h : Halved obj m units q) {r : Ref} (hr : m.heap.Allocated r) {qu : QueueUnit} (hqu : obj.Has qu)
    (huid : qu.uid = (m.unit r).uid) (hprio : priorityOf qu = priorityOf (m.unit r)) :
    Halved obj (m.setUnit r qu) units q := by
  intro high
  have hselect : select high (m.setUnit r qu) q units = select high m q units := by
    apply select_congr
    intro key x
    apply and_congr_right
    intro _
    rw [Infos.unit_setUnit hr]
    split
    next he =>
      subst he
      rw [isHighPriority_congr hprio rfl]
    next => rfl
  rw [view, hselect]
  exact (h high).setUnit hr hqu huid (fun _ => hprio)

end Halved

theorem halved_empty (hb : Built obj m) (hhigh : q.highPriorityQueue = []) (hlow : q.lowPriorityQueue = []) :
    Halved obj m ∅ q := by
  intro high
  have hhalf : half high q = [] := by
    rw [half, hhigh, hlow]
    exact ite_self []
  have hselect : ∀ key, (select high m q ∅).lookup key = none :=
    fun key => lookup_select_none (Finmap.lookup_empty key)
  rw [view, hhalf]
  refine ⟨⟨hb, ⟨?_, ?_, ?_⟩, List.nodup_nil, ?_⟩, List.Pairwise.nil⟩
  · exact fun r hr => absurd hr List.not_mem_nil
  · intro key r hr
    cases (hselect key).symm.trans hr
  · intro key r hr
    cases (hselect key).symm.trans hr
  · intro r
    constructor
    · exact fun hr => absurd hr List.not_mem_nil
    · intro hr
      cases (hselect _).symm.trans hr

theorem priorityOf_eq_of_rank {a b : QueueUnitInfo} (h : rank a = rank b) : priorityOf a.unit = priorityOf b.unit :=
  ((rank_eq_iff a b).mp h).1

/-- A search whose target ranks like the unit of its key takes that unit out of
the sub-queue it is in. -/
theorem halved_drop (h : Halved obj m units q) {target : QueueUnitInfo} {key : String}
    (hkey : obj.key target.unit.uid = key) (hname : target.name = key)
    (hrank : ∀ r, units.lookup key = some r → rankOf m r = rank target) :
    Halved obj m (units.erase key) (removeFromQueue m target q) := by
  intro high
  have hselect : select high m (removeFromQueue m target q) (units.erase key) = (select high m q units).erase key := by
    apply Finmap.ext_lookup
    intro k
    apply Option.ext
    intro r
    rw [lookup_select, GoMap.lookup_erase_eq, GoMap.lookup_erase_eq,
      isHighPriority_congr rfl (threshold_removeFromQueue target)]
    split
    next => simp
    next => rw [lookup_select]
  rw [view, hselect, half_removeFromQueue]
  split
  next hhigh =>
    refine represented_drop (h high) ?_ rfl
    exact removeFound_eq (h high) hkey hname (fun r hr => hrank r (lookup_select.mp hr).1)
  next hother =>
    refine represented_drop (h high) ?_ rfl
    symm
    apply List.filter_eq_self.mpr
    intro r hr
    obtain ⟨hlookup, hhalf⟩ := h.mem_half.mp hr
    refine decide_eq_true (fun he => hother ?_)
    rw [← hhalf]
    exact isHighPriority_congr (priorityOf_eq_of_rank (hrank r (he ▸ hlookup))).symm rfl

theorem select_insert_self {r : Ref} {key : String} (hthreshold : q'.priorityThreshold = q.priorityThreshold)
    (hhigh : isHighPriority (m.unit r) q = high) :
    select high m q' (units.insert key r) = (select high m q units).insert key r := by
  apply Finmap.ext_lookup
  intro k
  apply Option.ext
  intro x
  rw [lookup_select, GoMap.lookup_insert_eq, GoMap.lookup_insert_eq, isHighPriority_congr rfl hthreshold]
  split
  next =>
    constructor
    · exact And.left
    · intro he
      cases he
      exact ⟨rfl, hhigh⟩
  next => rw [lookup_select]

theorem select_insert_other {r : Ref} {key : String} (hthreshold : q'.priorityThreshold = q.priorityThreshold)
    (hother : isHighPriority (m.unit r) q ≠ high) (habsent : units.lookup key = none) :
    select high m q' (units.insert key r) = select high m q units := by
  apply select_congr
  intro k x
  rw [GoMap.lookup_insert_eq, isHighPriority_congr rfl hthreshold]
  split
  next he =>
    rw [he, habsent]
    constructor
    · rintro ⟨hx, hhigh⟩
      cases hx
      exact absurd hhigh hother
    · rintro ⟨hx, _⟩
      cases hx
  next => rfl

theorem halved_file (h : Halved obj m units q) {r : Ref} (hr : m.heap.Allocated r)
    (habsent : units.lookup (m.key r) = none) :
    Halved obj m (units.insert (m.key r) r) (distributeToQueue m r q).1 := by
  intro high
  have hthreshold : (distributeToQueue m r q).1.priorityThreshold = q.priorityThreshold := threshold_distributeToQueue r
  rw [view, half_distributeToQueue]
  split
  next hhigh =>
    have hfree : (view high m units q).pq.queueUnits.lookup (m.key r) = none := lookup_select_none habsent
    rw [select_insert_self hthreshold hhigh]
    refine represented_file (h high) hr hfree ?_ rfl
    have hname := h.built.name hr
    have hposition := position_of_absent (h high) (by rw [hname]; exact (h.built.key hr).symm)
      (by rw [hname]; exact hfree)
    have hplace : position m (half high q) (m.get r) = _ := hposition
    show (insertSorted m (half high q) r).2 = (half high q).insertIdx (position m (half high q) (m.get r)).1 r
    rw [insertSorted, search_eq, hplace]
  next hother =>
    rw [select_insert_other hthreshold hother habsent]
    exact h high

theorem halved_distribute (h : Halved obj m units q) (refs : List Ref) (hr : ∀ r ∈ refs, m.heap.Allocated r)
    (hnodup : (refs.map m.key).Nodup) (habsent : ∀ r ∈ refs, units.lookup (m.key r) = none) :
    Halved obj m (refs.foldl (fun units r => units.insert (m.key r) r) units)
      (refs.foldl (fun q r => (distributeToQueue m r q).1) q) := by
  induction refs generalizing units q with
  | nil => exact h
  | cons r refs ih =>
    rw [List.forall_mem_cons] at hr habsent
    rw [List.map_cons, List.nodup_cons] at hnodup
    rw [List.foldl_cons, List.foldl_cons]
    apply ih (halved_file h hr.1 habsent.1) hr.2 hnodup.2
    intro x hx
    have hne : m.key x ≠ m.key r := fun he => hnodup.1 (List.mem_map.mpr ⟨x, hx, he⟩)
    rw [GoMap.lookup_insert_eq, if_neg hne]
    exact habsent.2 x hx

theorem keys_order (h : Halved obj m units q) {order : List String} (horder : ∀ key ∈ order, key ∈ units) :
    (order.filterMap units.lookup).map m.key = order := by
  induction order with
  | nil => rfl
  | cons key order ih =>
    rw [List.forall_mem_cons] at horder
    obtain ⟨r, hr⟩ := Finmap.mem_iff.mp horder.1
    rw [List.filterMap_cons, hr, List.map_cons, h.own hr, ih horder.2]

theorem refile_eq (h : Halved obj m units q) {order : List String} (hnodup : order.Nodup)
    (horder : order.toFinset = units.keys) :
    ((order.filterMap units.lookup).map m.key).Nodup ∧
      (order.filterMap units.lookup).foldl (fun filed r => filed.insert (m.key r) r) ∅ = units := by
  have hmem : ∀ key, key ∈ order ↔ key ∈ units := by
    intro key
    rw [← List.mem_toFinset, horder, Finmap.mem_keys]
  have hdistinct : ((order.filterMap units.lookup).map m.key).Nodup := by
    rw [keys_order h (fun key hkey => (hmem key).mp hkey)]
    exact hnodup
  refine ⟨hdistinct, ?_⟩
  have hfold : (order.filterMap units.lookup).foldl (fun filed r => filed.insert (m.key r) r) ∅ =
      GoMap.ofList ((order.filterMap units.lookup).map (fun r => (m.key r, r))) := by
    rw [GoMap.ofList, List.foldl_map]
  have hfst : (((order.filterMap units.lookup).map (fun r => (m.key r, r))).map Prod.fst).Nodup := by
    rw [List.map_map]
    exact hdistinct
  rw [hfold]
  apply Finmap.ext_lookup
  intro key
  apply Option.ext
  intro r
  constructor
  · intro hr
    obtain ⟨x, hx, he⟩ := List.mem_map.mp (GoMap.mem_of_lookup_ofList hr)
    obtain ⟨k, _, hk⟩ := List.mem_filterMap.mp hx
    cases he
    rw [h.own hk]
    exact hk
  · intro hr
    apply GoMap.lookup_ofList_of_mem hfst
    refine List.mem_map.mpr ⟨r, List.mem_filterMap.mpr ⟨key, ?_, hr⟩, by rw [h.own hr]⟩
    exact (hmem key).mpr (Finmap.mem_of_lookup_eq_some hr)

section Queues

variable (fw : Handle) (now : Time)

theorem halved_updateQueueCr (h : Halved obj m q.queueUnits q) (threshold : Int) (waitPodsRunning : Bool)
    {order : List String} (hnodup : order.Nodup) (horder : order.toFinset = q.queueUnits.keys) :
    Halved obj m q.queueUnits (updateQueueCr m threshold waitPodsRunning order q) := by
  simp only [updateQueueCr]
  split
  next =>
    obtain ⟨hdistinct, hall⟩ := refile_eq h hnodup horder
    have hempty : Halved obj m ∅
        { q with priorityThreshold := threshold, highPriorityQueue := [], lowPriorityQueue := [] } :=
      halved_empty h.built rfl rfl
    have hrefs := GoMap.forall_mem_lookups (fun _ _ => h.allocated) order
    have hfiled := halved_distribute hempty _ hrefs hdistinct (fun r _ => Finmap.lookup_empty _)
    rw [hall] at hfiled
    exact hfiled.congr rfl rfl rfl
  next => exact h.congr rfl rfl rfl

theorem halved_fix (h : Halved obj m q.queueUnits q) (order : List String) :
    Halved obj m (fix m order q).queueUnits (fix m order q) := by
  have hrefs : ∀ r ∈ order.filterMap q.queueUnits.lookup, m.heap.Allocated r ∧
      ∀ x, q.queueUnits.lookup (m.key r) = some x → x = r := by
    intro r hr
    obtain ⟨key, _, hk⟩ := List.mem_filterMap.mp hr
    refine ⟨h.allocated hk, fun x hx => ?_⟩
    rw [h.own hk, hk] at hx
    exact (Option.some.inj hx).symm
  rw [fix]
  revert hrefs
  generalize order.filterMap q.queueUnits.lookup = refs
  intro hrefs
  induction refs generalizing q with
  | nil => exact h
  | cons r refs ih =>
    rw [List.forall_mem_cons] at hrefs
    obtain ⟨⟨hr, hheld⟩, hrest⟩ := hrefs
    have hdrop := halved_drop h (h.built.key hr).symm (h.built.name hr) (fun x hx => by
      rw [hheld x hx]
      rfl)
    have hunits : (removeFromQueue m (m.get r) q).queueUnits = q.queueUnits := by
      obtain ⟨_, _, he⟩ := removeFromQueue_eq m q (m.get r)
      rw [he]
    have hnext : Halved obj m (q.queueUnits.erase (m.key r))
        { removeFromQueue m (m.get r) q with queueUnits := q.queueUnits.erase (m.key r) } := hdrop.congr rfl rfl rfl
    rw [List.foldl_cons]
    dsimp only
    rw [hunits]
    refine ih hnext ?_
    exact fun x hx => ⟨(hrest x hx).1, fun y hy => (hrest x hx).2 y (GoMap.lookup_of_erase hy)⟩

theorem halved_add (h : Halved obj m q.queueUnits q) {r : Ref} (hr : m.heap.Allocated r) :
    Halved obj m (addQueueUnitInfo m r q).1.queueUnits (addQueueUnitInfo m r q).1 := by
  rcases addQueueUnitInfo_cases m r q with ⟨_, he⟩ | ⟨_, marks, _, ⟨_, he⟩ | ⟨hnew, reset, he⟩⟩
  · rw [he]
    exact h
  · rw [he]
    exact h.congr rfl rfl rfl
  · have hmarked : Halved obj m q.queueUnits
        { q with queueUnits := q.queueUnits.insert (m.unit r).key r, assumed := marks } := h.congr rfl rfl rfl
    have habsent : q.queueUnits.lookup (m.key r) = none := Finmap.lookup_eq_none.mpr hnew
    have hfiled := halved_file hmarked hr habsent
    have hunits : (addQueueUnitInfo m r q).1.queueUnits = q.queueUnits.insert (m.key r) r := by
      obtain ⟨_, _, hdistribute⟩ := distributeToQueue_eq m
        { q with queueUnits := q.queueUnits.insert (m.unit r).key r, assumed := marks } r
      rw [he, hdistribute]
      rfl
    rw [hunits]
    apply hfiled.congr
    · rw [he]
    · rw [he]
    · rw [he]

variable {s : State}

theorem halved_delete (h : HalvedAt obj s) {qu : QueueUnit} (hqu : obj.Has qu) : HalvedAt obj (delete fw now qu s) := by
  have hinfos : (delete fw now qu s).infos = (filedInfo now qu s).1 := rfl
  obtain ⟨blocked, hdelete⟩ := delete_eq fw now qu s
  rw [HalvedAt, hinfos, hdelete]
  cases hl : s.iq.queueUnits.lookup qu.key with
  | some r =>
    have hfiled : filedInfo now qu s = (s.infos, s.infos.get r) := by rw [filedInfo, hl]
    have hr := h.allocated hl
    rw [hfiled]
    refine (halved_drop h ?_ ?_ (fun x hx => ?_)).congr rfl rfl rfl
    · exact (h.built.key hr).symm.trans (h.own hl)
    · exact (h.built.name hr).trans (h.own hl)
    · cases hl.symm.trans hx
      rfl
  | none =>
    have hfiled : filedInfo now qu s = (s.infos.newQueueUnitInfo now qu, s.infos.fresh now qu) := by
      rw [filedInfo, hl]
    have hmore := h.extend (extends_newQueueUnitInfo s.infos now qu) (built_newQueueUnitInfo h.built hqu now)
    rw [hfiled]
    refine (halved_drop hmore ?_ (Infos.fresh_name _ now qu) (fun x hx => ?_)).congr rfl rfl rfl
    · rw [Infos.fresh_unit, hqu.1]
    · cases hl.symm.trans hx

end Queues

end KoordQueue.Queue.Halves
