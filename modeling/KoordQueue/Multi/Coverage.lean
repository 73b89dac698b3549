import KoordQueue.Multi.Board

namespace KoordQueue.Multi.Coverage

open Api UnitStatus KoordQueue.Queue Memory Frames Filing Contents Calls Board

def Placed (m : Infos) (held : Shelves) (list : List Ref) (key : String) : Prop :=
  (∃ n, key ∈ held n) ∨ ∃ r ∈ list, m.key r = key ∧ isQueueUnitDequeued (m.unit r) = false

/-- What is on a shelf waits to be dequeued, and so far as the keys are due, every
unit that waits has a place. -/
structure Covered (lister : GoMap String QueueUnit) (due : String → Prop) (m : Infos) (held : Shelves)
    (list : List Ref) : Prop extends Sound m held list where
  waiting : ∀ {n key r}, (held n).lookup key = some r → isQueueUnitDequeued (m.unit r) = false
  kept : ∀ {key v}, due key → lister.lookup key = some v → isQueueUnitDequeued v = false → Placed m held list key

variable {lister lister' : GoMap String QueueUnit} {due due' : String → Prop} {m m' : Infos} {held : Shelves}
  {list list' : List Ref} {n : String} {r : Ref} {units : GoMap String Ref} {v : QueueUnit}

theorem covered_lister (h : Covered lister due m held list)
    (hl : ∀ key, due' key → due key ∧ lister'.lookup key = lister.lookup key) : Covered lister' due' m held list where
  toSound := h.toSound
  waiting := h.waiting
  kept hd hv := h.kept (hl _ hd).1 ((hl _ hd).2 ▸ hv)

theorem covered_extends (h : Covered lister due m held list) (hm : Extends m m') : Covered lister due m' held list where
  toSound := sound_infos h.toSound (sameKeys_extends hm)
  waiting hk := by
    rw [hm.unit ((h.filed _).allocated hk)]
    exact h.waiting hk
  kept hd hv hw := by
    rcases h.kept hd hv hw with hheld | ⟨r, hr, hkey, hwait⟩
    · exact Or.inl hheld
    · refine Or.inr ⟨r, hr, ?_, ?_⟩
      · rw [Infos.key, hm.unit (h.good r hr)]
        exact hkey
      · rw [hm.unit (h.good r hr)]
        exact hwait

theorem covered_perm (h : Covered lister due m held list) (hlist : list'.Perm list) :
    Covered lister due m held list' where
  toSound := sound_perm h.toSound hlist
  waiting := h.waiting
  kept hd hv hw := (h.kept hd hv hw).imp_right (fun ⟨r, hr, hkey⟩ => ⟨r, hlist.mem_iff.mpr hr, hkey⟩)

theorem covered_tail (h : Covered lister due m held (r :: list))
    (hgone : ∀ v, lister.lookup (m.key r) = some v → isQueueUnitDequeued v = true) :
    Covered lister due m held list where
  toSound := sound_tail h.toSound
  waiting := h.waiting
  kept hd hv hw := by
    rcases h.kept hd hv hw with hheld | ⟨x, hx, rfl, hwait⟩
    · exact Or.inl hheld
    · rcases List.mem_cons.mp hx with rfl | hx
      · rw [hgone _ hv] at hw
        cases hw
      · exact Or.inr ⟨x, hx, rfl, hwait⟩

theorem covered_insert (h : Covered lister due m held (r :: list)) (hr : isQueueUnitDequeued (m.unit r) = false)
    (n : String) : Covered lister due m (Function.update held n ((held n).insert (m.key r) r)) list where
  toSound := sound_insert h.toSound n
  waiting hk := by
    rcases lookup_of_insert hk with ⟨_, _, hx⟩ | hk
    · rw [hx]
      exact hr
    · exact h.waiting hk
  kept hd hv hw := by
    rcases h.kept hd hv hw with ⟨n', hn'⟩ | ⟨x, hx, hkey, hwait⟩
    · refine Or.inl ⟨n', ?_⟩
      by_cases he : n' = n
      · subst he
        rw [Function.update_self]
        exact Finmap.mem_insert.mpr (Or.inr hn')
      · rwa [Function.update_of_ne he]
    · rcases List.mem_cons.mp hx with rfl | hx
      · refine Or.inl ⟨n, ?_⟩
        rw [Function.update_self]
        exact Finmap.mem_insert.mpr (Or.inl hkey.symm)
      · exact Or.inr ⟨x, hx, hkey, hwait⟩

theorem covered_place (h : Covered lister due m held (r :: list)) (n : String) :
    Covered lister due m (Function.update held n (added m r (held n))) list := by
  rw [added]
  split
  next hc =>
    rw [Function.update_eq_self]
    refine ⟨sound_tail h.toSound, h.waiting, ?_⟩
    intro key v hd hv hw
    rcases h.kept hd hv hw with hheld | ⟨x, hx, hkey, hwait⟩
    · exact Or.inl hheld
    · rcases List.mem_cons.mp hx with rfl | hx
      · have hmem := hc.resolve_left (by simp [hwait])
        exact Or.inl ⟨n, hkey ▸ hmem⟩
      · exact Or.inr ⟨x, hx, hkey, hwait⟩
  next hc =>
    exact covered_insert h (Bool.eq_false_of_not_eq_true (fun hd => hc (Or.inl hd))) n

theorem covered_refresh (h : Covered lister due m held list) (hr : r ∈ list)
    (hv : lister.lookup (m.key r) = some v) (hkey : v.key = m.key r) :
    Covered lister due (m.setUnit r v) held list := by
  have hrev := revised_setUnit (h.good r hr) v
  have hkeys := sameKeys_revised hrev hkey
  refine ⟨sound_infos h.toSound hkeys, ?_, ?_⟩
  · intro n key x hk
    have hne : x ≠ r := by
      rintro rfl
      exact h.apart hr hk
    rw [(hrev x ((h.filed n).allocated hk)).2.1, if_neg hne]
    exact h.waiting hk
  · intro key v' hd hv' hw
    rcases h.kept hd hv' hw with hheld | ⟨x, hx, rfl, hwait⟩
    · exact Or.inl hheld
    · refine Or.inr ⟨x, hx, (hkeys x (h.good x hx)).2.1, ?_⟩
      rw [(hrev x (h.good x hx)).2.1]
      split
      next he =>
        subst he
        rw [hv, Option.some.injEq] at hv'
        rwa [hv']
      next => exact hwait

theorem covered_enlist (h : Covered lister due m held list) (hm : Extends m m') (hr : m'.heap.Allocated r)
    (hfresh : ¬ m.heap.Allocated r) (hv : lister.lookup (m'.key r) = some (m'.unit r))
    (hdue : ∀ key, due' key → due key ∨ key = m'.key r) : Covered lister due' m' held (r :: list) := by
  have hext := covered_extends h hm
  refine ⟨sound_enlist h.toSound hm hr hfresh, hext.waiting, ?_⟩
  intro key v hd hv' hw
  rcases hdue key hd with hd | rfl
  · exact (hext.kept hd hv' hw).imp_right (fun ⟨x, hx, hkey⟩ => ⟨x, List.mem_cons_of_mem r hx, hkey⟩)
  · rw [hv, Option.some.injEq] at hv'
    exact Or.inr ⟨r, List.mem_cons_self, rfl, hv' ▸ hw⟩

theorem covered_shrink (h : Covered lister due m held list) (hw : Within units (held n))
    (hdue : ∀ key ∈ held n, due key → key ∈ units) : Covered lister due m (Function.update held n units) list where
  toSound := sound_shrink h.toSound hw
  waiting hk := h.waiting (lookup_of_within hw hk)
  kept hd hv hwait := by
    rcases h.kept hd hv hwait with ⟨n', hn'⟩ | hlist
    · refine Or.inl ⟨n', ?_⟩
      by_cases he : n' = n
      · subst he
        rw [Function.update_self]
        exact hdue _ hn' hd
      · rwa [Function.update_of_ne he]
    · exact Or.inr hlist

theorem within_erase (units : GoMap String Ref) (key : String) : Within (units.erase key) units :=
  fun _ _ hk => GoMap.lookup_of_erase hk

theorem covered_erase (h : Covered lister due m held list) {key : String} (hkey : ¬ due key) :
    Covered lister due m (Function.update held n ((held n).erase key)) list := by
  refine covered_shrink h (within_erase _ key) ?_
  intro key' hk hd
  refine Finmap.mem_erase.mpr ⟨?_, hk⟩
  rintro rfl
  exact hkey hd

theorem covered_revise (h : Covered lister due m held list) (hrev : Revised m m' r v) {key : String}
    (hk : (held n).lookup key = some r) (hkey : v.key = key) (hv : isQueueUnitDequeued v = false)
    (hdue : ∀ k, due' k → due k ∨ k = key) : Covered lister due' m' held list := by
  have hown : m.key r = key := (h.filed n).own hk
  have hkeys := sameKeys_revised hrev (hkey.trans hown.symm)
  refine ⟨sound_infos h.toSound hkeys, ?_, ?_⟩
  · intro n' key' x hx
    rw [(hrev x ((h.filed n').allocated hx)).2.1]
    split
    next => exact hv
    next => exact h.waiting hx
  · intro key' v' hd hv' hw
    rcases hdue key' hd with hd | rfl
    · rcases h.kept hd hv' hw with hheld | ⟨x, hx, rfl, hwait⟩
      · exact Or.inl hheld
      · have hne : x ≠ r := by
          rintro rfl
          exact h.apart hx hk
        refine Or.inr ⟨x, hx, (hkeys x (h.good x hx)).2.1, ?_⟩
        rw [(hrev x (h.good x hx)).2.1, if_neg hne]
        exact hwait
    · exact Or.inl ⟨n, Finmap.mem_iff.mpr ⟨r, hk⟩⟩

theorem covered_takeOut (h : Covered lister due m held list) {order : List String} (hn : order.Nodup)
    (hunits : Without units (held n) order) :
    Covered lister due m (Function.update held n units) (list ++ order.filterMap (held n).lookup) where
  toSound := sound_takeOut h.toSound hn hunits
  waiting hk := h.waiting (lookup_of_within hunits.within hk)
  kept := by
    intro key v hd hv hw
    rcases h.kept hd hv hw with ⟨n', hn'⟩ | ⟨x, hx, hkey⟩
    · by_cases he : n' = n
      · subst he
        obtain ⟨x, hx⟩ := Finmap.mem_iff.mp hn'
        by_cases hkey : key ∈ order
        · refine Or.inr ⟨x, ?_, (h.filed n').own hx, h.waiting hx⟩
          exact List.mem_append.mpr (Or.inr (List.mem_filterMap.mpr ⟨key, hkey, hx⟩))
        · refine Or.inl ⟨n', Finmap.mem_iff.mpr ⟨x, ?_⟩⟩
          rw [Function.update_self, hunits, if_neg hkey, hx]
      · refine Or.inl ⟨n', ?_⟩
        rwa [Function.update_of_ne he]
    · exact Or.inr ⟨x, List.mem_append.mpr (Or.inl hx), hkey⟩

/-- An `Update` of a queue settles what is due for its unit. An early return settles
nothing, so the unit has to be in order before it. -/
theorem covered_updated {skipped : Bool} {new : QueueUnit} (h : Covered lister (· ≠ new.key) m held list)
    (hnew : lister.lookup new.key = some new) (hu : Updated skipped new m m' (held n) units)
    (hquiet : skipped = true → isQueueUnitDequeued new = true → new.key ∉ held n)
    (hplaced : skipped = true → isQueueUnitDequeued new = false → Placed m held list new.key) :
    Covered lister (fun _ => True) m' (Function.update held n units) list := by
  have hdue : ∀ key : String, True → key ≠ new.key ∨ key = new.key := fun key _ => (em (key = new.key)).symm
  cases hu with
  | untouched skip absent infos same =>
    rw [infos, same, Function.update_eq_self]
    refine ⟨h.toSound, h.waiting, ?_⟩
    intro key v _ hv hw
    rcases hdue key trivial with hne | rfl
    · exact h.kept hne hv hw
    · rw [hnew, Option.some.injEq] at hv
      exact hplaced skip (hv ▸ hw)
  | kept r quiet held same infos =>
    rw [same, Function.update_eq_self]
    have hwaits : isQueueUnitDequeued new = false := by
      rcases quiet with hs | hd
      · exact Bool.eq_false_of_not_eq_true (fun hd => hquiet hs hd (Finmap.mem_iff.mpr ⟨r, held⟩))
      · exact hd
    refine covered_revise h infos held ?_ ?_ hdue
    · rw [keptVersion]
      split
      next => rfl
      next => exact (h.filed n).own held
    · rw [keptVersion]
      split
      next => exact hwaits
      next => exact h.waiting held
  | dropped seen dequeued infos erased =>
    rw [erased]
    have hgone := covered_extends (covered_erase (n := n) h (not_not.mpr rfl)) infos
    refine ⟨hgone.toSound, hgone.waiting, ?_⟩
    intro key v _ hv hw
    rcases hdue key trivial with hne | rfl
    · exact hgone.kept hne hv hw
    · rw [hnew, Option.some.injEq] at hv
      rw [← hv, dequeued] at hw
      cases hw
  | filed r seen waits infos fresh allocated version named inserted =>
    have hkey : m'.key r = new.key := congrArg QueueUnit.key version
    rw [inserted, ← hkey]
    have hlisted : Covered lister (fun _ => True) m' held (r :: list) := by
      refine covered_enlist h infos allocated fresh ?_ (fun key _ => ?_)
      · rw [hkey, version, hnew]
      · rw [hkey]
        exact hdue key trivial
    exact covered_insert hlisted (version ▸ waits) n

end KoordQueue.Multi.Coverage
