import KoordQueue.Multi.Board

namespace KoordQueue.Multi.Indexing

open Api UnitStatus KoordQueue.Queue Memory Frames Filing Contents Calls Board

/-- The index `names` agrees with the shelves and with `parted`, the units that left
a queue when they were dequeued. A loose unit has been taken off a shelf and its
entry is out of date. -/
structure Indexed (loose : Finset String) (m : Infos) (held : Shelves) (list : List Ref)
    (names : String → Option String) (parted : Finset (String × String)) : Prop where
  filed : ∀ n, Filed m (held n)
  good : ∀ r ∈ list, m.heap.Allocated r
  called : ∀ {n key r}, (held n).lookup key = some r → (m.get r).name = key
  calledListed : ∀ r ∈ list, (m.get r).name = m.key r
  listed : (list.map m.key).Nodup
  agrees : ∀ {key n}, key ∉ loose → (names key = some n ↔ key ∈ held n ∨ (n, key) ∈ parted)
  free : ∀ {key n}, key ∈ loose → key ∉ held n ∧ (n, key) ∉ parted
  homeless : ∀ {key}, key ∈ list.map m.key → key ∉ loose → names key = none

variable {loose : Finset String} {m m' : Infos} {held : Shelves} {list list' : List Ref}
  {names : String → Option String} {parted : Finset (String × String)} {n key : String} {r : Ref}
  {units : GoMap String Ref}

theorem Indexed.unplaced (h : Indexed loose m held list names parted) (hkey : key ∈ list.map m.key) (n : String) :
    key ∉ held n ∧ (n, key) ∉ parted := by
  by_cases hl : key ∈ loose
  · exact h.free hl
  · have hnone := h.homeless hkey hl
    have hagrees := (h.agrees (n := n) hl).not
    rw [hnone] at hagrees
    exact not_or.mp (hagrees.mp (Option.some_ne_none n).symm)

theorem map_key_congr (hm : SameKeys m m') (hlist : ∀ r ∈ list, m.heap.Allocated r) :
    list.map m'.key = list.map m.key :=
  List.map_congr_left (fun r hr => (hm r (hlist r hr)).2.1)

theorem indexed_infos (h : Indexed loose m held list names parted) (hm : SameKeys m m') :
    Indexed loose m' held list names parted where
  filed n := filed_infos (h.filed n) hm
  good r hr := (hm r (h.good r hr)).1
  called hk := (hm _ ((h.filed _).allocated hk)).2.2.trans (h.called hk)
  calledListed r hr := by
    obtain ⟨_, hkey, hname⟩ := hm r (h.good r hr)
    rw [hname, hkey]
    exact h.calledListed r hr
  listed := by
    rw [map_key_congr hm h.good]
    exact h.listed
  agrees := h.agrees
  free := h.free
  homeless hkey := by
    rw [map_key_congr hm h.good] at hkey
    exact h.homeless hkey

theorem indexed_perm (h : Indexed loose m held list names parted) (hlist : list'.Perm list) :
    Indexed loose m held list' names parted where
  filed := h.filed
  good r hr := h.good r (hlist.subset hr)
  called := h.called
  calledListed r hr := h.calledListed r (hlist.subset hr)
  listed := (hlist.map m.key).nodup_iff.mpr h.listed
  agrees := h.agrees
  free := h.free
  homeless hkey := h.homeless ((hlist.map m.key).subset hkey)

theorem indexed_tail (h : Indexed loose m held (r :: list) names parted) : Indexed loose m held list names parted where
  filed := h.filed
  good x hx := h.good x (List.mem_cons_of_mem r hx)
  called := h.called
  calledListed x hx := h.calledListed x (List.mem_cons_of_mem r hx)
  listed := (List.nodup_cons.mp h.listed).2
  agrees := h.agrees
  free := h.free
  homeless hkey := h.homeless (List.mem_cons_of_mem _ hkey)

theorem indexed_enlist (h : Indexed loose m held list names parted) (hr : m.heap.Allocated r)
    (hname : (m.get r).name = m.key r) (hkey : m.key r ∉ list.map m.key) (hnone : names (m.key r) = none) :
    Indexed loose m held (r :: list) names parted where
  filed := h.filed
  good x hx := by
    rcases List.mem_cons.mp hx with rfl | hx
    · exact hr
    · exact h.good x hx
  called := h.called
  calledListed x hx := by
    rcases List.mem_cons.mp hx with rfl | hx
    · exact hname
    · exact h.calledListed x hx
  listed := List.nodup_cons.mpr ⟨hkey, h.listed⟩
  agrees := h.agrees
  free := h.free
  homeless hx hl := by
    rcases List.mem_cons.mp hx with rfl | hx
    · exact hnone
    · exact h.homeless hx hl

theorem indexed_filter (h : Indexed loose m held list names parted) :
    Indexed loose m held list names (parted.filter (fun e => e.2 ∉ held e.1)) where
  filed := h.filed
  good := h.good
  called := h.called
  calledListed := h.calledListed
  listed := h.listed
  agrees hl := by
    rw [h.agrees hl, Finset.mem_filter]
    tauto
  free hl := ⟨(h.free hl).1, fun hp => (h.free hl).2 (Finset.mem_filter.mp hp).1⟩
  homeless := h.homeless

theorem mem_update (held : Shelves) (n n' : String) (units : GoMap String Ref) (key : String) :
    key ∈ Function.update held n units n' ↔ if n' = n then key ∈ units else key ∈ held n' := by
  by_cases he : n' = n
  · subst he
    rw [Function.update_self, if_pos rfl]
  · rw [Function.update_of_ne he, if_neg he]

theorem indexed_place (h : Indexed loose m held (r :: list) names parted) (n : String) :
    Indexed (loose.erase (m.key r)) m (Function.update held n ((held n).insert (m.key r) r)) list
      (Function.update names (m.key r) (some n)) parted where
  filed := filed_insert (fun n' => h.filed n') (h.good r List.mem_cons_self) n
  good x hx := h.good x (List.mem_cons_of_mem r hx)
  called hk := by
    rcases lookup_of_insert hk with ⟨_, hkey, rfl⟩ | hk
    · rw [hkey]
      exact h.calledListed _ List.mem_cons_self
    · exact h.called hk
  calledListed x hx := h.calledListed x (List.mem_cons_of_mem r hx)
  listed := (List.nodup_cons.mp h.listed).2
  agrees {key n'} hl := by
    obtain ⟨hfree, hparted⟩ := h.unplaced (List.mem_cons_self : m.key r ∈ (r :: list).map m.key) n'
    rw [mem_update]
    by_cases hkey : key = m.key r
    · subst hkey
      rw [Function.update_self, Option.some.injEq]
      by_cases he : n' = n
      · rw [if_pos he, Finmap.mem_insert]
        exact ⟨fun _ => Or.inl (Or.inl rfl), fun _ => he.symm⟩
      · rw [if_neg he]
        exact ⟨fun hn => absurd hn.symm he, fun hor => (not_or.mpr ⟨hfree, hparted⟩ hor).elim⟩
    · have hl' : key ∉ loose := fun hin => hl (Finset.mem_erase.mpr ⟨hkey, hin⟩)
      rw [Function.update_of_ne hkey, h.agrees hl']
      by_cases he : n' = n
      · subst he
        rw [if_pos rfl, Finmap.mem_insert]
        tauto
      · rw [if_neg he]
  free {key n'} hl := by
    obtain ⟨hkey, hin⟩ := Finset.mem_erase.mp hl
    obtain ⟨hfree, hparted⟩ := h.free (n := n') hin
    refine ⟨?_, hparted⟩
    rw [mem_update]
    split
    next he =>
      subst he
      rw [Finmap.mem_insert]
      tauto
    next => exact hfree
  homeless {key} hx hl := by
    have hkey : key ≠ m.key r := by
      rintro rfl
      exact (List.nodup_cons.mp h.listed).1 hx
    rw [Function.update_of_ne hkey]
    exact h.homeless (List.mem_cons_of_mem _ hx) (fun hin => hl (Finset.mem_erase.mpr ⟨hkey, hin⟩))

variable {order : List String} {n' : String}

theorem keys_taken {units : GoMap String Ref} (hf : Filed m units)
    (hin : ∀ key ∈ order, key ∈ units) : (order.filterMap units.lookup).map m.key = order := by
  rw [List.map_filterMap]
  refine (List.filterMap_congr (g := some) (fun key hkey => ?_)).trans List.filterMap_some
  obtain ⟨r, hr⟩ := Finmap.mem_iff.mp (hin key hkey)
  rw [hr, Option.map_some, hf.own hr]

theorem mem_update_without (hunits : Without units (held n) order) (n' key : String) :
    key ∈ Function.update held n units n' ↔ key ∈ held n' ∧ ¬ (n' = n ∧ key ∈ order) := by
  rw [mem_update]
  by_cases he : n' = n
  · subst he
    rw [if_pos rfl, Finmap.mem_iff, hunits]
    by_cases hkey : key ∈ order
    · simp [hkey]
    · simp [hkey, Finmap.mem_iff]
  · simp [he]

theorem Indexed.only (h : Indexed loose m held list names parted) (hin : key ∈ held n)
    (hor : key ∈ held n' ∨ (n', key) ∈ parted) : n' = n := by
  have hl : key ∉ loose := fun hl => (h.free hl).1 hin
  have hname := (h.agrees hl).mpr (Or.inl hin)
  rw [(h.agrees hl).mpr hor, Option.some.injEq] at hname
  exact hname

theorem indexed_takeOut (h : Indexed loose m held list names parted) (hn : order.Nodup)
    (hunits : Without units (held n) order) (hheld : ∀ key ∈ order, key ∈ held n ∧ (n, key) ∉ parted) :
    Indexed (loose ∪ order.toFinset) m (Function.update held n units) (list ++ order.filterMap (held n).lookup)
      names parted where
  filed := filed_within (fun n' => h.filed n') hunits.within
  good x hx := by
    rcases List.mem_append.mp hx with hx | hx
    · exact h.good x hx
    · obtain ⟨key, _, hk⟩ := List.mem_filterMap.mp hx
      exact (h.filed n).allocated hk
  called hk := h.called (lookup_of_within hunits.within hk)
  calledListed x hx := by
    rcases List.mem_append.mp hx with hx | hx
    · exact h.calledListed x hx
    · obtain ⟨key, _, hk⟩ := List.mem_filterMap.mp hx
      rw [(h.filed n).own hk]
      exact h.called hk
  listed := by
    rw [List.map_append, keys_taken (h.filed n) (fun key hkey => (hheld key hkey).1)]
    refine List.nodup_append.mpr ⟨h.listed, hn, ?_⟩
    rintro key hlist _ hkey rfl
    exact (h.unplaced hlist n).1 (hheld key hkey).1
  agrees {key n'} hl := by
    obtain ⟨hl, hkey⟩ := not_or.mp (Finset.mem_union.not.mp hl)
    rw [List.mem_toFinset] at hkey
    rw [mem_update_without hunits, h.agrees hl]
    simp [hkey]
  free {key n'} hl := by
    rw [mem_update_without hunits]
    rcases Finset.mem_union.mp hl with hl | hkey
    · exact ⟨fun hin => (h.free hl).1 hin.1, (h.free hl).2⟩
    · rw [List.mem_toFinset] at hkey
      obtain ⟨hin, hstays⟩ := hheld key hkey
      constructor
      · rintro ⟨hin', hout⟩
        exact hout ⟨h.only hin (Or.inl hin'), hkey⟩
      · intro hp
        rw [h.only hin (Or.inr hp)] at hp
        exact hstays hp
  homeless {key} hx hl := by
    obtain ⟨hl, hkey⟩ := not_or.mp (Finset.mem_union.not.mp hl)
    rw [List.mem_toFinset] at hkey
    rw [List.map_append, keys_taken (h.filed n) (fun key hkey => (hheld key hkey).1)] at hx
    exact h.homeless ((List.mem_append.mp hx).resolve_right hkey) hl

theorem indexed_clear (h : Indexed ∅ m held list names parted) (hn : ∀ n', names key = some n' → n' = n) :
    Indexed ∅ m (Function.update held n ((held n).erase key)) list (Function.update names key none)
      (parted.filter (fun e => e.2 ≠ key)) where
  filed := filed_within (fun n' => h.filed n') (fun _ _ => GoMap.lookup_of_erase)
  good := h.good
  called hk := h.called (lookup_of_within (fun _ _ => GoMap.lookup_of_erase) hk)
  calledListed := h.calledListed
  listed := h.listed
  agrees {key' n'} hl := by
    rw [mem_update, Finset.mem_filter]
    by_cases hkey : key' = key
    · subst hkey
      rw [Function.update_self]
      refine ⟨fun hn' => absurd hn' (Option.some_ne_none n').symm, ?_⟩
      rintro (hin | ⟨_, hne⟩)
      · split at hin
        next => exact absurd rfl (Finmap.mem_erase.mp hin).1
        next he => exact absurd (hn n' ((h.agrees hl).mpr (Or.inl hin))) he
      · exact absurd rfl hne
    · rw [Function.update_of_ne hkey, h.agrees hl]
      by_cases he : n' = n
      · subst he
        rw [if_pos rfl, Finmap.mem_erase]
        tauto
      · rw [if_neg he]
        tauto
  free hl := absurd hl (Finset.notMem_empty _)
  homeless {key'} hx hl := by
    by_cases hkey : key' = key
    · subst hkey
      exact Function.update_self _ _ _
    · rw [Function.update_of_ne hkey]
      exact h.homeless hx hl

def leftOver (n : String) (old new : GoMap String Ref) : Finset (String × String) :=
  (old.keys \ new.keys).image (Prod.mk n)

theorem mem_leftOver {old new : GoMap String Ref} :
    (n', key) ∈ leftOver n old new ↔ n' = n ∧ key ∈ old ∧ key ∉ new := by
  simp only [leftOver, Finset.mem_image, Finset.mem_sdiff, Finmap.mem_keys, Prod.mk.injEq]
  constructor
  · rintro ⟨_, hin, rfl, rfl⟩
    exact ⟨rfl, hin⟩
  · rintro ⟨rfl, hin⟩
    exact ⟨key, hin, rfl, rfl⟩

theorem indexed_park (h : Indexed ∅ m held list names parted) (hw : Within units (held n)) :
    Indexed ∅ m (Function.update held n units) list names (parted ∪ leftOver n (held n) units) where
  filed := filed_within (fun n' => h.filed n') hw
  good := h.good
  called hk := h.called (lookup_of_within hw hk)
  calledListed := h.calledListed
  listed := h.listed
  agrees {key n'} hl := by
    have hsub : key ∈ units → key ∈ held n := by
      intro hin
      obtain ⟨r, hr⟩ := Finmap.mem_iff.mp hin
      exact Finmap.mem_iff.mpr ⟨r, hw key r hr⟩
    rw [mem_update, Finset.mem_union, mem_leftOver, h.agrees hl]
    by_cases he : n' = n
    · subst he
      rw [if_pos rfl]
      tauto
    · rw [if_neg he]
      tauto
  free hl := absurd hl (Finset.notMem_empty _)
  homeless := h.homeless

theorem indexed_file (h : Indexed ∅ m held list names parted) (hr : m.heap.Allocated r)
    (hname : (m.get r).name = m.key r) (hn : names (m.key r) = some n) :
    Indexed ∅ m (Function.update held n ((held n).insert (m.key r) r)) list names parted where
  filed := filed_insert (fun n' => h.filed n') hr n
  good := h.good
  called hk := by
    rcases lookup_of_insert hk with ⟨_, hkey, rfl⟩ | hk
    · rw [hkey]
      exact hname
    · exact h.called hk
  calledListed := h.calledListed
  listed := h.listed
  agrees {key n'} hl := by
    rw [mem_update, h.agrees hl]
    by_cases he : n' = n
    · subst he
      rw [if_pos rfl, Finmap.mem_insert]
      constructor
      · tauto
      · rintro ((rfl | hin) | hp)
        · exact (h.agrees hl).mp hn
        · exact Or.inl hin
        · exact Or.inr hp
    · rw [if_neg he]
  free hl := absurd hl (Finset.notMem_empty _)
  homeless := h.homeless

/-- An `Update` of the queue that the index names. A unit leaves the queue only when
it is dequeued. -/
theorem indexed_updated {skipped : Bool} {new : QueueUnit} (h : Indexed ∅ m held list names parted)
    (hn : names new.key = some n) (hu : Updated skipped new m m' (held n) units) :
    Indexed ∅ m' (Function.update held n units) list names
      (parted ∪ if isQueueUnitDequeued new then leftOver n (held n) units else ∅) := by
  have hsame : leftOver n (held n) (held n) = ∅ := by
    rw [leftOver, sdiff_self]
    rfl
  cases hu with
  | untouched skip absent infos same =>
    rw [infos, same, Function.update_eq_self, hsame, ite_self, Finset.union_empty]
    exact h
  | kept r quiet held same infos =>
    rw [same, Function.update_eq_self, hsame, ite_self, Finset.union_empty]
    refine indexed_infos h (sameKeys_revised infos ?_)
    rw [(h.filed n).own held, keptVersion]
    split
    next => rfl
    next => exact (h.filed n).own held
  | dropped seen dequeued infos erased =>
    rw [if_pos dequeued, erased]
    exact indexed_infos (indexed_park h (fun _ _ => GoMap.lookup_of_erase)) (sameKeys_extends infos)
  | filed r seen waits infos fresh allocated version named inserted =>
    have hkey : m'.key r = new.key := congrArg QueueUnit.key version
    rw [waits, inserted, ← hkey]
    simp only [Bool.false_eq_true, if_false, Finset.union_empty]
    exact indexed_file (indexed_infos h (sameKeys_extends infos)) allocated (named.trans hkey.symm) (hkey ▸ hn)

end KoordQueue.Multi.Indexing
