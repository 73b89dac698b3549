import KoordQueue.Multi.Places

namespace KoordQueue.Multi.Board

open Api KoordQueue.Queue Memory Frames Filing Contents Calls Handlers Places

abbrev Shelves := String → GoMap String Ref

structure Sound (m : Infos) (held : Shelves) (list : List Ref) : Prop where
  filed : ∀ n, Filed m (held n)
  good : ∀ r ∈ list, m.heap.Allocated r
  once : list.Nodup
  apart : ∀ {r}, r ∈ list → ∀ {n key}, (held n).lookup key ≠ some r
  alone : ∀ {n n' key key' r}, (held n).lookup key = some r → (held n').lookup key' = some r → n = n'

variable {m m' : Infos} {held : Shelves} {list list' : List Ref} {n : String} {r : Ref} {units : GoMap String Ref}

/-- The new infos have those of before, each with its name and for the unit of the
same key. -/
def SameKeys (m m' : Infos) : Prop :=
  ∀ x, m.heap.Allocated x → m'.heap.Allocated x ∧ m'.key x = m.key x ∧ (m'.get x).name = (m.get x).name

theorem sameKeys_extends (h : Extends m m') : SameKeys m m' :=
  fun x hx => ⟨(h x hx).1, congrArg QueueUnit.key (h.unit hx), (h x hx).2.2.1⟩

theorem SameKeys.trans {m'' : Infos} (h : SameKeys m m') (h' : SameKeys m' m'') : SameKeys m m'' := by
  intro x hx
  obtain ⟨hx', hkey, hname⟩ := h x hx
  obtain ⟨hx'', hkey', hname'⟩ := h' x hx'
  exact ⟨hx'', hkey'.trans hkey, hname'.trans hname⟩

def Revised (m m' : Infos) (r : Ref) (version : QueueUnit) : Prop :=
  ∀ x, m.heap.Allocated x → m'.heap.Allocated x ∧ (m'.unit x = if x = r then version else m.unit x) ∧
    (m'.get x).name = (m.get x).name

theorem revised_setUnit (hr : m.heap.Allocated r) (qu : QueueUnit) : Revised m (m.setUnit r qu) r qu :=
  fun x hx => ⟨(Heap.allocated_set _ _ _ _).mpr hx, Infos.unit_setUnit hr qu x, Infos.name_setUnit hr qu x⟩

theorem sameKeys_revised {version : QueueUnit} (h : Revised m m' r version) (hkey : version.key = m.key r) :
    SameKeys m m' := by
  intro x hx
  obtain ⟨hx', hunit, hname⟩ := h x hx
  refine ⟨hx', ?_, hname⟩
  rw [Infos.key, hunit]
  split
  next he => rw [hkey, he]
  next => rfl

theorem filed_infos (hf : Filed m units) (hm : SameKeys m m') : Filed m' units where
  allocated hk := (hm _ (hf.allocated hk)).1
  own hk := (hm _ (hf.allocated hk)).2.1.trans (hf.own hk)

theorem sound_infos (h : Sound m held list) (hm : SameKeys m m') : Sound m' held list where
  filed n := filed_infos (h.filed n) hm
  good r hr := (hm r (h.good r hr)).1
  once := h.once
  apart := h.apart
  alone := h.alone

theorem sound_subset (h : Sound m held list) (hlist : ∀ r ∈ list', r ∈ list) (hn : list'.Nodup) :
    Sound m held list' where
  filed := h.filed
  good r hr := h.good r (hlist r hr)
  once := hn
  apart hr := h.apart (hlist _ hr)
  alone := h.alone

theorem sound_perm (h : Sound m held list) (hlist : list'.Perm list) : Sound m held list' :=
  sound_subset h (fun _ hr => hlist.subset hr) (hlist.nodup_iff.mpr h.once)

theorem sound_tail (h : Sound m held (r :: list)) : Sound m held list :=
  sound_subset h (fun _ hx => List.mem_cons_of_mem r hx) (List.nodup_cons.mp h.once).2

theorem sound_enlist (h : Sound m held list) (hm : Extends m m') (hr : m'.heap.Allocated r)
    (hfresh : ¬ m.heap.Allocated r) : Sound m' held (r :: list) where
  filed := (sound_infos h (sameKeys_extends hm)).filed
  good x hx := by
    rcases List.mem_cons.mp hx with rfl | hx
    · exact hr
    · exact (hm x (h.good x hx)).1
  once := List.nodup_cons.mpr ⟨fun hx => hfresh (h.good r hx), h.once⟩
  apart := by
    intro x hx n key hk
    rcases List.mem_cons.mp hx with rfl | hx
    · exact hfresh ((h.filed n).allocated hk)
    · exact h.apart hx hk
  alone := h.alone

theorem lookup_update (held : Shelves) (n n' : String) (units : GoMap String Ref) (key : String) :
    (Function.update held n units n').lookup key = if n' = n then units.lookup key else (held n').lookup key := by
  by_cases he : n' = n
  · subst he
    rw [if_pos rfl, Function.update_self]
  · rw [if_neg he, Function.update_of_ne he]

variable {order : List String} {key n' : String}

theorem lookup_of_within (hw : Within units (held n))
    (hk : (Function.update held n units n').lookup key = some r) : (held n').lookup key = some r := by
  rw [lookup_update] at hk
  split at hk
  next he =>
    subst he
    exact hw key r hk
  next => exact hk

theorem filed_within (hf : ∀ n, Filed m (held n)) (hw : Within units (held n)) (n' : String) :
    Filed m (Function.update held n units n') where
  allocated hk := (hf n').allocated (lookup_of_within hw hk)
  own hk := (hf n').own (lookup_of_within hw hk)

theorem sound_shrink (h : Sound m held list) (hw : Within units (held n)) :
    Sound m (Function.update held n units) list where
  filed := filed_within (fun n' => h.filed n') hw
  good := h.good
  once := h.once
  apart hr _ _ hk := h.apart hr (lookup_of_within hw hk)
  alone hk hk' := h.alone (lookup_of_within hw hk) (lookup_of_within hw hk')

theorem lookup_of_insert {x : Ref}
    (hk : (Function.update held n ((held n).insert (m.key r) r) n').lookup key = some x) :
    (n' = n ∧ key = m.key r ∧ x = r) ∨ (held n').lookup key = some x := by
  rw [lookup_update] at hk
  split at hk
  next he =>
    subst he
    rw [GoMap.lookup_insert_eq] at hk
    split at hk
    next hkey => exact Or.inl ⟨rfl, hkey, (Option.some.inj hk).symm⟩
    next => exact Or.inr hk
  next => exact Or.inr hk

theorem filed_insert (hf : ∀ n, Filed m (held n)) (hr : m.heap.Allocated r) (n n' : String) :
    Filed m (Function.update held n ((held n).insert (m.key r) r) n') where
  allocated := by
    intro key x hk
    rcases lookup_of_insert hk with ⟨_, _, rfl⟩ | hk
    · exact hr
    · exact (hf n').allocated hk
  own := by
    intro key x hk
    rcases lookup_of_insert hk with ⟨_, hkey, rfl⟩ | hk
    · exact hkey.symm
    · exact (hf n').own hk

theorem sound_insert (h : Sound m held (r :: list)) (n : String) :
    Sound m (Function.update held n ((held n).insert (m.key r) r)) list where
  filed := filed_insert (fun n' => h.filed n') (h.good r List.mem_cons_self) n
  good x hx := h.good x (List.mem_cons_of_mem r hx)
  once := (List.nodup_cons.mp h.once).2
  apart := by
    intro x hx n' key hk
    rcases lookup_of_insert hk with ⟨_, _, rfl⟩ | hk
    · exact (List.nodup_cons.mp h.once).1 hx
    · exact h.apart (List.mem_cons_of_mem r hx) hk
  alone := by
    intro n' n'' key key' x hk hk'
    rcases lookup_of_insert hk with ⟨hn, _, hx⟩ | hk₁
    · rcases lookup_of_insert hk' with ⟨hn', _, _⟩ | hk₂
      · rw [hn, hn']
      · exact absurd (hx ▸ hk₂) (h.apart List.mem_cons_self)
    · rcases lookup_of_insert hk' with ⟨_, _, hx⟩ | hk₂
      · exact absurd (hx ▸ hk₁) (h.apart List.mem_cons_self)
      · exact h.alone hk₁ hk₂

theorem nodup_taken (h : Filed m units) (hn : order.Nodup) : (order.filterMap units.lookup).Nodup := by
  induction order with
  | nil => exact List.nodup_nil
  | cons key order ih =>
    obtain ⟨hkey, hn⟩ := List.nodup_cons.mp hn
    rw [List.filterMap_cons]
    split
    next => exact ih hn
    next r hk =>
      refine List.nodup_cons.mpr ⟨fun hr => ?_, ih hn⟩
      obtain ⟨key', hkey', hk'⟩ := List.mem_filterMap.mp hr
      have he : key = key' := (h.own hk).symm.trans (h.own hk')
      exact hkey (he ▸ hkey')

def Without (units' units : GoMap String Ref) (order : List String) : Prop :=
  ∀ key, units'.lookup key = if key ∈ order then none else units.lookup key

theorem Without.within {units' : GoMap String Ref} (h : Without units' units order) : Within units' units := by
  intro key r hk
  rw [h] at hk
  split at hk
  next => cases hk
  next => exact hk

theorem mem_ranges {units : GoMap String Ref} (h : Ranges order units.keys) (key : String) :
    key ∈ order ↔ key ∈ units := by
  rw [← List.mem_toFinset, h.2, Finmap.mem_keys]

theorem without_all {units : GoMap String Ref} (h : Ranges order units.keys) : Without ∅ units order := by
  intro key
  rw [Finmap.lookup_empty]
  split
  next => rfl
  next hkey => exact (Finmap.lookup_eq_none.mpr (mt (mem_ranges h key).mpr hkey)).symm

theorem sound_takeOut (h : Sound m held list) (hn : order.Nodup) (hunits : Without units (held n) order) :
    Sound m (Function.update held n units) (list ++ order.filterMap (held n).lookup) := by
  have hshrunk := sound_shrink h hunits.within
  refine ⟨hshrunk.filed, ?_, ?_, ?_, hshrunk.alone⟩
  · intro r hr
    rcases List.mem_append.mp hr with hr | hr
    · exact h.good r hr
    · obtain ⟨key, _, hk⟩ := List.mem_filterMap.mp hr
      exact (h.filed n).allocated hk
  · refine List.nodup_append.mpr ⟨h.once, nodup_taken (h.filed n) hn, ?_⟩
    rintro r hr _ hr' rfl
    obtain ⟨key, _, hk⟩ := List.mem_filterMap.mp hr'
    exact h.apart hr hk
  · intro r hr n' key hk
    rcases List.mem_append.mp hr with hr | hr
    · exact hshrunk.apart hr hk
    · obtain ⟨key', hkey', hk'⟩ := List.mem_filterMap.mp hr
      have hk₁ := lookup_of_within hunits.within hk
      have he : n' = n := h.alone hk₁ hk'
      have hkeys : key = key' := ((h.filed n').own hk₁).symm.trans ((h.filed n).own hk')
      rw [lookup_update, if_pos he, hunits, hkeys, if_pos hkey'] at hk
      cases hk

section Views

variable {s t : State} {hidden : Option String}

def shelves (hidden : Option String) (s : State) : Shelves := fun n => if hidden = some n then ∅ else contents s n

theorem shelves_none (s : State) : shelves none s = contents s := by
  funext n
  exact if_neg (Option.some_ne_none n).symm

theorem shelves_touched (ht : Touched s t n units) (hn : hidden ≠ some n) :
    shelves hidden t = Function.update (shelves hidden s) n units := by
  funext n'
  by_cases he : n' = n
  · subst he
    rw [Function.update_self, shelves, if_neg hn, ht.contents, if_pos rfl]
  · rw [Function.update_of_ne he, shelves, shelves, ht.contents, if_neg he]

theorem shelves_touched_hidden (ht : Touched s t n units) : shelves (some n) t = shelves (some n) s := by
  funext n'
  rw [shelves, shelves, ht.contents]
  by_cases he : n' = n
  · rw [if_pos (congrArg some he.symm), if_pos (congrArg some he.symm)]
  · rw [if_neg he]

theorem contents_touched (ht : Touched s t n units) : contents t = Function.update (contents s) n units := by
  rw [← shelves_none t, ← shelves_none s]
  exact shelves_touched ht (Option.some_ne_none n).symm

theorem shelves_hide (s : State) (n : String) : shelves (some n) s = Function.update (contents s) n ∅ := by
  funext n'
  by_cases he : n' = n
  · subst he
    rw [Function.update_self, shelves, if_pos rfl]
  · rw [Function.update_of_ne he, shelves, if_neg (fun h => he (Option.some.inj h).symm)]

theorem contents_erase (s : State) (n : String) :
    contents { s with queueMap := s.queueMap.erase n } = shelves (some n) s := by
  funext n'
  rw [shelves, contents, contents]
  dsimp only
  rw [GoMap.lookup_erase_eq]
  by_cases he : n' = n
  · rw [if_pos he, if_pos (congrArg some he.symm)]
    rfl
  · rw [if_neg he, if_neg (fun h => he (Option.some.inj h).symm)]

end Views

end KoordQueue.Multi.Board
