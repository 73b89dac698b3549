import KoordQueue.Multi.Indexing

namespace KoordQueue.Multi.Rehoming

open Api UnitStatus KoordQueue.Queue Memory Frames Filing Object Contents Calls Handlers Places Board
  Indexing

def nameOf (s : State) : String → Option String := fun key => s.queueUnitToQueue.lookup key

theorem nameOf_touched {s t : State} {n : String} {units : GoMap String Ref} (h : Touched s t n units) :
    nameOf t = nameOf s := by
  unfold nameOf
  rw [h.index]

theorem nameOf_insert {s t : State} {key n : String} (h : t.queueUnitToQueue = s.queueUnitToQueue.insert key n) :
    nameOf t = Function.update (nameOf s) key (some n) := by
  funext k
  rw [Function.update_apply]
  unfold nameOf
  rw [h, GoMap.lookup_insert_eq]

theorem lookup_erase_index (index : GoMap String String) (key : String) :
    (fun k => (index.erase key).lookup k) = Function.update (fun k => index.lookup k) key none := by
  funext k
  rw [GoMap.lookup_erase_eq, Function.update_apply]

section Loops

variable {fw : MultiHandle} {now : Time} {g : Mapping} {s t : State} {hidden : Option String}
  {loose : Finset String} {parted : Finset (String × String)}

/-- A registered queue that the mapping answers with takes the unit: the unit waits,
and the queue stays. -/
def Welcomed (s : State) (g : Mapping) (gone : Option String) (refs : List Ref) : Prop :=
  ∀ r ∈ refs, ∀ v ∈ s.lister.lookup (s.infos.key r), g.fails v = false → g.name v ≠ "" → g.name v ∈ s.queueMap →
    isQueueUnitDequeued v = false ∧ gone ≠ some (g.name v)

def Homed (s : State) (g : Mapping) (r : Ref) : Prop :=
  ∃ v ∈ s.lister.lookup (s.infos.key r), g.fails v = false ∧ g.name v ≠ "" ∧ g.name v ∈ s.queueMap

variable {list refs : List Ref} {order : List String} {r : Ref} {n : String}

theorem added_of_waiting {m : Infos} {units : GoMap String Ref} (hd : isQueueUnitDequeued (m.unit r) = false)
    (hk : m.key r ∉ units) : added m r units = units.insert (m.key r) r := by
  rw [added, if_neg]
  rintro (hdequeued | hin)
  · rw [hd] at hdequeued
    cases hdequeued
  · exact hk hin

theorem indexed_enter {m m' : Infos} {held : Shelves} {names : String → Option String}
    (h : Indexed loose m held (r :: list) names parted) (hd : isQueueUnitDequeued (m.unit r) = false) (n : String)
    (hm : Extends m m') : Indexed (loose.erase (m.key r)) m' (Function.update held n (added m r (held n))) list
      (Function.update names (m.key r) (some n)) parted := by
  have hfree := (h.unplaced (List.mem_cons_self : m.key r ∈ (r :: list).map m.key) n).1
  rw [added_of_waiting hd hfree]
  exact indexed_infos (indexed_place h n) (sameKeys_extends hm)

theorem not_loose_of_homeless {v : QueueUnit} (hhome : s.infos.key r ∈ loose → Homed s g r)
    (hv : s.lister.lookup (s.infos.key r) = some v)
    (hno : g.fails v = true ∨ g.name v = "" ∨ s.queueMap.lookup (g.name v) = none) : s.infos.key r ∉ loose := by
  intro hin
  obtain ⟨v', hv', hok, hnamed, hreg⟩ := hhome hin
  rw [Option.mem_def, hv, Option.some.injEq] at hv'
  subst hv'
  rcases hno with hfails | hempty | hnone
  · rw [hok] at hfails
    cases hfails
  · exact hnamed hempty
  · exact Finmap.lookup_eq_none.mp hnone hreg

theorem not_loose_of_absent (hhome : s.infos.key r ∈ loose → Homed s g r)
    (hv : s.lister.lookup (s.infos.key r) = none) : s.infos.key r ∉ loose := by
  intro hin
  obtain ⟨v, hv', _⟩ := hhome hin
  rw [Option.mem_def, hv] at hv'
  cases hv'

theorem indexed_flushes {stay stay' : List Ref} (hw : Wired s) (hkeyed : Keyed s.lister)
    (h : Indexed loose s.infos (shelves hidden s) (r :: (refs ++ stay)) (nameOf s) parted)
    (hg : Welcomed s g hidden (r :: refs)) (hhome : s.infos.key r ∈ loose → Homed s g r)
    (hstep : Flushes fw now g r stay s stay' t) :
    Wired t ∧ t.lister = s.lister ∧ t.queueMap = s.queueMap ∧ SameKeys s.infos t.infos ∧
      Indexed (loose.erase (s.infos.key r)) t.infos (shelves hidden t) (refs ++ stay') (nameOf t) parted := by
  have hr := h.good r List.mem_cons_self
  have hfound : ∀ {v}, s.lister.lookup (s.infos.key r) = some v → SameKeys s.infos (s.infos.setUnit r v) :=
    fun hv => sameKeys_revised (revised_setUnit hr _) (hkeyed _ _ hv)
  cases hstep with
  | gone absent =>
    rw [Finset.erase_eq_of_notMem (not_loose_of_absent hhome absent)]
    exact ⟨hw, rfl, rfl, fun x hx => ⟨hx, rfl, rfl⟩, indexed_tail h⟩
  | failed v found fails =>
    rw [Finset.erase_eq_of_notMem (not_loose_of_homeless hhome found (Or.inl fails))]
    exact ⟨hw.congr rfl rfl, rfl, rfl, hfound found, indexed_infos (indexed_tail h) (hfound found)⟩
  | listed v found answers homeless =>
    rw [Finset.erase_eq_of_notMem (not_loose_of_homeless hhome found (Or.inr homeless))]
    refine ⟨hw.congr rfl rfl, rfl, rfl, hfound found, indexed_perm (indexed_infos h (hfound found)) ?_⟩
    rw [← List.append_assoc]
    exact List.perm_append_singleton r (refs ++ stay)
  | placed v found answers o named registered u result call =>
    have hkeys := hfound found
    have hfresh := indexed_infos h hkeys
    have hindexed : Wired (State.setQueueForQueueUnit v (g.name v) { s with infos := s.infos.setUnit r v }) :=
      hw.congr rfl rfl
    obtain ⟨htouched, hext, _⟩ := touched_add hindexed registered (hkeys r hr).1 call
    obtain ⟨hwaits, hstays⟩ :=
      hg r List.mem_cons_self v found answers named (Finmap.mem_iff.mpr ⟨o, registered⟩)
    have hshelf : contents (State.setQueueForQueueUnit v (g.name v) { s with infos := s.infos.setUnit r v })
        (g.name v) = shelves hidden s (g.name v) := by
      rw [shelves, if_neg hstays]
      exact contents_congr rfl rfl _
    have hunit : (s.infos.setUnit r v).unit r = v := by
      rw [Infos.unit_setUnit hr, if_pos rfl]
    have hkey : (s.infos.setUnit r v).key r = s.infos.key r := (hkeys r hr).2.1
    have hplaced := indexed_enter hfresh (by rwa [hunit]) (g.name v) hext
    have hnames : nameOf t = Function.update (nameOf s) v.key (some (g.name v)) := nameOf_insert htouched.index
    rw [hkey, ← hkeyed _ _ found, ← hnames, hkeyed _ _ found] at hplaced
    refine ⟨htouched.wired, htouched.lister, htouched.queueMap, hkeys.trans (sameKeys_extends hext), ?_⟩
    rw [shelves_touched htouched hstays, hshelf]
    exact hplaced

theorem welcomed_tail {gone : Option String} (h : Welcomed s g gone (r :: refs))
    (hlister : t.lister = s.lister) (hmap : t.queueMap = s.queueMap)
    (hkeys : ∀ x ∈ refs, t.infos.key x = s.infos.key x) : Welcomed t g gone refs := by
  intro x hx v hv
  rw [hlister, hkeys x hx] at hv
  rw [hmap]
  exact h x (List.mem_cons_of_mem r hx) v hv

theorem homed_congr (h : Homed s g r) (hlister : t.lister = s.lister) (hmap : t.queueMap = s.queueMap)
    (hkey : t.infos.key r = s.infos.key r) : Homed t g r := by
  rw [Homed, hlister, hmap, hkey]
  exact h

theorem eq_empty_of_loose {f : Ref → String} (hloose : ∀ key ∈ loose, key ∈ [].map f) : loose = ∅ :=
  Finset.eq_empty_of_forall_notMem (fun key hkey => List.not_mem_nil (hloose key hkey))

theorem loose_tail {f f' : Ref → String} (hloose : ∀ key ∈ loose, key ∈ (r :: refs).map f)
    (hsame : refs.map f' = refs.map f) : ∀ key ∈ loose.erase (f r), key ∈ refs.map f' := by
  intro key hkey
  obtain ⟨hne, hin⟩ := Finset.mem_erase.mp hkey
  rw [hsame]
  exact (List.mem_cons.mp (hloose key hin)).resolve_left hne

theorem indexed_flushUnits {refs stay : List Ref} (hw : Wired s) (hkeyed : Keyed s.lister)
    (h : Indexed loose s.infos (shelves hidden s) (refs ++ stay) (nameOf s) parted)
    (hg : Welcomed s g hidden refs) (hhome : ∀ r ∈ refs, s.infos.key r ∈ loose → Homed s g r)
    (hloose : ∀ key ∈ loose, key ∈ refs.map s.infos.key) (hrun : s.flushUnits fw now g refs stay = some t) :
    Wired t ∧ t.lister = s.lister ∧ t.queueMap = s.queueMap ∧
      Indexed ∅ t.infos (shelves hidden t) t.queueUnitFindNoQueue (nameOf t) parted := by
  induction refs generalizing s stay loose with
  | nil =>
    cases hrun
    obtain rfl := eq_empty_of_loose hloose
    exact ⟨hw.congr rfl rfl, rfl, rfl, h⟩
  | cons r refs ih =>
    obtain ⟨stay', u, hround, hrest⟩ := flushUnits_cons hrun
    obtain ⟨hwu, hlister, hmap, hkeys, hindexed⟩ :=
      indexed_flushes hw hkeyed h hg (hhome r List.mem_cons_self) hround
    have hsame : ∀ x ∈ refs, u.infos.key x = s.infos.key x := fun x hx =>
      (hkeys x (h.good x (List.mem_cons_of_mem r (List.mem_append.mpr (Or.inl hx))))).2.1
    have hhome' : ∀ x ∈ refs, u.infos.key x ∈ loose.erase (s.infos.key r) → Homed u g x := by
      intro x hx hin
      rw [hsame x hx] at hin
      exact homed_congr (hhome x (List.mem_cons_of_mem r hx) (Finset.mem_of_mem_erase hin)) hlister hmap (hsame x hx)
    obtain ⟨hwt, hlt, hmt, hit⟩ := ih hwu (hlister ▸ hkeyed) hindexed (welcomed_tail hg hlister hmap hsame) hhome'
      (loose_tail hloose (List.map_congr_left hsame)) hrest
    exact ⟨hwt, hlt.trans hlister, hmt.trans hmap, hit⟩

def Routed (s : State) (g : Mapping) (r : Ref) : Prop := ∃ n ∈ g.target (s.infos.unit r), n ∈ s.queueMap

/-- What `FixQueues` places waits, and it places what it took out of a queue. -/
def Routable (s : State) (g : Mapping) (loose : Finset String) (refs : List Ref) : Prop :=
  ∀ r ∈ refs, (Routed s g r → isQueueUnitDequeued (s.infos.unit r) = false) ∧ (s.infos.key r ∈ loose → Routed s g r)

theorem routed_congr (hunit : t.infos.unit r = s.infos.unit r) (hmap : t.queueMap = s.queueMap) :
    Routed t g r ↔ Routed s g r := by
  rw [Routed, Routed, hunit, hmap]

theorem routable_congr (h : Routable s g loose refs)
    (hunits : ∀ r ∈ refs, t.infos.unit r = s.infos.unit r) (hmap : t.queueMap = s.queueMap) :
    Routable t g loose refs := by
  intro r hr
  rw [routed_congr (hunits r hr) hmap, Infos.key, hunits r hr]
  exact h r hr

theorem indexed_requeues (hw : Wired s)
    (h : Indexed loose s.infos (contents s) (r :: (refs ++ s.queueUnitFindNoQueue)) (nameOf s) parted)
    (hg : Routable s g loose (r :: refs)) (hstep : Requeues fw now g r s t) :
    Wired t ∧ t.lister = s.lister ∧ t.queueMap = s.queueMap ∧ Extends s.infos t.infos ∧
      Indexed (loose.erase (s.infos.key r)) t.infos (contents t) (refs ++ t.queueUnitFindNoQueue) (nameOf t) parted := by
  obtain ⟨hwaits, hroute⟩ := hg r List.mem_cons_self
  cases hstep with
  | listed homeless =>
    have hl : s.infos.key r ∉ loose := by
      intro hin
      obtain ⟨n, hn, hreg⟩ := hroute hin
      exact Finmap.lookup_eq_none.mp (homeless n hn) hreg
    rw [Finset.erase_eq_of_notMem hl]
    refine ⟨hw.congr rfl rfl, rfl, rfl, Extends.refl _, indexed_perm h ?_⟩
    dsimp only
    rw [← List.append_assoc]
    exact List.perm_append_singleton r (refs ++ s.queueUnitFindNoQueue)
  | placed n o target registered u result call =>
    have hindexed : Wired { s with
        queueUnitToQueue := s.queueUnitToQueue.insert (s.infos.get r).name (s.objects.get o).name } :=
      hw.congr rfl rfl
    obtain ⟨htouched, hext, _⟩ := touched_add hindexed registered (h.good r List.mem_cons_self) call
    have hnames : nameOf t = Function.update (nameOf s) (s.infos.key r) (some n) := by
      rw [← h.calledListed r List.mem_cons_self, ← hw.named registered]
      exact nameOf_insert htouched.index
    refine ⟨htouched.wired, htouched.lister, htouched.queueMap, hext, ?_⟩
    rw [contents_touched htouched, htouched.list, hnames]
    exact indexed_enter h (hwaits ⟨n, target, Finmap.mem_iff.mpr ⟨o, registered⟩⟩) n hext

theorem indexed_requeue (hw : Wired s)
    (h : Indexed loose s.infos (contents s) (refs ++ s.queueUnitFindNoQueue) (nameOf s) parted)
    (hg : Routable s g loose refs) (hloose : ∀ key ∈ loose, key ∈ refs.map s.infos.key)
    (hrun : s.requeue fw now g refs = some t) :
    Wired t ∧ t.lister = s.lister ∧ t.queueMap = s.queueMap ∧
      Indexed ∅ t.infos (contents t) t.queueUnitFindNoQueue (nameOf t) parted := by
  induction refs generalizing s loose with
  | nil =>
    cases hrun
    obtain rfl := eq_empty_of_loose hloose
    exact ⟨hw, rfl, rfl, h⟩
  | cons r refs ih =>
    obtain ⟨u, hround, hrest⟩ := requeue_cons hrun
    obtain ⟨hwu, hlister, hmap, hext, hindexed⟩ := indexed_requeues hw h hg hround
    have hgood : ∀ x ∈ refs, s.infos.heap.Allocated x := fun x hx =>
      h.good x (List.mem_cons_of_mem r (List.mem_append.mpr (Or.inl hx)))
    have hunits : ∀ x ∈ refs, u.infos.unit x = s.infos.unit x := fun x hx => hext.unit (hgood x hx)
    have hg' : Routable u g (loose.erase (s.infos.key r)) refs := by
      refine routable_congr (fun x hx => ?_) hunits hmap
      obtain ⟨hwaits, hroute⟩ := hg x (List.mem_cons_of_mem r hx)
      exact ⟨hwaits, fun hin => hroute (Finset.mem_of_mem_erase hin)⟩
    have hloose' := loose_tail hloose (map_key_congr (sameKeys_extends hext) hgood)
    obtain ⟨hwt, hlt, hmt, hit⟩ := ih hwu hindexed hg' hloose' hrest
    exact ⟨hwt, hlt.trans hlister, hmt.trans hmap, hit⟩

def Takes (s : State) (g : Mapping) (parted : Finset (String × String)) (e : String × List String) : Prop :=
  e.2.Nodup ∧ ∀ key ∈ e.2, key ∈ contents s e.1 ∧ (e.1, key) ∉ parted ∧
    ∀ r ∈ (contents s e.1).lookup key, Routed s g r ∧ isQueueUnitDequeued (s.infos.unit r) = false

theorem takes_congr {e : String × List String} (h : Takes s g parted e) (hcontents : contents t e.1 = contents s e.1)
    (hf : Filed s.infos (contents s e.1)) (hext : Extends s.infos t.infos) (hmap : t.queueMap = s.queueMap) :
    Takes t g parted e := by
  refine ⟨h.1, ?_⟩
  rw [hcontents]
  intro key hkey
  obtain ⟨hheld, hparted, hroute⟩ := h.2 key hkey
  refine ⟨hheld, hparted, fun r hr => ?_⟩
  have hunit := hext.unit (hf.allocated hr)
  rw [routed_congr hunit hmap, hunit]
  exact hroute r hr

theorem routable_taken (h : Indexed loose s.infos (contents s) list (nameOf s) parted) (hg : Routable s g loose list)
    (htakes : Takes s g parted (n, order)) :
    Routable s g (loose ∪ order.toFinset) (list ++ order.filterMap (contents s n).lookup) := by
  intro r hr
  rcases List.mem_append.mp hr with hr | hr
  · refine ⟨(hg r hr).1, fun hin => ?_⟩
    rcases Finset.mem_union.mp hin with hin | hkey
    · exact (hg r hr).2 hin
    · rw [List.mem_toFinset] at hkey
      exact absurd (htakes.2 _ hkey).1 (h.unplaced (List.mem_map.mpr ⟨r, hr, rfl⟩) n).1
  · obtain ⟨key, hkey, hk⟩ := List.mem_filterMap.mp hr
    obtain ⟨hroute, hwaits⟩ := (htakes.2 key hkey).2.2 r hk
    exact ⟨fun _ => hwaits, fun _ => hroute⟩

theorem loose_taken (h : Indexed loose s.infos (contents s) list (nameOf s) parted)
    (hloose : ∀ key ∈ loose, key ∈ list.map s.infos.key) (htakes : Takes s g parted (n, order)) {key : String}
    (hkey : key ∈ loose ∪ order.toFinset) : key ∈ (list ++ order.filterMap (contents s n).lookup).map s.infos.key := by
  rw [List.map_append]
  apply List.mem_append.mpr
  rcases Finset.mem_union.mp hkey with hkey | hkey
  · exact Or.inl (hloose key hkey)
  · rw [List.mem_toFinset] at hkey
    exact Or.inr (((h.filed n).mem_listed order key).mpr ⟨hkey, (htakes.2 key hkey).1⟩)

theorem indexed_collect {orders : List (String × List String)} {list' : List Ref} (hw : Wired s)
    (hn : (orders.map Prod.fst).Nodup) (horders : ∀ e ∈ orders, Takes s g parted e)
    (h : Indexed loose s.infos (contents s) list (nameOf s) parted) (hg : Routable s g loose list)
    (hloose : ∀ key ∈ loose, key ∈ list.map s.infos.key) (hrun : s.collect fw now orders list = (t, list')) :
    Wired t ∧ t.lister = s.lister ∧ t.queueMap = s.queueMap ∧ t.queueUnitFindNoQueue = s.queueUnitFindNoQueue ∧
      ∃ loose', Indexed loose' t.infos (contents t) list' (nameOf t) parted ∧ Routable t g loose' list' ∧
        ∀ key ∈ loose', key ∈ list'.map t.infos.key := by
  induction orders generalizing s list loose with
  | nil =>
    cases hrun
    exact ⟨hw, rfl, rfl, rfl, loose, h, hg, hloose⟩
  | cons e orders ih =>
    obtain ⟨n, order⟩ := e
    obtain ⟨hne, hn⟩ := List.nodup_cons.mp hn
    have hrest : ∀ e ∈ orders, Takes s g parted e := fun e he => horders e (List.mem_cons_of_mem _ he)
    have htakes := horders (n, order) List.mem_cons_self
    rw [State.collect] at hrun
    split at hrun
    next => exact ih hw hn hrest h hg hloose hrun
    next o ho =>
      obtain ⟨units, htouched, hext, hunits⟩ := @touched_fix s n o fw now order hw ho (h.filed n)
      have hheld : ∀ key ∈ order, key ∈ contents s n ∧ (n, key) ∉ parted :=
        fun key hkey => ⟨(htakes.2 key hkey).1, (htakes.2 key hkey).2.1⟩
      have htaken := indexed_takeOut h htakes.1 hunits hheld
      have hindexed := indexed_infos htaken (sameKeys_extends hext)
      rw [← contents_touched htouched] at hindexed
      rw [← contents_of_lookup ho] at hrun
      have hunits' : ∀ r ∈ list ++ order.filterMap (contents s n).lookup,
          ((s.objects.get o).fix fw.toHandle now s.infos order).1.unit r = s.infos.unit r :=
        fun r hr => hext.unit (htaken.good r hr)
      have hloose' : ∀ key ∈ loose ∪ order.toFinset, key ∈ (list ++ order.filterMap (contents s n).lookup).map
          ((s.objects.get o).fix fw.toHandle now s.infos order).1.key := by
        intro key hkey
        rw [map_key_congr (sameKeys_extends hext) htaken.good]
        exact loose_taken h hloose htakes hkey
      have hrest' : ∀ e ∈ orders, Takes { s with
          infos := ((s.objects.get o).fix fw.toHandle now s.infos order).1
          objects := s.objects.set o ((s.objects.get o).fix fw.toHandle now s.infos order).2 } g parted e := by
        intro e he
        refine takes_congr (hrest e he) ?_ (h.filed e.1) hext rfl
        rw [htouched.contents, if_neg]
        rintro rfl
        exact hne (List.mem_map.mpr ⟨e, he, rfl⟩)
      obtain ⟨hwt, hlt, hmt, hlist, hdone⟩ := ih htouched.wired hn hrest' hindexed
        (routable_congr (routable_taken h hg htakes) hunits' rfl) hloose' hrun
      exact ⟨hwt, hlt, hmt, hlist, hdone⟩

end Loops

end KoordQueue.Multi.Rehoming
