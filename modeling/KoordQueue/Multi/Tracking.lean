import KoordQueue.Multi.Rehoming

namespace KoordQueue.Multi.Tracking

open Api UnitStatus KoordQueue.Queue Memory Frames Filing Object Handlers Places Board
  Indexing Rehoming

/-- The scheduling queues with a record of the units that left a queue when they
were dequeued. -/
structure Tracked where
  state : State := {}
  parted : Finset (String × String) := ∅

def cachedDequeued (s : State) (n key : String) : Bool :=
  ((contents s n).lookup key).any (fun r => isQueueUnitDequeued (s.infos.unit r))

/-- The record after an update of a unit. A dequeued unit leaves the queue where it
stays; a unit that goes elsewhere has no record. -/
def updatePartings (s t : State) (g : Mapping) (old new : QueueUnit) (parted : Finset (String × String)) :
    Finset (String × String) :=
  if (stays s g old new).isSome then
    parted ∪ if isQueueUnitDequeued new then
      leftOver (g.name new) (contents s (g.name new)) (contents t (g.name new)) else ∅
  else parted.filter (fun e => e.2 ≠ new.key)

/-- The record after an action. A change of policy does not take a dequeued unit over.
The record ends when the unit or the queue is deleted. -/
def partings (s t : State) (parted : Finset (String × String)) : Action → Finset (String × String)
  | .updateUnit _ g oldQu newQu => updatePartings s t g oldQu newQu parted
  | .updateQueue _ _ new _ _ => parted ∪
      (leftOver new.name (contents s new.name) (contents t new.name)).filter (fun e => cachedDequeued s e.1 e.2)
  | .deleteUnit _ qu => parted.filter (fun e => e.2 ≠ qu.key)
  | .deleteQueue _ _ n _ => parted.filter (fun e => e.1 ≠ n)
  | _ => parted

def track (fw : MultiHandle) (w : Tracked) (a : Action) : Option Tracked :=
  (step fw w.state a).map (fun t =>
    { state := t, parted := (partings w.state t w.parted a).filter (fun e => e.2 ∉ contents t e.1) })

/-- Over the registered queues and the list every key appears at most once. -/
structure AtMostOnce (s : State) : Prop where
  listed : (s.queueUnitFindNoQueue.map s.infos.key).Nodup
  held : ∀ {key n n'}, key ∈ contents s n → key ∈ contents s n' → n = n'
  apart : ∀ {key n}, key ∈ contents s n → key ∉ s.queueUnitFindNoQueue.map s.infos.key

/-- The index names the registered queue that holds the unit or held it until it was dequeued. -/
def Named (w : Tracked) : Prop := ∀ key n, w.state.queueUnitToQueue.lookup key = some n ↔
  n ∈ w.state.queueMap ∧ (key ∈ contents w.state n ∨ (n, key) ∈ w.parted)

structure Consistent (w : Tracked) : Prop where
  wired : Wired w.state
  keyed : Keyed w.state.lister
  unnamed : "" ∉ w.state.queueMap
  indexed : Indexed ∅ w.state.infos (contents w.state) w.state.queueUnitFindNoQueue (nameOf w.state) w.parted
  left : ∀ {n key}, (n, key) ∈ w.parted → key ∉ contents w.state n
  registered : ∀ {n key}, (n, key) ∈ w.parted → n ∈ w.state.queueMap

variable {order : List String} {n : String} {w : Tracked}

theorem registered_of_held {s : State} {key : String} (h : key ∈ contents s n) : n ∈ s.queueMap := by
  by_contra hn
  rw [contents_of_none (Finmap.lookup_eq_none.mpr hn)] at h
  exact Finmap.notMem_empty h

theorem Consistent.atMostOnce (h : Consistent w) : AtMostOnce w.state where
  listed := h.indexed.listed
  held {key n n'} hn hn' := by
    have hname := (h.indexed.agrees (Finset.notMem_empty key)).mpr (Or.inl hn)
    have hname' := (h.indexed.agrees (Finset.notMem_empty key)).mpr (Or.inl hn')
    rw [hname, Option.some.injEq] at hname'
    exact hname'
  apart hn hkey := (h.indexed.unplaced hkey _).1 hn

theorem Consistent.named (h : Consistent w) : Named w := by
  intro key n
  have hagrees := h.indexed.agrees (n := n) (Finset.notMem_empty key)
  constructor
  · intro hname
    rcases hagrees.mp hname with hheld | hparted
    · exact ⟨registered_of_held hheld, Or.inl hheld⟩
    · exact ⟨h.registered hparted, Or.inr hparted⟩
  · exact fun hor => hagrees.mpr hor.2

variable {fw : MultiHandle} {now : Time} {g : Mapping} {s t : State} {parted : Finset (String × String)}

/-- What a handler leaves behind, before the record is trimmed. -/
structure Settled (t : State) (parted : Finset (String × String)) : Prop where
  wired : Wired t
  keyed : Keyed t.lister
  unnamed : "" ∉ t.queueMap
  indexed : Indexed ∅ t.infos (contents t) t.queueUnitFindNoQueue (nameOf t) parted
  registered : ∀ {n key}, (n, key) ∈ parted → n ∈ t.queueMap

theorem consistent_of_settled (h : Settled t parted) :
    Consistent ⟨t, parted.filter (fun e => e.2 ∉ contents t e.1)⟩ where
  wired := h.wired
  keyed := h.keyed
  unnamed := h.unnamed
  indexed := indexed_filter h.indexed
  left hp := (Finset.mem_filter.mp hp).2
  registered hp := h.registered (Finset.mem_filter.mp hp).1

theorem Consistent.settled (h : Consistent ⟨s, parted⟩) : Settled s parted :=
  ⟨h.wired, h.keyed, h.unnamed, h.indexed, h.registered⟩

theorem settled_flush (h : Settled s parted) (hg : Welcomed s g none s.queueUnitFindNoQueue)
    (hrun : s.flushUnitsFindNoQueue fw now g = some t) : Settled t parted := by
  have hindexed : Indexed ∅ s.infos (shelves none s) (s.queueUnitFindNoQueue ++ []) (nameOf s) parted := by
    rw [shelves_none, List.append_nil]
    exact h.indexed
  obtain ⟨hwt, hlt, hmt, hit⟩ := indexed_flushUnits h.wired h.keyed hindexed hg
    (fun _ _ hin => absurd hin (Finset.notMem_empty _)) (fun _ hin => absurd hin (Finset.notMem_empty _)) hrun
  rw [shelves_none] at hit
  exact ⟨hwt, hlt ▸ h.keyed, hmt ▸ h.unnamed, hit, hmt ▸ h.registered⟩

def Vacates (w : Tracked) (g : Mapping) (n : String) (order : List String) : Prop :=
  (∀ e ∈ w.parted, e.1 ≠ n) ∧
    Welcomed w.state g (some n) (w.state.queueUnitFindNoQueue ++ order.filterMap (contents w.state n).lookup) ∧
    ∀ r ∈ order.filterMap (contents w.state n).lookup, Homed w.state g r

theorem settled_deleteQueue (h : Consistent ⟨s, parted⟩)
    (hr : Ranges order (contents s n).keys) (hg : n ∈ s.queueMap → Vacates ⟨s, parted⟩ g n order)
    (hrun : s.deleteQueue fw now g n order = some t) : Settled t (parted.filter (fun e => e.1 ≠ n)) := by
  rw [State.deleteQueue] at hrun
  split at hrun
  next hnone =>
    cases hrun
    have hnot : ∀ e ∈ parted, e.1 ≠ n := by
      rintro e he rfl
      exact Finmap.lookup_eq_none.mp hnone (h.registered he)
    rw [Finset.filter_true_of_mem hnot]
    exact h.settled
  next o ho =>
    obtain ⟨hnot, hwelcomed, hhomed⟩ := hg (Finmap.mem_iff.mpr ⟨o, ho⟩)
    rw [Finset.filter_true_of_mem hnot]
    obtain ⟨u, hflush, rfl⟩ := Option.map_eq_some_iff.mp hrun
    rw [← contents_of_lookup ho] at hflush
    have hheld : ∀ key ∈ order, key ∈ contents s n ∧ (n, key) ∉ parted :=
      fun key hkey => ⟨(mem_ranges hr key).mp hkey, fun hp => hnot _ hp rfl⟩
    have htaken := indexed_takeOut h.indexed hr.1 (without_all hr) hheld
    rw [← shelves_hide, ← List.append_nil (s.queueUnitFindNoQueue ++ _), Finset.empty_union] at htaken
    have hloose : ∀ key ∈ order.toFinset, key ∈
        (s.queueUnitFindNoQueue ++ order.filterMap (contents s n).lookup).map s.infos.key := by
      intro key hkey
      rw [List.mem_toFinset] at hkey
      rw [List.map_append]
      exact List.mem_append.mpr (Or.inr (((h.indexed.filed n).mem_listed order key).mpr ⟨hkey, (hheld key hkey).1⟩))
    have hhome : ∀ r ∈ s.queueUnitFindNoQueue ++ order.filterMap (contents s n).lookup,
        s.infos.key r ∈ order.toFinset → Homed s g r := by
      intro r hin hkey
      rcases List.mem_append.mp hin with hin | hin
      · rw [List.mem_toFinset] at hkey
        exact absurd (hheld _ hkey).1 (h.indexed.unplaced (List.mem_map.mpr ⟨r, hin, rfl⟩) n).1
      · exact hhomed r hin
    rw [State.flushUnitsFindNoQueue] at hflush
    dsimp only at hflush hwelcomed
    generalize s.queueUnitFindNoQueue ++ order.filterMap (contents s n).lookup = list at *
    obtain ⟨hwu, hlu, hmu, hiu⟩ := @indexed_flushUnits fw now g { s with queueUnitFindNoQueue := list } u (some n)
      order.toFinset parted list [] (h.wired.congr rfl rfl) h.keyed htaken hwelcomed hhome hloose hflush
    refine ⟨wired_erase hwu n, hlu ▸ h.keyed, ?_, ?_, ?_⟩
    · intro hin
      exact h.unnamed (hmu ▸ (Finmap.mem_erase.mp hin).2)
    · rw [contents_erase]
      exact hiu
    · intro n' key hp
      exact Finmap.mem_erase.mpr ⟨hnot _ hp, hmu ▸ h.registered hp⟩

/-- What `FixQueues` takes out of the queues and finds on the list, it can place. -/
def Fixable (w : Tracked) (g : Mapping) (orders : List (String × List String)) : Prop :=
  (∀ r ∈ w.state.queueUnitFindNoQueue, Routed w.state g r → isQueueUnitDequeued (w.state.infos.unit r) = false) ∧
    ∀ e ∈ orders, ∀ key ∈ e.2, ∀ r ∈ (contents w.state e.1).lookup key,
      Routed w.state g r ∧ isQueueUnitDequeued (w.state.infos.unit r) = false

theorem settled_fixQueues {orders : List (String × List String)} (h : Consistent ⟨s, parted⟩)
    (hr : Ranges (orders.map Prod.fst) s.queueMap.keys ∧ ∀ e ∈ orders, Ranges e.2 (moved s g e.1))
    (hg : Fixable ⟨s, parted⟩ g orders) (hrun : s.fixQueues fw now g orders = some t) : Settled t parted := by
  rw [State.fixQueues] at hrun
  split at hrun
  next u units hcollect =>
    have htakes : ∀ e ∈ orders, Takes { s with queueUnitFindNoQueue := [] } g parted e := by
      intro e he
      refine ⟨(hr.2 e he).1, fun key hkey => ?_⟩
      have hheld : key ∈ contents s e.1 := by
        rw [← List.mem_toFinset, (hr.2 e he).2, moved, Finset.mem_filter, Finmap.mem_keys] at hkey
        exact hkey.1
      exact ⟨hheld, fun hp => h.left hp hheld, hg.2 e he key hkey⟩
    have hroutable : Routable { s with queueUnitFindNoQueue := [] } g ∅ s.queueUnitFindNoQueue :=
      fun r hin => ⟨hg.1 r hin, fun hl => absurd hl (Finset.notMem_empty _)⟩
    obtain ⟨hwu, hlu, hmu, hlist, loose, hiu, hroute, hloose⟩ :=
      indexed_collect (s := { s with queueUnitFindNoQueue := [] }) (h.wired.congr rfl rfl) hr.1.1 htakes h.indexed
        hroutable (fun _ hl => absurd hl (Finset.notMem_empty _)) hcollect
    have hiu' : Indexed loose u.infos (contents u) (units ++ u.queueUnitFindNoQueue) (nameOf u) parted := by
      rw [hlist, List.append_nil]
      exact hiu
    obtain ⟨hwt, hlt, hmt, hit⟩ := indexed_requeue hwu hiu' hroute hloose hrun
    have hmap : t.queueMap = s.queueMap := hmt.trans hmu
    exact ⟨hwt, (hlt.trans hlu) ▸ h.keyed, hmap ▸ h.unnamed, hit, hmap ▸ h.registered⟩

theorem settled_addQueue (h : Settled s parted) {cr : QueueCr} (hname : cr.name ≠ "") :
    Settled (s.addQueue fw now cr) parted := by
  obtain ⟨hw, hcontents, hinfos, hindex, hlist, hlister⟩ := @addQueue_spec s fw now h.wired cr
  have hmap : (s.addQueue fw now cr).queueMap = s.queueMap ∨
      (s.addQueue fw now cr).queueMap = s.queueMap.insert cr.name s.objects.next := by
    rw [State.addQueue]
    split
    next => exact Or.inl rfl
    next =>
      split
      next => exact Or.inl rfl
      next => exact Or.inr rfl
  refine ⟨hw, hlister ▸ h.keyed, ?_, ?_, fun hp => ?_⟩
  · rcases hmap with he | he
    · rw [he]
      exact h.unnamed
    · rw [he, Finmap.mem_insert]
      exact not_or.mpr ⟨hname.symm, h.unnamed⟩
  · have hnames : nameOf (s.addQueue fw now cr) = nameOf s := by
      unfold nameOf
      rw [hindex]
    rw [hinfos, hlist, hnames, funext hcontents]
    exact h.indexed
  · rcases hmap with he | he
    · rw [he]
      exact h.registered hp
    · rw [he]
      exact Finmap.mem_insert.mpr (Or.inr (h.registered hp))

theorem settled_updateQueue {old new : QueueCr} {redistributed listed : List String} (h : Settled s parted)
    (hname : new.name ≠ "") (hl : Ranges listed (contents s new.name).keys)
    (hrun : s.updateQueue fw now old new redistributed listed = some t) :
    Settled t (parted ∪ (leftOver new.name (contents s new.name) (contents t new.name)).filter
      (fun e => cachedDequeued s e.1 e.2)) := by
  have hsame : contents t new.name = contents s new.name → parted ∪ (leftOver new.name (contents s new.name)
      (contents t new.name)).filter (fun e => cachedDequeued s e.1 e.2) = parted := by
    intro he
    rw [he, leftOver, sdiff_self]
    exact Finset.union_empty parted
  rw [State.updateQueue] at hrun
  split at hrun
  next =>
    cases hrun
    rw [hsame ((@addQueue_spec s fw now h.wired new).2.1 new.name)]
    exact settled_addQueue h hname
  next o ho =>
    split at hrun
    next =>
      cases hrun
      rw [hsame rfl]
      exact h
    next =>
      obtain ⟨units, htouched, hinfos, hwithin, hkeep⟩ := touched_sync h.wired ho (h.indexed.filed new.name)
        (fun key => (mem_ranges hl key).mpr) hrun
      have hunits : contents t new.name = units := by
        rw [htouched.contents, if_pos rfl]
      have hdequeued : ∀ e ∈ leftOver new.name (contents s new.name) units, cachedDequeued s e.1 e.2 = true := by
        rintro ⟨n, key⟩ he
        obtain ⟨rfl, hheld, hgone⟩ := mem_leftOver.mp he
        obtain ⟨r, hr⟩ := Finmap.mem_iff.mp hheld
        rw [cachedDequeued, hr, Option.any_some]
        by_contra hwaits
        exact hgone (hkeep key r hr (Bool.eq_false_of_not_eq_true hwaits))
      rw [hunits, Finset.filter_true_of_mem hdequeued]
      refine ⟨htouched.wired, htouched.lister ▸ h.keyed, htouched.queueMap ▸ h.unnamed, ?_, ?_⟩
      · rw [hinfos, htouched.list, nameOf_touched htouched, contents_touched htouched]
        exact indexed_park h.indexed hwithin
      · intro n key hp
        rw [htouched.queueMap]
        rcases Finset.mem_union.mp hp with hp | hp
        · exact h.registered hp
        · rw [(mem_leftOver.mp hp).1]
          exact Finmap.mem_iff.mpr ⟨o, ho⟩

end KoordQueue.Multi.Tracking
