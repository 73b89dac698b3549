import KoordQueue.Multi.Places

namespace KoordQueue.Multi.Framing

open Api KoordQueue.Queue Memory Policy Object Calls Handlers Places

section Names

variable {fw : Handle} {now : Time} {m m' : Infos} {q q' : Queue}

theorem name_add {r : Ref} {result : Except String Bool} (h : q.addQueueUnitInfo fw now m r = some (m', q', result)) :
    q'.name = q.name := by
  obtain ⟨_, _, _, hname, _⟩ := queue_add_impl h
  exact hname

theorem name_delete {qu : QueueUnit} (h : q.delete fw now m qu = some (m', q')) : q'.name = q.name :=
  (queue_delete h).2.2

theorem name_update {old new : QueueUnit} (h : q.update fw now m old new = some (m', q')) : q'.name = q.name := by
  obtain ⟨_, _, _, _, hname, _⟩ := queue_update_impl h
  exact hname

theorem name_fix (order : List String) (q : Queue) : (q.fix fw now m order).2.name = q.name := by
  rw [Queue.fix]
  split <;> rfl

theorem name_sync {fw : MultiHandle} {cr : QueueCr} {redistributed listed : List String}
    (h : q.sync now m fw cr redistributed listed = some q') : q'.name = q.name := by
  obtain ⟨impl, _, h⟩ := Option.bind_eq_some_iff.mp h
  dsimp only at h
  split at h
  next =>
    cases h
    rfl
  next =>
    split at h
    next =>
      cases h
      rfl
    next =>
      split at h
      next =>
        cases h
        rfl
      next => cases h

end Names

/-- The queues stay registered, each object under its name, and only objects of the
given kind change. -/
structure Framed (touched : Ref → Prop) (s t : State) : Prop where
  queueMap : t.queueMap = s.queueMap
  allocated : ∀ {x}, s.objects.Allocated x → t.objects.Allocated x
  name : ∀ {x}, s.objects.Allocated x → (t.objects.get x).name = (s.objects.get x).name
  untouched : ∀ {x}, s.objects.Allocated x → ¬ touched x → t.objects.get x = s.objects.get x

variable {touched : Ref → Prop} {s t u : State}

theorem Framed.refl (touched : Ref → Prop) (s : State) : Framed touched s s := ⟨rfl, id, fun _ => rfl, fun _ _ => rfl⟩

theorem Framed.trans (h : Framed touched s u) (h' : Framed touched u t) : Framed touched s t where
  queueMap := h'.queueMap.trans h.queueMap
  allocated hx := h'.allocated (h.allocated hx)
  name hx := (h'.name (h.allocated hx)).trans (h.name hx)
  untouched hx hn := (h'.untouched (h.allocated hx) hn).trans (h.untouched hx hn)

theorem Framed.wired (h : Framed touched s t) (hw : Wired s) : Wired t where
  allocated hn := h.allocated (hw.allocated (h.queueMap ▸ hn))
  injective hn hn' := hw.injective (h.queueMap ▸ hn) (h.queueMap ▸ hn')
  named hn := by
    rw [h.queueMap] at hn
    rw [h.name (hw.allocated hn)]
    exact hw.named hn

theorem framed_set {o : Ref} {q : Queue} (ho : s.objects.Allocated o) (htouched : touched o)
    (hname : q.name = (s.objects.get o).name) (hmap : t.queueMap = s.queueMap)
    (hobjects : t.objects = s.objects.set o q) : Framed touched s t where
  queueMap := hmap
  allocated hx := by
    rw [hobjects]
    exact (Heap.allocated_set _ _ _ _).mpr hx
  name {x} hx := by
    rw [hobjects, Heap.get_set ho]
    split
    next he => rw [he, hname]
    next => rfl
  untouched {x} hx hn := by
    rw [hobjects, Heap.get_set ho, if_neg]
    rintro rfl
    exact hn htouched

section Calls

variable {fw : MultiHandle} {now : Time} {g : Mapping} {o r : Ref}

variable {result : Except String Bool} {orders : List (String × List String)} {list refs : List Ref} {qu : QueueUnit}

theorem framed_add {v : State} (h : v.addQueueUnitInfo fw now o r = some (t, result))
    (hmap : v.queueMap = s.queueMap) (hobjects : v.objects = s.objects) (ho : s.objects.Allocated o)
    (htouched : touched o) : Framed touched s t := by
  obtain ⟨⟨infos, q, res⟩, hcall, heq⟩ := Option.map_eq_some_iff.mp h
  cases heq
  rw [hobjects] at hcall
  exact framed_set ho htouched (name_add hcall) hmap (congrArg (fun x : Heap Queue => x.set o q) hobjects)

def Reaches (touched : Ref → Prop) (s : State) : Prop := ∀ {n o}, s.queueMap.lookup n = some o → touched o

theorem Framed.reaches (h : Framed touched s t) (hr : Reaches touched s) : Reaches touched t :=
  fun hn => hr (h.queueMap ▸ hn)

theorem framed_deleteIfFound {n : String} (hw : Wired s) (hr : Reaches touched s)
    (h : s.deleteIfFound fw now n qu = some t) : Framed touched s t := by
  rw [State.deleteIfFound] at h
  split at h
  next =>
    cases h
    exact Framed.refl touched s
  next o ho =>
    obtain ⟨⟨infos, q⟩, hcall, heq⟩ := Option.map_eq_some_iff.mp h
    cases heq
    exact framed_set (hw.allocated ho) (hr ho) (name_delete hcall) rfl rfl

theorem framed_flushUnits {stay : List Ref} (hw : Wired s)
    (hr : ∀ {key v o}, s.lister.lookup key = some v → g.fails v = false → s.queueMap.lookup (g.name v) = some o →
      touched o) (h : s.flushUnits fw now g refs stay = some t) : Framed touched s t := by
  induction refs generalizing s stay with
  | nil =>
    cases h
    exact ⟨rfl, id, fun _ => rfl, fun _ _ => rfl⟩
  | cons r refs ih =>
    obtain ⟨stay', u, hround, hrest⟩ := flushUnits_cons h
    have hstep : Framed touched s u ∧ u.lister = s.lister := by
      cases hround with
      | gone => exact ⟨Framed.refl touched s, rfl⟩
      | failed => exact ⟨⟨rfl, id, fun _ => rfl, fun _ _ => rfl⟩, rfl⟩
      | listed => exact ⟨⟨rfl, id, fun _ => rfl, fun _ _ => rfl⟩, rfl⟩
      | placed v found answers o named registered u result call =>
        obtain ⟨⟨infos, q, res⟩, _, heq⟩ := Option.map_eq_some_iff.mp call
        refine ⟨framed_add call rfl rfl (hw.allocated registered) (hr found answers registered), ?_⟩
        cases heq
        rfl
    obtain ⟨hframed, hlister⟩ := hstep
    refine hframed.trans (ih (hframed.wired hw) ?_ hrest)
    intro key v o hv hok ho
    rw [hlister] at hv
    rw [hframed.queueMap] at ho
    exact hr hv hok ho

theorem framed_relisted (hw : Wired s)
    (hr : ∀ {key v o}, s.lister.lookup key = some v → g.fails v = false → s.queueMap.lookup (g.name v) = some o →
      touched o) (h : { s with queueUnitFindNoQueue := list }.flushUnitsFindNoQueue fw now g = some t) :
    Framed touched s t := by
  have hframed := framed_flushUnits (s := { s with queueUnitFindNoQueue := list }) (hw.congr rfl rfl) hr h
  exact ⟨hframed.queueMap, hframed.allocated, hframed.name, hframed.untouched⟩

theorem framed_requeue (hw : Wired s) (hr : Reaches touched s)
    (h : s.requeue fw now g refs = some t) : Framed touched s t := by
  induction refs generalizing s with
  | nil =>
    cases h
    exact Framed.refl touched _
  | cons r refs ih =>
    obtain ⟨u, hround, hrest⟩ := requeue_cons h
    have hframed : Framed touched s u := by
      cases hround with
      | listed => exact ⟨rfl, id, fun _ => rfl, fun _ _ => rfl⟩
      | placed n o target registered u result call =>
        exact framed_add call rfl rfl (hw.allocated registered) (hr registered)
    exact hframed.trans (ih (hframed.wired hw) (hframed.reaches hr) hrest)

theorem framed_collect {list' : List Ref} (hw : Wired s)
    (hr : Reaches touched s) (h : s.collect fw now orders list = (t, list')) : Framed touched s t := by
  induction orders generalizing s list with
  | nil =>
    cases h
    exact Framed.refl touched _
  | cons e orders ih =>
    rw [State.collect] at h
    split at h
    next => exact ih hw hr h
    next o ho =>
      have hframed : Framed touched s { s with
          infos := ((s.objects.get o).fix fw.toHandle now s.infos e.2).1
          objects := s.objects.set o ((s.objects.get o).fix fw.toHandle now s.infos e.2).2 } :=
        framed_set (hw.allocated ho) (hr ho) (name_fix e.2 _) rfl rfl
      exact hframed.trans (ih (hframed.wired hw) (hframed.reaches hr) h)

theorem framed_fixQueues (hw : Wired s) (hr : Reaches touched s)
    (h : s.fixQueues fw now g orders = some t) : Framed touched s t := by
  rw [State.fixQueues] at h
  split at h
  next u units hcollect =>
    have hframed := framed_collect (s := { s with queueUnitFindNoQueue := [] }) (hw.congr rfl rfl) hr hcollect
    have hstart : Framed touched s u := ⟨hframed.queueMap, hframed.allocated, hframed.name, hframed.untouched⟩
    exact hstart.trans (framed_requeue (hstart.wired hw) (hstart.reaches hr) h)

theorem framed_addQueueUnit (hw : Wired s) (hr : Reaches touched s)
    (h : s.addQueueUnit fw now g qu = some t) : Framed touched s t := by
  rw [State.addQueueUnit] at h
  split at h
  next =>
    cases h
    exact ⟨rfl, id, fun _ => rfl, fun _ _ => rfl⟩
  next n o hfound =>
    obtain ⟨⟨u, result⟩, hadd, rfl⟩ := Option.map_eq_some_iff.mp h
    obtain ⟨_, ho⟩ := found_target hfound
    exact framed_add hadd rfl rfl (hw.allocated ho) (hr ho)

theorem framed_listFailed (h : Framed touched s t) : Framed touched s (State.listFailed now qu (t, result)) := by
  cases result with
  | ok _ => exact h
  | error _ => exact ⟨h.queueMap, h.allocated, h.name, h.untouched⟩

theorem framed_updateQueueUnit {old new : QueueUnit} (hw : Wired s) (hr : Reaches touched s)
    (h : s.updateQueueUnit fw now g old new = some t) : Framed touched s t := by
  rw [State.updateQueueUnit] at h
  dsimp only at h
  split at h
  next =>
    obtain ⟨u, hdelete, rfl⟩ := Option.map_eq_some_iff.mp h
    have hframed := framed_deleteIfFound hw hr hdelete
    exact ⟨hframed.queueMap, hframed.allocated, hframed.name, hframed.untouched⟩
  next n o hfound =>
    obtain ⟨_, ho⟩ := found_target hfound
    split at h
    next =>
      obtain ⟨⟨infos, q⟩, hcall, heq⟩ := Option.map_eq_some_iff.mp h
      cases heq
      exact framed_set (hw.allocated ho) (hr ho) (name_update hcall) rfl rfl
    next =>
      obtain ⟨u, hdelete, hrest⟩ := Option.bind_eq_some_iff.mp h
      obtain ⟨⟨v, result⟩, hadd, rfl⟩ := Option.map_eq_some_iff.mp hrest
      have hframed := framed_deleteIfFound hw hr hdelete
      refine framed_listFailed (hframed.trans ?_)
      exact framed_add hadd rfl rfl (hframed.allocated (hw.allocated ho)) (hr ho)

theorem framed_deleteQueueUnit (hw : Wired s) (hr : Reaches touched s)
    (h : s.deleteQueueUnit fw now qu = some t) : Framed touched s t := by
  obtain ⟨u, hdelete, rfl⟩ := Option.map_eq_some_iff.mp h
  have hframed := framed_deleteIfFound hw hr hdelete
  exact ⟨hframed.queueMap, hframed.allocated, hframed.name, hframed.untouched⟩

end Calls

section Events

variable {fw : MultiHandle}

structure Evolves (s t : State) : Prop where
  wired : Wired t
  registered : ∀ {n o}, s.queueMap.lookup n = some o → t.queueMap.lookup n = some o
  allocated : ∀ {x}, s.objects.Allocated x → t.objects.Allocated x
  name : ∀ {x}, s.objects.Allocated x → (t.objects.get x).name = (s.objects.get x).name
  untouched : ∀ {x}, s.objects.Allocated x → (∀ n, s.queueMap.lookup n ≠ some x) → t.objects.get x = s.objects.get x

theorem evolves_of_framed (hw : Wired s) (h : Framed (fun x => ∃ n, s.queueMap.lookup n = some x) s t) :
    Evolves s t where
  wired := h.wired hw
  registered hn := h.queueMap ▸ hn
  allocated := h.allocated
  name := h.name
  untouched hx hn := h.untouched hx (fun ⟨n, h⟩ => hn n h)

theorem evolves_of_lister (lister : GoMap String QueueUnit) (hw : Wired s) (h : Wired { s with lister := lister } →
      Reaches (fun x => ∃ n, s.queueMap.lookup n = some x) { s with lister := lister } →
      Framed (fun x => ∃ n, s.queueMap.lookup n = some x) { s with lister := lister } t) : Evolves s t := by
  have hframed := h (hw.congr rfl rfl) (fun hn => ⟨_, hn⟩)
  exact evolves_of_framed hw ⟨hframed.queueMap, hframed.allocated, hframed.name, hframed.untouched⟩

theorem evolves_addQueue (hw : Wired s) (now : Time) (cr : QueueCr) : Evolves s (s.addQueue fw now cr) := by
  have hwired := (@addQueue_spec s fw now hw cr).1
  revert hwired
  rw [State.addQueue]
  split
  next => exact fun hwired => ⟨hwired, id, id, fun _ => rfl, fun _ _ => rfl⟩
  next hcr =>
    split
    next => exact fun hwired => ⟨hwired, id, id, fun _ => rfl, fun _ _ => rfl⟩
    next q hq =>
      intro hwired
      refine ⟨hwired, ?_, ?_, ?_, ?_⟩
      · intro n o hn
        have hne : n ≠ cr.name := by
          rintro rfl
          exact hcr (Finmap.mem_iff.mpr ⟨o, hn⟩)
        exact (Finmap.lookup_insert_of_ne _ hne).trans hn
      · exact fun hx => (Heap.allocated_alloc _ _ _).mpr (Or.inl hx)
      · exact fun hx => congrArg Queue.name (Heap.get_alloc hx q)
      · exact fun hx _ => Heap.get_alloc hx q

theorem evolves_updateQueue {now : Time} {old new : QueueCr} {redistributed listed : List String} (hw : Wired s)
    (h : s.updateQueue fw now old new redistributed listed = some t) : Evolves s t := by
  rw [State.updateQueue] at h
  split at h
  next =>
    cases h
    exact evolves_addQueue hw now new
  next o ho =>
    split at h
    next =>
      cases h
      exact evolves_of_framed hw (Framed.refl _ s)
    next =>
      obtain ⟨q, hsync, rfl⟩ := Option.map_eq_some_iff.mp h
      exact evolves_of_framed hw (framed_set (hw.allocated ho) ⟨new.name, ho⟩ (name_sync hsync) rfl rfl)

theorem evolves_act {a : Handlers.Action} (hw : Wired s) (ha : ∀ now g n order, a ≠ .deleteQueue now g n order)
    (h : act fw s a = some t) : Evolves s t := by
  cases a with
  | addQueue now cr =>
    cases h
    exact evolves_addQueue hw now cr
  | updateQueue now old new redistributed listed => exact evolves_updateQueue hw h
  | deleteQueue now g n order => exact absurd rfl (ha now g n order)
  | addUnit now g qu => exact evolves_of_lister _ hw (fun hw hr => framed_addQueueUnit hw hr h)
  | updateUnit now g oldQu newQu => exact evolves_of_lister _ hw (fun hw hr => framed_updateQueueUnit hw hr h)
  | deleteUnit now qu => exact evolves_of_lister _ hw (fun hw hr => framed_deleteQueueUnit hw hr h)
  | flush now g =>
    exact evolves_of_framed hw (framed_flushUnits hw (fun _ _ hn => ⟨_, hn⟩) h)
  | fixQueues now g orders =>
    exact evolves_of_framed hw (framed_fixQueues hw (fun hn => ⟨_, hn⟩) h)

end Events

end KoordQueue.Multi.Framing
