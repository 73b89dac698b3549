import KoordQueue.Multi.Deleted

namespace KoordQueue.Multi.EventLoop

open Api KoordQueue.Queue Memory Policy Object Handlers Places Framing Goroutines Idle

/-- Where the goroutine of `internalSchedule` is: about to list the queues, with the queues
that it listed, on its way to `Wait`, or on the list of the condition variable. -/
inductive Loop
  | awake
  | listed (queues : List Ref)
  | served
  | asleep
deriving DecidableEq

def Loop.wake : Loop → Loop
  | .asleep => .awake
  | loop => loop

structure World where
  base : Goroutines.World := {}
  loop : Loop := .awake

def startObject (w : Goroutines.World) (o : Ref) : Goroutines.World :=
  if (w.state.objects.get o).name ∈ w.startedQueue then w
  else { w with
    startedQueue := w.startedQueue.insert (w.state.objects.get o).name w.goroutines.length
    goroutines := w.goroutines ++ [{ object := o }] }

def names (s : State) (queues : List Ref) : List String := queues.map (fun o => (s.objects.get o).name)

def serve (queues : List Ref) (w : Goroutines.World) : Goroutines.World :=
  World.cancelRemoved (names w.state queues) (queues.foldl startObject w)

theorem startObject_state (w : Goroutines.World) (o : Ref) : (startObject w o).state = w.state := by
  rw [startObject]
  split <;> rfl

theorem internalSchedule_eq_serve (sorted : List String) (w : Goroutines.World) :
    w.internalSchedule sorted = serve (sorted.filterMap w.state.queueMap.lookup) w := by
  have hfold : ∀ (l : List String) (v : Goroutines.World), v.state = w.state →
      l.foldl World.startQueue v = (l.filterMap w.state.queueMap.lookup).foldl startObject v := by
    intro l
    induction l with
    | nil => exact fun _ _ => rfl
    | cons n l ih =>
      intro v hv
      cases hn : w.state.queueMap.lookup n with
      | none =>
        have hstart : v.startQueue n = v := by rw [World.startQueue, hv, hn]
        simp only [List.foldl_cons, hstart, List.filterMap_cons, hn]
        exact ih v hv
      | some o =>
        have hstart : v.startQueue n = startObject v o := by
          rw [World.startQueue, hv, hn, startObject, hv]
        simp only [List.foldl_cons, hstart, List.filterMap_cons, hn]
        exact ih _ ((startObject_state v o).trans hv)
  rw [World.internalSchedule, serve, hfold sorted w rfl, names, List.map_filterMap]

/-- The events whose handler ends in `queueChan.Broadcast`. -/
def broadcasts (fw : MultiHandle) (s : State) : Handlers.Action → Bool
  | .addQueue now cr | .updateQueue now _ cr _ _ =>
    decide (cr.name ∉ s.queueMap) && (newQueue fw s.infos now cr).isSome
  | .deleteQueue .. => true
  | _ => false

inductive Action
  | event (a : Handlers.Action)
  | list (sorted : List String)
  | serve
  | wait
  | goroutine (a : Goroutines.Action)

def Action.lists : Action → Bool
  | .list _ => true
  | _ => false

def ofGoroutine : Goroutines.Action → Bool
  | .event _ | .internalSchedule _ => false
  | _ => true

/-- The handlers hold the lock of the queues and not that of the condition variable, so an
event may come at any moment, and its broadcast reaches a loop that waits already. -/
def step (fw : MultiHandle) (w : World) : Action → Option World
  | .event a => (Handlers.step fw w.base.state a).map (fun s =>
    ⟨w.base.handled s a, if broadcasts fw w.base.state a then w.loop.wake else w.loop⟩)
  | .list sorted =>
    if w.loop = .awake ∧ Ranges sorted w.base.state.queueMap.keys then
      some { w with loop := .listed (sorted.filterMap w.base.state.queueMap.lookup) }
    else none
  | .serve =>
    match w.loop with
    | .listed queues => some ⟨EventLoop.serve queues w.base, .served⟩
    | _ => none
  | .wait => if w.loop = .served then some { w with loop := .asleep } else none
  | .goroutine a =>
    if ofGoroutine a then (Goroutines.step fw w.base a).map (fun base => { w with base }) else none

section Frame

variable {fw : MultiHandle} {s t : State} {w v : Goroutines.World}

def tasks (w : Goroutines.World) : List (Ref × Bool) := w.goroutines.map (fun gr => (gr.object, gr.cancelled))

/-- What no event and no scheduling goroutine changes. -/
structure Steady (w v : Goroutines.World) : Prop where
  wired : Wired v.state
  allocated : ∀ {x}, w.state.objects.Allocated x → v.state.objects.Allocated x
  name : ∀ {x}, w.state.objects.Allocated x → (v.state.objects.get x).name = (w.state.objects.get x).name
  startedQueue : v.startedQueue = w.startedQueue
  tasks : tasks v = tasks w

/-- The goroutines that are not cancelled are those of `startedQueue`, each with a queue of
that name. -/
structure Tended (w : Goroutines.World) : Prop where
  wired : Wired w.state
  allocated : ∀ e ∈ tasks w, w.state.objects.Allocated e.1
  started : ∀ n i, w.startedQueue.lookup n = some i ↔
    ∃ o, (tasks w)[i]? = some (o, false) ∧ (w.state.objects.get o).name = n

variable {gr : Goroutine} {a : Handlers.Action} {i : Nat} {q : Queue}

theorem queueMap_act (hw : Wired s) (h : act fw s a = some t)
    (hb : broadcasts fw s a = false) : t.queueMap = s.queueMap := by
  have hadd (now : Time) (cr : QueueCr)
      (hb : (decide (cr.name ∉ s.queueMap) && (newQueue fw s.infos now cr).isSome) = false) :
      (s.addQueue fw now cr).queueMap = s.queueMap := by
    rw [State.addQueue]
    split
    next => rfl
    next hcr =>
      split
      next => rfl
      next q hq => simp [hcr, hq] at hb
  have hreach : ∀ lister : GoMap String QueueUnit, Wired { s with lister := lister } := fun _ => hw.congr rfl rfl
  cases a with
  | addQueue now cr =>
    cases h
    exact hadd now cr hb
  | updateQueue now old new redistributed listed =>
    rw [act, State.updateQueue] at h
    split at h
    next =>
      cases h
      exact hadd now new hb
    next =>
      split at h
      next =>
        cases h
        rfl
      next =>
        obtain ⟨q, -, rfl⟩ := Option.map_eq_some_iff.mp h
        rfl
  | deleteQueue now g n order => cases hb
  | addUnit now g qu =>
    exact (show Framed (fun _ => True) _ _ from framed_addQueueUnit (hreach _) (fun _ => trivial) h).queueMap
  | updateUnit now g oldQu newQu =>
    exact (show Framed (fun _ => True) _ _ from framed_updateQueueUnit (hreach _) (fun _ => trivial) h).queueMap
  | deleteUnit now qu =>
    exact (show Framed (fun _ => True) _ _ from framed_deleteQueueUnit (hreach _) (fun _ => trivial) h).queueMap
  | flush now g =>
    exact (show Framed (fun _ => True) _ _ from framed_flushUnits hw (fun _ _ _ => trivial) h).queueMap
  | fixQueues now g orders =>
    exact (show Framed (fun _ => True) _ _ from framed_fixQueues hw (fun _ => trivial) h).queueMap

theorem handled_state (w : Goroutines.World) (t : State) (a : Handlers.Action) : (w.handled t a).state = t := by
  cases a <;> rfl

theorem steady_event (hw : Wired w.state) (h : Handlers.step fw w.state a = some t) : Steady w (w.handled t a) := by
  rw [Handlers.step] at h
  split at h
  next =>
    cases a with
    | deleteQueue now g n order =>
      rw [act, State.deleteQueue] at h
      split at h
      next =>
        cases h
        exact ⟨hw, id, fun _ => rfl, rfl, rfl⟩
      next o ho =>
        obtain ⟨u, hflush, rfl⟩ := Option.map_eq_some_iff.mp h
        have hframed : Framed (fun _ => True) w.state u := framed_relisted hw (fun _ _ _ => trivial) hflush
        exact ⟨wired_erase (hframed.wired hw) n, hframed.allocated, hframed.name, rfl, rfl⟩
    | addQueue | updateQueue | addUnit | updateUnit | deleteUnit | flush | fixQueues =>
      have he := evolves_act hw (fun _ _ _ _ => Handlers.Action.noConfusion) h
      exact ⟨he.wired, he.allocated, he.name, rfl, rfl⟩
  next => cases h

theorem steady_set {o : Ref} {infos : Infos} (hw : Wired w.state)
    (ho : w.state.objects.Allocated o) (hname : q.name = (w.state.objects.get o).name) :
    Steady w { w with state := { w.state with infos, objects := w.state.objects.set o q } } := by
  have hframed : Framed (fun x => x = o) w.state { w.state with infos, objects := w.state.objects.set o q } :=
    framed_set ho rfl hname rfl rfl
  exact ⟨hframed.wired hw, hframed.allocated, hframed.name, rfl, rfl⟩

theorem tasks_move (hi : w.goroutines[i]? = some gr) (position : Position) :
    tasks (w.move i gr position) = tasks w := by
  refine List.ext_getElem? (fun j => ?_)
  rw [tasks, tasks, World.move, List.getElem?_map, List.getElem?_map, List.getElem?_set]
  split
  next hj =>
    subst j
    rw [if_pos (List.getElem?_eq_some_iff.mp hi).1, hi]
    rfl
  next => rfl

theorem tended_steady (hw : Tended w) (h : Steady w v) : Tended v where
  wired := h.wired
  allocated e he := h.allocated (hw.allocated e (h.tasks ▸ he))
  started n i := by
    rw [h.startedQueue, h.tasks, hw.started]
    refine exists_congr (fun o => and_congr_right (fun ho => ?_))
    rw [h.name (hw.allocated _ (List.mem_of_getElem? ho))]

theorem steady_move (hw : Tended w) (hi : w.goroutines[i]? = some gr)
    (position : Position) : Steady w (w.move i gr position) :=
  ⟨hw.wired, id, fun _ => rfl, rfl, tasks_move hi position⟩

theorem Steady.trans {u : Goroutines.World} (h : Steady w v) (h' : Steady v u) : Steady w u :=
  ⟨h'.wired, fun hx => h'.allocated (h.allocated hx), fun hx => (h'.name (h.allocated hx)).trans (h.name hx),
    h'.startedQueue.trans h.startedQueue, h'.tasks.trans h.tasks⟩

theorem allocated_of_getElem? (hw : Tended w) (hi : w.goroutines[i]? = some gr) : w.state.objects.Allocated gr.object :=
  hw.allocated (gr.object, gr.cancelled) (List.mem_map_of_mem (List.mem_of_getElem? hi))

theorem steady_answer (hw : Tended w) (hi : w.goroutines[i]? = some gr) {now : Time} {result : NextResult}
    (hnext : (w.state.objects.get gr.object).next fw.toHandle now w.state.infos = some (q, result)) :
    Steady w (w.answer i gr q result) ∧ (w.answer i gr q result).state.queueMap = w.state.queueMap := by
  have hset : Steady w (w.setObject gr.object q) :=
    steady_set hw.wired (allocated_of_getElem? hw hi) (name_next fw.toHandle w.state.infos now hnext)
  have hmove (position : Position) : Steady w ((w.setObject gr.object q).move i gr position) :=
    hset.trans (steady_move (tended_steady hw hset) hi position)
  cases result with
  | wait => exact ⟨hset, rfl⟩
  | closed => exact ⟨hmove .between, rfl⟩
  | unit r =>
    have h := hmove .inCycle
    exact ⟨⟨h.wired, h.allocated, h.name, h.startedQueue, h.tasks⟩, rfl⟩

theorem steady_goroutine {a : Goroutines.Action} (hw : Tended w) (ha : ofGoroutine a = true)
    (h : Goroutines.step fw w a = some v) : Steady w v ∧ v.state.queueMap = w.state.queueMap := by
  cases a with
  | event _ | internalSchedule _ => cases ha
  | loop i =>
    obtain ⟨gr, hi, h⟩ := Option.bind_eq_some_iff.mp h
    split at h
    next =>
      cases h
      exact ⟨steady_move hw hi _, rfl⟩
    next => cases h
  | next now i =>
    obtain ⟨gr, hi, h⟩ := Option.bind_eq_some_iff.mp h
    split at h
    next =>
      obtain ⟨⟨q, result⟩, hnext, rfl⟩ := Option.map_eq_some_iff.mp h
      exact steady_answer hw hi hnext
    next => cases h
  | finish i =>
    obtain ⟨gr, hi, h⟩ := Option.bind_eq_some_iff.mp h
    split at h
    next =>
      cases h
      exact ⟨steady_move hw hi _, rfl⟩
    next => cases h
  | work o infos q =>
    rw [Goroutines.step] at h
    split at h
    next henabled =>
      cases h
      exact ⟨steady_set hw.wired henabled.1 henabled.2, rfl⟩
    next => cases h

end Frame

section Pass

variable {w : Goroutines.World}

theorem getElem?_snoc {α : Type} {l : List α} {x y : α} {i : Nat} :
    (l ++ [x])[i]? = some y ↔ l[i]? = some y ∨ i = l.length ∧ x = y := by
  grind

theorem tended_startObject (hw : Tended w) {o : Ref} (ho : w.state.objects.Allocated o) : Tended (startObject w o) := by
  rw [startObject]
  split
  next => exact hw
  next hn =>
    have htasks : tasks { w with
        startedQueue := w.startedQueue.insert (w.state.objects.get o).name w.goroutines.length
        goroutines := w.goroutines ++ [{ object := o }] } = tasks w ++ [(o, false)] := List.map_append
    have hlen : (tasks w).length = w.goroutines.length := List.length_map _
    refine ⟨hw.wired, fun e he => ?_, fun n i => ?_⟩
    · rw [htasks, List.mem_append, List.mem_singleton] at he
      obtain he | rfl := he
      · exact hw.allocated e he
      · exact ho
    · have hnew : (∃ o', (i = (tasks w).length ∧ (o, false) = (o', false)) ∧ (w.state.objects.get o').name = n) ↔
          w.goroutines.length = i ∧ (w.state.objects.get o).name = n := by
        rw [hlen]
        simp [eq_comm]
      rw [htasks, GoMap.lookup_insert_eq]
      simp only [getElem?_snoc, or_and_right, exists_or]
      rw [← hw.started, hnew]
      split
      next he =>
        have hnone : w.startedQueue.lookup n = none := Finmap.lookup_eq_none.mpr (he ▸ hn)
        simp [hnone, he]
      next he => simp [Ne.symm he]

theorem tended_foldl (queues : List Ref) (hw : Tended w) (ho : ∀ o ∈ queues, w.state.objects.Allocated o) :
    Tended (queues.foldl startObject w) := by
  induction queues generalizing w with
  | nil => exact hw
  | cons o queues ih =>
    refine ih (tended_startObject hw (ho o List.mem_cons_self)) (fun x hx => ?_)
    rw [startObject_state]
    exact ho x (List.mem_cons_of_mem o hx)

theorem lookup_cancelRemoved (existing : List String) (w : Goroutines.World) (n : String) :
    (w.cancelRemoved existing).startedQueue.lookup n = if n ∈ existing then w.startedQueue.lookup n else none := by
  rw [World.cancelRemoved]
  dsimp only
  rw [GoMap.lookup_range]
  cases w.startedQueue.lookup n with
  | none => simp
  | some i => rfl

theorem tasks_cancelRemoved (existing : List String) (w : Goroutines.World) (i : Nat) (o : Ref) :
    (tasks (w.cancelRemoved existing))[i]? = some (o, false) ↔ (tasks w)[i]? = some (o, false) ∧
      ∀ n, w.startedQueue.lookup n = some i → n ∈ existing := by
  rw [tasks, tasks, World.cancelRemoved, List.getElem?_map, List.getElem?_map, List.getElem?_mapIdx]
  cases w.goroutines[i]? with
  | none => simp
  | some gr =>
    simp only [Option.map_some, Option.some.injEq, Prod.mk.injEq, Bool.or_eq_false_iff, decide_eq_false_iff_not]
    rw [and_assoc]
    refine and_congr_right (fun _ => and_congr_right (fun _ => ?_))
    constructor
    · intro h n hn
      by_contra hne
      exact h ⟨n, Finmap.mem_keys.mpr (Finmap.mem_iff.mpr ⟨i, hn⟩), hne, hn⟩
    · rintro h ⟨n, _, hne, hn⟩
      exact hne (h n hn)

theorem tended_cancelRemoved (hw : Tended w) (existing : List String) : Tended (w.cancelRemoved existing) where
  wired := hw.wired
  allocated e he := by
    obtain ⟨gr, hgr, rfl⟩ := List.mem_map.mp he
    obtain ⟨i, hi, rfl⟩ := List.mem_mapIdx.mp hgr
    exact hw.allocated (w.goroutines[i].object, w.goroutines[i].cancelled) (List.mem_map_of_mem (List.getElem_mem hi))
  started n i := by
    rw [lookup_cancelRemoved]
    simp only [tasks_cancelRemoved]
    constructor
    · intro h
      split at h
      next hn =>
        obtain ⟨o, ho, hname⟩ := (hw.started n i).mp h
        refine ⟨o, ⟨ho, fun n' hn' => ?_⟩, hname⟩
        obtain ⟨o', ho', hname'⟩ := (hw.started n' i).mp hn'
        cases ho.symm.trans ho'
        exact hname'.symm.trans hname ▸ hn
      next => cases h
    · rintro ⟨o, ⟨ho, hall⟩, hname⟩
      have hn := (hw.started n i).mpr ⟨o, ho, hname⟩
      rw [if_pos (hall n hn), hn]

theorem mem_startObject (w : Goroutines.World) (o : Ref) (n : String) :
    n ∈ (startObject w o).startedQueue ↔ n ∈ w.startedQueue ∨ n = (w.state.objects.get o).name := by
  rw [startObject]
  split
  next h =>
    refine ⟨Or.inl, fun hn => hn.elim id ?_⟩
    rintro rfl
    exact h
  next => rw [Finmap.mem_insert, or_comm]

theorem mem_foldl_startObject (queues : List Ref) (w : Goroutines.World) (n : String) :
    n ∈ (queues.foldl startObject w).startedQueue ↔ n ∈ w.startedQueue ∨ n ∈ names w.state queues := by
  induction queues generalizing w with
  | nil => simp [names]
  | cons o queues ih =>
    rw [List.foldl_cons, ih, mem_startObject, names, names, startObject_state, List.map_cons, List.mem_cons, or_assoc]

theorem mem_serve (queues : List Ref) (w : Goroutines.World) (n : String) :
    n ∈ (serve queues w).startedQueue ↔ n ∈ names w.state queues := by
  have hlookup := lookup_cancelRemoved (names w.state queues) (queues.foldl startObject w) n
  rw [Finmap.mem_iff, serve, hlookup]
  constructor
  · rintro ⟨i, hi⟩
    split at hi
    next hn => exact hn
    next => cases hi
  · intro hn
    rw [if_pos hn]
    exact Finmap.mem_iff.mp ((mem_foldl_startObject queues w n).mpr (Or.inr hn))

theorem tended_serve {queues : List Ref} (hw : Tended w) (ho : ∀ o ∈ queues, w.state.objects.Allocated o) :
    Tended (serve queues w) :=
  tended_cancelRemoved (tended_foldl queues hw ho) _

end Pass

section Runs

variable {fw : MultiHandle} {w w' : World}

structure Inv (w : World) : Prop where
  tended : Tended w.base
  listed : ∀ queues, w.loop = .listed queues → ∀ o ∈ queues, w.base.state.objects.Allocated o

structure Since (known : Finset String) (w : World) : Prop where
  listed : ∀ queues, w.loop = .listed queues → ∀ n, n ∈ names w.base.state queues ↔ n ∈ known
  served : w.loop = .served ∨ w.loop = .asleep → ∀ n, n ∈ w.base.startedQueue ↔ n ∈ known

/-- The registered queues are those with a goroutine that is not cancelled. -/
def Served (w : World) : Prop := ∀ n, n ∈ w.base.state.queueMap ↔
  ∃ gr ∈ w.base.goroutines, gr.cancelled = false ∧ (w.base.state.objects.get gr.object).name = n

theorem inv_init : Inv {} := by
  refine ⟨⟨⟨?_, ?_, ?_⟩, ?_, ?_⟩, ?_⟩ <;> simp [tasks]

theorem wake_cases (loop : Loop) : loop.wake = loop ∨ loop = .asleep ∧ loop.wake = .awake := by
  cases loop with
  | asleep => exact Or.inr ⟨rfl, rfl⟩
  | awake | listed _ | served => exact Or.inl rfl

inductive Stepped (fw : MultiHandle) (w : World) : Action → World → Prop
  | event (a : Handlers.Action) (t : State) (ht : Handlers.step fw w.base.state a = some t) :
      Stepped fw w (.event a)
        ⟨w.base.handled t a, if broadcasts fw w.base.state a then w.loop.wake else w.loop⟩
  | list (sorted : List String) (hl : w.loop = .awake) (hr : Ranges sorted w.base.state.queueMap.keys) :
      Stepped fw w (.list sorted) { w with loop := .listed (sorted.filterMap w.base.state.queueMap.lookup) }
  | serve (queues : List Ref) (hl : w.loop = .listed queues) :
      Stepped fw w .serve ⟨EventLoop.serve queues w.base, .served⟩
  | wait (hl : w.loop = .served) : Stepped fw w .wait { w with loop := .asleep }
  | goroutine (a : Goroutines.Action) (base : Goroutines.World) (ha : ofGoroutine a = true)
      (hb : Goroutines.step fw w.base a = some base) : Stepped fw w (.goroutine a) { w with base }

variable {a : Action} {known : Finset String} {base : Goroutines.World} {as : List Action} {loop : Loop}

theorem stepped (h : step fw w a = some w') : Stepped fw w a w' := by
  cases a with
  | event a =>
    obtain ⟨t, ht, rfl⟩ := Option.map_eq_some_iff.mp h
    exact .event a t ht
  | list sorted =>
    rw [step] at h
    split at h
    next hl =>
      cases h
      exact .list sorted hl.1 hl.2
    next => cases h
  | serve =>
    rw [step] at h
    split at h
    next queues hl =>
      cases h
      exact .serve queues hl
    next => cases h
  | wait =>
    rw [step] at h
    split at h
    next hl =>
      cases h
      exact .wait hl
    next => cases h
  | goroutine a =>
    rw [step] at h
    split at h
    next ha =>
      obtain ⟨base, hb, rfl⟩ := Option.map_eq_some_iff.mp h
      exact .goroutine a base ha hb
    next => cases h

theorem inv_steady (hw : Inv w) (h : Steady w.base base) (hl : loop = w.loop ∨ loop = .awake) : Inv ⟨base, loop⟩ := by
  refine ⟨tended_steady hw.tended h, fun queues hq o ho => ?_⟩
  obtain rfl | rfl := hl
  · exact h.allocated (hw.listed queues hq o ho)
  · cases hq

theorem loop_event (a : Handlers.Action) :
    (if broadcasts fw w.base.state a then w.loop.wake else w.loop) = w.loop ∨
      (if broadcasts fw w.base.state a then w.loop.wake else w.loop) = .awake := by
  split
  next => exact (wake_cases w.loop).imp id And.right
  next => exact Or.inl rfl

theorem inv_step (hw : Inv w) (h : step fw w a = some w') : Inv w' := by
  cases stepped h with
  | event a t ht =>
    exact inv_steady hw (steady_event hw.tended.wired ht) (loop_event a)
  | list sorted hl hr =>
    refine ⟨hw.tended, fun queues hq o ho => ?_⟩
    cases hq
    obtain ⟨n, _, hn⟩ := List.mem_filterMap.mp ho
    exact hw.tended.wired.allocated hn
  | serve queues hl => exact ⟨tended_serve hw.tended (hw.listed queues hl), nofun⟩
  | wait hl => exact ⟨hw.tended, nofun⟩
  | goroutine a base ha hb => exact inv_steady hw (steady_goroutine hw.tended ha hb).1 (Or.inl rfl)

theorem names_steady (h : Steady w.base base) {queues : List Ref}
    (ho : ∀ o ∈ queues, w.base.state.objects.Allocated o) : names base.state queues = names w.base.state queues :=
  List.map_congr_left (fun o hq => h.name (ho o hq))

theorem since_steady (hw : Inv w)
    (hs : Since known w) (h : Steady w.base base) (hl : loop = w.loop ∨ loop = .awake) : Since known ⟨base, loop⟩ := by
  obtain rfl | rfl := hl
  · refine ⟨fun queues hq => ?_, fun hq => ?_⟩
    · dsimp only
      rw [names_steady h (hw.listed queues hq)]
      exact hs.listed queues hq
    · dsimp only
      rw [h.startedQueue]
      exact hs.served hq
  · exact ⟨nofun, nofun⟩

theorem since_step (hw : Inv w) (hs : Since known w) (hno : a.lists = false)
    (h : step fw w a = some w') : Since known w' := by
  cases stepped h with
  | event a t ht => exact since_steady hw hs (steady_event hw.tended.wired ht) (loop_event a)
  | list sorted hl hr => cases hno
  | serve queues hl => exact ⟨nofun, fun _ n => (mem_serve queues w.base n).trans (hs.listed queues hl n)⟩
  | wait hl => exact ⟨nofun, fun _ => hs.served (Or.inl hl)⟩
  | goroutine a base ha hb => exact since_steady hw hs (steady_goroutine hw.tended ha hb).1 (Or.inl rfl)

theorem since_list {sorted : List String} (hw : Inv w) (h : step fw w (.list sorted) = some w') :
    Since w'.base.state.queueMap.keys w' := by
  cases stepped h with
  | list _ hl hr =>
    refine ⟨fun queues hq n => ?_, nofun⟩
    cases hq
    simp only [names, List.mem_map, List.mem_filterMap, Finmap.mem_keys]
    constructor
    · rintro ⟨o, ⟨n', _, hn'⟩, rfl⟩
      rw [hw.tended.wired.named hn']
      exact Finmap.mem_iff.mpr ⟨o, hn'⟩
    · intro hn
      obtain ⟨o, ho⟩ := Finmap.mem_iff.mp hn
      refine ⟨o, ⟨n, ?_, ho⟩, hw.tended.wired.named ho⟩
      rw [← List.mem_toFinset, hr.2]
      exact Finmap.mem_keys.mpr hn

theorem inv_run (hw : Inv w) (h : Run.exec (step fw) w as = some w') : Inv w' :=
  Run.invariant (fun _ _ _ hi _ hs => inv_step hi hs) hw (Run.guarded_true _ _) h

theorem since_run (hw : Inv w) (hs : Since known w)
    (ha : ∀ a ∈ as, a.lists = false) (h : Run.exec (step fw) w as = some w') : Since known w' := by
  induction as generalizing w with
  | nil =>
    cases h
    exact hs
  | cons a as ih =>
    obtain ⟨v, hv, hr⟩ := (Run.exec_cons _ _ _ _ _).mp h
    exact ih (inv_step hw hv) (since_step hw hs (ha a List.mem_cons_self) hv)
      (fun b hb => ha b (List.mem_cons_of_mem a hb)) hr

theorem mem_started_iff (hw : Inv w) (n : String) : n ∈ w.base.startedQueue ↔
    ∃ gr ∈ w.base.goroutines, gr.cancelled = false ∧ (w.base.state.objects.get gr.object).name = n := by
  rw [Finmap.mem_iff]
  constructor
  · rintro ⟨i, hi⟩
    obtain ⟨o, ho, hname⟩ := (hw.tended.started n i).mp hi
    obtain ⟨gr, hgr, he⟩ := List.mem_map.mp (List.mem_of_getElem? ho)
    rw [Prod.mk.injEq] at he
    exact ⟨gr, hgr, he.2, he.1 ▸ hname⟩
  · rintro ⟨gr, hgr, hc, hname⟩
    obtain ⟨i, hi⟩ := List.mem_iff_getElem?.mp hgr
    refine ⟨i, (hw.tended.started n i).mpr ⟨gr.object, ?_, hname⟩⟩
    rw [tasks, List.getElem?_map, hi, Option.map_some, hc]

/-- A queue has at most one goroutine that is not cancelled. A loop that sleeps has one for each
registered queue and none else if and only if the registered names are those that it listed last: a
queue that is added or deleted after the listing and before the wait stays unnoticed, one that comes
while the loop sleeps wakes it. -/
theorem sleeping_loop_served_iff {pre as : List Action} {sorted : List String} {w₀ w₁ : World}
    (hpre : Run.exec (step fw) {} pre = some w₀) (hlist : step fw w₀ (.list sorted) = some w₁)
    (hrun : Run.exec (step fw) w₁ as = some w) (hno : ∀ a ∈ as, a.lists = false) (hsleep : w.loop = .asleep) :
    (Served w ↔ w.base.state.queueMap.keys = w₁.base.state.queueMap.keys) ∧
      (∀ (i j : Nat) (gr gr' : Goroutine), w.base.goroutines[i]? = some gr → w.base.goroutines[j]? = some gr' →
        gr.cancelled = false → gr'.cancelled = false →
        (w.base.state.objects.get gr.object).name = (w.base.state.objects.get gr'.object).name → i = j) ∧
      ∀ a w', step fw w (.event a) = some w' →
        w'.base.state.queueMap.keys ≠ w.base.state.queueMap.keys → w'.loop = .awake := by
  have hinv₀ := inv_run inv_init hpre
  have hinv₁ := inv_step hinv₀ hlist
  have hinv := inv_run hinv₁ hrun
  have hknown := (since_run hinv₁ (since_list hinv₀ hlist) hno hrun).served (Or.inr hsleep)
  refine ⟨?_, ?_, ?_⟩
  · have hserved : Served w ↔ ∀ n, n ∈ w.base.state.queueMap ↔ n ∈ w₁.base.state.queueMap.keys := by
      refine forall_congr' (fun n => iff_congr Iff.rfl ?_)
      rw [← mem_started_iff hinv, hknown]
    rw [hserved, Finset.ext_iff]
    exact forall_congr' (fun n => iff_congr Finmap.mem_keys.symm Iff.rfl)
  · intro i j gr gr' hi hj hc hc' hname
    have htask {k : Nat} {g : Goroutine} (hk : w.base.goroutines[k]? = some g) (hg : g.cancelled = false) :
        w.base.startedQueue.lookup (w.base.state.objects.get g.object).name = some k := by
      refine (hinv.tended.started _ k).mpr ⟨g.object, ?_, rfl⟩
      rw [tasks, List.getElem?_map, hk, Option.map_some, hg]
    have hsame := (htask hi hc).symm.trans (hname ▸ htask hj hc')
    exact Option.some.inj hsame
  · intro a w' hw' hkeys
    cases stepped hw' with
    | event _ t ht =>
      rw [Handlers.step] at ht
      split at ht
      next =>
        cases hb : broadcasts fw w.base.state a with
        | true => rw [if_pos rfl, hsleep, Loop.wake]
        | false =>
          refine absurd (congrArg Finmap.keys ?_) hkeys
          rw [handled_state]
          exact queueMap_act hinv.tended.wired ht hb
      next => cases ht

end Runs

def plainQueue (n : String) : QueueCr := { name := n, queuePolicy := "Priority" }

def addedLate : List Action := [.event (.addQueue 0 (plainQueue "b")), .serve, .wait]

theorem sleeping_loop_served_iff_addedLate :
    ∃ w₀ w₁ w, Run.exec (step plainHandle) {} [.event (.addQueue 0 (plainQueue "a"))] = some w₀ ∧
      step plainHandle w₀ (.list ["a"]) = some w₁ ∧ Run.exec (step plainHandle) w₁ addedLate = some w ∧
      w.loop = .asleep ∧ "b" ∈ w.base.state.queueMap ∧ ¬ Served w := by
  have hruns : (Run.exec (step plainHandle) {} [.event (.addQueue 0 (plainQueue "a"))]).any (fun w₀ =>
      (step plainHandle w₀ (.list ["a"])).any (fun w₁ => (Run.exec (step plainHandle) w₁ addedLate).any (fun w =>
        w.loop = .asleep ∧ "b" ∈ w.base.state.queueMap ∧
          w.base.state.queueMap.keys ≠ w₁.base.state.queueMap.keys))) = true := by decide +kernel
  obtain ⟨w₀, hw₀, hruns⟩ := (Option.any_eq_true _ _).mp hruns
  obtain ⟨w₁, hw₁, hruns⟩ := (Option.any_eq_true _ _).mp hruns
  obtain ⟨w, hw, hfacts⟩ := (Option.any_eq_true _ _).mp hruns
  obtain ⟨hsleep, hb, hkeys⟩ := of_decide_eq_true hfacts
  refine ⟨w₀, w₁, w, hw₀, hw₁, hw, hsleep, hb, fun hserved => hkeys ?_⟩
  exact (sleeping_loop_served_iff hw₀ hw₁ hw (by decide) hsleep).1.mp hserved

end KoordQueue.Multi.EventLoop
