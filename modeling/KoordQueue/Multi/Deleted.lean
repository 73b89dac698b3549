import KoordQueue.Lib.Run
import KoordQueue.Multi.Framing
import KoordQueue.Multi.Goroutines
import KoordQueue.Multi.Idle

namespace KoordQueue.Multi.Deleted

open Api KoordQueue.Queue Memory Policy Object Handlers Places Framing Goroutines Idle

variable {fw : MultiHandle} {s t : State} {w v : World}

def Live (s : State) (o : Ref) : Prop := s.queueMap.lookup (s.objects.get o).name = some o
deriving Decidable

/-- Every unit was handed out by the object registered under the name then, and
between two deletions of a name all units were handed out by one object. -/
structure Rightful (w : World) : Prop where
  registered : ∀ e ∈ w.handed, e.registered = some e.object
  single : ∀ e ∈ w.handed, ∀ e' ∈ w.handed, e.queue = e'.queue → e.deletions = e'.deletions → e.object = e'.object

/-- No goroutine waits in `Next` on an object that is not registered, unless the
object has nothing to hand out. -/
structure Calm (w : World) : Prop extends Rightful w where
  wired : Wired w.state
  allocated : ∀ gr ∈ w.goroutines, w.state.objects.Allocated gr.object
  calm : ∀ gr ∈ w.goroutines, gr.position = .inNext →
    Live w.state gr.object ∨ waiting (w.state.objects.get gr.object) = []
  counted : ∀ e ∈ w.handed, e.deletions ≤ w.deleted e.queue
  current : ∀ e ∈ w.handed, e.deletions = w.deleted e.queue → w.state.queueMap.lookup e.queue = some e.object

/-- No goroutine is inside `Next` on the object. -/
def Unattended (w : World) (o : Ref) : Prop := ∀ gr ∈ w.goroutines, gr.object = o → gr.position ≠ .inNext
deriving Decidable

/-- A queue is deleted while no goroutine is in its `Next`, or while it is empty and no
unit maps to it; a goroutine whose queue is gone starts no cycle before it is cancelled,
unless the queue is empty; and nothing is put into a deleted queue whose `Next` is
waited in. -/
def Orderly (w : World) : Goroutines.Action → Prop
  | .event (.deleteQueue _ g n _) => ∀ o ∈ w.state.queueMap.lookup n, Unattended w o ∨
      (waiting (w.state.objects.get o) = [] ∧
        ∀ key ∈ w.state.lister.keys, ∀ qu ∈ w.state.lister.lookup key, g.target qu ≠ some n)
  | .loop i => ∀ gr ∈ w.goroutines[i]?, gr.cancelled = false →
      Live w.state gr.object ∨ waiting (w.state.objects.get gr.object) = []
  | .work o _ q => Live w.state o ∨ waiting q = [] ∨ Unattended w o
  | _ => True

variable {gr : Goroutine} {e : HandOut} {g : Mapping} {i : Nat} {q : Queue} {o : Ref} {n : String} {now : Time}

theorem live_evolves (h : Evolves s t) (ho : s.objects.Allocated o) (hl : Live s o) : Live t o := by
  rw [Live, h.name ho]
  exact h.registered hl

theorem live_of_registered (h : Wired s) (hn : s.queueMap.lookup n = some o) : Live s o := by
  rw [Live, h.named hn]
  exact hn

theorem calm_evolves (h : Calm w) (he : Evolves w.state t) : Calm { w with state := t } where
  toRightful := ⟨h.registered, h.single⟩
  wired := he.wired
  allocated gr hgr := he.allocated (h.allocated gr hgr)
  calm gr hgr hp := by
    have halloc := h.allocated gr hgr
    by_cases hl : Live w.state gr.object
    · exact Or.inl (live_evolves he halloc hl)
    · refine Or.inr ?_
      dsimp only
      rw [he.untouched halloc]
      · exact (h.calm gr hgr hp).resolve_left hl
      · exact fun n hn => hl (live_of_registered h.wired hn)
  counted := h.counted
  current e he' hd := he.registered (h.current e he' hd)

theorem deleted_insert (w : World) (n n' : String) :
    World.deleted { w with state := t, deletions := w.deletions.insert n (w.deleted n + 1) } n' =
      if n' = n then w.deleted n + 1 else w.deleted n' := by
  rw [World.deleted, GoMap.lookup_insert_eq]
  split <;> rfl

theorem counted_deleted (h : Calm w) (n : String) (he : e ∈ w.handed) :
    e.deletions ≤ (if e.queue = n then w.deleted n + 1 else w.deleted e.queue) ∧
      ((e.deletions = if e.queue = n then w.deleted n + 1 else w.deleted e.queue) →
        e.queue ≠ n ∧ w.state.queueMap.lookup e.queue = some e.object) := by
  have hle := h.counted e he
  split
  next heq =>
    rw [heq] at hle
    exact ⟨by omega, fun hd => by omega⟩
  next hne => exact ⟨hle, fun hd => ⟨hne, h.current e he hd⟩⟩

theorem live_erase {touched : Ref → Prop} {x : Ref} (h : Framed touched s t)
    (ho : s.queueMap.lookup n = some o) (hx : s.objects.Allocated x) (hl : Live s x) (hne : x ≠ o) :
    Live { t with queueMap := t.queueMap.erase n } x := by
  have hname : (s.objects.get x).name ≠ n := by
    intro heq
    rw [Live, heq, ho, Option.some.injEq] at hl
    exact hne hl.symm
  rw [Live]
  dsimp only
  rw [h.name hx, h.queueMap, GoMap.lookup_erase_eq, if_neg hname]
  exact hl

theorem calm_of_deletion (h : Calm w) (hwired : Wired t)
    (hallocated : ∀ gr ∈ w.goroutines, t.objects.Allocated gr.object)
    (hcalm : ∀ gr ∈ w.goroutines, gr.position = .inNext → Live t gr.object ∨ waiting (t.objects.get gr.object) = [])
    (hmap : ∀ n' o, n' ≠ n → w.state.queueMap.lookup n' = some o → t.queueMap.lookup n' = some o) :
    Calm { w with state := t, deletions := w.deletions.insert n (w.deleted n + 1) } where
  toRightful := ⟨h.registered, h.single⟩
  wired := hwired
  allocated := hallocated
  calm := hcalm
  counted e he := by
    rw [deleted_insert]
    exact (counted_deleted h n he).1
  current e he hd := by
    rw [deleted_insert] at hd
    obtain ⟨hne, hcur⟩ := (counted_deleted h n he).2 hd
    exact hmap _ _ hne hcur

theorem untouched_of_unmapped {list : List Ref}
    (hw : Wired s) (ho : s.queueMap.lookup n = some o) (halloc : s.objects.Allocated o)
    (hunmapped : ∀ key ∈ s.lister.keys, ∀ qu ∈ s.lister.lookup key, g.target qu ≠ some n)
    (hflush : { s with queueUnitFindNoQueue := list }.flushUnitsFindNoQueue fw now g = some t) :
    t.objects.get o = s.objects.get o := by
  have hspared : Framed (fun x => x ≠ o) s t := by
    refine framed_relisted hw ?_ hflush
    rintro key qu o' hqu hok hn rfl
    refine hunmapped key (Finmap.mem_keys.mpr (Finmap.mem_iff.mpr ⟨qu, hqu⟩)) qu hqu ?_
    rw [Mapping.target, hok, hw.injective hn ho]
    rfl
  exact hspared.untouched halloc (not_not.mpr rfl)

theorem calm_deleteQueue {order : List String} (h : Calm w)
    (hg : ∀ o ∈ w.state.queueMap.lookup n, Unattended w o ∨ (waiting (w.state.objects.get o) = [] ∧
      ∀ key ∈ w.state.lister.keys, ∀ qu ∈ w.state.lister.lookup key, g.target qu ≠ some n))
    (hrun : w.state.deleteQueue fw now g n order = some t) :
    Calm { w with state := t, deletions := w.deletions.insert n (w.deleted n + 1) } := by
  rw [State.deleteQueue] at hrun
  split at hrun
  next hnone =>
    cases hrun
    exact calm_of_deletion h h.wired h.allocated h.calm (fun _ _ _ hn => hn)
  next o ho =>
    obtain ⟨u, hflush, rfl⟩ := Option.map_eq_some_iff.mp hrun
    have hframed : Framed (fun x => ∃ n', w.state.queueMap.lookup n' = some x) w.state u :=
      framed_relisted h.wired (fun _ _ hn => ⟨_, hn⟩) hflush
    refine calm_of_deletion h (wired_erase (hframed.wired h.wired) n)
      (fun gr hgr => hframed.allocated (h.allocated gr hgr)) ?_ ?_
    · intro gr hgr hp
      have halloc := h.allocated gr hgr
      by_cases he : gr.object = o
      · rcases hg o ho with hnone | ⟨hidle, hunmapped⟩
        · exact absurd hp (hnone gr hgr he)
        · rw [he] at halloc ⊢
          have hsame := untouched_of_unmapped h.wired ho halloc hunmapped hflush
          exact Or.inr ((congrArg waiting hsame).trans hidle)
      · by_cases hl : Live w.state gr.object
        · exact Or.inl (live_erase hframed ho halloc hl he)
        · have hsame := hframed.untouched halloc (fun ⟨_, hn⟩ => hl (live_of_registered h.wired hn))
          exact Or.inr ((congrArg waiting hsame).trans ((h.calm gr hgr hp).resolve_left hl))
    · intro n' o' hne hn'
      dsimp only
      rw [hframed.queueMap, GoMap.lookup_erase_eq, if_neg hne]
      exact hn'

theorem calm_goroutines (h : Calm w) {goroutines : List Goroutine} {startedQueue : GoMap String Nat}
    (hgr : ∀ gr ∈ goroutines, w.state.objects.Allocated gr.object ∧
      (gr.position = .inNext → Live w.state gr.object ∨ waiting (w.state.objects.get gr.object) = [])) :
    Calm { w with goroutines := goroutines, startedQueue := startedQueue } where
  toRightful := ⟨h.registered, h.single⟩
  wired := h.wired
  allocated gr hin := (hgr gr hin).1
  calm gr hin := (hgr gr hin).2
  counted := h.counted
  current := h.current

theorem calm_startQueue (h : Calm w) (n : String) : Calm (w.startQueue n) := by
  rw [World.startQueue]
  split
  next => exact h
  next o ho =>
    split
    next => exact h
    next =>
      refine calm_goroutines h (fun gr hgr => ?_)
      rcases List.mem_append.mp hgr with hgr | hgr
      · exact ⟨h.allocated gr hgr, h.calm gr hgr⟩
      · rw [List.mem_singleton] at hgr
        subst hgr
        exact ⟨h.wired.allocated ho, Position.noConfusion⟩

theorem calm_internalSchedule (h : Calm w) (sorted : List String) : Calm (w.internalSchedule sorted) := by
  have hstarted : ∀ (names : List String) (w : World), Calm w → Calm (names.foldl World.startQueue w) := by
    intro names
    induction names with
    | nil => exact fun _ h => h
    | cons n names ih => exact fun w h => ih _ (calm_startQueue h n)
  have hall := hstarted sorted w h
  rw [World.internalSchedule]
  refine calm_goroutines hall (fun gr hgr => ?_)
  obtain ⟨i, hi, rfl⟩ := List.mem_mapIdx.mp hgr
  have hin := List.getElem_mem hi
  exact ⟨(hall.allocated _ hin :), (hall.calm _ hin :)⟩

theorem calm_move (h : Calm w) (hi : w.goroutines[i]? = some gr) {position : Position}
    (hp : position = .inNext → Live w.state gr.object ∨ waiting (w.state.objects.get gr.object) = []) :
    Calm (w.move i gr position) := by
  refine calm_goroutines h (fun gr' hgr' => ?_)
  rcases List.mem_or_eq_of_mem_set hgr' with hgr' | rfl
  · exact ⟨h.allocated gr' hgr', h.calm gr' hgr'⟩
  · exact ⟨h.allocated gr (List.mem_of_getElem? hi), hp⟩

theorem calm_set (h : Calm w) {infos : Infos} (ho : w.state.objects.Allocated o)
    (hname : q.name = (w.state.objects.get o).name)
    (hq : ∀ gr ∈ w.goroutines, gr.object = o → gr.position = .inNext → Live w.state o ∨ waiting q = []) :
    Calm { w with state := { w.state with infos, objects := w.state.objects.set o q } } := by
  have hframed : Framed (fun x => x = o) w.state { w.state with infos, objects := w.state.objects.set o q } :=
    framed_set ho rfl hname rfl rfl
  have hlive : ∀ {x}, w.state.objects.Allocated x → Live w.state x →
      Live { w.state with infos, objects := w.state.objects.set o q } x := by
    intro x hx hl
    rw [Live, hframed.name hx]
    exact hl
  refine ⟨⟨h.registered, h.single⟩, hframed.wired h.wired, fun gr hgr => hframed.allocated (h.allocated gr hgr), ?_,
    h.counted, h.current⟩
  intro gr hgr hp
  have halloc := h.allocated gr hgr
  by_cases he : gr.object = o
  · refine (hq gr hgr he hp).imp (fun hl => hlive halloc (he ▸ hl)) (fun hidle => ?_)
    dsimp only
    rw [he, Heap.get_set ho, if_pos rfl]
    exact hidle
  · refine (h.calm gr hgr hp).imp (hlive halloc) (fun hidle => ?_)
    rw [hframed.untouched halloc he]
    exact hidle

theorem calm_handOut (h : Calm w) (hobject : w.state.queueMap.lookup e.queue = some e.object)
    (hregistered : e.registered = some e.object) (hcount : e.deletions = w.deleted e.queue) :
    Calm { w with handed := w.handed ++ [e] } where
  registered e' he' := by
    rcases List.mem_append.mp he' with he' | he'
    · exact h.registered e' he'
    · rw [List.mem_singleton.mp he']
      exact hregistered
  single := by
    have hold : ∀ e' ∈ w.handed, e'.queue = e.queue → e'.deletions = e.deletions → e'.object = e.object := by
      intro e' he' hqueue hd
      have hcurrent := h.current e' he' (by rw [hd, hqueue, hcount])
      rw [hqueue, hobject, Option.some.injEq] at hcurrent
      exact hcurrent.symm
    intro e₁ he₁ e₂ he₂ hqueue hd
    rcases List.mem_append.mp he₁ with hin₁ | hin₁
    · rcases List.mem_append.mp he₂ with hin₂ | hin₂
      · exact h.single e₁ hin₁ e₂ hin₂ hqueue hd
      · rw [List.mem_singleton.mp hin₂] at hqueue hd ⊢
        exact hold e₁ hin₁ hqueue hd
    · rw [List.mem_singleton.mp hin₁] at hqueue hd ⊢
      rcases List.mem_append.mp he₂ with hin₂ | hin₂
      · exact (hold e₂ hin₂ hqueue.symm hd.symm).symm
      · rw [List.mem_singleton.mp hin₂]
  wired := h.wired
  allocated := h.allocated
  calm := h.calm
  counted e' he' := by
    rcases List.mem_append.mp he' with he' | he'
    · exact h.counted e' he'
    · rw [List.mem_singleton.mp he']
      exact le_of_eq hcount
  current e' he' hd := by
    rcases List.mem_append.mp he' with he' | he'
    · exact h.current e' he' hd
    · rw [List.mem_singleton.mp he']
      exact hobject

theorem calm_next (h : Calm w) (hi : w.goroutines[i]? = some gr) (hp : gr.position = .inNext) {result : NextResult}
    (hnext : (w.state.objects.get gr.object).next fw.toHandle now w.state.infos = some (q, result)) :
    Calm (w.answer i gr q result) := by
  have hgr := List.mem_of_getElem? hi
  have halloc := h.allocated gr hgr
  have hname : q.name = (w.state.objects.get gr.object).name := name_next fw.toHandle w.state.infos now hnext
  have hset : Calm (w.setObject gr.object q) := by
    refine calm_set h halloc hname (fun gr' hgr' he hp' => ?_)
    refine (h.calm gr' hgr' hp').imp (fun hl => he ▸ hl) (fun hidle => ?_)
    rw [he] at hidle
    exact (queue_next_idle fw.toHandle w.state.infos now hidle hnext).1
  have hi' : (w.setObject gr.object q).goroutines[i]? = some gr := hi
  cases result with
  | wait => exact hset
  | closed => exact calm_move hset hi' Position.noConfusion
  | unit r =>
    have hlive : w.state.queueMap.lookup q.name = some gr.object := by
      rw [hname]
      refine (h.calm gr hgr hp).resolve_right (fun hidle => ?_)
      exact (queue_next_idle fw.toHandle w.state.infos now hidle hnext).2 r rfl
    exact calm_handOut (calm_move hset hi' Position.noConfusion) hlive hlive rfl

theorem calm_step {a : Goroutines.Action} (h : Calm w) (hg : Orderly w a) (hstep : Goroutines.step fw w a = some v) :
    Calm v := by
  cases a with
  | event a =>
    obtain ⟨t, ht, rfl⟩ := Option.map_eq_some_iff.mp hstep
    rw [Handlers.step] at ht
    split at ht
    next =>
      cases a with
      | deleteQueue now g n order => exact calm_deleteQueue h hg ht
      | addQueue | updateQueue | addUnit | updateUnit | deleteUnit | flush | fixQueues =>
        exact calm_evolves h (evolves_act h.wired (fun _ _ _ _ => Handlers.Action.noConfusion) ht)
    next => cases ht
  | internalSchedule sorted =>
    rw [Goroutines.step] at hstep
    split at hstep
    next =>
      cases hstep
      exact calm_internalSchedule h sorted
    next => cases hstep
  | loop i =>
    obtain ⟨gr, hi, hstep⟩ := Option.bind_eq_some_iff.mp hstep
    split at hstep
    next =>
      cases hstep
      refine calm_move h hi (fun hp => hg gr hi ?_)
      cases hc : gr.cancelled with
      | false => rfl
      | true =>
        rw [hc] at hp
        cases hp
    next => cases hstep
  | next now i =>
    obtain ⟨gr, hi, hstep⟩ := Option.bind_eq_some_iff.mp hstep
    split at hstep
    next hp =>
      obtain ⟨⟨q, result⟩, hnext, rfl⟩ := Option.map_eq_some_iff.mp hstep
      exact calm_next h hi hp hnext
    next => cases hstep
  | finish i =>
    obtain ⟨gr, hi, hstep⟩ := Option.bind_eq_some_iff.mp hstep
    split at hstep
    next =>
      cases hstep
      exact calm_move h hi Position.noConfusion
    next => cases hstep
  | work o infos q =>
    rw [Goroutines.step] at hstep
    split at hstep
    next henabled =>
      cases hstep
      refine calm_set h henabled.1 henabled.2 (fun gr hgr he hp => ?_)
      rcases hg with hl | hidle | hnone
      · exact Or.inl hl
      · exact Or.inr hidle
      · exact absurd hp (hnone gr hgr he)
    next => cases hstep

theorem calm_init : Calm {} := by
  refine ⟨⟨?_, ?_⟩, ⟨?_, ?_, ?_⟩, ?_, ?_, ?_, ?_⟩ <;> simp

/-- A deleted queue hands nothing out, so no two objects of one name do. -/
theorem deleted_never_hands_out {run : List Goroutines.Action}
    (hg : Run.Guarded (Goroutines.step fw) Orderly {} run) (hrun : Run.exec (Goroutines.step fw) {} run = some w) :
    Rightful w :=
  (Run.invariant (fun _ _ _ h hok hstep => calm_step h hok hstep) calm_init hg hrun).toRightful

section Runs

instance (w : World) (a : Goroutines.Action) : Decidable (Orderly w a) := by
  delta Orderly
  split <;> infer_instance

def plainQueue : QueueCr := { name := "a", queuePolicy := "Priority" }

/-- The goroutine of the queue waits in `Next`. -/
def oneWaiting : List Goroutines.Action :=
  [.event (.addQueue 0 plainQueue), .internalSchedule ["a"], .loop 0, .next 0 0]

def recreated : List Goroutines.Action :=
  oneWaiting ++ [.event (.deleteQueue 0 (allTo "a") "a" []), .internalSchedule [], .event (.addQueue 0 plainQueue),
    .internalSchedule ["a"], .event (.addUnit 0 (allTo "a") waiter), .loop 1, .next 1 1]

theorem deleted_never_hands_out_recreated : ∃ w, Run.exec (Goroutines.step plainHandle) {} recreated = some w ∧
    w.handed.map HandOut.object = [1] ∧ Rightful w := by
  obtain ⟨w, hrun, hw⟩ : ∃ w, Run.exec (Goroutines.step plainHandle) {} recreated = some w ∧
      w.handed.map HandOut.object = [1] := by decide +kernel
  exact ⟨w, hrun, hw, deleted_never_hands_out (by decide +kernel) hrun⟩

/-- A unit is added, which wakes the goroutine, and the queue is deleted before `Next`
goes on. The deleted object still has the unit and hands it out. -/
theorem deleted_hands_out : ∃ w, Run.exec (Goroutines.step plainHandle) {} (oneWaiting ++
    [.event (.addUnit 0 (allTo "a") waiter), .event (.deleteQueue 0 (allTo "b") "a" ["ns/u"]), .next 1 0]) = some w ∧
    ¬ Rightful w := by
  obtain ⟨w, hrun, hw⟩ : ∃ w, Run.exec (Goroutines.step plainHandle) {}
      (oneWaiting ++ [.event (.addUnit 0 (allTo "a") waiter), .event (.deleteQueue 0 (allTo "b") "a" ["ns/u"]),
      .next 1 0]) = some w ∧ w.handed = [⟨"a", 0, "ns/u", 1, none⟩] := by decide +kernel
  refine ⟨w, hrun, fun h => ?_⟩
  have hregistered := h.registered ⟨"a", 0, "ns/u", 1, none⟩ (by rw [hw]; exact List.mem_cons_self)
  cases hregistered

end Runs

end KoordQueue.Multi.Deleted
