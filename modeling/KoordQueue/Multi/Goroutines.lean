import KoordQueue.Multi.Handlers

namespace KoordQueue.Multi.Goroutines

open Api KoordQueue.Queue Memory Policy Object Handlers

inductive Position
  | between
  | inNext
  | inCycle
  | returned
deriving DecidableEq

structure Goroutine where
  object : Ref
  cancelled : Bool := false
  position : Position := .between
deriving DecidableEq

/-- A unit that `Next` returned: the queue that returned it, the object that was
registered under the name then, and how often the name had been deleted. -/
structure HandOut where
  queue : String
  object : Ref
  unit : String
  deletions : Nat
  registered : Option Ref
deriving DecidableEq

structure World where
  state : State := {}
  startedQueue : GoMap String Nat := ∅
  goroutines : List Goroutine := []
  deletions : GoMap String Nat := ∅
  handed : List HandOut := []

namespace World

def deleted (w : World) (n : String) : Nat := (w.deletions.lookup n).getD 0

def startQueue (w : World) (n : String) : World :=
  match w.state.queueMap.lookup n with
  | none => w
  | some o =>
    if (w.state.objects.get o).name ∈ w.startedQueue then w
    else { w with
      startedQueue := w.startedQueue.insert (w.state.objects.get o).name w.goroutines.length
      goroutines := w.goroutines ++ [{ object := o }] }

def cancelRemoved (existing : List String) (w : World) : World :=
  { w with
    goroutines := w.goroutines.mapIdx (fun i gr =>
      { gr with cancelled := gr.cancelled || decide (∃ n ∈ w.startedQueue.keys,
          n ∉ existing ∧ w.startedQueue.lookup n = some i) })
    startedQueue := GoMap.range (fun n i _ => if n ∈ existing then i else none) w.startedQueue w.startedQueue }

/-- One pass of the loop in `internalSchedule` over the sorted queues. -/
def internalSchedule (sorted : List String) (w : World) : World :=
  let existing := sorted.filterMap (fun n => (w.state.queueMap.lookup n).map (fun o => (w.state.objects.get o).name))
  cancelRemoved existing (sorted.foldl startQueue w)

def setObject (o : Ref) (q : Queue) (w : World) : World :=
  { w with state := { w.state with objects := w.state.objects.set o q } }

def move (i : Nat) (gr : Goroutine) (position : Position) (w : World) : World :=
  { w with goroutines := w.goroutines.set i { gr with position } }

/-- A call of `Next` returns, or waits on. -/
def answer (i : Nat) (gr : Goroutine) (q : Queue) (w : World) : NextResult → World
  | .unit r => { (w.setObject gr.object q).move i gr .inCycle with
      handed := w.handed ++ [{
        queue := q.name
        object := gr.object
        unit := w.state.infos.key r
        deletions := w.deleted q.name
        registered := w.state.queueMap.lookup q.name }] }
  | .wait => w.setObject gr.object q
  | .closed => (w.setObject gr.object q).move i gr .between

def handled (s : State) (w : World) : Handlers.Action → World
  | .deleteQueue _ _ n _ => { w with state := s, deletions := w.deletions.insert n (w.deleted n + 1) }
  | _ => { w with state := s }

end World

/-- Besides the events, the steps of the goroutines. A waiting `Next` may be woken at
any time. Whatever else a cycle does to the queue is left open. -/
inductive Action
  | event (a : Handlers.Action)
  | internalSchedule (sorted : List String)
  | loop (i : Nat)
  | next (now : Time) (i : Nat)
  | finish (i : Nat)
  | work (o : Ref) (infos : Infos) (q : Queue)

def step (fw : MultiHandle) (w : World) : Action → Option World
  | .event a => (Handlers.step fw w.state a).map (fun s => w.handled s a)
  | .internalSchedule sorted =>
    if Ranges sorted w.state.queueMap.keys then some (w.internalSchedule sorted) else none
  | .loop i => (w.goroutines[i]?).bind (fun gr =>
    if gr.position = .between then some (w.move i gr (if gr.cancelled then .returned else .inNext)) else none)
  | .next now i => (w.goroutines[i]?).bind (fun gr =>
    if gr.position = .inNext then
      ((w.state.objects.get gr.object).next fw.toHandle now w.state.infos).map (fun (q, result) =>
        w.answer i gr q result)
    else none)
  | .finish i => (w.goroutines[i]?).bind (fun gr =>
    if gr.position = .inCycle then some (w.move i gr .between) else none)
  | .work o infos q =>
    if w.state.objects.Allocated o ∧ q.name = (w.state.objects.get o).name then
      some { w with state := { w.state with infos, objects := w.state.objects.set o q } }
    else none

end KoordQueue.Multi.Goroutines
