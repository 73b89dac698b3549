import KoordQueue.Queue.Update

namespace KoordQueue.Queue.Steps

open Api Memory Policy Update

inductive Answer
  | getNotFound
  | getFailed
  | updateNotFound
  | got (newQueueUnit : QueueUnit)
deriving DecidableEq

def failedVersion (now : Time) (reasons : String) (qu : QueueUnit) : QueueUnit :=
  { qu with status := { qu.status with message := reasons, lastUpdateTime := some now } }

def attempted (now : Time) (r : Ref) (infos : Infos) : Infos :=
  infos.set r { infos.get r with attempts := (infos.get r).attempts + 1, timestamp := now }

def refreshed (now : Time) (r : Ref) (reasons : String) (qu : QueueUnit) (infos : Infos) : Infos :=
  (attempted now r infos).setUnit r (failedVersion now reasons qu)

variable (fw : Handle)

def addUnschedulable (r : Ref) (allocatableChanged : Bool) (s : State) : State :=
  { s with pq := addUnschedulableIfNotPresent fw s.infos r allocatableChanged s.pq }

/-- The scheduler's treatment of a failed unit. It writes through the info it
was given, which the queue may still hold. -/
def errorFunc (now : Time) (r : Ref) (answer : Answer) (reasons : String) (allocatableChanged : Bool)
    (s : State) : State :=
  match answer with
  | .getNotFound => delete fw now (s.infos.unit r) { s with infos := attempted now r s.infos }
  | .getFailed => addUnschedulable fw r allocatableChanged { s with infos := attempted now r s.infos }
  | .updateNotFound => { s with infos := attempted now r s.infos }
  | .got newQueueUnit =>
    addUnschedulable fw r allocatableChanged { s with infos := refreshed now r reasons newQueueUnit s.infos }

/-- What the controller, the scheduler and the background loops do to a queue
and to the infos. Every call on a queue runs under its lock. -/
inductive Action
  | newInfo (now : Time) (qu : QueueUnit)
  | forgetInfos (present : UID → Bool)
  | add (r : Ref)
  | delete (now : Time) (qu : QueueUnit)
  | update (now : Time) (old new : QueueUnit)
  | next (now : Time)
  | reserve (now : Time) (r : Ref)
  | dequeueSuccess (qu : QueueUnit)
  | addUnschedulable (r : Ref) (allocatableChanged : Bool)
  | fix (now : Time) (g : QueueUnit → String) (order : List String)
  | fixQueue
  | errorFunc (now : Time) (r : Ref) (answer : Answer) (reasons : String) (allocatableChanged : Bool)

def Action.refs : Action → List Ref
  | .add r | .reserve _ r | .addUnschedulable r _ | .errorFunc _ r _ _ _ => [r]
  | _ => []

/-- What the action says about the world is so: the order of a `Fix` lists the
moved units, each once, and the API server answers with the unit asked for. -/
def Truthful (s : State) : Action → Prop
  | .fix _ g order => order.Nodup ∧ order.toFinset = moved g s
  | .errorFunc _ r (.got qu) _ _ => qu.ns = (s.infos.unit r).ns ∧ qu.name = (s.infos.unit r).name
  | _ => True

instance (s : State) (a : Action) : Decidable (Truthful s a) := by
  delta Truthful
  split <;> infer_instance

def Enabled (s : State) (a : Action) : Prop := (∀ r ∈ a.refs, s.infos.heap.Allocated r) ∧ Truthful s a
deriving Decidable

def act (s : State) : Action → State
  | .newInfo now qu => { s with infos := s.infos.newQueueUnitInfo now qu }
  | .forgetInfos present => { s with infos := s.infos.forgetQueueUnitInfo present }
  | .add r => { s with pq := (addQueueUnitInfo fw s.infos r s.pq).1 }
  | .delete now qu => delete fw now qu s
  | .update now old new => update fw now old new s
  | .next now => { s with pq := (next fw s.infos now s.pq).1 }
  | .reserve now r => { s with pq := (reserve s.infos now r s.pq).1 }
  | .dequeueSuccess _ => s
  | .addUnschedulable r allocatableChanged => addUnschedulable fw r allocatableChanged s
  | .fix now _ order => fix fw now order s
  | .fixQueue => { s with pq := fixQueue s.infos s.pq }
  | .errorFunc now r answer reasons allocatableChanged => errorFunc fw now r answer reasons allocatableChanged s

def step (s : State) (a : Action) : Option State := if Enabled s a then some (act fw s a) else none

theorem step_eq_some {s t : State} {a : Action} : step fw s a = some t ↔ Enabled s a ∧ act fw s a = t := by
  rw [step]
  split
  next h => simp [h]
  next h => simp [h]

def noQuotas : Handle := ⟨fun _ => none, false⟩

def emptyQueue : State := { pq := newPriorityQueue "q" "Priority" (-1) false 0 0 }

def jobUnit (name resourceVersion : String) (priority : Option (Ptr Int32)) (count : Int32)
    (admissions : List Admission) : QueueUnit where
  ns := "ns"
  name := name
  uid := name
  resourceVersion := resourceVersion
  spec := { priority, podSets := [{ name := "worker", count }] }
  status := { admissions }

end KoordQueue.Queue.Steps
