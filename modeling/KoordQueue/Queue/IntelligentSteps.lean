import KoordQueue.Lib.Run
import KoordQueue.Queue.Intelligent
import KoordQueue.Queue.Steps

namespace KoordQueue.Queue.IntelligentSteps

open Api Memory Intelligent
open Policy (Handle ReserveResult firstQuota)
open Steps (Answer attempted refreshed jobUnit)

/-- Nobody holds the preemption flag here, so a queue that waits for its pods
only refuses. -/
def reserve (m : Infos) (r : Ref) (q : IntelligentQueue) : IntelligentQueue × ReserveResult :=
  if q.waitPodsRunning = true ∧ q.assumed ≠ ∅ then (q, .refused)
  else ({ q with assumed := insert (m.key r) q.assumed, updating := insert (m.key r) q.updating }, .ok)

def dequeueSuccess (qu : QueueUnit) (q : IntelligentQueue) : IntelligentQueue :=
  { q with updating := q.updating.erase qu.key }

def blockQuota (fw : Handle) (qu : QueueUnit) (q : IntelligentQueue) : IntelligentQueue :=
  match firstQuota fw qu with
  | some quota => { q with blockedQuota := insert quota q.blockedQuota }
  | none => q

def addUnschedulableIfNotPresent (fw : Handle) (m : Infos) (r : Ref) (allocatableChanged : Bool)
    (q : IntelligentQueue) : IntelligentQueue :=
  let q := if allocatableChanged then { q with resetNextIdxFlag := true }
    else if isHighPriority (m.unit r) q then q
    else { q with lowNextIdx := q.lowNextIdx + 1 }
  let q := if allocatableChanged then q else blockQuota fw (m.unit r) q
  { q with assumed := q.assumed.erase (m.key r), updating := q.updating.erase (m.key r) }

variable (fw : Handle)

def addUnschedulable (r : Ref) (allocatableChanged : Bool) (s : State) : State :=
  { s with iq := addUnschedulableIfNotPresent fw s.infos r allocatableChanged s.iq }

def errorFunc (now : Time) (r : Ref) (answer : Answer) (reasons : String) (allocatableChanged : Bool)
    (s : State) : State :=
  match answer with
  | .getNotFound => delete fw now (s.infos.unit r) { s with infos := attempted now r s.infos }
  | .getFailed => addUnschedulable fw r allocatableChanged { s with infos := attempted now r s.infos }
  | .updateNotFound => { s with infos := attempted now r s.infos }
  | .got newQueueUnit =>
    addUnschedulable fw r allocatableChanged { s with infos := refreshed now r reasons newQueueUnit s.infos }

/-- What the controller and the scheduler do to a queue and to the infos. -/
inductive Action
  | newInfo (now : Time) (qu : QueueUnit)
  | forgetInfos (present : UID → Bool)
  | add (r : Ref)
  | delete (now : Time) (qu : QueueUnit)
  | update (now : Time) (old new : QueueUnit)
  | next (now : Time)
  | reserve (r : Ref)
  | dequeueSuccess (qu : QueueUnit)
  | addUnschedulable (r : Ref) (allocatableChanged : Bool)
  | fix (g : QueueUnit → String) (order : List String)
  | updateQueueCr (threshold : Int) (waitPodsRunning : Bool) (order : List String)
  | errorFunc (now : Time) (r : Ref) (answer : Answer) (reasons : String) (allocatableChanged : Bool)

def Action.refs : Action → List Ref
  | .add r | .reserve r | .addUnschedulable r _ | .errorFunc _ r _ _ _ => [r]
  | _ => []

def moved (g : QueueUnit → String) (s : State) : Finset String :=
  s.iq.queueUnits.keys.filter (fun key =>
    (s.iq.queueUnits.lookup key).any (fun r => g (s.infos.unit r) ≠ s.iq.name))

/-- What the action says about the world is so. -/
def Truthful (s : State) : Action → Prop
  | .fix g order => order.Nodup ∧ order.toFinset = moved g s
  | .updateQueueCr _ _ order => order.Nodup ∧ order.toFinset = s.iq.queueUnits.keys
  | .errorFunc _ r (.got qu) _ _ => qu.ns = (s.infos.unit r).ns ∧ qu.name = (s.infos.unit r).name
  | _ => True

instance decidableTruthful (s : State) (a : Action) : Decidable (Truthful s a) := by
  delta Truthful
  split <;> infer_instance

def Enabled (s : State) (a : Action) : Prop := (∀ r ∈ a.refs, s.infos.heap.Allocated r) ∧ Truthful s a
deriving Decidable

def act (s : State) : Action → State
  | .newInfo now qu => { s with infos := s.infos.newQueueUnitInfo now qu }
  | .forgetInfos present => { s with infos := s.infos.forgetQueueUnitInfo present }
  | .add r => { s with iq := (addQueueUnitInfo s.infos r s.iq).1 }
  | .delete now qu => delete fw now qu s
  | .update now old new => update fw now old new s
  | .next now => { s with iq := (next fw s.infos now s.iq).1 }
  | .reserve r => { s with iq := (reserve s.infos r s.iq).1 }
  | .dequeueSuccess qu => { s with iq := dequeueSuccess qu s.iq }
  | .addUnschedulable r allocatableChanged => addUnschedulable fw r allocatableChanged s
  | .fix _ order => { s with iq := fix s.infos order s.iq }
  | .updateQueueCr threshold waitPodsRunning order =>
    { s with iq := updateQueueCr s.infos threshold waitPodsRunning order s.iq }
  | .errorFunc now r answer reasons allocatableChanged => errorFunc fw now r answer reasons allocatableChanged s

def step (s : State) (a : Action) : Option State := if Enabled s a then some (act fw s a) else none

theorem step_eq_some {s t : State} {a : Action} : step fw s a = some t ↔ Enabled s a ∧ act fw s a = t := by
  rw [step]
  split
  next h => simp [h]
  next h => simp [h]

/-- A queue together with the units whose dequeue is in progress. -/
structure Watched where
  state : State
  inFlight : Finset String

/-- The dequeue of a unit begins when it is reserved. It ends when it succeeded
or failed or the unit is deleted. -/
def inFlightAfter (inFlight : Finset String) (s : State) : Action → Finset String
  | .reserve r => if (reserve s.infos r s.iq).2 = .ok then insert (s.infos.key r) inFlight else inFlight
  | .dequeueSuccess qu | .delete _ qu => inFlight.erase qu.key
  | .addUnschedulable r _ => inFlight.erase (s.infos.key r)
  | .errorFunc _ _ .updateNotFound _ _ => inFlight
  | .errorFunc _ r _ _ _ => inFlight.erase (s.infos.key r)
  | _ => inFlight

def watched (fw : Handle) (w : Watched) (a : Action) : Option Watched :=
  (step fw w.state a).map (fun s => ⟨s, inFlightAfter w.inFlight w.state a⟩)

def labelQuota : Handle := ⟨fun qu => (qu.labels.lookup "quota").map (fun quota => [quota]), false⟩

def workers (name version quota : String) (priority count : Int32) (admitted : Int64) : QueueUnit :=
  { jobUnit name version (some ⟨1, priority⟩) count [{ name := "worker", replicas := admitted }] with
    labels := Finmap.singleton "quota" quota }

def emptyIntelligent : State := { iq := newIntelligentQueue {} "q" 4 (-1) false [] }

end KoordQueue.Queue.IntelligentSteps
