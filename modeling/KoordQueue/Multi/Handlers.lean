import KoordQueue.Multi.Object

namespace KoordQueue.Multi.Handlers

open Api KoordQueue.Queue Memory Object

/-- An answer of the mapping function. Some callers read the name of a mapping
that fails. -/
structure Mapping where
  name : QueueUnit → String
  fails : QueueUnit → Bool

def Mapping.target (g : Mapping) (qu : QueueUnit) : Option String := if g.fails qu then none else some (g.name qu)

/-- The scheduling queues together with the infos they share and the units that
the informer has. Queues are objects of their own: a deleted one may still be
in use. -/
structure State where
  infos : Infos := {}
  objects : Heap Queue := {}
  queueMap : GoMap String Ref := ∅
  queueUnitToQueue : GoMap String String := ∅
  queueUnitFindNoQueue : List Ref := []
  lister : GoMap String QueueUnit := ∅

namespace State

def getQueueForQueueUnit (qu : QueueUnit) (s : State) : String := (s.queueUnitToQueue.lookup qu.key).getD ""

def setQueueForQueueUnit (qu : QueueUnit) (qName : String) (s : State) : State :=
  { s with queueUnitToQueue := s.queueUnitToQueue.insert qu.key qName }

def addUnitsFindNoQueue (now : Time) (qu : QueueUnit) (s : State) : State :=
  { s with
    infos := s.infos.newQueueUnitInfo now qu
    queueUnitToQueue := s.queueUnitToQueue.erase qu.key
    queueUnitFindNoQueue := s.queueUnitFindNoQueue ++ [s.infos.heap.next] }

variable (fw : MultiHandle) (now : Time)

def addQueueUnitInfo (o r : Ref) (s : State) : Option (State × Except String Bool) :=
  ((s.objects.get o).addQueueUnitInfo fw.toHandle now s.infos r).map (fun (infos, q, result) =>
    ({ s with infos, objects := s.objects.set o q }, result))

def deleteFrom (o : Ref) (qu : QueueUnit) (s : State) : Option State :=
  ((s.objects.get o).delete fw.toHandle now s.infos qu).map (fun (infos, q) =>
    { s with infos, objects := s.objects.set o q })

def deleteIfFound (name : String) (qu : QueueUnit) (s : State) : Option State :=
  match s.queueMap.lookup name with
  | none => some s
  | some o => s.deleteFrom fw now o qu

/-- The loop of `flushUnitsFindNoQueue`, with the list of the units that stay. -/
def flushUnits (g : Mapping) : List Ref → List Ref → State → Option State
  | [], newUnitsList, s => some { s with queueUnitFindNoQueue := newUnitsList }
  | r :: refs, newUnitsList, s =>
    match s.lister.lookup (s.infos.key r) with
    | none => flushUnits g refs newUnitsList s
    | some newQu =>
      let s := { s with infos := s.infos.setUnit r newQu }
      match g.target newQu with
      | none => flushUnits g refs newUnitsList s
      | some qname =>
        if qname = "" then flushUnits g refs (newUnitsList ++ [r]) s
        else match s.queueMap.lookup qname with
          | none => flushUnits g refs (newUnitsList ++ [r]) s
          | some o =>
            ((s.setQueueForQueueUnit newQu qname).addQueueUnitInfo fw now o r).bind (fun (s, _) =>
              flushUnits g refs newUnitsList s)

def flushUnitsFindNoQueue (g : Mapping) (s : State) : Option State :=
  flushUnits fw now g s.queueUnitFindNoQueue [] s

/-- The units that `Fix` takes out of the queues, in the orders in which the
maps were ranged over. -/
def collect : List (String × List String) → List Ref → State → State × List Ref
  | [], units, s => (s, units)
  | (name, order) :: rest, units, s =>
    match s.queueMap.lookup name with
    | none => collect rest units s
    | some o =>
      let items := order.filterMap (s.objects.get o).units.lookup
      let (infos, q) := (s.objects.get o).fix fw.toHandle now s.infos order
      collect rest (units ++ items) { s with infos, objects := s.objects.set o q }

def requeue (g : Mapping) : List Ref → State → Option State
  | [], s => some s
  | r :: refs, s =>
    match (g.target (s.infos.unit r)).bind s.queueMap.lookup with
    | none => requeue g refs { s with queueUnitFindNoQueue := s.queueUnitFindNoQueue ++ [r] }
    | some o =>
      ({ s with queueUnitToQueue := s.queueUnitToQueue.insert (s.infos.get r).name (s.objects.get o).name
        }.addQueueUnitInfo fw now o r).bind (fun (s, _) => requeue g refs s)

def fixQueues (g : Mapping) (orders : List (String × List String)) (s : State) : Option State :=
  let (s, units) := collect fw now orders s.queueUnitFindNoQueue { s with queueUnitFindNoQueue := [] }
  requeue fw now g units s

def addQueue (cr : QueueCr) (s : State) : State :=
  if cr.name ∈ s.queueMap then s
  else match newQueue fw s.infos now cr with
    | none => s
    | some q => { s with objects := s.objects.alloc q, queueMap := s.queueMap.insert cr.name s.objects.next }

def updateQueue (old new : QueueCr) (redistributed listed : List String) (s : State) : Option State :=
  match s.queueMap.lookup new.name with
  | none => some (s.addQueue fw now new)
  | some o =>
    if { old with name := new.name } = new then some s
    else ((s.objects.get o).sync now s.infos fw new redistributed listed).map (fun q =>
      { s with objects := s.objects.set o q })

def deleteQueue (g : Mapping) (name : String) (order : List String) (s : State) : Option State :=
  match s.queueMap.lookup name with
  | none => some s
  | some o =>
    (flushUnitsFindNoQueue fw now g { s with queueUnitFindNoQueue :=
        s.queueUnitFindNoQueue ++ order.filterMap (s.objects.get o).units.lookup }).map (fun s =>
      { s with queueMap := s.queueMap.erase name })

def addQueueUnit (g : Mapping) (qu : QueueUnit) (s : State) : Option State :=
  match (g.target qu).bind (fun queueName => (s.queueMap.lookup queueName).map (queueName, ·)) with
  | none => some (s.addUnitsFindNoQueue now qu)
  | some (queueName, o) =>
    let r := s.infos.heap.next
    ({ s.setQueueForQueueUnit qu queueName with infos := s.infos.newQueueUnitInfo now qu
      }.addQueueUnitInfo fw now o r).map Prod.fst

def listFailed (now : Time) (newQu : QueueUnit) : State × Except String Bool → State
  | (s, .ok _) => s
  | (s, .error _) => s.addUnitsFindNoQueue now newQu

def updateQueueUnit (g : Mapping) (oldQu newQu : QueueUnit) (s : State) : Option State :=
  let oldQueueName := s.getQueueForQueueUnit oldQu
  match (g.target newQu).bind (fun queueName => (s.queueMap.lookup queueName).map (queueName, ·)) with
  | none => (s.deleteIfFound fw now oldQueueName newQu).map (addUnitsFindNoQueue now newQu)
  | some (queueName, o) =>
    if oldQueueName = queueName then
      ((s.objects.get o).update fw.toHandle now s.infos oldQu newQu).map (fun (infos, q) =>
        { s with infos, objects := s.objects.set o q })
    else
      (s.deleteIfFound fw now oldQueueName newQu).bind (fun s =>
        let r := s.infos.heap.next
        ({ s.setQueueForQueueUnit newQu (s.objects.get o).name with infos := s.infos.newQueueUnitInfo now newQu
          }.addQueueUnitInfo fw now o r).map (listFailed now newQu))

def deleteQueueUnit (qu : QueueUnit) (s : State) : Option State :=
  (s.deleteIfFound fw now (s.getQueueForQueueUnit qu) qu).map (fun s =>
    { s with queueUnitToQueue := s.queueUnitToQueue.erase qu.key })

end State

/-- The events of queues and units and the background calls. A map is ranged
over in the order that the action gives. -/
inductive Action
  | addQueue (now : Time) (cr : QueueCr)
  | updateQueue (now : Time) (old new : QueueCr) (redistributed listed : List String)
  | deleteQueue (now : Time) (g : Mapping) (name : String) (order : List String)
  | addUnit (now : Time) (g : Mapping) (qu : QueueUnit)
  | updateUnit (now : Time) (g : Mapping) (oldQu newQu : QueueUnit)
  | deleteUnit (now : Time) (qu : QueueUnit)
  | flush (now : Time) (g : Mapping)
  | fixQueues (now : Time) (g : Mapping) (orders : List (String × List String))

def contents (s : State) (name : String) : GoMap String Ref :=
  ((s.queueMap.lookup name).map (fun o => (s.objects.get o).units)).getD ∅

/-- The keys of the units that `Fix` takes out of a queue. -/
def moved (s : State) (g : Mapping) (name : String) : Finset String :=
  (contents s name).keys.filter (fun key =>
    ((contents s name).lookup key).any (fun r => g.name (s.infos.unit r) ≠ name))

/-- The list names each element of the set once. -/
def Ranges (order : List String) (keys : Finset String) : Prop := order.Nodup ∧ order.toFinset = keys
deriving Decidable

/-- What the action says about the world is so. Queues have names, and versions of
a unit that have the same resource version are the same. -/
def Truthful (s : State) : Action → Prop
  | .addQueue _ cr => cr.name ≠ ""
  | .updateQueue _ _ new redistributed listed => new.name ≠ "" ∧
      Ranges redistributed (contents s new.name).keys ∧ Ranges listed (contents s new.name).keys
  | .deleteQueue _ _ name order => Ranges order (contents s name).keys
  | .addUnit _ _ qu => qu.key ∉ s.lister
  | .updateUnit _ _ oldQu newQu => s.lister.lookup newQu.key = some oldQu ∧
      (oldQu.resourceVersion = newQu.resourceVersion → newQu = oldQu)
  | .deleteUnit _ qu => qu.key ∈ s.lister
  | .fixQueues _ g orders => Ranges (orders.map Prod.fst) s.queueMap.keys ∧
      ∀ e ∈ orders, Ranges e.2 (moved s g e.1)
  | _ => True

instance (s : State) (a : Action) : Decidable (Truthful s a) := by
  delta Truthful
  split <;> infer_instance

variable (fw : MultiHandle)

def act (s : State) : Action → Option State
  | .addQueue now cr => some (s.addQueue fw now cr)
  | .updateQueue now old new redistributed listed => s.updateQueue fw now old new redistributed listed
  | .deleteQueue now g name order => s.deleteQueue fw now g name order
  | .addUnit now g qu => { s with lister := s.lister.insert qu.key qu }.addQueueUnit fw now g qu
  | .updateUnit now g oldQu newQu =>
    { s with lister := s.lister.insert newQu.key newQu }.updateQueueUnit fw now g oldQu newQu
  | .deleteUnit now qu => { s with lister := s.lister.erase qu.key }.deleteQueueUnit fw now qu
  | .flush now g => s.flushUnitsFindNoQueue fw now g
  | .fixQueues now g orders => s.fixQueues fw now g orders

def step (s : State) (a : Action) : Option State := if Truthful s a then act fw s a else none

def plainHandle : MultiHandle where
  getQueueUnitQuotaName _ := none
  queueUnitActive := false

def allTo (n : String) : Mapping := ⟨fun _ => n, fun _ => false⟩

def waiter : QueueUnit where
  ns := "ns"
  name := "u"
  uid := "u"
  spec := { podSets := [{ name := "worker", count := 1 }] }

def oneHeld : List Action :=
  [.addQueue 0 { name := "a", queuePolicy := "Priority" }, .addQueue 0 { name := "b", queuePolicy := "Priority" },
    .addUnit 0 (allTo "a") waiter]

end KoordQueue.Multi.Handlers
