import KoordQueue.Queue.Intelligent

namespace KoordQueue.Multi.Object

open Api UnitStatus KoordQueue.Queue Memory Policy Update

/-- A queue as the cluster describes it. An update is also compared on the
labels and on `rest`, which stands for the fields that no queue reads. -/
structure QueueCr where
  name : String := ""
  labels : GoMap String String := ∅
  annotations : GoMap String String := ∅
  queuePolicy : String := ""
  rest : String := ""
deriving DecidableEq

def QueueCr.annotation (cr : QueueCr) (key : String) : String := (cr.annotations.lookup key).getD ""

def parseInt32 (s : String) : Option Int :=
  let digits (cs : List Char) : Option Int :=
    if cs ≠ [] ∧ cs.all Char.isDigit = true then
      some (cs.foldl (fun n c => 10 * n + (c.toNat - '0'.toNat : Nat)) 0)
    else none
  let value := match s.toList with
    | '-' :: cs => (digits cs).map Neg.neg
    | '+' :: cs => digits cs
    | cs => digits cs
  value.filter (fun n => -2147483648 ≤ n && n ≤ 2147483647)

structure MultiHandle extends Handle where
  reclaimProtectTime : Int := 0

inductive Impl
  | priority (pq : PriorityQueue)
  | intelligent (iq : Intelligent.IntelligentQueue)
deriving DecidableEq

namespace Impl

def units : Impl → GoMap String Ref
  | priority pq => pq.queueUnits
  | intelligent iq => iq.queueUnits

def name : Impl → String
  | priority pq => pq.name
  | intelligent iq => iq.name

def supportedPolicy : Impl → List String
  | priority _ => ["Priority", "Block"]
  | intelligent _ => ["Intelligent"]

def addQueueUnitInfo (fw : Handle) (m : Infos) (r : Ref) : Impl → Impl × Except String Bool
  | priority pq => let (pq, result) := Policy.addQueueUnitInfo fw m r pq; (priority pq, result)
  | intelligent iq => let (iq, result) := Intelligent.addQueueUnitInfo m r iq; (intelligent iq, result)

def delete (fw : Handle) (now : Time) (qu : QueueUnit) (m : Infos) : Impl → Infos × Impl
  | priority pq => let s := Update.delete fw now qu ⟨m, pq⟩; (s.infos, priority s.pq)
  | intelligent iq => let s := Intelligent.delete fw now qu ⟨m, iq⟩; (s.infos, intelligent s.iq)

def update (fw : Handle) (now : Time) (old new : QueueUnit) (m : Infos) : Impl → Infos × Impl
  | priority pq => let s := Update.update fw now old new ⟨m, pq⟩; (s.infos, priority s.pq)
  | intelligent iq => let s := Intelligent.update fw now old new ⟨m, iq⟩; (s.infos, intelligent s.iq)

/-- The early return of `Update`. -/
def unchanged (fw : Handle) (old new : QueueUnit) : Impl → Bool
  | priority _ => Update.unchanged old new
  | intelligent _ => Intelligent.unchanged fw old new

def moved (g : QueueUnit → String) (m : Infos) (impl : Impl) : Finset String :=
  impl.units.keys.filter (fun key => (impl.units.lookup key).any (fun r => g (m.unit r) ≠ impl.name))

def fix (fw : Handle) (now : Time) (order : List String) (m : Infos) : Impl → Infos × Impl
  | priority pq => let s := Update.fix fw now order ⟨m, pq⟩; (s.infos, priority s.pq)
  | intelligent iq => (m, intelligent (Intelligent.fix m order iq))

def next (fw : Handle) (m : Infos) (now : Time) : Impl → Impl × NextResult
  | priority pq => let (pq, result) := Policy.next fw m now pq; (priority pq, result)
  | intelligent iq => let (iq, result) := Intelligent.next fw m now iq; (intelligent iq, result)

def thresholdOf (cr : QueueCr) : Int :=
  (parseInt32 (cr.annotation "koord-queue/priority-threshold")).getD Intelligent.defaultPriorityThreshold

def updateQueueCr (m : Infos) (cr : QueueCr) (order : List String) : Impl → Impl
  | priority pq => priority { pq with
      waitPodsRunning := cr.annotation "koord-queue/wait-for-pods-running" = "true"
      maxDepth := (parseInt32 (cr.annotation "koord-queue/max-depth")).getD pq.maxDepth }
  | intelligent iq => intelligent (Intelligent.updateQueueCr m (thresholdOf cr)
      (cr.annotation "kube-queue/wait-for-pods-running" = "true") order iq)

def changePolicy (policy : String) : Impl → Impl
  | priority pq => priority { pq with blocked := policy = "Block" }
  | intelligent iq => intelligent iq

end Impl

/-- The implementation of a policy, or nothing for a policy that has none. A
priority queue starts empty, whatever the items. -/
def createSchedulingQueue (fw : MultiHandle) (m : Infos) (now : Time) (cr : QueueCr) (items : List Ref) :
    Option Impl :=
  if cr.queuePolicy = "Priority" ∨ cr.queuePolicy = "Block" then
    some (.priority (newPriorityQueue cr.name cr.queuePolicy
      ((parseInt32 (cr.annotation "koord-queue/max-depth")).getD (-1))
      (cr.annotation "koord-queue/wait-for-pods-running" = "true") fw.reclaimProtectTime now))
  else if cr.queuePolicy = "Intelligent" then
    some (.intelligent (Intelligent.newIntelligentQueue m cr.name (Impl.thresholdOf cr)
      ((parseInt32 (cr.annotation "kube-queue/max-depth")).getD (-1))
      (cr.annotation "kube-queue/wait-for-pods-running" = "true") items))
  else none

/-- A queue object. There is no implementation after a failed change of policy,
and a call that needs one then crashes the process. -/
structure Queue where
  name : String := ""
  queueImpl : Option Impl := none
  scheduling : Option Ref := none
  assumed : Finset UID := ∅
  waitingForScheduling : GoMap UID Ref := ∅
deriving DecidableEq

instance : Inhabited Queue := ⟨{}⟩

def newQueue (fw : MultiHandle) (m : Infos) (now : Time) (cr : QueueCr) : Option Queue :=
  (createSchedulingQueue fw m now cr []).map (fun impl => { name := cr.name, queueImpl := some impl })

namespace Queue

def units (q : Queue) : GoMap String Ref := (q.queueImpl.map Impl.units).getD ∅

variable (fw : Handle) (now : Time) (m : Infos)

def await (qu : QueueUnit) (q : Queue) : Infos × Queue :=
  if qu.uid ∈ q.waitingForScheduling then (m, q)
  else (m.newQueueUnitInfo now qu,
    { q with waitingForScheduling := q.waitingForScheduling.insert qu.uid m.heap.next })

def addQueueUnitInfo (r : Ref) (q : Queue) : Option (Infos × Queue × Except String Bool) :=
  let (m, q) := if !isQueueUnitPodsScheduleFinished (m.unit r) then await now m (m.unit r) q else (m, q)
  q.queueImpl.map (fun impl =>
    let (impl, result) := impl.addQueueUnitInfo fw m r
    (m, { q with queueImpl := some impl }, result))

def delete (qu : QueueUnit) (q : Queue) : Option (Infos × Queue) :=
  let q := { q with
    scheduling := q.scheduling.filter (fun r => qu.name ≠ (m.unit r).name)
    assumed := q.assumed.erase qu.uid
    waitingForScheduling := q.waitingForScheduling.erase qu.uid }
  q.queueImpl.map (fun impl =>
    let (m, impl) := impl.delete fw now qu m
    (m, { q with queueImpl := some impl }))

def update (old new : QueueUnit) (q : Queue) : Option (Infos × Queue) :=
  let (m, q) :=
    if !isQueueUnitPodsScheduleFinished new then await now m new { q with assumed := q.assumed.erase new.uid }
    else if new.uid ∉ q.assumed then
      (m, { q with waitingForScheduling := q.waitingForScheduling.erase new.uid })
    else (m, q)
  q.queueImpl.map (fun impl =>
    let (m, impl) := impl.update fw now old new m
    (m, { q with queueImpl := some impl }))

def fix (order : List String) (q : Queue) : Infos × Queue :=
  match q.queueImpl with
  | none => (m, q)
  | some impl =>
    let (m, impl) := impl.fix fw now order m
    (m, { q with queueImpl := some impl })

def next (q : Queue) : Option (Queue × NextResult) :=
  q.queueImpl.map (fun impl =>
    let (impl, result) := impl.next fw m now
    ({ q with
      queueImpl := some impl
      scheduling := match result with
        | .unit r => some r
        | _ => q.scheduling }, result))

/-- Take a new description of the queue over. When the implementation does not
support the policy another one replaces it, and the units are added to that.
The maps are ranged over in the given orders. -/
def sync (fw : MultiHandle) (cr : QueueCr) (redistributed listed : List String) (q : Queue) : Option Queue :=
  q.queueImpl.bind (fun impl =>
    let impl := impl.updateQueueCr m cr redistributed
    if cr.queuePolicy ∈ impl.supportedPolicy then
      some { q with queueImpl := some (impl.changePolicy cr.queuePolicy) }
    else
      let items := listed.filterMap impl.units.lookup
      match createSchedulingQueue fw m now cr items with
      | some created =>
        let impl := items.foldl (fun impl r => (impl.addQueueUnitInfo fw.toHandle m r).1) created
        some { q with queueImpl := some impl }
      | none => if items = [] then some { q with queueImpl := none } else none)

end Queue

end KoordQueue.Multi.Object
