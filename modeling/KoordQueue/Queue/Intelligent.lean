import KoordQueue.Queue.Update

namespace KoordQueue.Queue.Intelligent

open Api UnitStatus UnitInfo BinarySearch Memory Less Policy
open Update (activationChanged)

def defaultPriorityThreshold : Int := 4

structure IntelligentQueue where
  name : String := ""
  closed : Bool := false
  resetNextIdxFlag : Bool := false
  maxDepth : Int := -1
  queueUnits : GoMap String Ref := ∅
  assumed : Finset String := ∅
  updating : Finset String := ∅
  blockedQuota : Finset String := ∅
  lastScheduledTime : Time := 0
  lastScheduledQueueUnit : String := ""
  waitPodsRunning : Bool := false
  priorityThreshold : Int := defaultPriorityThreshold
  highPriorityQueue : List Ref := []
  lowPriorityQueue : List Ref := []
  highNextIdx : Nat := 0
  lowNextIdx : Nat := 0
deriving DecidableEq

def priority32 (qu : QueueUnit) : Int32 :=
  match qu.spec.priority with
  | some p => p.val
  | none => 0

def priorityLess (a b : QueueUnitInfo) : Int :=
  let prioA := priority32 a.unit
  let prioB := priority32 b.unit
  if a.unit.uid = b.unit.uid then 0
  else if prioA < prioB then 1
  else if prioA > prioB then -1
  else if a.initialAttemptTimestamp > b.initialAttemptTimestamp then 1
  else if a.initialAttemptTimestamp < b.initialAttemptTimestamp then -1
  else if a.name < b.name then -1
  else if a.name > b.name then 1
  else 0

theorem toInt_priority32 (qu : QueueUnit) : (priority32 qu).toInt = priorityOf qu := by
  rw [priority32, priorityOf]
  cases qu.spec.priority with
  | none => rfl
  | some p => rfl

theorem priorityLess_eq (a b : QueueUnitInfo) : priorityLess a b = less a b := by
  simp only [priorityLess, less, gt_iff_lt, Int32.lt_iff_toInt_lt, toInt_priority32]

variable (fw : Handle) (m : Infos) (now : Time)

def isHighPriority (qu : QueueUnit) (q : IntelligentQueue) : Bool := priorityOf qu ≥ q.priorityThreshold

def search (queue : List Ref) (target : QueueUnitInfo) : Nat × Bool :=
  binarySearchFunc queue target (fun r t => priorityLess (m.get r) t)

theorem search_eq (queue : List Ref) (target : QueueUnitInfo) : search m queue target = position m queue target := by
  rw [search, position]
  simp only [priorityLess_eq]

def insertSorted (queue : List Ref) (r : Ref) : Nat × List Ref :=
  match search m queue (m.get r) with
  | (index, true) => (index, queue)
  | (index, false) => (index, queue.insertIdx index r)

def distributeToQueue (r : Ref) (q : IntelligentQueue) : IntelligentQueue × Nat :=
  if isHighPriority (m.unit r) q then
    let (index, queue) := insertSorted m q.highPriorityQueue r
    ({ q with highPriorityQueue := queue }, index)
  else
    let (index, queue) := insertSorted m q.lowPriorityQueue r
    ({ q with lowPriorityQueue := queue }, index + q.highPriorityQueue.length)

def removeSorted (queue : List Ref) (qi : QueueUnitInfo) : List Ref :=
  match search m queue qi with
  | (index, true) => queue.eraseIdx index
  | (_, false) => queue

theorem removeSorted_eq (queue : List Ref) (qi : QueueUnitInfo) : removeSorted m queue qi = removeFound m queue qi :=
  congrArg (fun found : Nat × Bool => match found with
    | (index, true) => queue.eraseIdx index
    | (_, false) => queue) (search_eq m queue qi)

def removeFromQueue (qi : QueueUnitInfo) (q : IntelligentQueue) : IntelligentQueue :=
  if isHighPriority qi.unit q then { q with highPriorityQueue := removeSorted m q.highPriorityQueue qi }
  else { q with lowPriorityQueue := removeSorted m q.lowPriorityQueue qi }

def newIntelligentQueue (name : String) (threshold maxDepth : Int) (waitPodsRunning : Bool) (items : List Ref) :
    IntelligentQueue :=
  items.foldl (fun q r => (distributeToQueue m r { q with queueUnits := q.queueUnits.insert (m.key r) r }).1)
    { name, maxDepth, waitPodsRunning, priorityThreshold := threshold }

def addQueueUnitInfo (r : Ref) (q : IntelligentQueue) : IntelligentQueue × Except String Bool :=
  let qu := m.unit r
  if isQueueUnitDequeued qu then (q, .ok false)
  else
    let q := if isQueueUnitReservedNotRun qu then { q with assumed := insert qu.key q.assumed } else q
    if qu.key ∈ q.queueUnits then (q, .error ("queueUnit " ++ qu.key ++ " already exists"))
    else
      let (q, idx) := distributeToQueue m r { q with queueUnits := q.queueUnits.insert qu.key r }
      (if q.highPriorityQueue.length > 0 ∨ idx ≤ q.lowNextIdx + q.highPriorityQueue.length then
        { q with resetNextIdxFlag := true } else q, .ok true)

def passedOver (r : Ref) : Bool :=
  isQueueUnitSatisfied (m.unit r) || (fw.queueUnitActive && !isQueueUnitActive (m.unit r))

def quotaBlocked (q : IntelligentQueue) (r : Ref) : Bool :=
  (firstQuota fw (m.unit r)).any (fun quota => quota ∈ q.blockedQuota)

/-- The loop over the high-priority units, which also tells whether one of them
could run but for its quota. -/
def scanHigh (skip blocked : Ref → Bool) (maxDepth : Int) : List Ref → Nat → Bool → Nat × Bool × Option Ref
  | [], i, available => (i, available, none)
  | r :: rest, i, available =>
    if maxDepth > 0 ∧ (i : Int) ≥ maxDepth then (i, available, none)
    else if skip r then scanHigh skip blocked maxDepth rest (i + 1) available
    else if blocked r then scanHigh skip blocked maxDepth rest (i + 1) true
    else (i, true, some r)

def findNextQueueUnit (q : IntelligentQueue) : IntelligentQueue × Option Ref :=
  match scanHigh (passedOver fw m) (quotaBlocked fw m q) q.maxDepth (q.highPriorityQueue.drop q.highNextIdx)
      q.highNextIdx false with
  | (i, _, some r) => ({ q with highNextIdx := i }, some r)
  | (i, available, none) =>
    let q := { q with highNextIdx := i }
    if available = true ∨ q.maxDepth > 0 ∧ (i : Int) ≥ q.maxDepth then (q, none)
    else
      let (j, qu) := scan (passedOver fw m) q.maxDepth (q.lowPriorityQueue.drop q.lowNextIdx) (i + q.lowNextIdx)
      ({ q with lowNextIdx := j - i }, qu)

/-- One round of the loop in `Next`. -/
def judge (q : IntelligentQueue) : IntelligentQueue × Verdict :=
  let q := if q.resetNextIdxFlag then { q with highNextIdx := 0, lowNextIdx := 0, resetNextIdxFlag := false } else q
  match findNextQueueUnit fw m q with
  | (q, none) =>
    if now - q.lastScheduledTime > 3 * minute ∧ q.blockedQuota ≠ ∅ then
      ({ q with resetNextIdxFlag := true, blockedQuota := ∅ }, .rejudge)
    else ({ q with resetNextIdxFlag := true }, .wait)
  | (q, some r) =>
    if now - q.lastScheduledTime < 5 * second ∧
        (m.unit r).ns ++ "/" ++ (m.get r).name = q.lastScheduledQueueUnit then
      ({ q with resetNextIdxFlag := true }, .wait)
    else (q, .found r)

def handOut (r : Ref) (q : IntelligentQueue) : IntelligentQueue :=
  { q with
    lastScheduledQueueUnit := (m.unit r).ns ++ "/" ++ (m.get r).name
    lastScheduledTime := now }

/-- A call of `Next` up to the point where it returns or starts to wait. -/
def next (q : IntelligentQueue) : IntelligentQueue × NextResult :=
  if q.closed then (q, .closed)
  else match judge fw m now q with
    | (q, .found r) => (handOut m now r q, .unit r)
    | (q, .wait) => (q, .wait)
    | (q, .rejudge) =>
      match judge fw m now q with
      | (q, .found r) => (handOut m now r q, .unit r)
      | (q, _) => (q, .wait)

def releaseQuota (qu : QueueUnit) (q : IntelligentQueue) : IntelligentQueue :=
  match firstQuota fw qu with
  | some quota => { q with blockedQuota := q.blockedQuota.erase quota }
  | none => q

/-- An intelligent queue together with the infos that it and others point to. -/
structure State where
  infos : Infos := {}
  iq : IntelligentQueue
deriving DecidableEq

def filedInfo (qu : QueueUnit) (s : State) : Infos × QueueUnitInfo :=
  match s.iq.queueUnits.lookup qu.key with
  | some r => (s.infos, s.infos.get r)
  | none => (s.infos.newQueueUnitInfo now qu, s.infos.fresh now qu)

def delete (qu : QueueUnit) (s : State) : State :=
  let (infos, qi) := filedInfo now qu s
  let q := removeFromQueue infos qi s.iq
  { infos
    iq := releaseQuota fw qu { q with
      queueUnits := q.queueUnits.erase qu.key
      assumed := q.assumed.erase qu.key
      updating := q.updating.erase qu.key
      resetNextIdxFlag := true } }

def podSetsChanged (old new : QueueUnit) : Bool := Update.podSetsChanged old new

/-- Unlike the other policy this one does not ask whether there was an admission
of the name, and compares with the zero value when there was none. -/
def isAdmissionChanged (old new : QueueUnit) : Bool :=
  if old.status.admissions.length ≠ new.status.admissions.length then true
  else new.status.admissions.any (fun ad =>
    let oldAd := ((GoMap.ofList (old.status.admissions.map (fun ad => (ad.name, ad)))).lookup ad.name).getD {}
    oldAd.name ≠ ad.name || oldAd.running ≠ ad.running || oldAd.replicas ≠ ad.replicas)

def unchanged (old new : QueueUnit) : Bool :=
  old.status.phase = new.status.phase && old.spec.priority = new.spec.priority &&
    !podSetsChanged old new && !isAdmissionChanged old new && !activationChanged fw old new

def dropDequeued (old new : QueueUnit) (s : State) : State :=
  let q := s.iq
  let q := if new.key ∈ q.assumed then
      { q with
        assumed := q.assumed.erase new.key
        resetNextIdxFlag := true
        blockedQuota := if !isQueueUnitDequeued old && q.waitPodsRunning then ∅ else q.blockedQuota }
    else q
  let infos := s.infos.newQueueUnitInfo now old
  let q := removeFromQueue infos (s.infos.fresh now old) q
  { infos, iq := { q with queueUnits := q.queueUnits.erase new.key } }

/-- Whether or not the priority crosses the threshold, a new info is filed for
the new version. -/
def reinsert (old new : QueueUnit) (s : State) : State :=
  let withOld := s.infos.newQueueUnitInfo now old
  let infos := withOld.newQueueUnitInfo now new
  let r := withOld.heap.next
  let q := (distributeToQueue infos r (removeFromQueue infos (s.infos.fresh now old) s.iq)).1
  { infos, iq := { q with queueUnits := q.queueUnits.insert new.key r } }

def track (new : QueueUnit) (q : IntelligentQueue) : IntelligentQueue :=
  if !isQueueUnitReservedAnyResource new then { q with assumed := q.assumed.erase new.key }
  else if new.key ∉ q.updating ∧ isQueueUnitAllRunning new = true then
    { q with resetNextIdxFlag := true, assumed := q.assumed.erase new.key }
  else if !isQueueUnitAllRunning new then { q with assumed := insert new.key q.assumed }
  else q

def updateBody (old new : QueueUnit) (s : State) : State :=
  let s := if activationChanged fw old new then { s with iq := { s.iq with resetNextIdxFlag := true } } else s
  if unchanged fw old new then s
  else if isQueueUnitDequeued new then dropDequeued now old new s
  else
    let s := reinsert now old new s
    { s with iq := track new s.iq }

/-- The deferred part of `Update`, which also runs after the early return. -/
def refresh (old new : QueueUnit) (s : State) : State :=
  match s.iq.queueUnits.lookup new.key with
  | none => s
  | some r =>
    let infos := if (s.infos.unit r).resourceVersion ≠ new.resourceVersion then s.infos.setUnit r new
      else s.infos
    if isResourceReleased old new then
      let q := if new.status.phase ≠ .schedFailed then { s.iq with resetNextIdxFlag := true } else s.iq
      { infos, iq := releaseQuota fw new q }
    else { s with infos }

def update (old new : QueueUnit) (s : State) : State := refresh fw old new (updateBody fw now old new s)

/-- The loop of `Fix` over the units that the mapping sends elsewhere, in the
order in which the map was ranged over. -/
def fix (order : List String) (q : IntelligentQueue) : IntelligentQueue :=
  (order.filterMap q.queueUnits.lookup).foldl (fun q r =>
    let q := removeFromQueue m (m.get r) q
    { q with queueUnits := q.queueUnits.erase (m.key r) }) q

/-- The configuration of the queue, with the units redistributed in the order
in which the map was ranged over when the threshold changes. -/
def updateQueueCr (threshold : Int) (waitPodsRunning : Bool) (order : List String) (q : IntelligentQueue) :
    IntelligentQueue :=
  let q := if threshold ≠ q.priorityThreshold then
      let emptied := { q with priorityThreshold := threshold, highPriorityQueue := [], lowPriorityQueue := [] }
      { (order.filterMap q.queueUnits.lookup).foldl (fun q r => (distributeToQueue m r q).1) emptied with
        resetNextIdxFlag := true }
    else q
  { q with waitPodsRunning }

end KoordQueue.Queue.Intelligent
