import KoordQueue.Lib.BinarySearch
import KoordQueue.Queue.Less

namespace KoordQueue.Queue.Policy

open Api UnitStatus UnitInfo BinarySearch Memory Less

/-- What a queue asks of the framework and of the feature gates. -/
structure Handle where
  getQueueUnitQuotaName : QueueUnit → Option (List String)
  queueUnitActive : Bool

structure PriorityQueue where
  name : String := ""
  resetNextIdxFlag : Bool := false
  lastResetTime : Time := 0
  nextIdx : Nat := 0
  maxDepth : Int := -1
  queue : List Ref := []
  assumed : Finset String := ∅
  updating : Finset String := ∅
  queueUnits : GoMap String Ref := ∅
  blocked : Bool := false
  blockedQuota : Finset String := ∅
  lastScheduledTime : Time := 0
  lastScheduledQueueUnit : String := ""
  waitPodsRunning : Bool := false
  preemptFlag : Bool := false
  reclaimProtectTime : Int := 0
  closed : Bool := false
deriving DecidableEq

def newPriorityQueue (name queuePolicy : String) (maxDepth : Int) (waitPodsRunning : Bool)
    (reclaimProtectTime : Int) (now : Time) : PriorityQueue :=
  { name, maxDepth, waitPodsRunning, reclaimProtectTime
    blocked := queuePolicy = "Block"
    lastResetTime := now }

def second : Int := 1000000000

def minute : Int := 60 * second

variable (fw : Handle) (m : Infos)

def firstQuota (qu : QueueUnit) : Option String := (fw.getQueueUnitQuotaName qu).bind List.head?

def getQueueMaxResetDuration (q : PriorityQueue) : Int :=
  let l : Int := if (q.queueUnits.keys.card : Int) > q.maxDepth then q.maxDepth else q.queueUnits.keys.card
  if l > 500 then 5 * minute else 3 * minute

def rewindDue (now : Time) (q : PriorityQueue) : Bool :=
  q.resetNextIdxFlag || decide (now - q.lastResetTime > getQueueMaxResetDuration q)

def rewind (now : Time) (q : PriorityQueue) : PriorityQueue :=
  if rewindDue now q then { q with nextIdx := 0, resetNextIdxFlag := false, lastResetTime := now } else q

def skips (q : PriorityQueue) (r : Ref) : Bool :=
  decide (m.key r ∈ q.updating) || (fw.queueUnitActive && !isQueueUnitActive (m.unit r)) ||
    isQueueUnitSatisfied (m.unit r) || (firstQuota fw (m.unit r)).any (fun quota => quota ∈ q.blockedQuota)

/-- The loop of `findNextQueueUnit` over the entries from position `i` on. -/
def scan (skip : Ref → Bool) (maxDepth : Int) : List Ref → Nat → Nat × Option Ref
  | [], i => (i, none)
  | r :: rest, i =>
    if maxDepth > 0 ∧ (i : Int) ≥ maxDepth then (i, none)
    else if skip r then scan skip maxDepth rest (i + 1)
    else (i, some r)

def findNextQueueUnit (now : Time) (q : PriorityQueue) : PriorityQueue × Option Ref :=
  let q := rewind now q
  let (i, qu) := scan (skips fw m q) q.maxDepth (q.queue.drop q.nextIdx) q.nextIdx
  ({ q with nextIdx := i }, qu)

inductive Verdict
  | found (r : Ref)
  | rejudge
  | wait
deriving DecidableEq

/-- One round of the loop in `Next`. Only under the Block policy do the two
times count. -/
def judge (now : Time) (q : PriorityQueue) : PriorityQueue × Verdict :=
  match findNextQueueUnit fw m now q with
  | (q, none) =>
    if q.blockedQuota ≠ ∅ ∧ (q.blocked = true → now - q.lastScheduledTime > 3 * minute) then
      ({ q with resetNextIdxFlag := true, blockedQuota := ∅ }, .rejudge)
    else ({ q with resetNextIdxFlag := true }, .wait)
  | (q, some r) =>
    if q.blocked = true ∧ now - q.lastScheduledTime < 5 * second ∧
        (m.unit r).ns ++ "/" ++ (m.get r).name = q.lastScheduledQueueUnit then
      ({ q with resetNextIdxFlag := true }, .wait)
    else (q, .found r)

inductive NextResult
  | unit (r : Ref)
  | wait
  | closed
deriving DecidableEq

def handOut (now : Time) (r : Ref) (q : PriorityQueue) : PriorityQueue :=
  { q with
    lastScheduledQueueUnit := (m.unit r).ns ++ "/" ++ (m.get r).name
    lastScheduledTime := now }

/-- A call of `Next` up to the point where it returns or starts to wait; a
waiting call that is woken up starts over. A second round is never rejudged,
because the first one left no quota blocked. -/
def next (now : Time) (q : PriorityQueue) : PriorityQueue × NextResult :=
  if q.closed then (q, .closed)
  else match judge fw m now q with
    | (q, .found r) => (handOut m now r q, .unit r)
    | (q, .wait) => (q, .wait)
    | (q, .rejudge) =>
      match judge fw m now q with
      | (q, .found r) => (handOut m now r q, .unit r)
      | (q, _) => (q, .wait)

def position (queue : List Ref) (target : QueueUnitInfo) : Nat × Bool :=
  binarySearchFunc queue target (fun r t => less (m.get r) t)

def removeFound (queue : List Ref) (target : QueueUnitInfo) : List Ref :=
  match position m queue target with
  | (idx, true) => queue.eraseIdx idx
  | (_, false) => queue

def releaseQuota (qu : QueueUnit) (q : PriorityQueue) : PriorityQueue :=
  match firstQuota fw qu with
  | some quota => { q with blockedQuota := q.blockedQuota.erase quota }
  | none => q

def addQueueUnitInfo (r : Ref) (q : PriorityQueue) : PriorityQueue × Except String Bool :=
  let qu := m.unit r
  if isQueueUnitDequeued qu then (q, .ok false)
  else
    let q := if isQueueUnitReservedNotRun qu then { q with assumed := insert qu.key q.assumed } else q
    if qu.key ∈ q.queueUnits then (q, .error ("queueUnit " ++ qu.key ++ " already exists"))
    else
      let q := { q with queueUnits := q.queueUnits.insert qu.key r }
      match position m q.queue (m.get r) with
      | (_, true) => (q, .ok true)
      | (index, false) =>
        (releaseQuota fw qu { q with resetNextIdxFlag := true, queue := q.queue.insertIdx index r }, .ok true)

inductive ReserveResult
  | ok
  | preempting
  | waitingForVictims (victims : Finset String)
  | refused
deriving DecidableEq

def reserve (now : Time) (r : Ref) (q : PriorityQueue) : PriorityQueue × ReserveResult :=
  if q.waitPodsRunning = true ∧ q.assumed ≠ ∅ then
    if q.preemptFlag then (q, .preempting)
    else
      let q := { q with assumed := q.assumed.filter (fun key => key ∈ q.queueUnits) }
      let victims := q.assumed.filter (fun key => (q.queueUnits.lookup key).any (fun a =>
        less (m.get r) (m.get a) < 0 && (getResourcesCanReclaim (m.unit a) q.reclaimProtectTime now).isSome))
      if victims ≠ ∅ then (q, .waitingForVictims victims) else (q, .refused)
  else
    let q := if q.blocked then { q with resetNextIdxFlag := true } else { q with nextIdx := q.nextIdx + 1 }
    ({ q with assumed := insert (m.key r) q.assumed, updating := insert (m.key r) q.updating }, .ok)

def blockQuota (qu : QueueUnit) (q : PriorityQueue) : PriorityQueue :=
  match firstQuota fw qu with
  | some quota => { q with blockedQuota := insert quota q.blockedQuota }
  | none => q

def addUnschedulableIfNotPresent (r : Ref) (allocatableChanged : Bool) (q : PriorityQueue) : PriorityQueue :=
  let q := if !allocatableChanged && !q.blocked then { q with nextIdx := q.nextIdx + 1 }
    else { q with resetNextIdxFlag := true }
  let q := if q.blocked && !allocatableChanged then blockQuota fw (m.unit r) q else q
  { q with assumed := q.assumed.erase (m.key r), updating := q.updating.erase (m.key r) }

def sortQueue (queue : List Ref) : List Ref := queue.mergeSort (fun a b => less (m.get a) (m.get b) ≤ 0)

def fixQueue (q : PriorityQueue) : PriorityQueue :=
  if (q.queue.zip q.queue.tail).any (fun p => less (m.get p.1) (m.get p.2) = 1) then
    { q with queue := sortQueue m q.queue }
  else q

end KoordQueue.Queue.Policy
