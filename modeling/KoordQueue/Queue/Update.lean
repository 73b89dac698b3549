import KoordQueue.Queue.Policy

namespace KoordQueue.Queue.Update

open Api UnitStatus UnitInfo Memory Policy

def podSetCounts (qu : QueueUnit) : GoMap String Int32 :=
  GoMap.ofList (qu.spec.podSets.map (fun ps => (ps.name, ps.count)))

def podSetsChanged (old new : QueueUnit) : Bool :=
  if (podSetCounts old).keys.card ≠ (podSetCounts new).keys.card then true
  else GoMap.any (podSetCounts old) (fun k v => ((podSetCounts new).lookup k).getD 0 ≠ v)

def isAdmissionChanged (old new : QueueUnit) : Bool :=
  if old.status.admissions.length ≠ new.status.admissions.length then true
  else new.status.admissions.any (fun ad =>
    match (GoMap.ofList (old.status.admissions.map (fun ad => (ad.name, ad)))).lookup ad.name with
    | none => true
    | some oldAd => oldAd.name ≠ ad.name || oldAd.running ≠ ad.running || oldAd.replicas ≠ ad.replicas)

/-- The early return of `Update`. The two priorities are compared as pointers. -/
def unchanged (old new : QueueUnit) : Bool :=
  old.status.phase = new.status.phase && old.spec.priority = new.spec.priority &&
    !podSetsChanged old new && !isAdmissionChanged old new

/-- A queue together with the infos that it and others point to. -/
structure State where
  infos : Infos := {}
  pq : PriorityQueue
deriving DecidableEq

variable (fw : Handle) (now : Time)

def filedInfo (qu : QueueUnit) (s : State) : Infos × QueueUnitInfo :=
  match s.pq.queueUnits.lookup qu.key with
  | some r => (s.infos, s.infos.get r)
  | none => (s.infos.newQueueUnitInfo now qu, s.infos.fresh now qu)

def deleteWithoutLock (qu : QueueUnit) (s : State) : State :=
  let (infos, qi) := filedInfo now qu s
  let q := { s.pq with
    queue := removeFound infos s.pq.queue qi
    queueUnits := s.pq.queueUnits.erase qu.key
    assumed := s.pq.assumed.erase qu.key
    updating := s.pq.updating.erase qu.key }
  { infos, pq := if q.blocked then releaseQuota fw qu q else q }

def delete (qu : QueueUnit) (s : State) : State :=
  deleteWithoutLock fw now qu { s with pq := { s.pq with resetNextIdxFlag := true } }

def activationChanged (old new : QueueUnit) : Bool :=
  fw.queueUnitActive && (isQueueUnitActive old != isQueueUnitActive new)

def dropDequeued (old new : QueueUnit) (s : State) : State :=
  let q := s.pq
  let q := if new.key ∈ q.assumed then
      { q with
        assumed := q.assumed.erase new.key
        resetNextIdxFlag := true
        blockedQuota := if !isQueueUnitDequeued old && q.waitPodsRunning then ∅ else q.blockedQuota }
    else q
  let infos := s.infos.newQueueUnitInfo now new
  { infos
    pq := { q with
      queue := removeFound infos q.queue (s.infos.fresh now new)
      queueUnits := q.queueUnits.erase new.key
      updating := q.updating.erase new.key } }

/-- Take out what the search finds for the old version and file a new info for
the new one. -/
def reinsert (old new : QueueUnit) (s : State) : State :=
  let withOld := s.infos.newQueueUnitInfo now old
  let infos := withOld.newQueueUnitInfo now new
  let queue := removeFound infos s.pq.queue (s.infos.fresh now old)
  let r := withOld.heap.next
  { infos
    pq := { s.pq with
      queue := queue.insertIdx (position infos queue (infos.get r)).1 r
      queueUnits := s.pq.queueUnits.insert new.key r } }

def track (new : QueueUnit) (q : PriorityQueue) : PriorityQueue :=
  if !isQueueUnitReservedAnyResource new then
    let q := { q with assumed := q.assumed.erase new.key }
    if !isQueueUnitSatisfied new then { q with updating := q.updating.erase new.key } else q
  else if new.key ∉ q.updating ∧ isQueueUnitAllRunning new = true then
    { q with resetNextIdxFlag := true, assumed := q.assumed.erase new.key }
  else if !isQueueUnitAllRunning new then { q with assumed := insert new.key q.assumed }
  else q

def settle (old new : QueueUnit) (q : PriorityQueue) : PriorityQueue :=
  track new (if activationChanged fw old new then { q with resetNextIdxFlag := true } else q)

def needsReinsert (old new : QueueUnit) (q : PriorityQueue) : Bool :=
  decide (new.key ∉ q.queueUnits) || old.spec.priority ≠ new.spec.priority || activationChanged fw old new

def updateBody (old new : QueueUnit) (s : State) : State :=
  if unchanged old new then s
  else if isQueueUnitDequeued new then dropDequeued now old new s
  else
    let s := if needsReinsert fw old new s.pq then reinsert now old new s else s
    { s with pq := settle fw old new s.pq }

/-- The deferred part of `Update`, which also runs after the early return. -/
def refresh (old new : QueueUnit) (s : State) : State :=
  match s.pq.queueUnits.lookup new.key with
  | none => s
  | some r =>
    let infos := if (s.infos.unit r).resourceVersion ≠ new.resourceVersion then s.infos.setUnit r new
      else s.infos
    if isResourceReleased old new then
      let q := if new.status.phase ≠ .schedFailed then
          { s.pq with resetNextIdxFlag := true, queue := sortQueue infos s.pq.queue }
        else s.pq
      { infos, pq := if q.blocked then releaseQuota fw new q else q }
    else { s with infos }

def update (old new : QueueUnit) (s : State) : State := refresh fw old new (updateBody fw now old new s)

def moved (g : QueueUnit → String) (s : State) : Finset String :=
  s.pq.queueUnits.keys.filter (fun key =>
    (s.pq.queueUnits.lookup key).any (fun r => g (s.infos.unit r) ≠ s.pq.name))

/-- Delete the units filed under the given keys, in the order in which the map
was ranged over. -/
def fix (order : List String) (s : State) : State :=
  (order.filterMap s.pq.queueUnits.lookup).foldl (fun t r => deleteWithoutLock fw now (t.infos.unit r) t) s

end KoordQueue.Queue.Update
