import KoordQueue.UnitInfo
import Mathlib.Algebra.Order.Field.Rat

namespace KoordQueue.Quota.Info

open Api Resources UnitStatus UnitInfo

abbrev QuotaName := String

def quotaNameLabelKey : String := "quota.scheduling.koordinator.sh/name"
def asiQuotaNameLabelKey : String := "alibabacloud.com/quota-name"
def parentQuotaNameLabelKey : String := "quota.scheduling.koordinator.sh/parent"
def koordRootQuota : QuotaName := "koordinator-root-quota"

def getQuotaName (qu : QueueUnit) : QuotaName :=
  if (qu.labels.lookup quotaNameLabelKey).getD "" = "" then
    (qu.labels.lookup asiQuotaNameLabelKey).getD ""
  else (qu.labels.lookup quotaNameLabelKey).getD ""

def getParentQuotaName (quota : ElasticQuota) : QuotaName :=
  if (quota.labels.lookup parentQuotaNameLabelKey).getD "" ≠ "" then
    (quota.labels.lookup parentQuotaNameLabelKey).getD ""
  else if quota.name = koordRootQuota then ""
  else koordRootQuota

structure Reserved where
  units : GoMap UID QueueUnitInfo
  keyed : ∀ uid qu, units.lookup uid = some qu → qu.unit.uid = uid
deriving DecidableEq

namespace Reserved

def empty : Reserved := ⟨∅, by simp⟩

def set (r : Reserved) (qu : QueueUnitInfo) : Reserved where
  units := r.units.insert qu.unit.uid qu
  keyed := GoMap.forall_insert r.keyed rfl

def delete (r : Reserved) (uid : UID) : Reserved where
  units := r.units.erase uid
  keyed := fun other qu h => r.keyed other qu (GoMap.lookup_of_erase h)

end Reserved

/-- The counters of one quota and the units charged to it. The quota object
itself is only read for its name, which is the key it is filed under. -/
structure ElasticQuotaInfo where
  min : Amounts
  max : Amounts
  used : Amounts
  selfUsed : Amounts
  childrenUsed : Amounts
  guaranteedUsed : Amounts
  selfGuaranteedUsed : Amounts
  childrenGuaranteedUsed : Amounts
  reserved : Reserved
deriving DecidableEq

def newElasticQuotaInfo (q : ElasticQuota) : ElasticQuotaInfo where
  min := (newResource q.spec.min).resources
  max := (newResource q.spec.max).resources
  used := ∅
  selfUsed := ∅
  childrenUsed := ∅
  guaranteedUsed := ∅
  selfGuaranteedUsed := ∅
  childrenGuaranteedUsed := ∅
  reserved := .empty

/-- Add `m` times an amount to the counters: to the own ones when the unit
names this quota, to the children's otherwise. -/
def charge (info : ElasticQuotaInfo) (sameQuota : Bool) (res : Amounts) (m : Int64) : ElasticQuotaInfo :=
  { info with
    used := updateUsage info.used res m
    selfUsed := if sameQuota then updateUsage info.selfUsed res m else info.selfUsed
    childrenUsed := if sameQuota then info.childrenUsed else updateUsage info.childrenUsed res m
    guaranteedUsed := updateUsage info.guaranteedUsed res m
    selfGuaranteedUsed :=
      if sameQuota then updateUsage info.selfGuaranteedUsed res m else info.selfGuaranteedUsed
    childrenGuaranteedUsed :=
      if sameQuota then info.childrenGuaranteedUsed else updateUsage info.childrenGuaranteedUsed res m }

variable [ResourceHelpers]

def addQueueUnitInternal (currentQuota : QuotaName) (queueUnit : QueueUnitInfo)
    (info : ElasticQuotaInfo) : Option ElasticQuotaInfo :=
  if queueUnit.unit.uid ∈ info.reserved.units then some info
  else do
    let res ← getReservedResource queueUnit.unit
    some (charge { info with reserved := info.reserved.set queueUnit }
      (getQuotaName queueUnit.unit = currentQuota) res.resources 1)

def addQueueUnit (currentQuota : QuotaName) (queueUnit : QueueUnitInfo) (info : ElasticQuotaInfo) :
    Option ElasticQuotaInfo :=
  if queueUnit.unit.uid ∈ info.reserved.units then some info
  else addQueueUnitInternal currentQuota queueUnit info

def deleteQueueUnitInternal (currentQuota : QuotaName) (queueUnit : QueueUnitInfo)
    (info : ElasticQuotaInfo) : Option ElasticQuotaInfo :=
  match info.reserved.units.lookup queueUnit.unit.uid with
  | none => some info
  | some reserved => do
      let res ← getReservedResource reserved.unit
      some (charge { info with reserved := info.reserved.delete reserved.unit.uid }
        (getQuotaName reserved.unit = currentQuota) res.resources (-1))

def deleteQueueUnit (currentQuota : QuotaName) (queueUnit : QueueUnitInfo) (info : ElasticQuotaInfo) :
    Option ElasticQuotaInfo :=
  deleteQueueUnitInternal currentQuota queueUnit info

def resizeQueueUnit (currentQuota : QuotaName) (newQueueUnit : QueueUnitInfo)
    (info : ElasticQuotaInfo) : Option ElasticQuotaInfo :=
  match info.reserved.units.lookup newQueueUnit.unit.uid with
  | none => some info
  | some reserved => do
      let oldRes ← getReservedResource reserved.unit
      let newRes ← getReservedResource newQueueUnit.unit
      if oldRes.resources = newRes.resources then
        some { info with reserved := info.reserved.set newQueueUnit }
      else do
        let info ← deleteQueueUnitInternal currentQuota newQueueUnit info
        addQueueUnitInternal currentQuota newQueueUnit info

inductive CheckError
  | cycleReference (item : String) (quotaName : QuotaName) (visited : List QuotaName)
  | quotaNotExist (item : String) (quotaName : QuotaName) (visited : List QuotaName)
  | emptyLimit (quotaName : QuotaName)
  | limited (quotaName : QuotaName) (resKeys : Finset ResourceName)
deriving DecidableEq

/-- The requested resources whose limit would be exceeded; the source reports
one of them. It compares float64 values, here the arithmetic is exact. -/
def checkResource (limit used req : Amounts) (oversellRate : ℚ) : Finset ResourceName :=
  req.keys.filter (fun resKey => (limit.lookup resKey).any (fun l =>
    (l.toInt : ℚ) * oversellRate - ((amount used resKey).toInt : ℚ) < ((amount req resKey).toInt : ℚ)))

omit [ResourceHelpers] in
def checkUsage (currentQuota : QuotaName) (queueUnit : QueueUnitInfo) (oversellRate : ℚ)
    (info : ElasticQuotaInfo) : Except CheckError Unit :=
  let queueUnitRes := (newResource queueUnit.unit.spec.resource).resources
  if info.max = ∅ ∧ queueUnitRes ≠ ∅ then .error (.emptyLimit currentQuota)
  else if checkResource info.max info.used queueUnitRes oversellRate ≠ ∅ then
    .error (.limited currentQuota (checkResource info.max info.used queueUnitRes oversellRate))
  else .ok ()

def cpuQuota (name parent : QuotaName) (max : Int) : ElasticQuota where
  name := name
  labels := Finmap.singleton parentQuotaNameLabelKey parent
  spec := { max := Finmap.singleton "cpu" ⟨max⟩ }

def cpuUnit (name : String) (quota : QuotaName) (cpu : Int) (phase : QueueUnitPhase) : QueueUnit where
  ns := "ns"
  name := name
  uid := name
  labels := Finmap.singleton quotaNameLabelKey quota
  spec := { resource := Finmap.singleton "cpu" ⟨cpu⟩ }
  status := { phase }

def cpuUnitInfo (name : String) (quota : QuotaName) (cpu : Int) (phase : QueueUnitPhase) : QueueUnitInfo where
  name := (cpuUnit name quota cpu phase).key
  unit := cpuUnit name quota cpu phase

def partialUnit : QueueUnit :=
  { cpuUnit "u" "a" 6 .enqueued with
    spec := { podSets := [{ name := "worker", count := 2 }] }
    status := { phase := .enqueued
                admissions := [{ name := "worker", replicas := 1, resources := Finmap.singleton "cpu" ⟨6⟩ }] } }

end KoordQueue.Quota.Info
