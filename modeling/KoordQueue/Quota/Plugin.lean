import KoordQueue.Quota.Cache

namespace KoordQueue.Quota.Plugin

open Api UnitStatus UnitInfo Info Cache

def filter (c : CacheImpl) (overSellRate : ℚ) (queueUnit : QueueUnitInfo)
    (ads : GoMap String FrameworkAdmission) : Except CheckError (GoMap String FrameworkAdmission) := do
  checkUsage c (getQuotaName queueUnit.unit) queueUnit overSellRate
  .ok ads

variable [ResourceHelpers]

def reserve (c : CacheImpl) (queueUnit : QueueUnitInfo) : Outcome :=
  Cache.reserve (markScheduling c queueUnit.unit.uid) (getQuotaName queueUnit.unit) queueUnit

def resize (c : CacheImpl) (old new : QueueUnitInfo) : Option CacheImpl :=
  if isScheduling c new.unit.uid then some c
  else (Cache.resize c old new).map Prod.fst

def unreserve (c : CacheImpl) (queueUnit : QueueUnitInfo) : Option CacheImpl :=
  (Cache.unreserve c (getQuotaName queueUnit.unit) queueUnit).map Prod.fst

def dequeueComplete (c : CacheImpl) (queueUnit : QueueUnitInfo) : Option CacheImpl := do
  let (c, _) ← Cache.reserve c (getQuotaName queueUnit.unit) queueUnit
  some (clearScheduling c queueUnit.unit.uid)

def addAssignedJob (c : CacheImpl) (queueUnit : QueueUnitInfo) : Option CacheImpl :=
  (Cache.reserve c (getQuotaName queueUnit.unit) queueUnit).map Prod.fst

def remove (c : CacheImpl) (queueUnit : QueueUnitInfo) : Option CacheImpl :=
  (Cache.unreserve c (getQuotaName queueUnit.unit) queueUnit).map Prod.fst

def loadQuotaAndQueueUnits (c : CacheImpl) (infos : InfoCache) (now : Time) (quotas : List ElasticQuota)
    (qus : List QueueUnit) : Option CacheImpl :=
  loadQueueUnits (quotas.foldl addOrUpdateQuota c) qus
where
  loadQueueUnits (c : CacheImpl) : List QueueUnit → Option CacheImpl
    | [] => some c
    | qu :: qus =>
      if qu.status.admissions = [] then loadQueueUnits c qus
      else do
        let (c, _) ← reserve c (newQueueUnitInfo infos now qu)
        loadQueueUnits c qus

end KoordQueue.Quota.Plugin
