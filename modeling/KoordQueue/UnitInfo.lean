import KoordQueue.UnitStatus

namespace KoordQueue.UnitInfo

open Api

structure QueueUnitInfo where
  name : String := ""
  unit : QueueUnit := {}
  timestamp : Time := 0
  attempts : Nat := 0
  initialAttemptTimestamp : Time := 0
deriving DecidableEq

instance : Inhabited QueueUnitInfo := ⟨{}⟩

def infoOf (existing : Option QueueUnitInfo) (now : Time) (unit : QueueUnit) : QueueUnitInfo :=
  match existing with
  | some existing => ⟨unit.key, unit, existing.timestamp, 0, existing.initialAttemptTimestamp⟩
  | none => ⟨unit.key, unit, now, 0, unit.creationTimestamp⟩

abbrev InfoCache := GoMap UID QueueUnitInfo

def newQueueUnitInfo (cache : InfoCache) (now : Time) (unit : QueueUnit) : QueueUnitInfo :=
  infoOf (cache.lookup unit.uid) now unit

theorem infoOf_unit (existing : Option QueueUnitInfo) (now : Time) (unit : QueueUnit) :
    (infoOf existing now unit).unit = unit := by
  cases existing <;> rfl

theorem infoOf_name (existing : Option QueueUnitInfo) (now : Time) (unit : QueueUnit) :
    (infoOf existing now unit).name = unit.key := by
  cases existing <;> rfl

theorem newQueueUnitInfo_unit (cache : InfoCache) (now : Time) (unit : QueueUnit) :
    (newQueueUnitInfo cache now unit).unit = unit := infoOf_unit _ now unit

end KoordQueue.UnitInfo
