import KoordQueue.Lib.Heap
import KoordQueue.UnitInfo

namespace KoordQueue.Queue.Memory

open Api UnitInfo

def SameInfo (a b : QueueUnitInfo) : Prop :=
  a.unit = b.unit ∧ a.name = b.name ∧ a.initialAttemptTimestamp = b.initialAttemptTimestamp

theorem SameInfo.refl (a : QueueUnitInfo) : SameInfo a a := ⟨rfl, rfl, rfl⟩

theorem SameInfo.trans {a b c : QueueUnitInfo} (hab : SameInfo a b) (hbc : SameInfo b c) : SameInfo a c :=
  ⟨hab.1.trans hbc.1, hab.2.1.trans hbc.2.1, hab.2.2.trans hbc.2.2⟩

/-- The infos of the process, with the first one built for each UID on record. -/
structure Infos where
  heap : Heap QueueUnitInfo := {}
  cache : GoMap UID Ref := ∅
deriving DecidableEq

namespace Infos

def get (m : Infos) (r : Ref) : QueueUnitInfo := m.heap.get r

def unit (m : Infos) (r : Ref) : QueueUnit := (m.get r).unit

def key (m : Infos) (r : Ref) : String := (m.unit r).key

/-- The info that `newQueueUnitInfo` builds. -/
def fresh (m : Infos) (now : Time) (qu : QueueUnit) : QueueUnitInfo :=
  infoOf ((m.cache.lookup qu.uid).map m.get) now qu

def newQueueUnitInfo (m : Infos) (now : Time) (qu : QueueUnit) : Infos where
  heap := m.heap.alloc (m.fresh now qu)
  cache := if qu.uid ∈ m.cache then m.cache else m.cache.insert qu.uid m.heap.next

def forgetQueueUnitInfo (m : Infos) (present : UID → Bool) : Infos :=
  { m with cache := GoMap.range (fun uid r _ => if present uid then r else none) m.cache m.cache }

def set (m : Infos) (r : Ref) (info : QueueUnitInfo) : Infos := { m with heap := m.heap.set r info }

def setUnit (m : Infos) (r : Ref) (qu : QueueUnit) : Infos := m.set r { m.get r with unit := qu }

variable {m : Infos} {r : Ref}

theorem fresh_unit (m : Infos) (now : Time) (qu : QueueUnit) : (m.fresh now qu).unit = qu := infoOf_unit _ now qu

theorem fresh_name (m : Infos) (now : Time) (qu : QueueUnit) : (m.fresh now qu).name = qu.key :=
  infoOf_name _ now qu

theorem get_newQueueUnitInfo (hr : m.heap.Allocated r) (now : Time) (qu : QueueUnit) :
    (m.newQueueUnitInfo now qu).get r = m.get r := Heap.get_alloc hr _

theorem get_newQueueUnitInfo_next (m : Infos) (now : Time) (qu : QueueUnit) :
    (m.newQueueUnitInfo now qu).get m.heap.next = m.fresh now qu := Heap.get_alloc_next _ _

theorem unit_newQueueUnitInfo (m : Infos) (now : Time) (qu : QueueUnit) :
    (m.newQueueUnitInfo now qu).unit m.heap.next = qu :=
  (congrArg QueueUnitInfo.unit (get_newQueueUnitInfo_next m now qu)).trans (fresh_unit m now qu)

theorem get_set (hr : m.heap.Allocated r) (info : QueueUnitInfo) (s : Ref) :
    (m.set r info).get s = if s = r then info else m.get s := Heap.get_set hr info s

theorem unit_set (hr : m.heap.Allocated r) (info : QueueUnitInfo) (s : Ref) :
    (m.set r info).unit s = if s = r then info.unit else m.unit s := by
  rw [unit, get_set hr]
  split <;> rfl

theorem unit_setUnit (hr : m.heap.Allocated r) (qu : QueueUnit) (s : Ref) :
    (m.setUnit r qu).unit s = if s = r then qu else m.unit s := unit_set hr _ s

theorem name_setUnit (hr : m.heap.Allocated r) (qu : QueueUnit) (s : Ref) :
    ((m.setUnit r qu).get s).name = (m.get s).name := by
  rw [setUnit, get_set hr]
  split
  next he => rw [he]
  next => rfl

theorem name_newQueueUnitInfo (m : Infos) (now : Time) (qu : QueueUnit) :
    ((m.newQueueUnitInfo now qu).get m.heap.next).name = qu.key :=
  (congrArg QueueUnitInfo.name (get_newQueueUnitInfo_next m now qu)).trans (fresh_name m now qu)

end Infos

end KoordQueue.Queue.Memory
