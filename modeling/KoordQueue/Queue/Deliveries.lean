import KoordQueue.Queue.Filing
import KoordQueue.Queue.IntelligentSteps

namespace KoordQueue.Queue.Deliveries

open Api UnitStatus Memory
open Policy (Handle)
open Steps (failedVersion)

def needsNothing (fw : Handle) (qu : QueueUnit) : Bool :=
  isQueueUnitSatisfied qu || (fw.queueUnitActive && !isQueueUnitActive qu)

/-- What a step tells a queue about one of its units. -/
inductive Delivery
  | added (r : Ref)
  | updated (qu : QueueUnit)
  | refreshed (r : Ref) (qu : QueueUnit)
  | removed (key : String)
  | nothing

def delivered (m : Infos) : Steps.Action → Delivery
  | .add r => .added r
  | .update _ _ qu => .updated qu
  | .errorFunc now r (.got qu) reasons _ => .refreshed r (failedVersion now reasons qu)
  | .errorFunc _ r .getNotFound _ _ => .removed (m.key r)
  | .delete _ qu => .removed qu.key
  | .newInfo .. | .forgetInfos .. | .next .. | .reserve .. | .dequeueSuccess .. | .addUnschedulable .. | .fix ..
  | .fixQueue | .errorFunc _ _ .getFailed _ _ | .errorFunc _ _ .updateNotFound _ _ => .nothing

def deliveredIntelligent (m : Infos) : IntelligentSteps.Action → Delivery
  | .add r => .added r
  | .update _ _ qu => .updated qu
  | .errorFunc now r (.got qu) reasons _ => .refreshed r (failedVersion now reasons qu)
  | .errorFunc _ r .getNotFound _ _ => .removed (m.key r)
  | .delete _ qu => .removed qu.key
  | .newInfo .. | .forgetInfos .. | .next .. | .reserve .. | .dequeueSuccess .. | .addUnschedulable .. | .fix ..
  | .updateQueueCr .. | .errorFunc _ _ .getFailed _ _ | .errorFunc _ _ .updateNotFound _ _ => .nothing

/-- The delivery brings a new version to the info that is held under the key. -/
def Delivery.Replaces (key : String) (r : Ref) : Delivery → Prop
  | .updated qu => key = qu.key
  | .refreshed x _ => x = r
  | .added _ | .removed _ | .nothing => False

variable {units : GoMap String Ref} {m : Infos} {key : String}

/-- A step leaves the version that is held under a key as it was or replaces it by the version that it
delivers. An addition only files a unit that the queue does not have. -/
inductive Held (units : GoMap String Ref) (m : Infos) (key : String) : Delivery → Ref → QueueUnit → Prop
  | kept {d : Delivery} {r : Ref} (hr : units.lookup key = some r) (hd : ¬ d.Replaces key r) :
      Held units m key d r (m.unit r)
  | added {r : Ref} (hkey : m.key r = key) (hnew : key ∉ units) : Held units m key (.added r) r (m.unit r)
  | updated {r : Ref} {qu : QueueUnit} (hkey : key = qu.key) : Held units m key (.updated qu) r qu
  | refreshed {r : Ref} {qu : QueueUnit} (hr : units.lookup key = some r) (hkey : qu.key = key) :
      Held units m key (.refreshed r qu) r qu

theorem Held.of_eq {d : Delivery} {r : Ref} {qu : QueueUnit} (hr : units.lookup key = some r)
    (hunit : qu = m.unit r) (hd : ¬ d.Replaces key r) : Held units m key d r qu := by
  rw [hunit]
  exact .kept hr hd

section Inversion

variable {a : IntelligentSteps.Action} {r : Ref} {qu : QueueUnit}

theorem eq_add_of_delivered (h : deliveredIntelligent m a = .added r) : a = .add r := by
  cases a with
  | add => cases h; rfl
  | errorFunc _ _ answer => cases answer <;> cases h
  | _ => cases h

theorem eq_update_of_delivered (h : deliveredIntelligent m a = .updated qu) : ∃ now old, a = .update now old qu := by
  cases a with
  | update now old => cases h; exact ⟨now, old, rfl⟩
  | errorFunc _ _ answer => cases answer <;> cases h
  | _ => cases h

theorem eq_errorFunc_of_delivered (h : deliveredIntelligent m a = .refreshed r qu) :
    ∃ now got reasons changed, a = .errorFunc now r (.got got) reasons changed ∧ qu = failedVersion now reasons got := by
  cases a with
  | errorFunc now _ answer reasons changed =>
    cases answer with
    | got got => cases h; exact ⟨now, got, reasons, changed, rfl, rfl⟩
    | _ => cases h
  | _ => cases h

end Inversion

end KoordQueue.Queue.Deliveries
