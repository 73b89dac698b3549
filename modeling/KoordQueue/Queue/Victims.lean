import KoordQueue.Queue.Policy
import KoordQueue.Queue.Preempt

namespace KoordQueue.Queue.Victims

open Api Resources UnitStatus UnitInfo Memory Less Policy

/-- A queue with the switch that only preemption reads. -/
structure PreemptingQueue extends PriorityQueue where
  enablePreempt : Bool := false

theorem resource_add_right_comm (r : Resource) (a b : ResourceList) : (r.add a).add b = (r.add b).add a := by
  simp only [Resource.add, Resource.mk.injEq]
  apply Finmap.ext_lookup
  intro k
  simp only [GoMap.lookup_range]
  cases a.lookup k with
  | none => cases b.lookup k <;> rfl
  | some v =>
    cases b.lookup k with
    | none => rfl
    | some w =>
      simp only [Option.getD_some, Option.some.injEq]
      rw [Int64.add_assoc, Int64.add_comm (read k v), ← Int64.add_assoc]

section

variable [ResourceHelpers]

def admittedAmount (qu : QueueUnit) (name : String) (ad : FrameworkAdmission) : ResourceList :=
  match qu.spec.podSets.find? (fun ps => ps.name = name) with
  | none => ∅
  | some ps => (scaleUp (newResource (ResourceHelpers.podRequests ps.template)) ad.replicas).resourceList

instance leftCommutativeAdmittedAmount (qu : QueueUnit) :
    LeftCommutative (fun (e : Sigma (fun _ : String => FrameworkAdmission)) (converted : Resource) =>
      converted.add (admittedAmount qu e.1 e.2)) :=
  ⟨fun _ _ converted => resource_add_right_comm converted _ _⟩

def convertFromAdmissionToResource (qu : QueueUnit) (ads : GoMap String FrameworkAdmission) : Resource :=
  if koordQueueDefaultRequirement ∈ ads then (newResource ∅).addResource (newResource qu.spec.request)
  else ads.entries.foldr (fun e converted => converted.add (admittedAmount qu e.1 e.2)) (newResource ∅)

/-- No resource that `b` names is short in `a`. -/
def isResLargeThan (a b : Resource) : Bool := b.resources.all (fun k v => !decide (v > amount a.resources k))

variable (fw : Handle) (m : Infos) (now : Time)

/-- What the unit would free, next to the podsets it would give back. A unit
that is protected or has nothing to give is passed over. -/
def canFree (reclaimProtectTime : Int) (r : Ref) : Option (GoMap String FrameworkAdmission × Resource) :=
  match getResourcesCanReclaim (m.unit r) reclaimProtectTime now with
  | none => none
  | some ps => if ps = ∅ then none else some (ps, convertFromAdmissionToResource (m.unit r) ps)

def selectVictims (preemptor : QueueUnitInfo) (preemptorResource : Resource) (reclaimProtectTime : Int) :
    List Ref → Resource → List (Ref × GoMap String FrameworkAdmission)
  | [], _ => []
  | last :: assumed, released =>
    if less preemptor (m.get last) < 0 ∧ isResLargeThan released preemptorResource = false then
      match canFree m now reclaimProtectTime last with
      | none => selectVictims preemptor preemptorResource reclaimProtectTime assumed released
      | some (ps, res) =>
        (last, ps) :: selectVictims preemptor preemptorResource reclaimProtectTime assumed
          (released.addResource res)
    else []

def getQueueUnitBaseQuotaName (qu : QueueUnit) : String := (firstQuota fw qu).getD ""

/-- The assumed units that the queue holds, lowest first. The map of assumed
units is ranged over in the given order. -/
def lowestFirst (order : List String) (q : PriorityQueue) : List Ref :=
  (sortQueue m (order.filterMap q.queueUnits.lookup)).reverse

def preemptorResource (preemptor : QueueUnit) : Resource :=
  convertFromAdmissionToResource preemptor (getQueueUnitResourceRequirementAds preemptor)

def dryRunPreemption (preemptor : Ref) (order : List String) (q : PriorityQueue) :
    List (Ref × GoMap String FrameworkAdmission) :=
  if getQueueUnitBaseQuotaName fw (m.unit preemptor) = "" then []
  else selectVictims m now (m.get preemptor) (preemptorResource (m.unit preemptor)) q.reclaimProtectTime
    (lowestFirst m order q) (newResource ∅)

inductive PreemptResult
  | waitForPodsRunningDisabled
  | disabled
  | preempting
  | noVictims
  | preempted (victims : List (Ref × GoMap String FrameworkAdmission))
deriving DecidableEq

def preempt (qi : Ref) (order : List String) (q : PreemptingQueue) : PreemptResult :=
  if !q.waitPodsRunning then .waitForPodsRunningDisabled
  else if !q.enablePreempt then .disabled
  else if q.preemptFlag then .preempting
  else
    let victims := dryRunPreemption fw m now qi order q.toPriorityQueue
    if victims = [] then .noVictims else .preempted victims

end

variable [ResourceHelpers] {fw : Handle} {m : Infos} {now : Time}

def released (m : Infos) (now : Time) (reclaimProtectTime : Int) (start : Resource) (passed : List Ref) : Resource :=
  passed.foldl (fun released last =>
    match canFree m now reclaimProtectTime last with
    | none => released
    | some (_, res) => released.addResource res) start

/-- The scan takes this unit: the preemptor comes before it and before all the
units that the scan passes earlier, and these do not free enough. -/
def Reached (m : Infos) (now : Time) (preemptor : QueueUnitInfo) (need : Resource) (reclaimProtectTime : Int)
    (assumed : List Ref) (start : Resource) (v : Ref) : Prop :=
  ∃ passed rest, assumed = passed ++ v :: rest ∧ (∀ x ∈ passed ++ [v], less preemptor (m.get x) < 0) ∧
    ∀ taken, taken <+: passed → isResLargeThan (released m now reclaimProtectTime start taken) need = false

variable {protect : Int} {assumed : List Ref} {preemptor : QueueUnitInfo} {last v : Ref} {need start : Resource}

theorem reached_cons (hlast : less preemptor (m.get last) < 0 ∧ isResLargeThan start need = false) :
    Reached m now preemptor need protect (last :: assumed) start v ↔
      v = last ∨ Reached m now preemptor need protect assumed (released m now protect start [last]) v := by
  constructor
  · rintro ⟨passed, rest, hsplit, hless, hneed⟩
    cases passed with
    | nil =>
      left
      exact (List.cons.inj hsplit).1.symm
    | cons x passed =>
      right
      obtain ⟨rfl, rfl⟩ := List.cons.inj hsplit
      refine ⟨passed, rest, rfl, fun y hy => hless y (List.mem_cons_of_mem last hy), fun taken ht => ?_⟩
      exact hneed (last :: taken) (List.cons_prefix_cons.mpr ⟨rfl, ht⟩)
  · rintro (rfl | ⟨passed, rest, rfl, hless, hneed⟩)
    · refine ⟨[], assumed, rfl, by simpa using hlast.1, fun taken ht => ?_⟩
      rw [List.prefix_nil.mp ht]
      exact hlast.2
    · refine ⟨last :: passed, rest, rfl, List.forall_mem_cons.mpr ⟨hlast.1, hless⟩, fun taken ht => ?_⟩
      cases taken with
      | nil => exact hlast.2
      | cons y taken =>
        obtain ⟨rfl, htaken⟩ := List.cons_prefix_cons.mp ht
        exact hneed taken htaken

theorem not_reached_cons (hlast : ¬ (less preemptor (m.get last) < 0 ∧ isResLargeThan start need = false)) :
    ¬ Reached m now preemptor need protect (last :: assumed) start v := by
  rintro ⟨passed, rest, hsplit, hless, hneed⟩
  have hstart := hneed [] List.nil_prefix
  cases passed with
  | nil =>
    obtain ⟨rfl, _⟩ := List.cons.inj hsplit
    exact hlast ⟨hless last (by simp), hstart⟩
  | cons x passed =>
    obtain ⟨rfl, _⟩ := List.cons.inj hsplit
    exact hlast ⟨hless last (by simp), hstart⟩

theorem mem_selectVictims (assumed : List Ref) (start : Resource) (v : Ref) (ps : GoMap String FrameworkAdmission) :
    (v, ps) ∈ selectVictims m now preemptor need protect assumed start ↔
      Reached m now preemptor need protect assumed start v ∧ ∃ res, canFree m now protect v = some (ps, res) := by
  induction assumed generalizing start with
  | nil =>
    rw [selectVictims]
    constructor
    · exact fun h => absurd h List.not_mem_nil
    · rintro ⟨⟨passed, rest, hsplit, _⟩, _⟩
      simp at hsplit
  | cons last assumed ih =>
    rw [selectVictims]
    split
    next hlast =>
      rw [reached_cons hlast]
      cases hfree : canFree m now protect last with
      | none =>
        have hsame : released m now protect start [last] = start := by
          rw [released, List.foldl_cons, hfree, List.foldl_nil]
        rw [hsame]
        dsimp only
        rw [ih]
        constructor
        · exact fun h => ⟨Or.inr h.1, h.2⟩
        · rintro ⟨rfl | h, res, hv⟩
          · rw [hfree] at hv
            cases hv
          · exact ⟨h, res, hv⟩
      | some found =>
        obtain ⟨ps', res⟩ := found
        have hmore : released m now protect start [last] = start.addResource res := by
          rw [released, List.foldl_cons, hfree, List.foldl_nil]
        rw [hmore]
        dsimp only
        rw [List.mem_cons, ih, Prod.mk.injEq]
        constructor
        · rintro (⟨rfl, rfl⟩ | ⟨h, hv⟩)
          · exact ⟨Or.inl rfl, res, hfree⟩
          · exact ⟨Or.inr h, hv⟩
        · rintro ⟨rfl | h, res', hv⟩
          · rw [hfree] at hv
            cases hv
            exact Or.inl ⟨rfl, rfl⟩
          · exact Or.inr ⟨h, res', hv⟩
    next hlast =>
      constructor
      · exact fun h => absurd h List.not_mem_nil
      · exact fun h => absurd h.1 (not_reached_cons hlast)

end KoordQueue.Queue.Victims
