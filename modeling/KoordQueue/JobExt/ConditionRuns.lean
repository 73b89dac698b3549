import KoordQueue.JobExt.Conditions

namespace KoordQueue.JobExt.ConditionRuns

open Api Records Conditions

/-- What `setCondition` returns. -/
def setConditionChanged (cond : Condition) : List Condition → Bool
  | [] => true
  | existing :: rest =>
    if existing.type ≠ cond.type then setConditionChanged cond rest
    else !decide (existing.status = cond.status ∧ existing.reason = cond.reason ∧ existing.message = cond.message)

/-- A call of `setCondition`, or of `setConditionIfPresent`. -/
structure Call where
  cond : Condition
  ifPresent : Bool := false
deriving DecidableEq

namespace Call

def conditions (now : Time) (call : Call) (conditions : List Condition) : List Condition :=
  if call.ifPresent then setConditionIfPresent now call.cond conditions else setCondition now call.cond conditions

def changed (call : Call) (conditions : List Condition) : Bool :=
  if call.ifPresent && !conditions.any (fun c => decide (c.type = call.cond.type)) then false
  else setConditionChanged call.cond conditions

end Call

def callAll (now : Time) : List Call → List Condition × Bool → List Condition × Bool
  | [], r => r
  | call :: calls, r => callAll now calls (call.conditions now r.1, call.changed r.1 || r.2)

/-- The calls that `SyncQueueUnitConditions` makes for each phase. -/
def syncCalls (phase : QueueUnitPhase) (message : String) : List Call :=
  let evicted := queueUnitEvictedByBackoffTimeout
  match phase with
  | .enqueued =>
    [⟨falseCondition queueUnitQuotaReserved "Pending" "The queue unit is waiting in its queue", false⟩,
      ⟨falseCondition queueUnitAdmitted "Pending" "The queue unit is not admitted yet", false⟩,
      ⟨falseCondition queueUnitPodsReady "Pending" "The pods of the job are not running", true⟩,
      ⟨falseCondition queueUnitEvicted "Requeued" "The queue unit is queued again", true⟩]
  | .reserved =>
    [⟨quotaReserved, false⟩,
      ⟨falseCondition queueUnitAdmitted "WaitingForAdmissionChecks" "Waiting for all admission checks to be ready",
        false⟩]
  | .dequeued | .schedReady | .schedSucceed => [⟨quotaReserved, false⟩, ⟨admitted, false⟩]
  | .running =>
    [⟨quotaReserved, false⟩, ⟨admitted, false⟩,
      ⟨trueCondition queueUnitPodsReady "PodsRunning" "The pods of the job are running", false⟩]
  | .succeed => [⟨trueCondition queueUnitFinished "Succeeded" "The job succeeded", false⟩]
  | .failed => [⟨trueCondition queueUnitFinished "Failed" "The job failed", false⟩]
  | .backoff =>
    [⟨falseCondition queueUnitQuotaReserved evicted "The reservation is released while backing off", false⟩,
      ⟨falseCondition queueUnitAdmitted evicted "The queue unit is no longer admitted", false⟩,
      ⟨falseCondition queueUnitPodsReady evicted "The pods of the job are not running", true⟩,
      ⟨trueCondition queueUnitEvicted evicted message, false⟩]
  | .schedFailed => [⟨falseCondition queueUnitAdmitted "SchedulingFailed" message, false⟩]
  | _ => []

def evictCalls (reason message : String) : List Call :=
  [⟨trueCondition queueUnitEvicted reason message, false⟩, ⟨falseCondition queueUnitAdmitted reason message, false⟩]

def clearQueueUnitRequeueState (qu : JobUnit) : JobUnit × Bool :=
  match qu.requeueState with
  | none => (qu, false)
  | some _ => ({ qu with requeueState := none }, true)

/-- `SyncQueueUnitConditions` with what it returns. -/
def syncReport (f : Features) (now : Time) (qu : JobUnit) : JobUnit × Bool :=
  if f.queueUnitConditions then
    let synced := callAll now (syncCalls qu.status.phase qu.status.message) (qu.conditions, false)
    let qu := { qu with conditions := synced.1 }
    if qu.status.phase = .running then
      let cleared := clearQueueUnitRequeueState qu
      (cleared.1, cleared.2 || synced.2)
    else (qu, synced.2)
  else (qu, false)

/-- `SetQueueUnitEvictedCondition` with what it returns. -/
def evictReport (f : Features) (now : Time) (reason message : String) (qu : JobUnit) : JobUnit × Bool :=
  if f.queueUnitConditions then
    let synced := callAll now (evictCalls reason message) (qu.conditions, false)
    ({ qu with conditions := synced.1 }, synced.2)
  else (qu, false)

theorem callAll_fst (now : Time) (phase : QueueUnitPhase) (message : String) (conditions : List Condition) :
    (callAll now (syncCalls phase message) (conditions, false)).1 = mirror now phase message conditions := by
  cases phase <;> rfl

theorem syncReport_fst (f : Features) (now : Time) (qu : JobUnit) :
    (syncReport f now qu).1 = syncQueueUnitConditions f now qu := by
  rw [syncReport, syncQueueUnitConditions]
  split
  next =>
    dsimp only
    split
    next =>
      rw [← callAll_fst, clearQueueUnitRequeueState]
      split
      next hnone =>
        dsimp only at hnone ⊢
        rw [hnone]
      next => rfl
    next => rw [← callAll_fst]
  next => rfl

section Calls

variable {now : Time} {cond : Condition} {call : Call} {calls : List Call} {condType : String}
  {conditions : List Condition}

/-- What `setCondition` makes of the condition that it finds. -/
def written (now : Time) (cond : Condition) : Option Condition → Condition
  | none => { cond with lastTransitionTime := wholeSeconds now }
  | some existing =>
    { existing with
      status := cond.status
      reason := cond.reason
      message := cond.message
      lastTransitionTime :=
        if existing.status ≠ cond.status then wholeSeconds now else existing.lastTransitionTime }

def Holds (cond c : Condition) : Prop :=
  c.status = cond.status ∧ c.reason = cond.reason ∧ c.message = cond.message

theorem find_cons (condType : String) (c : Condition) (conditions : List Condition) :
    findQueueUnitCondition condType (c :: conditions) =
      if c.type = condType then some c else findQueueUnitCondition condType conditions := by
  rw [findQueueUnitCondition, List.find?_cons, findQueueUnitCondition]
  by_cases h : c.type = condType
  · simp [h]
  · simp [h]

theorem find_setCondition_self (now : Time) (cond : Condition) (conditions : List Condition) :
    findQueueUnitCondition cond.type (setCondition now cond conditions) =
      some (written now cond (findQueueUnitCondition cond.type conditions)) := by
  induction conditions with
  | nil => simp [setCondition, findQueueUnitCondition, written]
  | cons c cs ih =>
    rw [setCondition, find_cons cond.type c cs]
    split
    next h => rw [find_cons, if_neg h, ih]
    next h =>
      rw [if_pos (not_not.mp h), find_cons, if_pos (not_not.mp h)]
      rfl

theorem changed_iff_find (cond : Condition) (conditions : List Condition) :
    setConditionChanged cond conditions = true ↔
      ∀ c, findQueueUnitCondition cond.type conditions = some c → ¬Holds cond c := by
  induction conditions with
  | nil => simp [setConditionChanged, findQueueUnitCondition]
  | cons c cs ih =>
    rw [setConditionChanged, find_cons]
    split
    next => exact ih
    next h =>
      rw [if_pos (not_not.mp h)]
      simp only [Holds, Bool.not_eq_true', decide_eq_false_iff_not, Option.some.injEq, forall_eq']

theorem setCondition_of_holds {c : Condition} (hc : findQueueUnitCondition cond.type conditions = some c)
    (h : Holds cond c) : setCondition now cond conditions = conditions := by
  induction conditions with
  | nil => cases hc
  | cons d cs ih =>
    rw [find_cons] at hc
    rw [setCondition]
    split
    next hne => rw [ih (by rwa [if_neg hne] at hc)]
    next hne =>
      rw [if_pos (not_not.mp hne)] at hc
      cases hc
      rw [← h.1, ← h.2.1, ← h.2.2, if_neg (not_not.mpr rfl)]

theorem types_setCondition (now : Time) (cond : Condition) (conditions : List Condition) :
    (setCondition now cond conditions).map Condition.type =
      if cond.type ∈ conditions.map Condition.type then conditions.map Condition.type
      else conditions.map Condition.type ++ [cond.type] := by
  induction conditions with
  | nil => rfl
  | cons c cs ih =>
    rw [setCondition, List.map_cons]
    split
    next h =>
      rw [List.map_cons, ih]
      have hiff : cond.type ∈ c.type :: cs.map Condition.type ↔ cond.type ∈ cs.map Condition.type := by
        simp [Ne.symm h]
      by_cases hmem : cond.type ∈ cs.map Condition.type
      · rw [if_pos hmem, if_pos (hiff.mpr hmem)]
      · rw [if_neg hmem, if_neg (fun h => hmem (hiff.mp h)), List.cons_append]
    next h =>
      have hmem : cond.type ∈ c.type :: cs.map Condition.type := not_not.mp h ▸ List.mem_cons_self
      rw [if_pos hmem]
      rfl

def Unique (conditions : List Condition) : Prop := (conditions.map Condition.type).Nodup

theorem unique_setCondition (now : Time) (cond : Condition) (h : Unique conditions) :
    Unique (setCondition now cond conditions) := by
  rw [Unique, types_setCondition]
  split
  next => exact h
  next hmem => exact List.nodup_append.mpr ⟨h, List.nodup_singleton _, by
    rintro a ha b hb rfl
    exact hmem (List.mem_singleton.mp hb ▸ ha)⟩

theorem isSome_find (condType : String) (conditions : List Condition) :
    conditions.any (fun c => decide (c.type = condType)) = true ↔
      findQueueUnitCondition condType conditions ≠ none := by
  rw [findQueueUnitCondition, ne_eq, List.find?_eq_none, List.any_eq_true]
  push Not
  rfl

namespace Call

/-- The call would write what is there, or nothing. -/
def Settled (call : Call) (conditions : List Condition) : Prop :=
  match findQueueUnitCondition call.cond.type conditions with
  | none => call.ifPresent = true
  | some c => Holds call.cond c

theorem conditions_eq (now : Time) (call : Call) (conditions : List Condition) :
    call.conditions now conditions =
      if call.ifPresent = true ∧ findQueueUnitCondition call.cond.type conditions = none then conditions
      else setCondition now call.cond conditions := by
  have hfind := isSome_find call.cond.type conditions
  rw [Call.conditions, setConditionIfPresent]
  grind

theorem changed_iff (call : Call) (conditions : List Condition) :
    call.changed conditions = true ↔ ¬call.Settled conditions := by
  have hfind := isSome_find call.cond.type conditions
  have hchanged := changed_iff_find call.cond conditions
  rw [Call.changed, Settled]
  cases hc : findQueueUnitCondition call.cond.type conditions with
  | none => grind
  | some c => grind

theorem conditions_of_settled (now : Time) (h : call.Settled conditions) :
    call.conditions now conditions = conditions := by
  rw [conditions_eq]
  split
  next => rfl
  next hnot =>
    rw [Settled] at h
    cases hc : findQueueUnitCondition call.cond.type conditions with
    | none =>
      rw [hc] at h
      exact absurd ⟨h, hc⟩ hnot
    | some c =>
      rw [hc] at h
      exact setCondition_of_holds hc h

theorem settled_conditions (now : Time) (call : Call) (conditions : List Condition) :
    call.Settled (call.conditions now conditions) := by
  rw [conditions_eq]
  split
  next h =>
    rw [Settled, h.2]
    exact h.1
  next =>
    rw [Settled, find_setCondition_self]
    dsimp only
    cases findQueueUnitCondition call.cond.type conditions with
    | none => exact ⟨rfl, rfl, rfl⟩
    | some c => exact ⟨rfl, rfl, rfl⟩

theorem find_of_ne (now : Time) (h : call.cond.type ≠ condType) :
    findQueueUnitCondition condType (call.conditions now conditions) =
      findQueueUnitCondition condType conditions := by
  rw [conditions_eq]
  split
  next => rfl
  next => exact find_setCondition now call.cond condType conditions h

theorem unique_conditions (now : Time) (call : Call) (h : Unique conditions) :
    Unique (call.conditions now conditions) := by
  rw [conditions_eq]
  split
  next => exact h
  next => exact unique_setCondition now call.cond h

end Call

theorem unique_callAll (now : Time) (calls : List Call) (r : List Condition × Bool) (h : Unique r.1) :
    Unique (callAll now calls r).1 := by
  induction calls generalizing r with
  | nil => exact h
  | cons call calls ih => exact ih _ (call.unique_conditions now h)

theorem find_callAll (now : Time) (r : List Condition × Bool) (h : condType ∉ calls.map (fun c => c.cond.type)) :
    findQueueUnitCondition condType (callAll now calls r).1 = findQueueUnitCondition condType r.1 := by
  induction calls generalizing r with
  | nil => rfl
  | cons call calls ih =>
    rw [List.map_cons, List.mem_cons, not_or] at h
    rw [callAll, ih _ h.2, Call.find_of_ne now (Ne.symm h.1)]

theorem settled_congr {conditions' : List Condition}
    (h : findQueueUnitCondition call.cond.type conditions' = findQueueUnitCondition call.cond.type conditions) :
    call.Settled conditions' ↔ call.Settled conditions := by
  rw [Call.Settled, Call.Settled, h]

theorem settled_callAll (now : Time) (hn : (calls.map (fun c => c.cond.type)).Nodup) (r : List Condition × Bool)
    (hcall : call ∈ calls) : call.Settled (callAll now calls r).1 := by
  induction calls generalizing r with
  | nil => cases hcall
  | cons first calls ih =>
    rw [List.map_cons, List.nodup_cons] at hn
    rcases List.mem_cons.mp hcall with rfl | hcall
    · rw [callAll, settled_congr (find_callAll now _ hn.1)]
      exact call.settled_conditions now r.1
    · exact ih hn.2 _ hcall

theorem callAll_of_settled (now : Time) (conditions : List Condition) (changed : Bool)
    (h : ∀ call ∈ calls, call.Settled conditions) :
    callAll now calls (conditions, changed) = (conditions, changed) := by
  induction calls with
  | nil => rfl
  | cons call calls ih =>
    have hcall := h call List.mem_cons_self
    have hunchanged : call.changed conditions = false :=
      Bool.eq_false_iff.mpr (fun hc => (call.changed_iff conditions).mp hc hcall)
    rw [callAll, call.conditions_of_settled now hcall, hunchanged, Bool.false_or]
    exact ih (fun c hc => h c (List.mem_cons_of_mem call hc))

theorem changed_callAll (now : Time) (hn : (calls.map (fun c => c.cond.type)).Nodup) (r : List Condition × Bool) :
    (callAll now calls r).2 = true ↔ r.2 = true ∨ ∃ call ∈ calls, ¬call.Settled r.1 := by
  induction calls generalizing r with
  | nil => simp [callAll]
  | cons first calls ih =>
    rw [List.map_cons, List.nodup_cons] at hn
    rw [callAll, ih hn.2, Bool.or_eq_true, Call.changed_iff]
    have hrest : ∀ call ∈ calls, call.Settled (first.conditions now r.1) ↔ call.Settled r.1 := by
      intro call hcall
      apply settled_congr
      apply Call.find_of_ne
      intro he
      exact hn.1 (he ▸ List.mem_map_of_mem hcall)
    simp only [List.mem_cons, exists_eq_or_imp]
    constructor
    · rintro ((h | h) | ⟨call, hcall, h⟩)
      · exact Or.inr (Or.inl h)
      · exact Or.inl h
      · exact Or.inr (Or.inr ⟨call, hcall, fun hs => h ((hrest call hcall).mpr hs)⟩)
    · rintro (h | h | ⟨call, hcall, h⟩)
      · exact Or.inl (Or.inr h)
      · exact Or.inl (Or.inl h)
      · exact Or.inr ⟨call, hcall, fun hs => h ((hrest call hcall).mp hs)⟩

theorem changed_iff_ne (now : Time) (hn : (calls.map (fun c => c.cond.type)).Nodup) (conditions : List Condition) :
    (callAll now calls (conditions, false)).2 = true ↔ (callAll now calls (conditions, false)).1 ≠ conditions := by
  constructor
  · intro h heq
    rcases (changed_callAll now hn (conditions, false)).mp h with hf | ⟨call, hcall, hnot⟩
    · cases hf
    · have hs := settled_callAll now hn (conditions, false) hcall
      rw [heq] at hs
      exact hnot hs
  · intro hne
    rw [changed_callAll now hn]
    by_contra hnone
    push Not at hnone
    exact hne (congrArg Prod.fst (callAll_of_settled now conditions false hnone.2))

theorem callAll_repeat (now now' : Time) (hn : (calls.map (fun c => c.cond.type)).Nodup) (r : List Condition × Bool) :
    (callAll now' calls ((callAll now calls r).1, false)).2 = false :=
  congrArg Prod.snd (callAll_of_settled now' _ false (fun _ hcall => settled_callAll now hn r hcall))

/-- Every condition stays, and its time changes only with its status. -/
def Steady (conditions conditions' : List Condition) : Prop :=
  ∀ condType c, findQueueUnitCondition condType conditions = some c →
    ∃ c', findQueueUnitCondition condType conditions' = some c' ∧
      (c'.lastTransitionTime ≠ c.lastTransitionTime → c'.status ≠ c.status)

theorem Steady.refl (conditions : List Condition) : Steady conditions conditions :=
  fun _ c hc => ⟨c, hc, fun h => absurd rfl h⟩

theorem steady_call (now : Time) (call : Call) (conditions : List Condition) :
    Steady conditions (call.conditions now conditions) := by
  intro condType c hc
  by_cases htype : call.cond.type = condType
  · rw [Call.conditions_eq]
    split
    next h =>
      rw [htype, hc] at h
      cases h.2
    next =>
      refine ⟨_, htype ▸ find_setCondition_self now call.cond conditions, ?_⟩
      rw [hc, written]
      dsimp only
      split
      next hs => exact fun _ => Ne.symm hs
      next => exact fun h => absurd rfl h
  · rw [Call.find_of_ne now htype]
    exact ⟨c, hc, fun h => absurd rfl h⟩

theorem steady_callAll (now : Time) (hn : (calls.map (fun c => c.cond.type)).Nodup) (r : List Condition × Bool) :
    Steady r.1 (callAll now calls r).1 := by
  induction calls generalizing r with
  | nil => exact Steady.refl r.1
  | cons call calls ih =>
    rw [List.map_cons, List.nodup_cons] at hn
    intro condType c hc
    by_cases htype : call.cond.type = condType
    · subst htype
      rw [callAll, find_callAll now _ hn.1]
      exact steady_call now call r.1 _ c hc
    · rw [callAll]
      apply ih hn.2 (call.conditions now r.1, _)
      rw [Call.find_of_ne now htype, hc]

theorem find_callAll_none (now : Time) (r : List Condition × Bool)
    (hcalls : ∀ call ∈ calls, call.cond.type = condType → call.ifPresent = true)
    (h : findQueueUnitCondition condType r.1 = none) :
    findQueueUnitCondition condType (callAll now calls r).1 = none := by
  induction calls generalizing r with
  | nil => exact h
  | cons call calls ih =>
    apply ih _ (fun c hc => hcalls c (List.mem_cons_of_mem call hc))
    by_cases htype : call.cond.type = condType
    · rw [Call.conditions_eq, if_pos ⟨hcalls call List.mem_cons_self htype, htype ▸ h⟩, h]
    · rw [Call.find_of_ne now htype, h]

theorem nodup_syncCalls (phase : QueueUnitPhase) (message : String) :
    ((syncCalls phase message).map (fun c => c.cond.type)).Nodup := by
  cases phase <;> exact of_decide_eq_true rfl

theorem nodup_evictCalls (reason message : String) :
    ((evictCalls reason message).map (fun c => c.cond.type)).Nodup := of_decide_eq_true rfl

theorem ifPresent_of_evicted {phase : QueueUnitPhase} (h : phase ≠ .backoff) (message : String) :
    ∀ call ∈ syncCalls phase message, call.cond.type = queueUnitEvicted → call.ifPresent = true := by
  cases phase with
  | backoff => exact absurd rfl h
  | _ => simp [syncCalls, falseCondition, trueCondition, quotaReserved, admitted, queueUnitEvicted,
      queueUnitQuotaReserved, queueUnitAdmitted, queueUnitPodsReady, queueUnitFinished]

end Calls

section Runs

variable {f : Features}

/-- What happens to a unit: its phase is assigned, and the two functions are called. -/
inductive Action
  | assign (phase : QueueUnitPhase) (message : String)
  | sync (now : Time)
  | evict (now : Time) (reason message : String)
deriving DecidableEq

def step (f : Features) (qu : JobUnit) : Action → JobUnit × Bool
  | .assign phase message => ({ qu with status := { qu.status with phase, message } }, false)
  | .sync now => syncReport f now qu
  | .evict now reason message => evictReport f now reason message qu

def run (f : Features) (qu : JobUnit) (actions : List Action) : JobUnit :=
  actions.foldl (fun qu action => (step f qu action).1) qu

/-- The unit is not put into `TimeoutBackoff` and not marked as evicted. -/
def Action.Calm : Action → Prop
  | .assign phase _ => phase ≠ .backoff
  | .sync _ => True
  | .evict _ _ _ => False

theorem conditions_syncReport (hf : f.queueUnitConditions = true) (now : Time) (qu : JobUnit) :
    (syncReport f now qu).1.conditions =
      (callAll now (syncCalls qu.status.phase qu.status.message) (qu.conditions, false)).1 := by
  rw [syncReport_fst, syncQueueUnitConditions, if_pos hf, callAll_fst]

theorem conditions_evictReport (hf : f.queueUnitConditions = true) (now : Time) (reason message : String)
    (qu : JobUnit) :
    (evictReport f now reason message qu).1.conditions =
      (callAll now (evictCalls reason message) (qu.conditions, false)).1 := by
  rw [evictReport, if_pos hf]

theorem status_syncReport (f : Features) (now : Time) (qu : JobUnit) : (syncReport f now qu).1.status = qu.status := by
  rw [syncReport_fst, sync_status]

theorem requeueState_syncReport (hf : f.queueUnitConditions = true) (now : Time) (qu : JobUnit) :
    (syncReport f now qu).1.requeueState = if qu.status.phase = .running then none else qu.requeueState := by
  rw [syncReport_fst, syncQueueUnitConditions, if_pos hf]

theorem reported_iff (hf : f.queueUnitConditions = true) (now : Time) (qu : JobUnit) :
    (syncReport f now qu).2 = true ↔
      (callAll now (syncCalls qu.status.phase qu.status.message) (qu.conditions, false)).2 = true ∨
        qu.status.phase = .running ∧ qu.requeueState ≠ none := by
  rw [syncReport, if_pos hf]
  dsimp only
  split
  next h =>
    rw [Bool.or_eq_true, clearQueueUnitRequeueState, or_comm]
    cases qu.requeueState with
    | none => simp
    | some r => simp [h]
  next h => simp [h]

theorem reported_iff_changed (hf : f.queueUnitConditions = true) (now : Time) (qu : JobUnit) :
    (syncReport f now qu).2 = true ↔
      (syncReport f now qu).1.conditions ≠ qu.conditions ∨
        (syncReport f now qu).1.requeueState ≠ qu.requeueState := by
  rw [reported_iff hf, changed_iff_ne now (nodup_syncCalls _ _), conditions_syncReport hf,
    requeueState_syncReport hf]
  refine or_congr_right ?_
  split
  next h => simp [h, eq_comm]
  next h => simp [h]

theorem syncReport_repeat (hf : f.queueUnitConditions = true) (now now' : Time) (qu : JobUnit) :
    (syncReport f now' (syncReport f now qu).1).2 = false := by
  rw [Bool.eq_false_iff, ne_eq, reported_iff hf, status_syncReport, conditions_syncReport hf,
    requeueState_syncReport hf, callAll_repeat now now' (nodup_syncCalls _ _)]
  rintro (h | ⟨hrunning, h⟩)
  · cases h
  · exact h (if_pos hrunning)

variable {qu : JobUnit}

theorem unique_step (hf : f.queueUnitConditions = true) (h : Unique qu.conditions) (action : Action) :
    Unique (step f qu action).1.conditions := by
  cases action with
  | assign phase message => exact h
  | sync now =>
    rw [step, conditions_syncReport hf]
    exact unique_callAll now _ _ h
  | evict now reason message =>
    rw [step, conditions_evictReport hf]
    exact unique_callAll now _ _ h

theorem steady_step (hf : f.queueUnitConditions = true) (qu : JobUnit) (action : Action) :
    Steady qu.conditions (step f qu action).1.conditions := by
  cases action with
  | assign phase message => exact Steady.refl _
  | sync now =>
    rw [step, conditions_syncReport hf]
    exact steady_callAll now (nodup_syncCalls _ _) (qu.conditions, false)
  | evict now reason message =>
    rw [step, conditions_evictReport hf]
    exact steady_callAll now (nodup_evictCalls _ _) (qu.conditions, false)

/-- The unit is not in `TimeoutBackoff` and shows no eviction. -/
def Unevicted (qu : JobUnit) : Prop :=
  qu.status.phase ≠ .backoff ∧ findQueueUnitCondition queueUnitEvicted qu.conditions = none

theorem unevicted_step (hf : f.queueUnitConditions = true) (h : Unevicted qu) {action : Action}
    (hcalm : action.Calm) : Unevicted (step f qu action).1 := by
  cases action with
  | assign phase message => exact ⟨hcalm, h.2⟩
  | sync now =>
    rw [Unevicted, step, status_syncReport, conditions_syncReport hf]
    exact ⟨h.1, find_callAll_none now _ (ifPresent_of_evicted h.1 _) h.2⟩
  | evict now reason message => exact absurd hcalm id

theorem unique_run (hf : f.queueUnitConditions = true) (h : Unique qu.conditions)
    (actions : List Action) : Unique (run f qu actions).conditions := by
  induction actions generalizing qu with
  | nil => exact h
  | cons action actions ih => exact ih (unique_step hf h action)

theorem unevicted_run (hf : f.queueUnitConditions = true) (h : Unevicted qu) {actions : List Action}
    (hcalm : ∀ action ∈ actions, action.Calm) : Unevicted (run f qu actions) := by
  induction actions generalizing qu with
  | nil => exact h
  | cons action actions ih =>
    exact ih (unevicted_step hf h (hcalm action List.mem_cons_self))
      (fun a ha => hcalm a (List.mem_cons_of_mem action ha))

/-- After any run: no type occurs twice; the next action changes the time of a
condition only with its status; a sync reports a change exactly when it makes
one, and none when it is repeated at any time; and an eviction is not added
without a backoff or an explicit mark. -/
theorem conditions_mirror_phase (hf : f.queueUnitConditions = true) {qu : JobUnit} (hu : Unique qu.conditions)
    (actions : List Action) :
    Unique (run f qu actions).conditions ∧
      (∀ action, Steady (run f qu actions).conditions (step f (run f qu actions) action).1.conditions) ∧
      (∀ now, (syncReport f now (run f qu actions)).2 = true ↔
        (syncReport f now (run f qu actions)).1.conditions ≠ (run f qu actions).conditions ∨
          (syncReport f now (run f qu actions)).1.requeueState ≠ (run f qu actions).requeueState) ∧
      (∀ now now', (syncReport f now' (syncReport f now (run f qu actions)).1).2 = false) ∧
      (findQueueUnitCondition queueUnitEvicted qu.conditions = none → qu.status.phase ≠ .backoff →
        (∀ action ∈ actions, action.Calm) →
          findQueueUnitCondition queueUnitEvicted (run f qu actions).conditions = none) := by
  refine ⟨unique_run hf hu actions, steady_step hf _, fun now => reported_iff_changed hf now _,
    fun now now' => syncReport_repeat hf now now' _, ?_⟩
  intro hnone hphase hcalm
  exact (unevicted_run hf ⟨hphase, hnone⟩ hcalm).2

def admittedRun : List Action :=
  [.assign .enqueued "", .sync second, .assign .dequeued "", .sync (2 * second), .assign .running "",
    .sync (3 * second)]

theorem admittedRun_mirrored :
    findQueueUnitCondition queueUnitEvicted (run {} {} admittedRun).conditions = none ∧
      (run {} {} admittedRun).conditions.map (fun c => (c.type, c.lastTransitionTime)) =
        [("QuotaReserved", 2 * second), ("Admitted", 2 * second), ("PodsReady", 3 * second)] := by
  have hu : Unique ({} : JobUnit).conditions := List.nodup_nil
  refine ⟨(conditions_mirror_phase (f := {}) rfl hu admittedRun).2.2.2.2 rfl (by decide) ?_, by decide⟩
  simp [admittedRun, Action.Calm]

end Runs

end KoordQueue.JobExt.ConditionRuns
