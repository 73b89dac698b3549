import KoordQueue.Scheduler.AdmissionChecks

namespace KoordQueue.Scheduler.DequeueWrite

open Api UnitStatus JobExt.Records JobExt.Conditions Scheduler.Dequeue Scheduler.AdmissionChecks

/-- One call of `Dequeue`, with the unit as the scheduler has it in its cache. -/
structure Call where
  cached : JobUnit
  queueName : String := ""
  strictDequeue : Bool := false
  smallTaskAcclerate : Bool := false
  timeNow : Time := 0
  admissions : List FrameworkAdmission := []
  matched : List String := []
deriving DecidableEq

def Call.status (c : Call) : JobUnit :=
  dequeue c.strictDequeue c.smallTaskAcclerate c.timeNow c.cached c.admissions c.matched

structure Copy where
  unit : JobUnit
  queue : String := ""
  revision : Nat := 0
deriving DecidableEq

structure World where
  stored : Copy
  fetched : Option Copy := none
  done : Bool := false
deriving DecidableEq

/-- `commit` is any other writer; the other actions are the requests of one
`UpdateQueueUnitStatusAndAnnotations`. -/
inductive Action
  | commit (qu : JobUnit) (queue : String)
  | get
  | tooManyRequests
  | updateSpec
  | updateStatus (now : Time)

def isConflict (w : World) (fetched : Copy) : Bool := decide (fetched.revision ≠ w.stored.revision)

/-- A request that meets a conflict, or too many requests, makes the call fetch
the unit again. The status it sends stays the one it computed. -/
def step (f : Features) (c : Call) (w : World) : Action → Option World
  | .commit qu queue => some { w with stored := ⟨qu, queue, w.stored.revision + 1⟩ }
  | .get => if w.done = false ∧ w.fetched = none then some { w with fetched := some w.stored } else none
  | .tooManyRequests => if w.done = false then some { w with fetched := none } else none
  | .updateSpec =>
    w.fetched.bind (fun fetched =>
      if w.done = true ∨ fetched.queue = c.queueName then none
      else if isConflict w fetched then some { w with fetched := none }
      else
        let updated : Copy := ⟨w.stored.unit.storeSpec fetched.unit, c.queueName, w.stored.revision + 1⟩
        some { w with stored := updated, fetched := some updated })
  | .updateStatus now =>
    w.fetched.bind (fun fetched =>
      if w.done = true ∨ fetched.queue ≠ c.queueName then none
      else if fetched.unit.storeStatus c.status = fetched.unit then some { w with done := true }
      else if isConflict w fetched then some { w with fetched := none }
      else
        let newQueueUnit := syncQueueUnitConditions f now (fetched.unit.storeStatus c.status)
        some { w with
          stored := { w.stored with
            unit := w.stored.unit.storeStatus newQueueUnit, revision := w.stored.revision + 1 }
          done := true })

def Lands (c : Call) (w : World) : Prop :=
  ∃ fetched, w.fetched = some fetched ∧ w.done = false ∧ fetched.queue = c.queueName ∧
    fetched.unit.storeStatus c.status ≠ fetched.unit ∧ isConflict w fetched = false

def mirrored (f : Features) (condType : String) : Bool :=
  f.queueUnitConditions && decide (condType = queueUnitQuotaReserved ∨ condType = queueUnitAdmitted)

abbrev Holding := ResourceList × Int64 × Option ReclaimState

def held (admissions : List Admission) (name : String) : List Holding :=
  (admissions.filter (fun ad => decide (ad.name = name))).map (fun ad => (ad.resources, ad.running, ad.reclaimState))

def holdings (admissions : List Admission) (name : String) : List Holding :=
  if held admissions name = [] then [(∅, 0, none)] else held admissions name

/-- The part of the status that `Dequeue` does not compute. -/
structure Foreign where
  holdings : String → List Holding
  podState : PodState
  requeueState : Option RequeueState
  reclaimablePods : List ReclaimablePod
  accumulatedPastExecutionTimeSeconds : Option Int32
  conditions : List Condition
  admissionChecks : List AdmissionCheckState

def foreign (f : Features) (matched : List String) (qu : JobUnit) : Foreign where
  holdings := holdings qu.status.admissions
  podState := qu.podState
  requeueState := qu.requeueState
  reclaimablePods := qu.reclaimablePods
  accumulatedPastExecutionTimeSeconds := qu.accumulatedPastExecutionTimeSeconds
  conditions := qu.conditions.filter (fun c => !mirrored f c.type)
  admissionChecks := if matched = [] then qu.admissionChecks else []

theorem filter_setCondition {p : Condition → Bool} {now : Time} {cond : Condition}
    (hp : ∀ c, c.type = cond.type → ¬ p c = true) (conditions : List Condition) :
    (setCondition now cond conditions).filter p = conditions.filter p := by
  induction conditions with
  | nil =>
    rw [setCondition, List.filter_cons_of_neg]
    exact hp _ rfl
  | cons c cs ih =>
    rw [setCondition]
    split
    next => rw [List.filter_cons, List.filter_cons, ih]
    next hc =>
      rw [List.filter_cons_of_neg, List.filter_cons_of_neg (hp c (not_not.mp hc))]
      exact hp _ (not_not.mp hc)

theorem not_mirrored_of_type {f : Features} (hf : f.queueUnitConditions = true) {c : Condition} {condType : String}
    (h : condType = queueUnitQuotaReserved ∨ condType = queueUnitAdmitted) (hc : c.type = condType) :
    ¬ (!mirrored f c.type) = true := by
  rw [mirrored, hf, hc, decide_eq_true h]
  exact Bool.false_ne_true

theorem phase_newStatus (cfg : Config) (timeNow : Time) (qu : QueueUnit) (grants : List FrameworkAdmission) :
    (newStatus cfg timeNow qu grants).phase ∈ [QueueUnitPhase.reserved, .schedReady, .dequeued] := by
  rw [newStatus]
  split
  next => exact List.mem_cons_self
  next => split <;> simp

theorem filter_mirror {f : Features} (hf : f.queueUnitConditions = true) (now : Time) {phase : QueueUnitPhase}
    (hp : phase ∈ [QueueUnitPhase.reserved, .schedReady, .dequeued]) (message : String) (conditions : List Condition) :
    (mirror now phase message conditions).filter (fun c => !mirrored f c.type) =
      conditions.filter (fun c => !mirrored f c.type) := by
  simp only [List.mem_cons, List.not_mem_nil, or_false] at hp
  rcases hp with rfl | rfl | rfl
  all_goals
    rw [mirror, filter_setCondition (fun c hc => not_mirrored_of_type hf (.inr rfl) hc),
      filter_setCondition (fun c hc => not_mirrored_of_type hf (.inl rfl) hc)]

theorem held_cons (ad : Admission) (ads : List Admission) (name : String) :
    held (ad :: ads) name =
      if ad.name = name then (ad.resources, ad.running, ad.reclaimState) :: held ads name else held ads name := by
  by_cases h : ad.name = name <;> simp [held, h]

theorem held_addAdmission (s : FrameworkAdmission) (ads : List Admission) (name : String) :
    held (addAdmission s ads) name =
      if s.name = name ∧ held ads name = [] then [(∅, 0, none)] else held ads name := by
  induction ads with
  | nil =>
    rw [addAdmission, held_cons]
    by_cases h : s.name = name <;> simp [held, h]
  | cons ad ads ih =>
    rw [addAdmission]
    split
    next he =>
      rw [held_cons, held_cons]
      by_cases h : ad.name = name
      · simp [h]
      · have hs : s.name ≠ name := fun hs => h (he.trans hs)
        simp [h, hs]
    next he =>
      rw [held_cons, held_cons, ih]
      by_cases h : ad.name = name
      · have hs : s.name ≠ name := fun hs => he (h.trans hs.symm)
        simp [h, hs]
      · simp [h]

theorem holdings_addAdmission (s : FrameworkAdmission) (ads : List Admission) (name : String) :
    holdings (addAdmission s ads) name = holdings ads name := by
  rw [holdings, holdings, held_addAdmission]
  by_cases h : held ads name = [] <;> by_cases hs : s.name = name <;> simp [h, hs]

theorem holdings_foldl (order : List FrameworkAdmission) (ads : List Admission) :
    holdings (order.foldl (fun ads s => addAdmission s ads) ads) = holdings ads := by
  induction order generalizing ads with
  | nil => rfl
  | cons s order ih =>
    rw [List.foldl_cons, ih]
    exact funext (holdings_addAdmission s ads)

variable (f : Features) (c : Call)

theorem foreign_sent (now : Time) (stored fetched : JobUnit) :
    foreign f c.matched
        (stored.storeStatus (syncQueueUnitConditions f now (fetched.storeStatus c.status))) =
      foreign f c.matched c.cached := by
  have hphase := phase_newStatus ⟨decide (c.matched ≠ []), c.strictDequeue, c.smallTaskAcclerate⟩ c.timeNow
    c.cached.toQueueUnit c.admissions
  have hrunning : c.status.status.phase ≠ .running := by
    intro hr
    change (newStatus _ _ _ _).phase = _ at hr
    rw [hr] at hphase
    simp at hphase
  have hads : holdings c.status.status.admissions = holdings c.cached.status.admissions := by
    change holdings (newStatus _ _ _ _).admissions = _
    rw [newStatus_admissions, holdings_foldl]
  have hchecks : (if c.matched = [] then c.status.admissionChecks else []) =
      if c.matched = [] then c.cached.admissionChecks else [] := by
    refine ite_congr rfl (fun h => ?_) (fun _ => rfl)
    change (if c.matched = [] then _ else _) = _
    rw [if_pos h]
  rw [syncQueueUnitConditions]
  split
  next hf =>
    have hconds := filter_mirror hf now hphase c.status.status.message c.cached.conditions
    have hrequeue : (if c.status.status.phase = .running then none else c.status.requeueState) =
        c.cached.requeueState := if_neg hrunning
    simp only [foreign, JobUnit.storeStatus, hads, hchecks]
    congr 1
  next =>
    simp only [foreign, JobUnit.storeStatus, hads, hchecks]
    rfl

theorem step_updateStatus {w : World} (hl : Lands c w) (now : Time) :
    ∃ fetched, step f c w (.updateStatus now) =
      some
        { stored := ⟨w.stored.unit.storeStatus (syncQueueUnitConditions f now (fetched.unit.storeStatus c.status)),
            w.stored.queue, w.stored.revision + 1⟩
          fetched := some fetched, done := true } := by
  obtain ⟨fetched, hf, hd, hq, hn, hc⟩ := hl
  refine ⟨fetched, ?_⟩
  simp [step, hf, hd, hq, hn, hc]

/-- The write keeps what was committed last by anyone else. -/
def Keeps (w : World) : Action → Prop
  | .updateStatus now => Lands c w → ∀ t, step f c w (.updateStatus now) = some t →
      foreign f c.matched t.stored.unit = foreign f c.matched w.stored.unit
  | .commit _ _ | .get | .tooManyRequests | .updateSpec => True

/-- What is stored when the write lands is what was in the cache. -/
def Fresh (w : World) : Action → Prop
  | .updateStatus _ => Lands c w → foreign f c.matched c.cached = foreign f c.matched w.stored.unit
  | .commit _ _ | .get | .tooManyRequests | .updateSpec => True

theorem keeps_iff_fresh (w : World) (a : Action) : Keeps f c w a ↔ Fresh f c w a := by
  cases a with
  | updateStatus now =>
    refine forall_congr' (fun hl => ?_)
    obtain ⟨fetched, hs⟩ := step_updateStatus f c hl now
    constructor
    · intro h
      rw [← h _ hs]
      exact (foreign_sent f c now w.stored.unit fetched.unit).symm
    · intro h t ht
      cases hs.symm.trans ht
      rw [← h]
      exact foreign_sent f c now w.stored.unit fetched.unit
  | commit | get | tooManyRequests | updateSpec => exact Iff.rfl

/-- In every interleaving the retries change nothing: an update of another
writer survives exactly when the cache already held it. -/
theorem dequeue_write_keeps_iff (w : World) (as : List Action) :
    Run.Guarded (step f c) (Keeps f c) w as ↔ Run.Guarded (step f c) (Fresh f c) w as :=
  Run.guarded_congr (keeps_iff_fresh f c) w as

def partlyRunning (running : Int64) : JobUnit :=
  { status := { phase := .running, admissions := [{ name := "workers", replicas := 1, running }] } }

def secondWorker : Call := { cached := partlyRunning 0, admissions := [⟨"workers", 1⟩] }

/-- The reporter counts a running worker between the fetch and the write. The write meets a conflict,
is tried again, and sets the count back. -/
theorem running_count_overwritten : ∃ t, Run.exec (step {} secondWorker) { stored := ⟨partlyRunning 0, "", 0⟩ }
        [.get, .commit (partlyRunning 1) "", .updateStatus 1, .get, .updateStatus 2] = some t ∧ t.done = true ∧
      foreign {} secondWorker.matched t.stored.unit ≠ foreign {} secondWorker.matched (partlyRunning 1) := by
  obtain ⟨t, hrun, hd, hne⟩ : ∃ t, Run.exec (step {} secondWorker) { stored := ⟨partlyRunning 0, "", 0⟩ }
      [.get, .commit (partlyRunning 1) "", .updateStatus 1, .get, .updateStatus 2] = some t ∧ t.done = true ∧
      holdings t.stored.unit.status.admissions "workers" ≠ holdings (partlyRunning 1).status.admissions "workers" :=
      by decide +kernel
  exact ⟨t, hrun, hd, fun he => hne (congrFun (congrArg Foreign.holdings he) "workers")⟩

end KoordQueue.Scheduler.DequeueWrite
