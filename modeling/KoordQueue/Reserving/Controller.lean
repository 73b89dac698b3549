import KoordQueue.JobExt.Conditions
import KoordQueue.Reserving.Blacklist
import KoordQueue.Reserving.Verdict

namespace KoordQueue.Reserving.Controller

open Api JobExt.Records JobExt.Conditions Records Verdict Blacklist

inductive ApiError
  | notFound
  | conflict
  | unsupported
  | reservation (text : String)
  | server
deriving DecidableEq

inductive Task
  | create (r : Reservation)
  | update (r : Reservation)
deriving DecidableEq

/-- The calls that fail, and what the cache of the client lists where it lags
behind the API server. -/
structure Faults where
  getUnit : Bool := false
  getJob : Bool := false
  updateStatus : Bool := false
  list : Bool := false
  stale : Option (List Reservation) := none
  deleteAllOf : Bool := false
  topology : Bool := false
  create : String → Bool := fun _ => false
  update : String → Bool := fun _ => false
  delete : String → Bool := fun _ => false

/-- What the surroundings decide during one reconcile. The goroutines get to
the API server in some order, and the messages of a verdict are visited in some
order. -/
structure Env where
  features : Features := {}
  now : Time := 0
  networkAware : Bool := false
  blacklistcm : Option ConfigMap := none
  faults : Faults := {}
  schedule : List Task → List Task := id
  schedule_perm : ∀ tasks, (schedule tasks).Perm tasks := by exact List.Perm.refl
  visit : List Reservation → List String := fun _ => []

def blacklistLabel : String := "blacklist-rv"

/-- What `ReconcileReservations` writes on the reservations that a handle wants. -/
def decorate (qu : ReservedUnit) (rv : Option String) (total : Nat) (r : Reservation) : Reservation :=
  let labels := ((r.labels.insert jobNamespaceLabel qu.consumer.ns).insert jobNameLabel qu.consumer.name).insert
    "total-reservations" (toString total)
  let annotations := match qu.ownerReferences with
    | [] => r.annotations
    | owner :: _ =>
      (((r.annotations.insert "scheduling.x-k8s.io/owner-apiversion" owner.apiVersion).insert
        "scheduling.x-k8s.io/owner-kind" owner.kind).insert "scheduling.x-k8s.io/owner-name" owner.name).insert
          "scheduling.x-k8s.io/owner-uid" owner.uid
  let annotations := (annotations.insert "reserved-queueunit-name" qu.name).insert "reserved-job-type" qu.jobTypeKey
  { r with
    labels
    annotations := match rv with
      | none => annotations
      | some rv => annotations.insert blacklistLabel rv
    ttl := some (30 * 60 * 1000000000) }

def wanted (env : Env) (qu : ReservedUnit) (resvs : List Reservation) : List Reservation :=
  let black := getJobBlackList env.now env.blacklistcm
  applyBlacklist black.1
    (resvs.map (decorate qu (if black.1 = [] then none else some black.2) resvs.length))

def replace (r old : Reservation) : Reservation :=
  if old.name = r.name then
    { r with resourceVersion := old.resourceVersion + 1, phase := old.phase, conditions := old.conditions }
  else old

theorem replace_name (r old : Reservation) : (replace r old).name = old.name := by
  rw [replace]
  split
  next h => exact h.symm
  next => rfl

def Task.run (faults : Faults) (st : Reservations × List ApiError) : Task → Reservations × List ApiError
  | .create r => if faults.create r.name then (st.1, st.2 ++ [.server]) else (st.1.create r, st.2)
  | .update r =>
    if faults.update r.name then (st.1, st.2 ++ [.server])
    else match st.1.get r.name with
      | none => (st.1, st.2 ++ [.notFound])
      | some old =>
        if old.resourceVersion = r.resourceVersion then (st.1.modify (replace r) (replace_name r), st.2)
        else (st.1, st.2 ++ [.conflict])

def runTasks (env : Env) (s : Reservations) (tasks : List Task) : Reservations × List ApiError :=
  (env.schedule tasks).foldl (Task.run env.faults) (s, [])

def createReservations (env : Env) (s : Reservations) (resvs : List Reservation) : Reservations × Option ApiError :=
  let st := runTasks env s (resvs.map .create)
  (st.1, st.2.head?)

def task (existing : List Reservation) (r : Reservation) : Option Task :=
  match existing.find? (fun e => e.name = r.name) with
  | none => some (.create r)
  | some e =>
    if valueAt e.annotations blacklistLabel ≠ valueAt r.annotations blacklistLabel then
      some (.update { r with resourceVersion := e.resourceVersion })
    else none

def tasks (resvs existing : List Reservation) : List Task := resvs.filterMap (task existing)

def createOrUpdateReservation (env : Env) (s : Reservations) (resvs existing : List Reservation) :
    Reservations × Bool × Option ApiError :=
  let st := runTasks env s (tasks resvs existing)
  (st.1, decide (tasks resvs existing ≠ []), st.2.head?)

def existing (env : Env) (s : Reservations) (job : NamespacedName) : List Reservation :=
  if env.faults.list then [] else (env.faults.stale.getD s.items).filter (labelled job)

/-- Delete the listed reservations that satisfy `p`, and go on when a delete fails. -/
def deleteWhere (env : Env) (s : Reservations) (job : NamespacedName) (p : Reservation → Bool) : Reservations :=
  s.keep (fun o =>
    !(existing env s job).any (fun r => decide (r.name = o.name) && p r && !env.faults.delete r.name))

inductive Answer
  | requeue
  | verdict (status : Status) (msg : String)
  | err (e : ApiError)
deriving DecidableEq

/-- `resvs` is what the handle of the job asks for. -/
def reconcileReservations (env : Env) (s : Reservations) (qu : ReservedUnit) (resvs : List Reservation) :
    Reservations × Answer :=
  let want := wanted env qu resvs
  let held := existing env s qu.consumer
  match held, want with
  | [], [] => (s, .verdict .succeed "No reservation needed")
  | [], _ :: _ =>
    let st := createReservations env s want
    (st.1, match st.2 with
      | none => .requeue
      | some e => .err e)
  | _ :: _, [] =>
    if env.faults.deleteAllOf then (s, .err .server)
    else (s.keep (fun r => !labelled qu.consumer r), .requeue)
  | _ :: _, _ :: _ =>
    if held.any (fun r => decide (r.phase = .failed)) then
      (deleteWhere env s qu.consumer (fun r => decide (r.phase = .failed)), .requeue)
    else
      let st := createOrUpdateReservation env s want held
      (st.1, match st.2 with
        | (_, some e) => .err e
        | (true, none) => .requeue
        | (false, none) =>
          let status := reservationStatus (env.visit held) qu.status.attempts held
          .verdict status.1 status.2)

/-- A job type with its handle. Only some of them want reservations. -/
structure Handle (J : Type) where
  reservation : Option (J → Except String (List Reservation)) := none

structure Cluster (J : Type) where
  units : ObjectStore ReservedUnit.namespacedName := {}
  jobs : GoMap (String × NamespacedName) J := ∅
  resvs : Reservations := {}

structure Outcome (J : Type) where
  cluster : Cluster J
  resumed : Bool := false
  requeue : Bool := false
  err : Option ApiError := none

def Outcome.again {J : Type} (o : Outcome J) : Bool := o.requeue || o.err.isSome

def parse (name : String) : String × String :=
  match name.toList.splitOn '|' with
  | [qu, job] => (String.ofList qu, String.ofList job)
  | _ => (name, name)

def deleteInOrder (faults : Faults) : Reservations → List Reservation → Reservations × Option ApiError
  | s, [] => (s, none)
  | s, r :: rs =>
    if faults.delete r.name then (s, some .server)
    else if (s.get r.name).isNone then (s, some .notFound)
    else deleteInOrder faults (s.keep (fun o => decide (o.name ≠ r.name))) rs

section

variable {J : Type}

def writeUnit (env : Env) (cl : Cluster J) (qu : ReservedUnit) (phase : QueueUnitPhase) (msg : String) : Cluster J :=
  if env.faults.updateStatus then cl
  else
    { cl with
      units := cl.units.modify
        (fun o =>
          if o.namespacedName = qu.namespacedName then
            o.storeStatus (updateQueueUnitStatus env.features env.now phase msg qu.toJobUnit)
          else o)
        (by
          intro o
          split <;> rfl) }

theorem resvs_writeUnit (env : Env) (cl : Cluster J) (qu : ReservedUnit) (phase : QueueUnitPhase) (msg : String) :
    (writeUnit env cl qu phase msg).resvs = cl.resvs := by
  rw [writeUnit]
  split <;> rfl

def statusError (env : Env) : Option ApiError := if env.faults.updateStatus then some .server else none

def release (env : Env) (cl : Cluster J) (job : NamespacedName) : Outcome J :=
  let st := deleteInOrder env.faults cl.resvs (existing env cl.resvs job)
  { cluster := { cl with resvs := st.1 }, err := st.2 }

def whenSchedReady (env : Env) (cl : Cluster J) (qu : ReservedUnit) (resvs : Except String (List Reservation)) :
    Outcome J :=
  match resvs with
  | .error text => { cluster := writeUnit env cl qu .schedReady text, err := some (.reservation text) }
  | .ok resvs =>
    let st := reconcileReservations env cl.resvs qu resvs
    let cl' := { cl with resvs := st.1 }
    match st.2 with
    | .err e => { cluster := cl', err := some e }
    | .requeue => { cluster := cl', requeue := true }
    | .verdict .failed msg => { cluster := writeUnit env cl' qu .schedFailed msg, err := statusError env }
    | .verdict .succeed msg => { cluster := writeUnit env cl' qu .schedSucceed msg, err := statusError env }
    | .verdict .pending _ => { cluster := cl' }

def byPhase (env : Env) (cl : Cluster J) (qu : ReservedUnit) (resvs : Except String (List Reservation)) : Outcome J :=
  match qu.status.phase with
  | .schedFailed =>
    { cluster := { cl with
        resvs := deleteWhere env cl.resvs qu.consumer (fun r => decide (r.phase = .failed ∨ r.phase = .available)) } }
  | .schedSucceed =>
    { cluster := { cl with resvs := deleteWhere env cl.resvs qu.consumer (fun r => decide (r.phase = .failed)) }
      requeue := (existing env cl.resvs qu.consumer).any (fun r => decide (r.phase = .failed)) }
  | .running =>
    if env.networkAware ∧ env.faults.topology then { cluster := cl, err := some .server }
    else release env cl qu.consumer
  | _ =>
    if env.networkAware ∧ env.faults.topology then { cluster := cl, err := some .server }
    else whenSchedReady env cl qu resvs

def filter (qu : ReservedUnit) : Bool :=
  match qu.status.phase with
  | .schedReady | .running | .schedFailed | .schedSucceed => true
  | _ => false

def reconcileUnit (handles : GoMap String (Handle J)) (env : Env) (cl : Cluster J) (qu : ReservedUnit) : Outcome J :=
  if filter qu = false then { cluster := cl }
  else match handles.lookup qu.jobTypeKey with
    | none => { cluster := cl }
    | some handle =>
      if env.faults.getJob then { cluster := cl, err := some .server }
      else match cl.jobs.lookup (qu.jobTypeKey, qu.consumer) with
        | none => { cluster := cl }
        | some job =>
          match handle.reservation with
          | none => { cluster := cl, resumed := decide (qu.status.phase = .schedReady) }
          | some reservation => byPhase env cl qu (reservation job)

def reconcile (handles : GoMap String (Handle J)) (env : Env) (cl : Cluster J) (req : NamespacedName) : Outcome J :=
  if env.faults.getUnit then { cluster := cl, err := some .server }
  else match cl.units.get ⟨req.ns, (parse req.name).1⟩ with
    | none =>
      if env.faults.topology then { cluster := cl, err := some .server }
      else release env cl ⟨req.ns, (parse req.name).2⟩
    | some qu => reconcileUnit handles env cl qu

end

end KoordQueue.Reserving.Controller
