import KoordQueue.Framework.QuotaIndex
import KoordQueue.JobExt.Records
import KoordQueue.Lib.SlotWorkers
import KoordQueue.Multi.Handlers

namespace KoordQueue.Controllers.Listing

open Api KoordQueue.Queue Memory Policy SlotWorkers
open Framework.QuotaIndex (Index IndexedUnit getQueueUnitInfoByQuota)
open JobExt.Records (JobUnit)

structure PodState where
  running : Int32 := 0
  pending : Int32 := 0
deriving DecidableEq

structure ShownUnit where
  name : String := ""
  ns : String := ""
  quotaName : String := ""
  queueName : String := ""
  request : GoMap String String := ∅
  resources : GoMap String String := ∅
  phase : String := ""
  podState : PodState := {}
deriving DecidableEq

def blank : ShownUnit := {}

def phaseText : QueueUnitPhase → String
  | .unset => ""
  | .enqueued => "Enqueued"
  | .reserved => "Reserved"
  | .dequeued => "Dequeued"
  | .running => "Running"
  | .succeed => "Succeed"
  | .failed => "Failed"
  | .schedReady => "SchedReady"
  | .schedSucceed => "SchedSucceed"
  | .schedFailed => "SchedFailed"
  | .backoff => "TimeoutBackoff"
  | .preempted => "Preempted"
  | .other text => text

/-- What the listings read. The lister files a unit under its namespace and name. -/
structure Controller where
  multiSchedulingQueue : Multi.Handlers.State
  fw : Handle
  quotaIndex : Index
  queueUnitLister : GoMap String JobUnit
  quantityString : Quantity → String

inductive ListError
  | notFound (resource name : String)
deriving DecidableEq

instance decidableComplete {α : Type} [DecidableEq α] (s : State α) : Decidable (Complete s) :=
  inferInstanceAs (Decidable (∀ w ∈ s.workers, w = .done))

namespace Controller

variable (c : Controller)

def convertResourceListToString (rl : ResourceList) : GoMap String String :=
  GoMap.assemble rl.keys (fun k => (rl.lookup k).map c.quantityString)

def describe (unit : ShownUnit) (unitCR : JobUnit) : ShownUnit :=
  { unit with
    request := c.convertResourceListToString unitCR.spec.request
    resources := c.convertResourceListToString unitCR.spec.resource
    phase := phaseText unitCR.status.phase
    podState := ⟨Int32.ofInt unitCR.podState.running, Int32.ofInt unitCR.podState.pending⟩ }

/-- `Complete` of the scheduling queues. Neither kind of queue adds anything. -/
def nameQueue (unit : ShownUnit) : ShownUnit :=
  let queueName := (c.multiSchedulingQueue.queueUnitToQueue.lookup (unit.ns ++ "/" ++ unit.name)).getD ""
  if queueName ≠ "" then { unit with queueName } else unit

def quotaPiece (phase : String) (unit : IndexedUnit) : Piece ShownUnit :=
  match c.queueUnitLister.lookup (unit.ns ++ "/" ++ unit.name) with
  | none => .skip
  | some unitCR =>
    if phase ≠ "" ∧ phaseText unitCR.status.phase ≠ phase then .skip
    else .put (c.describe (c.nameQueue { name := unit.name, ns := unit.ns, quotaName := unit.quotaName }) unitCR)

/-- The listing for an order in which the index is ranged over and a schedule of
the workers. There is no answer when a worker has not returned. -/
def getQueueUnitsByQuota (phase : String) (queueunits : List IndexedUnit) (schedule : List Nat) :
    Option (List ShownUnit) :=
  (Run.exec step (start (queueunits.map (c.quotaPiece phase))) schedule).bind (fun s =>
    if Complete s ∧ 0 ≤ s.counter.toInt ∧ s.counter.toInt ≤ s.slots.length then
      some ((s.slots.take s.counter.toInt.toNat).map (fun slot => slot.getD blank))
    else none)

def list (o : Ref) : Multiset Ref :=
  (((c.multiSchedulingQueue.objects.get o).queueImpl.map Multi.Object.Impl.units).getD ∅).entries.map
    (fun e => e.2)

def queuePiece (r : Ref) : Piece ShownUnit :=
  let unit := c.multiSchedulingQueue.infos.unit r
  match c.queueUnitLister.lookup unit.key with
  | none => .skip
  | some unitCR =>
    match c.fw.getQueueUnitQuotaName unit with
    | none => .put (c.describe { name := unit.name, ns := unit.ns } unitCR)
    | some [] => .panics
    | some (quota :: _) => .put (c.describe { name := unit.name, ns := unit.ns, quotaName := quota } unitCR)

def getQueueUnitsByQueue (queueName : String) (units : List Ref) (schedule : List Nat) :
    Option (Except ListError (List ShownUnit)) :=
  match c.multiSchedulingQueue.queueMap.lookup queueName with
  | none => some (.error (.notFound "queue" queueName))
  | some _ =>
    (Run.exec step (start (units.map c.queuePiece)) schedule).bind (fun s =>
      if Complete s then some (.ok (s.slots.map (fun slot => slot.getD blank))) else none)

def queueEntry (r : Ref) : Option ShownUnit :=
  let unit := c.multiSchedulingQueue.infos.unit r
  (c.queueUnitLister.lookup unit.key).map
    (c.describe { name := unit.name, ns := unit.ns, quotaName := (firstQuota c.fw unit).getD "" })

def quotaEntry (phase : String) (unit : IndexedUnit) : Option ShownUnit :=
  ((c.queueUnitLister.lookup (unit.ns ++ "/" ++ unit.name)).filter
      (fun unitCR => phase = "" ∨ phaseText unitCR.status.phase = phase)).map
    (c.describe (c.nameQueue { name := unit.name, ns := unit.ns, quotaName := unit.quotaName }))

theorem quotaPiece_entry (phase : String) (unit : IndexedUnit) :
    (c.quotaPiece phase unit).entry = c.quotaEntry phase unit := by
  rw [quotaPiece, quotaEntry]
  cases hcr : c.queueUnitLister.lookup (unit.ns ++ "/" ++ unit.name) with
  | none => rfl
  | some unitCR =>
    rw [Option.filter_some]
    by_cases hphase : phase = "" ∨ phaseText unitCR.status.phase = phase
    · have hshown : ¬ (phase ≠ "" ∧ phaseText unitCR.status.phase ≠ phase) := by tauto
      rw [if_pos (decide_eq_true hphase)]
      exact congrArg Piece.entry (if_neg hshown)
    · have hskipped : phase ≠ "" ∧ phaseText unitCR.status.phase ≠ phase := by tauto
      rw [if_neg (by simpa using hphase)]
      exact congrArg Piece.entry (if_pos hskipped)

theorem quotaPiece_ne_panics (phase : String) (unit : IndexedUnit) : c.quotaPiece phase unit ≠ .panics := by
  rw [quotaPiece]
  split
  next => simp
  next => split <;> simp

variable {queueunits : List IndexedUnit} {schedule : List Nat} {units : List Ref} {res : List ShownUnit} {r : Ref}
  {s : State ShownUnit} {phase queueName : String}

theorem queuePiece_entry (h : c.queuePiece r ≠ .panics) : (c.queuePiece r).entry = c.queueEntry r := by
  revert h
  rw [queuePiece, queueEntry, firstQuota]
  cases c.queueUnitLister.lookup (c.multiSchedulingQueue.infos.unit r).key with
  | none => exact fun _ => rfl
  | some unitCR =>
    match c.fw.getQueueUnitQuotaName (c.multiSchedulingQueue.infos.unit r) with
    | none => exact fun _ => rfl
    | some [] => exact fun h => absurd rfl h
    | some (quota :: _) => exact fun _ => rfl

theorem queuePiece_ne_panics (h : c.fw.getQueueUnitQuotaName (c.multiSchedulingQueue.infos.unit r) ≠ some []) :
    c.queuePiece r ≠ .panics := by
  rw [queuePiece]
  split
  next => simp
  next =>
    split
    next => simp
    next he => exact absurd he h
    next => simp

theorem wanted_quotaPieces (phase : String) (queueunits : List IndexedUnit) :
    wanted (queueunits.map (c.quotaPiece phase)) = queueunits.filterMap (c.quotaEntry phase) := by
  rw [wanted, List.filterMap_map]
  exact List.filterMap_congr (fun unit _ => c.quotaPiece_entry phase unit)

theorem wanted_queuePieces (h : .panics ∉ units.map c.queuePiece) :
    wanted (units.map c.queuePiece) = units.filterMap c.queueEntry := by
  rw [wanted, List.filterMap_map]
  refine List.filterMap_congr (fun r hr => c.queuePiece_entry ?_)
  exact fun hp => h (hp ▸ List.mem_map_of_mem hr)

theorem isSome_queueEntry (r : Ref) :
    (c.queueEntry r).isSome = true ↔ c.multiSchedulingQueue.infos.key r ∈ c.queueUnitLister := by
  rw [queueEntry, Option.isSome_map]
  exact Finmap.lookup_isSome

theorem length_filterMap_queueEntry (units : List Ref) :
    (units.filterMap c.queueEntry).length = units.length ↔
      ∀ r ∈ units, c.multiSchedulingQueue.infos.key r ∈ c.queueUnitLister := by
  rw [List.filterMap_length_eq_length]
  exact forall₂_congr (fun r _ => c.isSome_queueEntry r)

variable {c}

/-- The listing of a queue has the entries first and then a zero value for each
unit that the lister does not have. -/
theorem queue_listing_eq (h : c.getQueueUnitsByQueue queueName units schedule = some (.ok res)) :
    ∃ claims : List ShownUnit, claims.Perm (units.filterMap c.queueEntry) ∧
      res = claims ++ List.replicate (units.length - claims.length) blank := by
  rw [getQueueUnitsByQueue] at h
  split at h
  next => cases h
  next =>
    obtain ⟨s, hs, hres⟩ := Option.bind_eq_some_iff.mp h
    split at hres
    next hcomplete =>
      cases hres
      obtain ⟨hcalm, claims, hperm, -, -, hslots⟩ := slots_of_run hs hcomplete
      rw [c.wanted_queuePieces hcalm] at hperm
      refine ⟨claims, hperm, ?_⟩
      rw [hslots, List.map_append, List.map_map, List.map_replicate, List.length_map]
      exact congrArg (· ++ _) (List.map_id claims)
    next => cases hres

theorem queue_listing_perm_iff (h : c.getQueueUnitsByQueue queueName units schedule = some (.ok res)) :
    res.Perm (units.filterMap c.queueEntry) ↔
      ∀ r ∈ units, c.multiSchedulingQueue.infos.key r ∈ c.queueUnitLister := by
  obtain ⟨claims, hperm, rfl⟩ := queue_listing_eq h
  rw [← c.length_filterMap_queueEntry]
  have hle := List.length_filterMap_le c.queueEntry units
  constructor
  · intro hres
    have hlen := hres.length_eq
    rw [List.length_append, List.length_replicate, hperm.length_eq] at hlen
    omega
  · intro hlen
    have hnone : units.length - claims.length = 0 := by
      rw [hperm.length_eq, hlen]
      exact Nat.sub_self _
    rw [hnone, List.replicate_zero, List.append_nil]
    exact hperm

theorem quota_listing_eq (h : c.getQueueUnitsByQuota phase queueunits schedule = some res) :
    res.Perm (queueunits.filterMap (c.quotaEntry phase)) := by
  rw [getQueueUnitsByQuota] at h
  obtain ⟨s, hs, hres⟩ := Option.bind_eq_some_iff.mp h
  split at hres
  next hcomplete =>
    cases hres
    obtain ⟨-, claims, hperm, hbound, hcounter, hslots⟩ := slots_of_run hs hcomplete.1
    rw [c.wanted_quotaPieces] at hperm
    have hlen : s.counter.toInt = claims.length := by
      rw [hcounter]
      rcases Nat.lt_or_eq_of_le hbound with hlt | heq
      · exact Int32.toInt_ofNat_of_lt hlt
      · have hpos := hcomplete.2.1
        rw [hcounter, heq] at hpos
        exact absurd hpos (by decide)
    have htake : s.slots.take s.counter.toInt.toNat = claims.map some := by
      rw [hlen, hslots, Int.toNat_natCast]
      exact List.take_left' (List.length_map some)
    rw [htake, List.map_map]
    exact (List.map_id claims).symm ▸ hperm
  next => cases hres

theorem queue_listing_returns {o : Ref} (ho : c.multiSchedulingQueue.queueMap.lookup queueName = some o)
    (hs : Run.exec step (start (units.map c.queuePiece)) schedule = some s)
    (hcalm : .panics ∉ units.map c.queuePiece) (hfit : (units.filterMap c.queueEntry).length ≤ 2147483648) :
    ∃ more res, c.getQueueUnitsByQueue queueName units (schedule ++ more) = some (.ok res) := by
  rw [← c.wanted_queuePieces hcalm] at hfit
  obtain ⟨more, t, ht, hc⟩ := completes_after hs hcalm hfit
  refine ⟨more, t.slots.map (fun slot => slot.getD blank), ?_⟩
  rw [getQueueUnitsByQueue, ho]
  dsimp only
  rw [ht, Option.bind_some, if_pos hc]

theorem quota_listing_returns (hs : Run.exec step (start (queueunits.map (c.quotaPiece phase))) schedule = some s)
    (hfit : (queueunits.filterMap (c.quotaEntry phase)).length < 2147483648) :
    ∃ more res, c.getQueueUnitsByQuota phase queueunits (schedule ++ more) = some res := by
  have hcalm : .panics ∉ queueunits.map (c.quotaPiece phase) := by
    intro hp
    obtain ⟨unit, -, hu⟩ := List.mem_map.mp hp
    exact c.quotaPiece_ne_panics phase unit hu
  rw [← c.wanted_quotaPieces] at hfit
  obtain ⟨more, t, ht, hc⟩ := completes_after hs hcalm hfit.le
  refine ⟨more, (t.slots.take t.counter.toInt.toNat).map (fun slot => slot.getD blank), ?_⟩
  obtain ⟨-, claims, hperm, -, hcounter, hslots⟩ := slots_of_run ht hc
  have hlen : t.counter.toInt = claims.length := by
    rw [hcounter]
    exact Int32.toInt_ofNat_of_lt (hperm.length_eq ▸ hfit)
  have hcut : 0 ≤ t.counter.toInt ∧ t.counter.toInt ≤ t.slots.length := by
    rw [hlen, hslots, List.length_append, List.length_map]
    omega
  rw [getQueueUnitsByQuota, ht, Option.bind_some, if_pos ⟨hc, hcut⟩]

end Controller

open Controller

theorem length_schedule {β : Type} {piece : β → Piece ShownUnit} {units : List β} {schedule : List Nat}
    {s : State ShownUnit} (h : Run.exec step (start (units.map piece)) schedule = some s) :
    schedule.length ≤ 2 * units.length := by
  have hle := remaining_exec h
  rw [remaining_start, List.length_map] at hle
  omega

/-- For every order of the workers: a listing by quota has one entry for each unit that the lister
has in the phase asked for. A listing by queue has one entry for each unit that the lister has, and
nothing else exactly if the lister has all units of the queue. Either returns after two steps of
each worker at most. -/
theorem listing_exact_iff (c : Controller) (queueName quota phase : String) (o : Ref)
    (ho : c.multiSchedulingQueue.queueMap.lookup queueName = some o)
    (units : List Ref) (hunits : (units : Multiset Ref) = c.list o) (queueunits : List IndexedUnit)
    (hqueueunits : (queueunits : Multiset IndexedUnit) = getQueueUnitInfoByQuota quota c.quotaIndex)
    (schedule : List Nat) :
    (∀ res : List ShownUnit, c.getQueueUnitsByQueue queueName units schedule = some (.ok res) →
      ((res : Multiset ShownUnit) = (c.list o).filterMap c.queueEntry ↔
        ∀ r ∈ c.list o, c.multiSchedulingQueue.infos.key r ∈ c.queueUnitLister)) ∧
    (∀ res : List ShownUnit, c.getQueueUnitsByQuota phase queueunits schedule = some res →
      (res : Multiset ShownUnit) =
        (getQueueUnitInfoByQuota quota c.quotaIndex).filterMap (c.quotaEntry phase)) ∧
    ((Run.exec step (start (units.map c.queuePiece)) schedule).isSome = true →
      schedule.length ≤ 2 * units.length ∧
      ((∀ r ∈ c.list o, c.fw.getQueueUnitQuotaName (c.multiSchedulingQueue.infos.unit r) ≠ some []) →
        Multiset.card ((c.list o).filterMap c.queueEntry) ≤ 2147483648 →
        ∃ more res, c.getQueueUnitsByQueue queueName units (schedule ++ more) = some (.ok res))) ∧
    ((Run.exec step (start (queueunits.map (c.quotaPiece phase))) schedule).isSome = true →
      schedule.length ≤ 2 * queueunits.length ∧
      (Multiset.card ((getQueueUnitInfoByQuota quota c.quotaIndex).filterMap (c.quotaEntry phase)) < 2147483648 →
        ∃ more res, c.getQueueUnitsByQuota phase queueunits (schedule ++ more) = some res)) := by
  rw [← hunits, ← hqueueunits]
  simp only [Multiset.filterMap_coe, Multiset.coe_eq_coe, Multiset.mem_coe, Multiset.coe_card]
  refine ⟨?_, ?_, ?_, ?_⟩
  · exact fun res hres => queue_listing_perm_iff hres
  · exact fun res hres => quota_listing_eq hres
  · intro hs
    obtain ⟨s, hs⟩ := Option.isSome_iff_exists.mp hs
    refine ⟨length_schedule hs, fun hquotas hfit => queue_listing_returns ho hs ?_ hfit⟩
    intro hp
    obtain ⟨r, hr, hpiece⟩ := List.mem_map.mp hp
    exact c.queuePiece_ne_panics (hquotas r hr) hpiece
  · intro hs
    obtain ⟨s, hs⟩ := Option.isSome_iff_exists.mp hs
    exact ⟨length_schedule hs, fun hfit => quota_listing_returns hs hfit⟩

def twoUnits (queueUnitLister : GoMap String JobUnit) : Controller where
  multiSchedulingQueue :=
    { infos := (({} : Infos).newQueueUnitInfo 1 { ns := "ns", name := "a" }).newQueueUnitInfo 2
        { ns := "ns", name := "b" }
      objects := ({} : Heap _).alloc
        { name := "q", queueImpl := some (.priority { queueUnits := GoMap.ofList [("ns/a", 0), ("ns/b", 1)] }) }
      queueMap := Finmap.singleton "q" 0 }
  fw := { getQueueUnitQuotaName := fun _ => some ["root"], queueUnitActive := false }
  quotaIndex := {}
  queueUnitLister
  quantityString := fun _ => "0"

/-- The lister has both, and the second worker overtakes the first one. -/
theorem listed_in_full :
    ∃ res : List ShownUnit,
      (twoUnits (GoMap.ofList [("ns/a", {}), ("ns/b", {})])).getQueueUnitsByQueue "q" [0, 1] [0, 1, 1, 0] =
        some (.ok res) ∧
      (res : Multiset ShownUnit) = ((twoUnits (GoMap.ofList [("ns/a", {}), ("ns/b", {})])).list 0).filterMap
        (twoUnits (GoMap.ofList [("ns/a", {}), ("ns/b", {})])).queueEntry := by
  refine ⟨[{ name := "a", ns := "ns", quotaName := "root" }, { name := "b", ns := "ns", quotaName := "root" }],
    by decide +kernel, ?_⟩
  exact ((listing_exact_iff (twoUnits (GoMap.ofList [("ns/a", {}), ("ns/b", {})])) "q" "root" "" 0
    (by decide +kernel) [0, 1] (by decide +kernel) [] rfl [0, 1, 1, 0]).1 _
    (by decide +kernel)).mpr (by decide +kernel)

/-- The lister has lost one of the two units, and the listing has a blank entry. -/
theorem lost_unit_blank :
    (twoUnits (Finmap.singleton "ns/b" {})).multiSchedulingQueue.queueMap.lookup "q" = some 0 ∧
    (([0, 1] : List Ref) : Multiset Ref) = (twoUnits (Finmap.singleton "ns/b" {})).list 0 ∧
    (twoUnits (Finmap.singleton "ns/b" {})).getQueueUnitsByQueue "q" [0, 1] [0, 1, 1] =
      some (.ok [{ name := "b", ns := "ns", quotaName := "root" }, blank]) ∧
    ((twoUnits (Finmap.singleton "ns/b" {})).list 0).filterMap
      (twoUnits (Finmap.singleton "ns/b" {})).queueEntry =
      {{ name := "b", ns := "ns", quotaName := "root" }} := by
  decide +kernel

end KoordQueue.Controllers.Listing
