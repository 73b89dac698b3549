import KoordQueue.JobExt.Lifecycle
import KoordQueue.JobExt.Requests

namespace KoordQueue.JobExt.Shortfall

open Api Pods Records Pass Reporter Effects Reclaiming Due Requests
open Lifecycle (names_effect)

def admittedPhase (phase : QueueUnitPhase) : Bool :=
  decide (phase = .dequeued ∨ phase = .schedReady ∨ phase = .schedSucceed ∨ phase = .running)

/-- A version of the unit, and how many admissions had begun by then. -/
structure Version where
  unit : JobUnit
  admission : Nat
deriving DecidableEq

structure Sighting where
  time : Time
  version : Version
deriving DecidableEq

/-- The units that are stored under one name over time, and what the reporter has seen and
remembers of them. Newest versions and sightings come first. -/
structure World where
  key : String
  stored : Option Version := none
  versions : List Version := []
  admissions : Nat := 0
  reporter : ResourceReporter := {}
  clock : Time := 0
  seen : List Sighting := []
deriving DecidableEq

/-- A round may read an old version; its write is then refused. -/
inductive Action
  | wait (d : Nat)
  | create (qu : JobUnit)
  | write (qu : JobUnit)
  | delete
  | reconcile (handle : JobHandle) (job : Job) (read : Version) (accepted : Bool)

def World.store (w : World) (qu : JobUnit) : World :=
  let begins := admittedPhase qu.status.phase && !w.stored.any (fun v => admittedPhase v.unit.status.phase)
  let v : Version := ⟨qu, if begins then w.admissions + 1 else w.admissions⟩
  { w with stored := some v, versions := v :: w.versions, admissions := v.admission }

def World.round (w : World) (handle : JobHandle) (job : Job) (read : Version) : Outcome :=
  reconcileUnit w.clock handle job w.reporter read.unit

/-- `write` stands for every other writer: it may change the phase, evict the unit, admit it again
or change its admissions, but not its UID. -/
def step (w : World) : Action → Option World
  | .wait d => some { w with clock := w.clock + d }
  | .create qu => if w.stored = none ∧ qu.key = w.key then some (w.store qu) else none
  | .write qu =>
    if w.stored.any (fun v => v.unit.uid = qu.uid) ∧ qu.key = w.key then some (w.store qu) else none
  | .delete => some { w with stored := none, reporter := forgetObservedPods w.reporter w.key }
  | .reconcile handle job read accepted =>
    if read ∈ w.versions then
      let o := w.round handle job read
      let w' := { w with reporter := o.reporter, seen := ⟨w.clock, read⟩ :: w.seen }
      some (if accepted ∧ w.stored = some read then w'.store (Outcome.store o read.unit) else w')
    else none

def ShortOf (qu : JobUnit) (psn : String) : Prop := ∃ ad ∈ qu.status.admissions, ad.name = psn ∧ Short ad

structure Saw (v : Version) (psn : String) (s : Sighting) : Prop where
  uid : s.version.unit.uid = v.unit.uid
  admission : s.version.admission = v.admission
  inFlight : inFlight s.version.unit.status.phase = true
  short : ShortOf s.version.unit psn

/-- Every round since the one at `t` has seen the podset short. -/
def Streak (v : Version) (psn : String) (t : Time) (seen : List Sighting) : Prop :=
  ∃ newer s older, seen = newer ++ s :: older ∧ s.time = t ∧ ∀ x ∈ newer ++ [s], Saw v psn x

/-- The podset has been seen short for at least the timeout. -/
def LongShort (timeout now : Time) (v : Version) (psn : String) (seen : List Sighting) : Prop :=
  ∃ t, timeout ≤ now - t ∧ Streak v psn t seen

def World.shortKey (w : World) (psn : String) : String := w.key ++ "/" ++ psn

def Remembered (w : World) (psn : String) : Prop := w.shortKey psn ∈ w.reporter.partialRunningFirstSeen

def Listed (qu : JobUnit) (psn : String) : Prop := ∃ ad ∈ qu.status.admissions, ad.name = psn

/-- A round that reads the unit has nothing to do before it comes to the timeout: the podsets agree, and with the
pods that it lists there is nothing to reclaim, no deletion to confirm and nothing to trim. -/
structure Unhindered (handle : JobHandle) (job : Job) (observedPods : GoMap String (Finset String)) (qu : JobUnit)
    (pods : List Pod) : Prop where
  on : 0 < handle.partialRunningTimeout
  podSets : counts qu.spec.podSets = counts job.podSet
  found : job.pods = some pods
  reclaim : ∀ ad ∈ qu.status.admissions, 0 < requested ad → ∀ pod ∈ podsByPs pods ad.name, pod.waiting = false
  deletion : qu.status.phase = .dequeued → ∀ ad ∈ qu.status.admissions, ad.reclaimState = none →
    gone qu.toQueueUnit (podsByPs pods) observedPods ad.name = ∅
  trimmed : ∀ ad ∈ qu.status.admissions, ¬ Overadmitted qu.spec.podSets (podsByPs pods) ad

/-- While a shortfall is remembered the unit is not deleted, a write leaves it Dequeued or Running with an admission
of the podset, and a round that reads that admission complete gets to the timeout. A round that sees a shortfall
or finds one remembered reads the current version. -/
def Continues (w : World) : Action → Prop
  | .write qu => ∀ psn, Remembered w psn → inFlight qu.status.phase = true ∧ Listed qu psn
  | .delete => ∀ psn, ¬ Remembered w psn
  | .reconcile handle job read _ =>
    ∀ psn, Remembered w psn ∨ (inFlight read.unit.status.phase = true ∧ ShortOf read.unit psn) →
      w.stored = some read ∧
        (ShortOf read.unit psn ∨ ∃ pods, Unhindered handle job w.reporter.observedPods read.unit pods)
  | .wait _ | .create _ => True

section Memory

variable {now : Time} {handle : JobHandle} {job : Job} {r : ResourceReporter} {qu : JobUnit} {pods : List Pod}

variable {psn : String} {t timeout : Time}

/-- What the pass over the admissions remembers of a podset: a shortfall that it sees, or what was
remembered of a podset that it does not find. -/
theorem lookup_walk_timeOut {qu : QueueUnit} (m : GoMap String Time × Time) (ads : List Admission)
    (h : (walk (timeOut qu timeout now) m ads).memory.1.lookup (admissionKey qu psn) = some t) :
    (∃ ad ∈ ads, ad.name = psn ∧ Short ad) ∨
      (m.1.lookup (admissionKey qu psn) = some t ∧ ∀ ad ∈ ads, psn ≠ ad.name) := by
  induction ads generalizing m with
  | nil => exact Or.inr ⟨h, nofun⟩
  | cons ad ads ih =>
    rcases ih _ h with ⟨ad', hmem, hname, hshort⟩ | ⟨hkept, hnames⟩
    · exact Or.inl ⟨ad', List.mem_cons_of_mem ad hmem, hname, hshort⟩
    · by_cases hname : psn = ad.name
      · left
        refine ⟨ad, List.mem_cons_self, hname.symm, ?_⟩
        by_contra hnot
        have hge : ad.running ≥ ad.replicas := Int64.not_lt.mp hnot
        rw [hname, timeOut, if_pos hge] at hkept
        simp at hkept
      · rw [lookup_timeOut qu now m hname] at hkept
        exact Or.inr ⟨hkept, List.forall_mem_cons.mpr ⟨hname, hnames⟩⟩

theorem walk_timeOut_spec (hpos : 0 < timeout) (qu : QueueUnit) (firstSeen : GoMap String Time) :
    FromStart firstSeen now (walk (timeOut qu timeout now) (firstSeen, 0) qu.status.admissions).memory ∧
      List.Forall₂ (fun ad ad' => ad' = ad ∨ Overdue qu now timeout firstSeen ad) qu.status.admissions
        (walk (timeOut qu timeout now) (firstSeen, 0) qu.status.admissions).item := by
  apply walk_forall₂ (FromStart firstSeen now)
  · intro m hm ad _
    exact ⟨(timeOut_spec hpos hm ad).1, (timeOut_spec hpos hm ad).2.imp_right And.left⟩
  · exact fun k t hk => Or.inl hk

theorem lookup_partialRunning {qu : QueueUnit} (hpos : 0 < timeout) (firstSeen : GoMap String Time)
    (h : (reconcilePartialRunningTimeout firstSeen qu timeout now).memory.1.lookup (admissionKey qu psn) = some t) :
    firstSeen.lookup (admissionKey qu psn) = some t ∨
      (t = now ∧ inFlight qu.status.phase = true ∧ ∃ ad ∈ qu.status.admissions, ad.name = psn ∧ Short ad) := by
  rw [reconcilePartialRunningTimeout] at h
  split at h
  next hphase =>
    rcases (walk_timeOut_spec hpos qu firstSeen).1 _ t h with hstart | rfl
    · exact Or.inl hstart
    · rcases lookup_walk_timeOut _ _ h with hshort | ⟨hkept, _⟩
      · exact Or.inr ⟨rfl, hphase, hshort⟩
      · exact Or.inl hkept
  next => exact Or.inl h

theorem lookup_complete {qu : JobUnit} (firstSeen : GoMap String Time)
    (hphase : inFlight qu.status.phase = true) (hlisted : Listed qu psn) (hshort : ¬ ShortOf qu psn) :
    (reconcilePartialRunningTimeout firstSeen qu.toQueueUnit timeout now).memory.1.lookup
      (admissionKey qu.toQueueUnit psn) = none := by
  rw [reconcilePartialRunningTimeout, if_pos hphase]
  by_contra hsome
  obtain ⟨t, ht⟩ := Option.ne_none_iff_exists'.mp hsome
  obtain ⟨ad, hmem, hname⟩ := hlisted
  rcases lookup_walk_timeOut _ _ ht with ⟨ad', hmem', hname', hs⟩ | ⟨_, hnames⟩
  · exact hshort ⟨ad', hmem', hname', hs⟩
  · exact hnames ad hmem hname.symm

theorem overdue_partialRunning {qu : QueueUnit} (hpos : 0 < timeout) {firstSeen : GoMap String Time}
    (hu : (reconcilePartialRunningTimeout firstSeen qu timeout now).updated = true) :
    inFlight qu.status.phase = true ∧
      List.Forall₂ (fun ad ad' => ad' = ad ∨ Overdue qu now timeout firstSeen ad) qu.status.admissions
        (reconcilePartialRunningTimeout firstSeen qu timeout now).item := by
  rw [reconcilePartialRunningTimeout] at hu ⊢
  split
  next hphase => exact ⟨hphase, (walk_timeOut_spec hpos qu firstSeen).2⟩
  next hphase =>
    rw [if_neg hphase] at hu
    cases hu

theorem reporter_afterTimeout (r : ResourceReporter) (qu : JobUnit) (pods : List Pod) :
    (afterTimeout job r qu pods).reporter = r := by
  rw [afterTimeout]
  split
  next => rfl
  next => split <;> rfl

def Remembers (now : Time) (handle : JobHandle) (firstSeen : GoMap String Time) (qu : QueueUnit) (o : Outcome) : Prop :=
  o.reporter.partialRunningFirstSeen = firstSeen ∨
    (0 < handle.partialRunningTimeout ∧
      o.reporter.partialRunningFirstSeen =
        (reconcilePartialRunningTimeout firstSeen qu handle.partialRunningTimeout now).memory.1)

theorem memory_afterOveradmission (hon : 0 < handle.partialRunningTimeout) :
    (afterOveradmission now handle job r qu pods).reporter.partialRunningFirstSeen =
      (reconcilePartialRunningTimeout r.partialRunningFirstSeen qu.toQueueUnit handle.partialRunningTimeout
        now).memory.1 := by
  rw [afterOveradmission, if_pos hon]
  dsimp only
  split
  next => rfl
  next =>
    split
    next => rfl
    next => rw [reporter_afterTimeout]

theorem remembers_afterOveradmission :
    Remembers now handle r.partialRunningFirstSeen qu.toQueueUnit (afterOveradmission now handle job r qu pods) := by
  by_cases hon : 0 < handle.partialRunningTimeout
  · exact Or.inr ⟨hon, memory_afterOveradmission hon⟩
  · left
    rw [afterOveradmission, if_neg hon, reporter_afterTimeout]

theorem remembers_afterPodDeletion :
    Remembers now handle r.partialRunningFirstSeen qu.toQueueUnit (afterPodDeletion now handle job r qu pods) := by
  simp only [afterPodDeletion]
  split
  next => exact Or.inl rfl
  next hu =>
    rw [reconcileOveradmission_same (Bool.eq_false_iff.mpr hu), setAdmissions_self]
    exact remembers_afterOveradmission

theorem remembers_afterReclaim :
    Remembers now handle r.partialRunningFirstSeen qu.toQueueUnit (afterReclaim now handle job r qu pods) := by
  simp only [afterReclaim]
  split
  next => exact Or.inl rfl
  next hu =>
    rw [reconcilePodDeletion_same (Bool.eq_false_iff.mpr hu), setAdmissions_self]
    exact remembers_afterPodDeletion
      (r := { r with observedPods := (reconcilePodDeletion r.observedPods qu.toQueueUnit (podsByPs pods)).memory })

theorem remembers_reconcileUnit :
    Remembers now handle r.partialRunningFirstSeen qu.toQueueUnit (reconcileUnit now handle job r qu) := by
  simp only [reconcileUnit]
  split
  next => exact Or.inl rfl
  next =>
    split
    next => exact Or.inl rfl
    next pods _ =>
      simp only [afterPodSets]
      split
      next => exact Or.inl rfl
      next => exact @remembers_afterReclaim now handle job r (qu.setPodSets _) pods

theorem podDeletion_of_unhindered (h : Unhindered handle job r.observedPods qu pods) (podSets : List PodSet) :
    (reconcilePodDeletion r.observedPods (qu.setPodSets podSets).toQueueUnit (podsByPs pods)).updated = false := by
  rw [reconcilePodDeletion]
  split
  next => rfl
  next hphase =>
    rw [Bool.eq_false_iff, ne_eq, walk_confirmDeletions_updated_iff]
    rintro ⟨ad, had, hnone, hgone⟩
    exact hgone.ne_empty (h.deletion (not_not.mp hphase) ad had hnone)

theorem overadmission_of_unhindered (h : Unhindered handle job r.observedPods qu pods) :
    (reconcileOveradmission (qu.setPodSets (reconcilePodSets qu.spec.podSets job.podSet).2).toQueueUnit
      (podsByPs pods)).updated = false := by
  have hsame : (reconcilePodSets qu.spec.podSets job.podSet).1 = false := by
    rw [Bool.eq_false_iff, ne_eq, needUpdate_iff]
    exact not_not.mpr h.podSets
  rw [Bool.eq_false_iff, ne_eq, reconcileOveradmission_updated_iff]
  rintro ⟨ad, had, hover⟩
  refine h.trimmed ad had ?_
  rw [Overadmitted, requestPodSet, ← counts_reconcilePodSets hsame]
  exact hover

theorem memory_of_unhindered (h : Unhindered handle job r.observedPods qu pods) :
    (reconcileUnit now handle job r qu).reporter.partialRunningFirstSeen =
      (reconcilePartialRunningTimeout r.partialRunningFirstSeen qu.toQueueUnit handle.partialRunningTimeout
        now).memory.1 := by
  have hsame : ¬ (reconcilePodSets qu.spec.podSets job.podSet).1 = true := by
    rw [needUpdate_iff]
    exact not_not.mpr h.podSets
  have hreclaim : ¬ reconcileReclaim (qu.setPodSets (reconcilePodSets qu.spec.podSets job.podSet).2).status.admissions
      (podsByPs pods) ≠ ∅ := by
    rw [reconcileReclaim_ne_empty_iff]
    rintro ⟨ad, had, hreq, pod, hpod, hwaiting⟩
    rw [h.reclaim ad had hreq pod hpod] at hwaiting
    cases hwaiting
  have hdeletion := podDeletion_of_unhindered h (reconcilePodSets qu.spec.podSets job.podSet).2
  have hover := overadmission_of_unhindered h
  rw [reconcileUnit, if_neg hsame, h.found]
  dsimp only
  rw [afterPodSets, if_neg hreclaim, afterReclaim, if_neg (Bool.eq_false_iff.mp hdeletion),
    reconcilePodDeletion_same hdeletion, setAdmissions_self, afterPodDeletion, if_neg (Bool.eq_false_iff.mp hover),
    reconcileOveradmission_same hover, setAdmissions_self]
  exact memory_afterOveradmission h.on

theorem lookup_reconcileUnit (h : (reconcileUnit now handle job r qu).reporter.partialRunningFirstSeen.lookup
      (admissionKey qu.toQueueUnit psn) = some t) :
    r.partialRunningFirstSeen.lookup (admissionKey qu.toQueueUnit psn) = some t ∨
      (t = now ∧ inFlight qu.status.phase = true ∧ ShortOf qu psn) := by
  rcases @remembers_reconcileUnit now handle job r qu with hsame | ⟨hpos, hpass⟩
  · rw [hsame] at h
    exact Or.inl h
  · rw [hpass] at h
    exact lookup_partialRunning hpos _ h

theorem cut_overdue {qu' : JobUnit}
    (h : (reconcileUnit now handle job r qu).write = some (.statusUpdate .partialRunning qu')) :
    inFlight qu.status.phase = true ∧
      List.Forall₂ (fun ad ad' => ad' = ad ∨
          Overdue qu.toQueueUnit now handle.partialRunningTimeout r.partialRunningFirstSeen ad)
        qu.status.admissions qu'.status.admissions := by
  rcases reconcileUnit_write h with ⟨_, hw⟩ | ⟨_, pods, _, he⟩
  · cases hw
  · cases he with
    | partialRunning hon hu => exact overdue_partialRunning hon hu
    | synced _ _ hs =>
      obtain ⟨_, hw | hw⟩ := syncInFlightWorkers_cases hs
      · cases hw
      · cases hw

end Memory

section Runs

variable {w w' : World} {psn : String} {t : Time}

variable {accepted : Bool} {job : Job} {handle : JobHandle} {qu : JobUnit} {seen : List Sighting} {s : Sighting}
  {read v v' : Version}

def Keyed (w : World) : Prop := ∀ v ∈ w.versions, v.unit.key = w.key

theorem admissionKey_of_keyed (h : Keyed w) (hread : read ∈ w.versions) (psn : String) :
    admissionKey read.unit.toQueueUnit psn = w.shortKey psn :=
  congrArg (fun key => key ++ "/" ++ psn) (h read hread)

theorem listed_iff : Listed qu psn ↔ psn ∈ qu.status.admissions.map Admission.name := List.mem_map.symm

theorem listed_round (now : Time) (handle : JobHandle) (job : Job) (r : ResourceReporter)
    (h : Listed qu psn) : Listed (Outcome.store (reconcileUnit now handle job r qu) qu) psn := by
  refine store_round (P := fun u => Listed u psn) h (fun _ => h) (fun pods w _ _ he => ?_)
  rw [listed_iff] at h ⊢
  exact (names_effect he (rfl : qu.status.admissions = _)).2.1 psn h

/-- A remembered shortfall is one of the stored unit in its current admission,
and every round since has seen it. -/
structure Tracked (w : World) : Prop where
  keyed : Keyed w
  current : ∀ v, w.stored = some v → v.admission = w.admissions
  tracks : ∀ psn t, w.reporter.partialRunningFirstSeen.lookup (w.shortKey psn) = some t →
    ∃ v, w.stored = some v ∧ inFlight v.unit.status.phase = true ∧ Listed v.unit psn ∧ Streak v psn t w.seen

theorem Saw.of_same (h : Saw v psn s) (huid : v'.unit.uid = v.unit.uid)
    (hadm : v'.admission = v.admission) : Saw v' psn s :=
  ⟨h.uid.trans huid.symm, h.admission.trans hadm.symm, h.inFlight, h.short⟩

theorem Streak.of_same (h : Streak v psn t seen)
    (huid : v'.unit.uid = v.unit.uid) (hadm : v'.admission = v.admission) : Streak v' psn t seen := by
  obtain ⟨newer, first, older, hseen, htime, hall⟩ := h
  exact ⟨newer, first, older, hseen, htime, fun x hx => (hall x hx).of_same huid hadm⟩

theorem streak_cons (h : Streak v psn t seen) (hsaw : Saw v psn s) : Streak v psn t (s :: seen) := by
  obtain ⟨newer, first, older, rfl, htime, hall⟩ := h
  refine ⟨s :: newer, first, older, rfl, htime, ?_⟩
  intro x hx
  rw [List.cons_append] at hx
  rcases List.mem_cons.mp hx with rfl | hx
  · exact hsaw
  · exact hall x hx

theorem streak_single (hphase : inFlight s.version.unit.status.phase = true)
    (hshort : ShortOf s.version.unit psn) (seen : List Sighting) : Streak s.version psn s.time (s :: seen) := by
  refine ⟨[], s, seen, rfl, rfl, ?_⟩
  intro x hx
  rw [List.mem_singleton.mp hx]
  exact ⟨rfl, rfl, hphase, hshort⟩

theorem keyed_store (h : Keyed w) (hkey : qu.key = w.key) : Keyed (w.store qu) := by
  intro v hv
  rcases List.mem_cons.mp hv with rfl | hv
  · exact hkey
  · exact h v hv

theorem admission_store (hstored : w.stored = some v) (hflight : inFlight v.unit.status.phase = true)
    (qu : JobUnit) : (w.store qu).admissions = w.admissions := by
  have hadmitted : admittedPhase v.unit.status.phase = true := by
    rcases of_decide_eq_true hflight with hp | hp <;> rw [hp] <;> rfl
  simp [World.store, hstored, hadmitted]

/-- A write that keeps the unit in flight and the podset listed does not end what is remembered. -/
theorem tracked_store (h : Tracked w) (hkey : qu.key = w.key)
    (hkeeps : ∀ psn v, Remembered w psn → w.stored = some v →
      qu.uid = v.unit.uid ∧ inFlight qu.status.phase = true ∧ Listed qu psn) : Tracked (w.store qu) := by
  refine ⟨keyed_store h.keyed hkey, ?_, ?_⟩
  · intro v hv
    cases hv
    rfl
  · intro psn t ht
    obtain ⟨v, hstored, hflight, -, hstreak⟩ := h.tracks psn t ht
    obtain ⟨huid, hphase, hlisted⟩ := hkeeps psn v (Finmap.mem_of_lookup_eq_some ht) hstored
    refine ⟨_, rfl, hphase, hlisted, hstreak.of_same huid ?_⟩
    exact (admission_store hstored hflight qu).trans (h.current v hstored).symm

/-- A shortfall that is remembered after a round was seen by it. -/
theorem streak_round (h : Tracked w)
    (hread : read ∈ w.versions) (hok : Continues w (.reconcile handle job read accepted))
    (ht : (w.round handle job read).reporter.partialRunningFirstSeen.lookup (w.shortKey psn) = some t) :
    w.stored = some read ∧ inFlight read.unit.status.phase = true ∧ Listed read.unit psn ∧
      Streak read psn t (⟨w.clock, read⟩ :: w.seen) := by
  have hkey := admissionKey_of_keyed h.keyed hread psn
  rw [← hkey] at ht
  rcases lookup_reconcileUnit ht with hbefore | ⟨rfl, hphase, hshort⟩
  · rw [hkey] at hbefore
    obtain ⟨v, hstored, hphase, hlisted, hstreak⟩ := h.tracks psn t hbefore
    obtain ⟨hcurrent, hsees⟩ := hok psn (Or.inl (Finmap.mem_of_lookup_eq_some hbefore))
    cases hstored.symm.trans hcurrent
    refine ⟨hcurrent, hphase, hlisted, streak_cons hstreak ⟨rfl, rfl, hphase, ?_⟩⟩
    rcases hsees with hshort | ⟨pods, hreach⟩
    · exact hshort
    · by_contra hshort
      rw [World.round, memory_of_unhindered hreach, lookup_complete _ hphase hlisted hshort] at ht
      cases ht
  · obtain ⟨hcurrent, -⟩ := hok psn (Or.inr ⟨hphase, hshort⟩)
    obtain ⟨ad, hmem, hname, -⟩ := id hshort
    exact ⟨hcurrent, hphase, ⟨ad, hmem, hname⟩, streak_single (s := ⟨w.clock, read⟩) hphase hshort w.seen⟩

theorem tracked_round (h : Tracked w)
    (hread : read ∈ w.versions) (hok : Continues w (.reconcile handle job read accepted)) :
    Tracked { w with reporter := (w.round handle job read).reporter, seen := ⟨w.clock, read⟩ :: w.seen } where
  keyed := h.keyed
  current := h.current
  tracks _ _ ht := ⟨read, streak_round h hread hok ht⟩

theorem tracked_step (w : World) (a : Action) (w' : World) (h : Tracked w) (hok : Continues w a)
    (hstep : step w a = some w') : Tracked w' := by
  cases a with
  | wait d =>
    cases hstep
    exact ⟨h.keyed, h.current, h.tracks⟩
  | create qu =>
    rw [step, Option.ite_none_right_eq_some] at hstep
    obtain ⟨⟨hnone, hkey⟩, hw⟩ := hstep
    cases hw
    exact tracked_store h hkey (fun psn v _ hv => by cases hnone.symm.trans hv)
  | write qu =>
    rw [step, Option.ite_none_right_eq_some] at hstep
    obtain ⟨⟨hany, hkey⟩, hw⟩ := hstep
    cases hw
    refine tracked_store h hkey (fun psn v hpsn hv => ⟨?_, hok psn hpsn⟩)
    rw [hv, Option.any_some, decide_eq_true_eq] at hany
    exact hany.symm
  | delete =>
    cases hstep
    refine ⟨h.keyed, fun v hv => (by cases hv), fun psn t ht => ?_⟩
    have hlookup : w.reporter.partialRunningFirstSeen.lookup (w.shortKey psn) = some t := ht
    exact absurd (Finmap.mem_of_lookup_eq_some hlookup) (hok psn)
  | reconcile handle job read accepted =>
    rw [step, Option.ite_none_right_eq_some] at hstep
    obtain ⟨hread, hw⟩ := hstep
    have hround := tracked_round h hread hok
    cases hw
    split
    next hsame =>
      refine tracked_store hround (round_frame.2.1.trans (h.keyed read hread)) (fun psn v hpsn hv => ?_)
      obtain ⟨t, ht⟩ := Finmap.mem_iff.mp hpsn
      obtain ⟨-, hphase, hlisted, -⟩ := streak_round h hread hok ht
      cases hsame.2.symm.trans hv
      exact ⟨round_frame.1, round_frame.2.2.symm ▸ hphase, listed_round _ _ _ _ hlisted⟩
    next => exact hround

/-- Nothing is stored under the name yet, and nothing is remembered of it. -/
structure Fresh (w : World) : Prop where
  stored : w.stored = none
  versions : w.versions = []
  memory : ∀ psn, w.reporter.partialRunningFirstSeen.lookup (w.shortKey psn) = none

theorem tracked_of_fresh (h : Fresh w) : Tracked w := by
  refine ⟨?_, ?_, ?_⟩
  · intro v hv
    rw [h.versions] at hv
    cases hv
  · intro v hv
    cases h.stored.symm.trans hv
  · intro psn t ht
    rw [h.memory psn] at ht
    cases ht

/-- In a run that meets the condition, an admission is cut only when its podset
was seen short for the whole timeout, by every round, in its current admission. -/
theorem cut_longShort (h : Fresh w) {as : List Action} {handle : JobHandle} {job : Job} {read : Version}
    {accepted : Bool} (hg : Run.Guarded step Continues w (as ++ [.reconcile handle job read accepted]))
    (hrun : Run.exec step w as = some w') (hread : read ∈ w'.versions) {qu' : JobUnit}
    (hcut : (w'.round handle job read).write = some (.statusUpdate .partialRunning qu')) :
    ∀ ad ad', (ad, ad') ∈ read.unit.status.admissions.zip qu'.status.admissions → ad'.replicas ≠ ad.replicas →
      LongShort handle.partialRunningTimeout w'.clock read ad.name (⟨w'.clock, read⟩ :: w'.seen) := by
  have htracked := Run.invariant tracked_step (tracked_of_fresh h) (Run.guarded_left hg) hrun
  have hok : Continues w' (.reconcile handle job read accepted) :=
    (Run.guarded_append hg hrun _ (if_pos hread)).1
  intro ad ad' hmem hne
  rcases (List.forall₂_iff_zip.mp (cut_overdue hcut).2).2 hmem with rfl | ⟨hshort, t, ht, hlate⟩
  · exact absurd rfl hne
  · rw [admissionKey_of_keyed htracked.keyed hread] at ht
    obtain ⟨v, hstored, -, -, hstreak⟩ := htracked.tracks ad.name t ht
    obtain ⟨hcurrent, -⟩ := hok ad.name (Or.inl (Finmap.mem_of_lookup_eq_some ht))
    cases hstored.symm.trans hcurrent
    exact ⟨t, hlate, streak_cons hstreak ⟨rfl, rfl, (cut_overdue hcut).1, ad, (List.of_mem_zip hmem).1, rfl, hshort⟩⟩

end Runs

section Cuts

def shortUnit (phase : QueueUnitPhase) : JobUnit :=
  workerUnit phase 3 [{ name := "worker", replicas := 3, running := 1 }]

def cutUnit : JobUnit := workerUnit .dequeued 3 [{ name := "worker", replicas := 1, running := 1 }]

def betterUnit : JobUnit := workerUnit .running 3 [{ name := "worker", replicas := 3, running := 2 }]

def betterCut : JobUnit := workerUnit .running 3 [{ name := "worker", replicas := 2, running := 2 }]

def tenSeconds : JobHandle := { partialRunningTimeout := 10 }

def look (phase : QueueUnitPhase) (admission : Nat) : Action :=
  .reconcile tenSeconds (jobOf (shortUnit phase) []) ⟨shortUnit phase, admission⟩ true

def empty : World := { key := "ns/job" }

theorem fresh_empty : Fresh empty := ⟨rfl, rfl, fun _ => rfl⟩

/-- The podset is short, one more pod of it runs, and it is still short after the timeout. -/
def shortRun : List Action :=
  [.create (shortUnit .dequeued), look .dequeued 1, .wait 5, .write betterUnit, .wait 5]

def sighted : World := (step (empty.store (shortUnit .dequeued)) (look .dequeued 1)).getD empty

theorem sighted_spec :
    step (empty.store (shortUnit .dequeued)) (look .dequeued 1) = some sighted ∧ sighted.key = "ns/job" ∧
      sighted.reporter.partialRunningFirstSeen = Finmap.singleton "ns/job/worker" 0 := by
  decide +kernel

theorem remembered_sighted {w : World} {psn : String} (hkey : w.key = sighted.key)
    (hmemory : w.reporter.partialRunningFirstSeen = sighted.reporter.partialRunningFirstSeen)
    (h : Remembered w psn) : psn = "worker" := by
  rw [Remembered, World.shortKey, hkey, hmemory, sighted_spec.2.2, sighted_spec.2.1] at h
  exact (String.append_right_inj "ns/job/").mp ((Finmap.mem_singleton _ _ _).mp h)

def better : World := World.store { sighted with clock := sighted.clock + 5 } betterUnit

theorem better_spec : step { sighted with clock := sighted.clock + 5 } (.write betterUnit) = some better ∧
      better.stored = some ⟨betterUnit, 1⟩ := by
  decide +kernel

theorem shortRun_guarded : Run.Guarded step Continues empty
    (shortRun ++ [.reconcile tenSeconds (jobOf betterUnit []) ⟨betterUnit, 1⟩ true]) := by
  have hcreate : step empty (.create (shortUnit .dequeued)) = some (empty.store (shortUnit .dequeued)) := by
    decide +kernel
  have hwait : ∀ w : World, step w (.wait 5) = some { w with clock := w.clock + 5 } := fun _ => rfl
  have hshort : ShortOf betterUnit "worker" := ⟨_, List.mem_singleton_self _, rfl, by decide⟩
  refine (Run.guarded_cons_of_eq hcreate).mpr ⟨trivial, (Run.guarded_cons_of_eq sighted_spec.1).mpr ⟨?_, ?_⟩⟩
  · rintro psn (hnone | ⟨-, hseen⟩)
    · exact absurd hnone Finmap.notMem_empty
    · exact ⟨by decide +kernel, .inl hseen⟩
  refine (Run.guarded_cons_of_eq (hwait sighted)).mpr ⟨trivial, (Run.guarded_cons_of_eq better_spec.1).mpr ⟨?_, ?_⟩⟩
  · intro psn hpsn
    obtain rfl := remembered_sighted rfl rfl hpsn
    exact ⟨rfl, _, List.mem_singleton_self _, rfl⟩
  refine (Run.guarded_cons_of_eq (hwait better)).mpr ⟨trivial, fun w _ => ⟨?_, trivial⟩⟩
  rintro psn (hpsn | ⟨-, hseen⟩)
  · obtain rfl := remembered_sighted rfl rfl hpsn
    exact ⟨better_spec.2, .inl hshort⟩
  · exact ⟨better_spec.2, .inl hseen⟩

theorem shortRun_cut :
    ∃ w, Run.exec step empty shortRun = some w ∧
      (w.round tenSeconds (jobOf betterUnit []) ⟨betterUnit, 1⟩).write =
        some (.statusUpdate .partialRunning betterCut) ∧
      LongShort 10 w.clock ⟨betterUnit, 1⟩ "worker" (⟨w.clock, betterUnit, 1⟩ :: w.seen) := by
  obtain ⟨w, hrun, hread, hcut⟩ : ∃ w, Run.exec step empty shortRun = some w ∧ ⟨betterUnit, 1⟩ ∈ w.versions ∧
      (w.round tenSeconds (jobOf betterUnit []) ⟨betterUnit, 1⟩).write =
      some (.statusUpdate .partialRunning betterCut) := by decide +kernel
  exact ⟨w, hrun, hcut, cut_longShort fresh_empty shortRun_guarded hrun hread hcut
    { name := "worker", replicas := 3, running := 2 } { name := "worker", replicas := 2, running := 2 }
    (by decide) (by decide)⟩

def readmitted : List Action :=
  [.create (shortUnit .dequeued), look .dequeued 1, .wait 5, .write (shortUnit .enqueued), look .enqueued 1, .wait 5,
    .write (shortUnit .dequeued)]

theorem readmitted_cut :
    ∃ w, Run.exec step empty readmitted = some w ∧
      (w.round tenSeconds (jobOf (shortUnit .dequeued) []) ⟨shortUnit .dequeued, 2⟩).write =
        some (.statusUpdate .partialRunning cutUnit) ∧
      w.seen = [⟨5, shortUnit .enqueued, 1⟩, ⟨0, shortUnit .dequeued, 1⟩] ∧
      ¬LongShort 10 w.clock ⟨shortUnit .dequeued, 2⟩ "worker" (⟨w.clock, shortUnit .dequeued, 2⟩ :: w.seen) := by
  obtain ⟨w, hrun, hclock, hcut, hseen⟩ : ∃ w, Run.exec step empty readmitted = some w ∧ w.clock = 10 ∧
      (w.round tenSeconds (jobOf (shortUnit .dequeued) []) ⟨shortUnit .dequeued, 2⟩).write =
      some (.statusUpdate .partialRunning cutUnit) ∧ w.seen =
      [⟨5, shortUnit .enqueued, 1⟩, ⟨0, shortUnit .dequeued, 1⟩] := by decide +kernel
  refine ⟨w, hrun, hcut, hseen, ?_⟩
  rw [hclock, hseen]
  rintro ⟨t, hlate, newer, s, older, heq, rfl, hall⟩
  match newer, heq with
  | [], heq =>
    cases heq
    exact absurd hlate (by decide)
  | [_], heq =>
    cases heq
    exact absurd hlate (by decide)
  | _ :: x :: newer, heq =>
    injection heq with _ heq
    injection heq with hx _
    have hflight := (hall x (by simp)).inFlight
    rw [← hx] at hflight
    cases hflight

end Cuts

end KoordQueue.JobExt.Shortfall
