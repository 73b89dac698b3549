import KoordQueue.Reserving.Rounds

namespace KoordQueue.Reserving.Settling

open Api JobExt.Records JobExt.Conditions Records Verdict Controller Rounds

variable {J : Type}

/-- The request is for a unit that waits for its reservations, and `resvs` is
what the handle of its job wants. -/
structure Ready (handles : GoMap String (Handle J)) (cl : Cluster J) (req : NamespacedName) (qu : ReservedUnit)
    (resvs : List Reservation) : Prop where
  unit : cl.units.get ⟨req.ns, (parse req.name).1⟩ = some qu
  phase : qu.status.phase = .schedReady
  wants : ∃ handle job reservation, handles.lookup qu.jobTypeKey = some handle ∧
    cl.jobs.lookup (qu.jobTypeKey, qu.consumer) = some job ∧ handle.reservation = some reservation ∧
    reservation job = .ok resvs

/-- The cluster before the reconcile with number `n` of one request, when nothing else happens. -/
def trail (handles : GoMap String (Handle J)) (envs : Nat → Env) (cl : Cluster J) (req : NamespacedName) :
    Nat → Cluster J
  | 0 => cl
  | n + 1 => (reconcile handles (envs n) (trail handles envs cl req n) req).cluster

def phaseOf : Status → QueueUnitPhase
  | .succeed => .schedSucceed
  | .failed => .schedFailed
  | .pending => .schedReady

variable {handles : GoMap String (Handle J)} {env : Env} {cl : Cluster J} {req : NamespacedName} {qu : ReservedUnit}
  {resvs : List Reservation}

variable {k : NamespacedName} {listed : Option (List Reservation)} {s : Reservations}

theorem reconcile_ready (h : Ready handles cl req qu resvs) (hcalm : env.faults = { stale := listed }) :
    reconcile handles env cl req = whenSchedReady env cl qu (.ok resvs) := by
  obtain ⟨handle, job, reservation, hhandle, hjob, hres, hok⟩ := h.wants
  simp [reconcile, h.unit, reconcileUnit, filter, h.phase, hhandle, hjob, hres, byPhase, hok, hcalm]

theorem get_writeUnit (hcalm : env.faults = {}) (hk : cl.units.get k = some qu)
    (phase : QueueUnitPhase) (msg : String) :
    ∃ qu', (writeUnit env cl qu phase msg).units.get k = some qu' ∧ qu'.status.phase = phase := by
  have hkey : qu.namespacedName = k := ObjectStore.key_of_get hk
  rw [writeUnit, hcalm, if_neg Bool.false_ne_true, ObjectStore.get_modify, hk, Option.map_some, if_pos rfl]
  exact ⟨_, rfl, phase_updateQueueUnitStatus _ _ _ _ _⟩

theorem whenSchedReady_verdict (hcalm : env.faults = {}) (hk : cl.units.get k = some qu)
    (hphase : qu.status.phase = .schedReady) {status : Status} {msg : String}
    (h : reconcileReservations env cl.resvs qu resvs = (s, .verdict status msg)) :
    (whenSchedReady env cl qu (.ok resvs)).again = false ∧
      (whenSchedReady env cl qu (.ok resvs)).cluster.resvs = s ∧
      ∃ qu', (whenSchedReady env cl qu (.ok resvs)).cluster.units.get k = some qu' ∧
        qu'.status.phase = phaseOf status := by
  have hnone : statusError env = none := by
    rw [statusError, hcalm]
    rfl
  cases status with
  | pending =>
    simp only [whenSchedReady, h]
    exact ⟨rfl, trivial, qu, hk, hphase⟩
  | failed | succeed =>
    have hk' : ({ cl with resvs := s } : Cluster J).units.get k = some qu := hk
    simp only [whenSchedReady, h, hnone]
    exact ⟨rfl, resvs_writeUnit _ _ _ _ _, get_writeUnit hcalm hk' _ _⟩

theorem Ready.withResvs (h : Ready handles cl req qu resvs) (s : Reservations) :
    Ready handles { cl with resvs := s } req qu resvs :=
  ⟨h.unit, h.phase, h.wants⟩

theorem reconcile_settled (h : Ready handles cl req qu resvs) (hcalm : env.faults = {})
    (hs : Settled qu.consumer (wanted env qu resvs) cl.resvs) :
    (reconcile handles env cl req).again = false ∧ (reconcile handles env cl req).cluster.resvs = cl.resvs ∧
      ∃ qu', (reconcile handles env cl req).cluster.units.get ⟨req.ns, (parse req.name).1⟩ = some qu' ∧
        qu'.status.phase = phaseOf
          (reservationStatus [] qu.status.attempts (cl.resvs.items.filter (labelled qu.consumer))).1 := by
  obtain ⟨msg, hverdict⟩ := settled_verdict hcalm hs
  rw [reconcile_ready h hcalm]
  exact whenSchedReady_verdict hcalm h.unit h.phase hverdict

theorem reconcile_again (h : Ready handles cl req qu resvs) (hcalm : env.faults = { stale := listed })
    (hv : ∀ status msg, (reconcileReservations env cl.resvs qu resvs).2 ≠ .verdict status msg) :
    (reconcile handles env cl req).again = true ∧
      (reconcile handles env cl req).cluster =
        { cl with resvs := (reconcileReservations env cl.resvs qu resvs).1 } := by
  rw [reconcile_ready h hcalm]
  simp only [whenSchedReady]
  split
  next => exact ⟨rfl, rfl⟩
  next => exact ⟨rfl, rfl⟩
  next he => exact absurd he (hv _ _)
  next he => exact absurd he (hv _ _)
  next he => exact absurd he (hv _ _)

theorem exists_wanted_iff {n : String} : (∃ r ∈ wanted env qu resvs, r.name = n) ↔ ∃ r ∈ resvs, r.name = n := by
  rw [← List.mem_map, names_wanted, List.mem_map]

theorem free_wanted {job : NamespacedName} (h : Free job resvs s) : Free job (wanted env qu resvs) s := by
  intro r hr e he
  obtain ⟨r', hr', hname⟩ := exists_wanted_iff.mp ⟨r, hr, rfl⟩
  exact h r' hr' e (by rw [hname, he])

section Trail

variable {envs : Nat → Env}

theorem taken_again (hcalm : env.faults = {}) {r e : Reservation} (hr : r ∈ resvs) (he : cl.resvs.get r.name = some e)
    (hl : labelled qu.consumer e = false) :
    (∀ status msg, (reconcileReservations env cl.resvs qu resvs).2 ≠ .verdict status msg) ∧
      (reconcileReservations env cl.resvs qu resvs).1.get r.name = some e := by
  have hseen : ∀ e' ∈ existing env cl.resvs qu.consumer, e'.name ≠ r.name := by
    intro e' he' hname
    obtain ⟨hget, hl'⟩ := (mem_existing hcalm).mp he'
    rw [hname, he] at hget
    cases hget
    rw [hl] at hl'
    cases hl'
  refine ⟨fun status msg => ?_, reconcileReservations_foreign he hl hseen⟩
  obtain ⟨r', hr', hname⟩ := exists_wanted_iff.mpr ⟨r, hr, rfl⟩
  exact reconcileReservations_unlisted hr' (by rw [hname]; exact hseen) status msg

/-- While another job holds a wanted name, the request comes back for ever and
its unit stays as it is. -/
theorem trail_taken (h : Ready handles cl req qu resvs) (hcalm : ∀ n, (envs n).faults = {}) {r e : Reservation}
    (hr : r ∈ resvs) (he : cl.resvs.get r.name = some e) (hl : labelled qu.consumer e = false) (n : Nat) :
    Ready handles (trail handles envs cl req n) req qu resvs ∧
      (trail handles envs cl req n).resvs.get r.name = some e := by
  induction n with
  | zero => exact ⟨h, he⟩
  | succ n ih =>
    obtain ⟨hready, hget⟩ := ih
    obtain ⟨hv, hget'⟩ := taken_again (hcalm n) hr hget hl
    rw [trail, (reconcile_again hready (hcalm n) hv).2]
    exact ⟨hready.withResvs _, hget'⟩

theorem reconcile_unsettled (h : Ready handles cl req qu resvs) (hcalm : env.faults = {})
    (hplain : ∀ r ∈ resvs, Plain r) (hfree : Free qu.consumer (wanted env qu resvs) cl.resvs)
    (hs : ¬Settled qu.consumer (wanted env qu resvs) cl.resvs) : (reconcile handles env cl req).again = true ∧
      Ready handles (reconcile handles env cl req).cluster req qu resvs ∧
      (Settled qu.consumer (wanted env qu resvs) (reconcile handles env cl req).cluster.resvs ∨
        (¬Clean qu.consumer cl.resvs ∧ Clean qu.consumer (reconcile handles env cl req).cluster.resvs)) ∧
      Free qu.consumer (wanted env qu resvs) (reconcile handles env cl req).cluster.resvs := by
  obtain ⟨hv, hprogress, hfree'⟩ := round_unsettled hcalm hplain hfree hs
  obtain ⟨hagain, hcluster⟩ := reconcile_again h hcalm hv
  rw [hcluster]
  exact ⟨hagain, h.withResvs _, hprogress, hfree'⟩

end Trail

/-- The request is not queued again after the reconcile with number `n`: all wanted
reservations are there in the current version, none has failed, and the phase of the
unit is the verdict on all reservations of the job. -/
def EndsAt (handles : GoMap String (Handle J)) (envs : Nat → Env) (cl : Cluster J) (req : NamespacedName)
    (qu : ReservedUnit) (resvs : List Reservation) (n : Nat) : Prop :=
  (reconcile handles (envs n) (trail handles envs cl req n) req).again = false ∧
    Settled qu.consumer (wanted (envs 0) qu resvs) (trail handles envs cl req (n + 1)).resvs ∧
    ∃ qu', (trail handles envs cl req (n + 1)).units.get ⟨req.ns, (parse req.name).1⟩ = some qu' ∧
      qu'.status.phase = phaseOf (reservationStatus [] qu.status.attempts
        ((trail handles envs cl req (n + 1)).resvs.items.filter (labelled qu.consumer))).1

/-- Reservations are not namespaced, and a name that is taken counts as created.
While the listings are current and no other job holds a wanted name, a request
comes to its end after at most two rounds. With a name that another job holds it
comes back for ever and the unit waits. So it does in every round that does not
find a wanted reservation listed, though it may be there. -/
theorem reservations_settle_iff (handles : GoMap String (Handle J)) (envs : Nat → Env) (cl : Cluster J)
    (req : NamespacedName) (qu : ReservedUnit) (resvs : List Reservation) (h : Ready handles cl req qu resvs)
    (hplain : ∀ r ∈ resvs, Plain r) (hcalm : ∀ n, (envs n).faults = {})
    (hcm : ∀ n, (envs n).blacklistcm = (envs 0).blacklistcm) :
    (Free qu.consumer resvs cl.resvs →
      ∃ n ≤ 2, (∀ m < n, (reconcile handles (envs m) (trail handles envs cl req m) req).again = true) ∧
        EndsAt handles envs cl req qu resvs n) ∧
      (¬Free qu.consumer resvs cl.resvs →
        ∀ n, (reconcile handles (envs n) (trail handles envs cl req n) req).again = true ∧
          (trail handles envs cl req n).units.get ⟨req.ns, (parse req.name).1⟩ = some qu) ∧
      ∀ (env : Env) (listed : List Reservation), env.faults = { stale := some listed } →
        (∃ r ∈ resvs, ∀ e ∈ listed, labelled qu.consumer e = true → e.name ≠ r.name) →
        (reconcile handles env cl req).again = true ∧ (reconcile handles env cl req).cluster.units = cl.units := by
  have hw : ∀ n, wanted (envs n) qu resvs = wanted (envs 0) qu resvs := fun n => wanted_eq (hcm n)
  have hend : ∀ n, Ready handles (trail handles envs cl req n) req qu resvs →
      Settled qu.consumer (wanted (envs 0) qu resvs) (trail handles envs cl req n).resvs →
      EndsAt handles envs cl req qu resvs n := by
    intro n hready hs
    obtain ⟨hagain, hsame, hunit⟩ := reconcile_settled hready (hcalm n) (by rw [hw n]; exact hs)
    rw [EndsAt, trail, hsame]
    exact ⟨hagain, hs, hunit⟩
  refine ⟨?_, ?_, ?_⟩
  · intro hfree
    replace hfree : Free qu.consumer (wanted (envs 0) qu resvs) cl.resvs := free_wanted hfree
    by_cases hs0 : Settled qu.consumer (wanted (envs 0) qu resvs) cl.resvs
    · exact ⟨0, Nat.zero_le 2, by simp, hend 0 h hs0⟩
    obtain ⟨hagain0, hready1, hprogress, hfree1⟩ := reconcile_unsettled h (hcalm 0) hplain hfree hs0
    by_cases hs1 : Settled qu.consumer (wanted (envs 0) qu resvs) (trail handles envs cl req 1).resvs
    · refine ⟨1, by decide, fun m hm => ?_, hend 1 hready1 hs1⟩
      obtain rfl : m = 0 := by omega
      exact hagain0
    have hclean := (hprogress.resolve_left hs1).2
    obtain ⟨hagain1, hready2, hprogress1, -⟩ := reconcile_unsettled hready1 (hcalm 1) hplain
      (by rw [hw 1]; exact hfree1) (by rw [hw 1]; exact hs1)
    rw [hw 1] at hprogress1
    have hs2 := hprogress1.resolve_right (fun hnot => hnot.1 hclean)
    refine ⟨2, le_refl 2, fun m hm => ?_, hend 2 hready2 hs2⟩
    obtain rfl | rfl : m = 0 ∨ m = 1 := by omega
    · exact hagain0
    · exact hagain1
  · intro htaken n
    simp only [Free, not_forall, Bool.not_eq_true] at htaken
    obtain ⟨r, hr, e, he, hl⟩ := htaken
    obtain ⟨hready, hget⟩ := trail_taken h hcalm hr he hl n
    exact ⟨(reconcile_again hready (hcalm n) (taken_again (hcalm n) hr hget hl).1).1, hready.unit⟩
  · rintro env listed hstale ⟨r, hr, hnone⟩
    obtain ⟨r', hr', hname⟩ := exists_wanted_iff.mpr ⟨r, hr, rfl⟩
    have hunlisted : ∀ e ∈ existing env cl.resvs qu.consumer, e.name ≠ r'.name := by
      intro e he
      rw [existing, hstale] at he
      obtain ⟨hmem, hl⟩ := List.mem_filter.mp he
      exact hname ▸ hnone e hmem hl
    obtain ⟨hagain, hcluster⟩ := reconcile_again h hstale (reconcileReservations_unlisted hr' hunlisted)
    exact ⟨hagain, by rw [hcluster]⟩

def train : ReservedUnit :=
  { ns := "b", name := "train", consumerApiVersion := "kubeflow.org/v1", consumerKind := "TFJob"
    consumer := ⟨"b", "train"⟩, status := { phase := .schedReady } }

def trainWorker : Reservation := { name := "train-worker-0" }

def workerHandle : Handle Unit := ⟨some (fun _ => .ok [trainWorker])⟩

def twoNamespaces : Cluster Unit where
  units := { items := [train] }
  jobs := Finmap.singleton (train.jobTypeKey, train.consumer) ()
  resvs :=
    { items := [{ trainWorker with
        labels := GoMap.ofList [(jobNamespaceLabel, "a"), (jobNameLabel, "train")], phase := .available }] }

def onlyWorkers : GoMap String (Handle Unit) := Finmap.singleton train.jobTypeKey workerHandle

theorem ready_twoNamespaces : Ready onlyWorkers twoNamespaces ⟨"b", "train"⟩ train [trainWorker] where
  unit := by decide +kernel
  phase := rfl
  wants := ⟨workerHandle, (), fun _ => .ok [trainWorker], Finmap.lookup_singleton_eq, Finmap.lookup_singleton_eq, rfl, rfl⟩

def noPlace : ReservationCondition := ⟨.scheduled, .conditionFalse, "Unschedulable/0", "no node fits"⟩

def refusedWorker : Reservation :=
  { trainWorker with
    labels := GoMap.ofList [(jobNamespaceLabel, "b"), (jobNameLabel, "train")], conditions := [noPlace] }

def oneRefused : Cluster Unit := { twoNamespaces with resvs := { items := [refusedWorker] } }

/-- With a job of the same name in another namespace the unit waits for ever, without it the
reservation is made, and as long as the cache does not show it the unit waits again. -/
theorem reservations_settle_iff_twoNamespaces :
    (∀ n, (reconcile onlyWorkers {} (trail onlyWorkers (fun _ => {}) twoNamespaces ⟨"b", "train"⟩ n)
        ⟨"b", "train"⟩).again = true) ∧
      (∃ n ≤ 2, Settled train.consumer (wanted {} train [trainWorker])
        (trail onlyWorkers (fun _ => {}) { twoNamespaces with resvs := {} } ⟨"b", "train"⟩ (n + 1)).resvs) ∧
      (reconcile onlyWorkers { faults := { stale := some [] } } oneRefused ⟨"b", "train"⟩).again = true := by
  have htaken : ¬Free train.consumer [trainWorker] twoNamespaces.resvs := by
    intro hfree
    have hl := hfree trainWorker List.mem_cons_self _ rfl
    revert hl
    decide +kernel
  have hsettle := fun s => reservations_settle_iff onlyWorkers (fun _ => {}) { twoNamespaces with resvs := s }
    ⟨"b", "train"⟩ train [trainWorker] (ready_twoNamespaces.withResvs s)
    (by simp only [List.forall_mem_singleton]; exact ⟨rfl, rfl⟩) (fun _ => rfl) (fun _ => rfl)
  refine ⟨fun n => ((hsettle twoNamespaces.resvs).2.1 htaken n).1, ?_, ?_⟩
  · obtain ⟨n, hn, -, -, hsettled, -⟩ := (hsettle {}).1 (fun r _ e he => by cases he)
    exact ⟨n, hn, hsettled⟩
  · exact ((hsettle oneRefused.resvs).2.2 _ [] rfl ⟨trainWorker, List.mem_cons_self, by simp⟩).1

/-- Once the reservations are settled, the answers to the current attempt decide:
the unit goes on when all are granted, is given up when each has an answer that
stands and one is a refusal, and waits while one has no answer or has its refusal
taken back by a preemption. -/
theorem settled_phase_iff (handles : GoMap String (Handle J)) (env : Env) (cl : Cluster J) (req : NamespacedName)
    (qu : ReservedUnit) (resvs : List Reservation) (h : Ready handles cl req qu resvs) (hcalm : env.faults = {})
    (hs : Settled qu.consumer (wanted env qu resvs) cl.resvs) :
    ∃ qu', (reconcile handles env cl req).cluster.units.get ⟨req.ns, (parse req.name).1⟩ = some qu' ∧
      (qu'.status.phase = .schedSucceed ↔ ∀ e ∈ cl.resvs.items, labelled qu.consumer e = true →
        Answered qu.status.attempts e ∧ ¬Refused qu.status.attempts e) ∧
      (qu'.status.phase = .schedFailed ↔
        (∀ e ∈ cl.resvs.items, labelled qu.consumer e = true → ¬Unsettled qu.status.attempts e) ∧
          ∃ e ∈ cl.resvs.items, labelled qu.consumer e = true ∧ Refused qu.status.attempts e) ∧
      (qu'.status.phase = .schedReady ↔
        ∃ e ∈ cl.resvs.items, labelled qu.consumer e = true ∧ Unsettled qu.status.attempts e) := by
  obtain ⟨-, -, qu', hunit, hphase⟩ := reconcile_settled h hcalm hs
  refine ⟨qu', hunit, ?_⟩
  have hsucceed := reservationStatus_succeed [] qu.status.attempts (cl.resvs.items.filter (labelled qu.consumer))
  have hfailed := reservationStatus_failed [] qu.status.attempts (cl.resvs.items.filter (labelled qu.consumer))
  have hpending := reservationStatus_pending [] qu.status.attempts (cl.resvs.items.filter (labelled qu.consumer))
  simp only [List.mem_filter, and_imp, and_assoc] at hsucceed hfailed hpending
  rw [hphase, ← hsucceed, ← hfailed, ← hpending]
  cases (reservationStatus [] qu.status.attempts (cl.resvs.items.filter (labelled qu.consumer))).1 <;> simp [phaseOf]

theorem labelled_refusedWorker : labelled train.consumer refusedWorker = true := by decide +kernel

theorem settled_oneRefused : Settled train.consumer (wanted {} train [trainWorker]) oneRefused.resvs := by
  refine (settled_iff_of_ne (by decide +kernel)).mpr ⟨?_, ?_⟩
  · rintro e he - hfailed
    cases List.mem_singleton.mp he
    cases hfailed
  · intro r hr
    cases List.mem_singleton.mp hr
    exact ⟨refusedWorker, rfl, labelled_refusedWorker, by decide +kernel⟩

theorem refused_oneRefused :
    (∀ e ∈ oneRefused.resvs.items, labelled train.consumer e = true → ¬Unsettled 0 e) ∧
      ∃ e ∈ oneRefused.resvs.items, labelled train.consumer e = true ∧ Refused 0 e := by
  have hcounts : counts 0 noPlace = true := by decide +kernel
  refine ⟨?_, refusedWorker, List.mem_singleton_self _, labelled_refusedWorker, noPlace, List.mem_singleton_self _,
    hcounts, rfl⟩
  rintro e he - (hnot | ⟨-, c, hc, htype, -⟩)
  · cases List.mem_singleton.mp he
    exact hnot ⟨noPlace, List.mem_singleton_self _, hcounts⟩
  · cases List.mem_singleton.mp he
    cases List.mem_singleton.mp hc
    cases htype

theorem settled_phase_iff_oneRefused :
    ∃ qu', (reconcile onlyWorkers {} oneRefused ⟨"b", "train"⟩).cluster.units.get ⟨"b", (parse "train").1⟩ = some qu' ∧
      qu'.status.phase = .schedFailed := by
  obtain ⟨qu', hunit, -, hfailed, -⟩ := settled_phase_iff onlyWorkers {} oneRefused ⟨"b", "train"⟩ train [trainWorker]
    (ready_twoNamespaces.withResvs _) rfl settled_oneRefused
  exact ⟨qu', hunit, hfailed.mpr refused_oneRefused⟩

end KoordQueue.Reserving.Settling
