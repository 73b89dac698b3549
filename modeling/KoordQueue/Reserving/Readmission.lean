import KoordQueue.Controllers.QueueUnitController
import KoordQueue.Reserving.Settling

namespace KoordQueue.Reserving.Readmission

open Api Controllers JobExt.Records JobExt.Conditions Records Verdict Controller Rounds Settling

variable {J : Type}

theorem checks_ready (f : Features) (now jitter : Time) {qu : JobUnit} (hphase : qu.status.phase = .reserved)
    (hchecks : ∀ c ∈ qu.admissionChecks, c.state = .ready) :
    ∃ qu', QueueUnitController.reconcile f true now jitter qu = some qu' ∧
      qu'.status.phase = .schedReady ∧ qu'.status.attempts = qu.status.attempts := by
  have hscan := (QueueUnitController.scan_eq_ready_iff qu.admissionChecks .stateReady).mpr ⟨rfl, hchecks⟩
  have hqu : QueueUnitController.reconcile f true now jitter qu =
      some (syncQueueUnitConditions f now { qu with
        status := { qu.status with
          phase := .schedReady, lastUpdateTime := some now, message := "all admission checks success" } }) := by
    rw [QueueUnitController.reconcile, if_neg (not_not_intro hphase),
      QueueUnitController.updateQueueUnitStatus, hscan]
    rfl
  refine ⟨_, hqu, ?_⟩
  rw [sync_status]
  exact ⟨rfl, rfl⟩

/-- The admission checks make a reserved unit ready without counting an attempt.
The refusals of its reservations in the attempt before count again, and the unit
is given up at once, whatever the scheduler would answer now. -/
theorem readmitted_fails_again (f : Features) (now jitter : Time) (old : ReservedUnit)
    (hphase : old.status.phase = .reserved) (hchecks : ∀ c ∈ old.admissionChecks, c.state = .ready) :
    ∃ qu, QueueUnitController.reconcile f true now jitter old.toJobUnit = some qu ∧
      ∀ (handles : GoMap String (Handle J)) (env : Env) (cl : Cluster J) (req : NamespacedName) (resvs : List Reservation),
        Ready handles cl req (old.storeStatus qu) resvs → env.faults = {} →
        Settled old.consumer (wanted env (old.storeStatus qu) resvs) cl.resvs →
        (∀ e ∈ cl.resvs.items, labelled old.consumer e = true → ¬Unsettled old.status.attempts e) →
        (∃ e ∈ cl.resvs.items, labelled old.consumer e = true ∧ Refused old.status.attempts e) →
        ∃ qu', (reconcile handles env cl req).cluster.units.get ⟨req.ns, (parse req.name).1⟩ = some qu' ∧
          qu'.status.phase = .schedFailed := by
  obtain ⟨qu, hqu, -, hattempts⟩ := checks_ready f now jitter hphase hchecks
  refine ⟨qu, hqu, fun handles env cl req resvs hready hcalm hsettled hall hsome => ?_⟩
  obtain ⟨-, -, qu', hunit, hphase'⟩ := reconcile_settled hready hcalm hsettled
  have hsame : (old.storeStatus qu).status.attempts = old.status.attempts := hattempts
  have hfailed : (reservationStatus [] old.status.attempts (cl.resvs.items.filter (labelled old.consumer))).1 = .failed := by
    rw [reservationStatus_failed]
    simp only [List.mem_filter, and_imp, and_assoc]
    exact ⟨hall, hsome⟩
  refine ⟨qu', hunit, hphase'.trans ?_⟩
  rw [hsame]
  exact congrArg phaseOf hfailed

def reservedAgain : ReservedUnit :=
  { train with status := { phase := .reserved }, admissionChecks := [{ name := "budget", state := .ready }] }

theorem readmitted_fails_again_reservedAgain :
    ∃ qu qu', QueueUnitController.reconcile {} true 0 0 reservedAgain.toJobUnit = some qu ∧
      (reconcile onlyWorkers {} { oneRefused with units := { items := [reservedAgain.storeStatus qu] } }
        ⟨"b", "train"⟩).cluster.units.get ⟨"b", (parse "train").1⟩ = some qu' ∧ qu'.status.phase = .schedFailed := by
  obtain ⟨qu, hqu, hfails⟩ := readmitted_fails_again (J := Unit) {} 0 0 reservedAgain rfl (by decide)
  obtain ⟨qu₁, hqu₁, hready, -⟩ :=
    checks_ready {} 0 0 (rfl : reservedAgain.status.phase = .reserved) (by decide)
  cases hqu.symm.trans hqu₁
  have hparse : (parse "train").1 = "train" := by decide +kernel
  obtain ⟨qu', hunit, hphase⟩ := hfails onlyWorkers {}
    { oneRefused with units := { items := [reservedAgain.storeStatus qu] } } ⟨"b", "train"⟩ [trainWorker]
    ⟨by rw [hparse]; exact List.find?_cons_of_pos (decide_eq_true rfl), hready, ready_twoNamespaces.wants⟩ rfl
    settled_oneRefused refused_oneRefused.1 refused_oneRefused.2
  exact ⟨qu, qu', hqu, hunit, hphase⟩

end KoordQueue.Reserving.Readmission
