import KoordQueue.Controllers.QueueUnitController
import KoordQueue.Scheduler.Dequeue
import KoordQueue.Lib.Run

namespace KoordQueue.Scheduler.AdmissionChecks

open Api UnitStatus JobExt.Records JobExt.Conditions Controllers.QueueUnitController Scheduler.Dequeue

def newCheck (now : Time) (name : String) : AdmissionCheckState :=
  { name, state := .pending, lastTransitionTime := now }

/-- The loop over the listed checks writes to a copy of each entry, so all that
comes of it is which of the matched checks are listed already. The others are
appended in the order in which the set is ranged over. -/
def setAdmissionCheck (now : Time) (admissionChecks : List String) (checks : List AdmissionCheckState) :
    List AdmissionCheckState :=
  let existingCheck := (checks.filter (fun c => decide (c.name ∈ admissionChecks))).map AdmissionCheckState.name
  checks ++ (admissionChecks.filter (fun n => decide (n ∉ existingCheck))).map (newCheck now)

/-- What `Dequeue` makes of the unit in its cache. `matched` are the checks that
match its labels. The clock is read once here. -/
def dequeue (strictDequeue smallTaskAcclerate : Bool) (timeNow : Time) (qu : JobUnit)
    (admissions : List FrameworkAdmission) (matched : List String) : JobUnit :=
  { qu with
    status := newStatus ⟨decide (matched ≠ []), strictDequeue, smallTaskAcclerate⟩ timeNow qu.toQueueUnit admissions
    admissionChecks := if matched = [] then qu.admissionChecks else setAdmissionCheck timeNow matched qu.admissionChecks }

/-- `UpdateQueueUnitStatusAndAnnotations` as far as the status goes: the stored
status is replaced as a whole, unless it is the same. -/
def overwrite (f : Features) (now : Time) (stored status : JobUnit) : JobUnit :=
  if stored.storeStatus status = stored then stored
  else stored.storeStatus (syncQueueUnitConditions f now (stored.storeStatus status))

theorem overwrite_checks (f : Features) (now : Time) (stored status : JobUnit) :
    (overwrite f now stored status).admissionChecks = status.admissionChecks := by
  rw [overwrite]
  split
  next h => exact (congrArg JobUnit.admissionChecks h).symm
  next => exact sync_checks f now _

variable {f : Features} {checks : List AdmissionCheckState} {matched : List String} {n : String} {w : World}

theorem not_mem_existing {admissionChecks : List String} (hn : n ∈ admissionChecks) :
    n ∉ (checks.filter (fun c => decide (c.name ∈ admissionChecks))).map AdmissionCheckState.name ↔
      ∀ c ∈ checks, c.name ≠ n := by
  rw [List.mem_map, not_exists]
  refine forall_congr' (fun c => ?_)
  rw [List.mem_filter, decide_eq_true_eq]
  constructor
  · intro h hc he
    exact h ⟨⟨hc, he ▸ hn⟩, he⟩
  · intro h hc
    exact h hc.1.1 hc.2

theorem setAdmissionCheck_eq (now : Time) (admissionChecks : List String) (checks : List AdmissionCheckState) :
    setAdmissionCheck now admissionChecks checks =
      checks ++ (admissionChecks.filter (fun n => decide (∀ c ∈ checks, c.name ≠ n))).map (newCheck now) := by
  rw [setAdmissionCheck]
  congr 2
  refine List.filter_congr (fun n hn => ?_)
  exact decide_eq_decide.mpr (not_mem_existing hn)

theorem dequeue_checks (strict small : Bool) (timeNow : Time) (qu : JobUnit) (grants : List FrameworkAdmission)
    (matched : List String) :
    (dequeue strict small timeNow qu grants matched).admissionChecks =
      setAdmissionCheck timeNow matched qu.admissionChecks := by
  rw [dequeue]
  split
  next h =>
    subst h
    rw [setAdmissionCheck_eq]
    exact (List.append_nil _).symm
  next => rfl

theorem filter_appended (now : Time) (hnodup : matched.Nodup) (checks : List AdmissionCheckState) (hn : n ∈ matched) :
    ((matched.filter (fun n => decide (∀ c ∈ checks, c.name ≠ n))).map (newCheck now)).filter
        (fun c => decide (c.name = n)) =
      if ∀ c ∈ checks, c.name ≠ n then [newCheck now n] else [] := by
  rw [List.filter_map, List.filter_filter]
  change (matched.filter (fun m => decide (m = n) && decide (∀ c ∈ checks, c.name ≠ m))).map _ = _
  split
  next h =>
    have hone : matched.filter (fun m => decide (m = n) && decide (∀ c ∈ checks, c.name ≠ m)) = [n] := by
      rw [show [n] = matched.filter (fun m => decide (m = n)) by
        rw [List.filter_eq, List.count_eq_one_of_mem hnodup hn]
        rfl]
      refine List.filter_congr (fun m _ => ?_)
      by_cases hm : m = n
      · subst hm
        simpa using h
      · simp [hm]
    rw [hone]
    rfl
  next h =>
    rw [List.map_eq_nil_iff, List.filter_eq_nil_iff]
    intro m _ hm
    simp only [Bool.and_eq_true, decide_eq_true_eq] at hm
    exact h (hm.1 ▸ hm.2)

/-- Each matched check is listed exactly once, as pending, and every other
listed check is ready. -/
def Reset (matched : List String) (checks : List AdmissionCheckState) : Prop :=
  (∀ n ∈ matched, (checks.filter (fun c => decide (c.name = n))).map AdmissionCheckState.state = [.pending]) ∧
    ∀ c ∈ checks, c.name ∉ matched → c.state = .ready
deriving Decidable

/-- The checks left from earlier attempts are as the next attempt needs them. -/
def Leftover (matched : List String) (checks : List AdmissionCheckState) : Prop :=
  (∀ n ∈ matched, (∃ c ∈ checks, c.name = n) → (checks.filter (fun c => decide (c.name = n))).map AdmissionCheckState.state = [.pending]) ∧
    ∀ c ∈ checks, c.name ∉ matched → c.state = .ready
deriving Decidable

theorem reset_iff_leftover (now : Time) (hnodup : matched.Nodup) (checks : List AdmissionCheckState) :
    Reset matched (setAdmissionCheck now matched checks) ↔ Leftover matched checks := by
  rw [setAdmissionCheck_eq, Reset, Leftover]
  refine and_congr (forall₂_congr (fun n hn => ?_)) ?_
  · rw [List.filter_append, filter_appended now hnodup checks hn]
    by_cases hl : ∃ c ∈ checks, c.name = n
    · have hnot : ¬ ∀ c ∈ checks, c.name ≠ n := fun h => hl.elim (fun c hc => h c hc.1 hc.2)
      rw [if_neg hnot, List.append_nil]
      exact ⟨fun h _ => h, fun h => h hl⟩
    · have hall : ∀ c ∈ checks, c.name ≠ n := fun c hc he => hl ⟨c, hc, he⟩
      have hnil : checks.filter (fun c => decide (c.name = n)) = [] := by
        rw [List.filter_eq_nil_iff]
        intro c hc hd
        exact hall c hc (of_decide_eq_true hd)
      rw [if_pos hall, hnil]
      exact ⟨fun _ h => absurd h hl, fun _ => rfl⟩
  · constructor
    · intro h c hc
      exact h c (List.mem_append_left _ hc)
    · intro h c hc hne
      rcases List.mem_append.mp hc with hc | hc
      · exact h c hc hne
      · obtain ⟨n, hn, rfl⟩ := List.mem_map.mp hc
        exact absurd (List.mem_of_mem_filter hn) hne

/-- The stored unit, with the checks matched in its current attempt and those
that were set ready since that attempt began. -/
structure World where
  unit : JobUnit := {}
  matched : List String := []
  readied : List String := []
deriving DecidableEq

/-- `dequeue` is the scheduler's write, from whatever unit it has in its cache;
`setCheck` is the controller of a check that writes its entry; `write` is any
other write to the unit, which leaves its checks alone and reserves nothing. -/
inductive Action
  | dequeue (strictDequeue smallTaskAcclerate : Bool) (timeNow : Time) (cached : JobUnit)
      (admissions : List FrameworkAdmission) (matched : List String)
  | setCheck (i : Nat) (report : AdmissionCheckState)
  | reconcile (enableStrictDequeueMode : Bool) (now jitter : Time)
  | write (qu : JobUnit)

def Leaves (qu qu' : JobUnit) : Prop :=
  qu'.admissionChecks = qu.admissionChecks ∧ (qu'.status.phase = .reserved → qu.status.phase = .reserved)
deriving Decidable

/-- The names that a report on the `i`th check adds to those set ready. -/
def reported (checks : List AdmissionCheckState) (i : Nat) (state : CheckState) : List String :=
  if state = .ready then (checks[i]?.map AdmissionCheckState.name).toList else []

def step (f : Features) (w : World) : Action → Option World
  | .dequeue strict small timeNow cached admissions matched =>
    some
      { unit := overwrite f timeNow w.unit (dequeue strict small timeNow cached admissions matched)
        matched, readied := [] }
  | .setCheck i report =>
    some { w with
      unit := { w.unit with
        admissionChecks := w.unit.admissionChecks.modify i (fun c => { report with name := c.name }) }
      readied := reported w.unit.admissionChecks i report.state ++ w.readied }
  | .reconcile strict now jitter =>
    some { w with unit := (reconcile f strict now jitter w.unit).getD w.unit }
  | .write qu => if Leaves w.unit qu then some { w with unit := qu } else none

/-- No matched check is still ready from an earlier attempt. -/
def NoneReady : Action → Prop
  | .dequeue _ _ _ cached _ matched => ∀ c ∈ cached.admissionChecks, c.name ∈ matched → c.state ≠ .ready
  | .setCheck _ _ | .reconcile _ _ _ | .write _ => True

instance decidableNoneReady (a : Action) : Decidable (NoneReady a) := by
  delta NoneReady
  split <;> infer_instance

def Gated (w : World) : Prop :=
  w.unit.status.phase = .reserved →
    ∀ n ∈ w.matched, n ∈ w.readied ∨ ∃ c ∈ w.unit.admissionChecks, c.name = n ∧ c.state ≠ .ready

theorem gated_dequeue (now : Time) (hno : ∀ c ∈ checks, c.name ∈ matched → c.state ≠ .ready) (hn : n ∈ matched) :
    ∃ c ∈ setAdmissionCheck now matched checks, c.name = n ∧ c.state ≠ .ready := by
  rw [setAdmissionCheck_eq]
  by_cases hl : ∃ c ∈ checks, c.name = n
  · obtain ⟨c, hc, rfl⟩ := hl
    exact ⟨c, List.mem_append_left _ hc, rfl, hno c hc hn⟩
  · refine ⟨newCheck now n, List.mem_append_right _ (List.mem_map_of_mem (List.mem_filter.mpr ⟨hn, ?_⟩)), rfl, nofun⟩
    exact decide_eq_true (fun c hc he => hl ⟨c, hc, he⟩)

theorem gated_setCheck (checks : List AdmissionCheckState) (i : Nat) (report : AdmissionCheckState)
    {c : AdmissionCheckState} (hc : c ∈ checks) (hs : c.state ≠ .ready) :
    c.name ∈ reported checks i report.state ∨
      ∃ d ∈ checks.modify i (fun c => { report with name := c.name }), d.name = c.name ∧ d.state ≠ .ready := by
  obtain ⟨j, hj⟩ := List.mem_iff_getElem?.mp hc
  by_cases hij : i = j
  · subst hij
    by_cases hr : report.state = .ready
    · left
      rw [reported, if_pos hr, hj]
      exact List.mem_singleton_self _
    · right
      refine ⟨{ report with name := c.name }, List.mem_iff_getElem?.mpr ⟨i, ?_⟩, rfl, hr⟩
      rw [List.getElem?_modify_eq, hj]
      rfl
  · right
    refine ⟨c, List.mem_iff_getElem?.mpr ⟨j, ?_⟩, rfl, hs⟩
    rw [List.getElem?_modify_ne _ _ hij, hj]

theorem gated_step {t : World} {a : Action} (hw : Gated w) (ha : NoneReady a)
    (h : step f w a = some t) : Gated t := by
  cases a with
  | dequeue strict small timeNow cached admissions matched =>
    cases h
    intro _ n hn
    right
    rw [overwrite_checks, dequeue_checks]
    exact gated_dequeue timeNow ha hn
  | setCheck i report =>
    cases h
    intro hp n hn
    rcases hw hp n hn with hr | ⟨c, hc, rfl, hs⟩
    · exact .inl (List.mem_append_right _ hr)
    · exact (gated_setCheck _ i report hc hs).imp_left (List.mem_append_left _)
  | reconcile strict now jitter =>
    cases h
    intro hp
    change ((reconcile f strict now jitter w.unit).getD w.unit).status.phase = _ at hp
    cases hr : reconcile f strict now jitter w.unit with
    | none =>
      simp only [hr, Option.getD_none] at hp ⊢
      exact hw hp
    | some qu =>
      obtain ⟨hd | hd, -⟩ | hd := outcome_reconcile hr <;>
        · simp only [hr, Option.getD_some, hd] at hp
          cases hp
  | write qu =>
    obtain ⟨hl, ht⟩ := Option.ite_none_right_eq_some.mp h
    cases ht
    intro hp n hn
    rcases hw (hl.2 hp) n hn with hr | hc
    · exact .inl hr
    · exact .inr (hl.1 ▸ hc)

theorem released_readied (hw : Gated w) {strict : Bool} {now jitter : Time} {qu : JobUnit}
    (hr : reconcile f strict now jitter w.unit = some qu) (hq : Released qu) (hn : n ∈ w.matched) : n ∈ w.readied := by
  rcases outcome_reconcile hr with ⟨-, hall⟩ | hb
  · rcases hw (reconcile_eq_some hr).1 n hn with h | ⟨c, hc, rfl, hs⟩
    · exact h
    · exact absurd (hall c hc) hs
  · rcases hq with hd | hd <;> cases hb.symm.trans hd

/-- A check left ready from an earlier attempt is what lets a unit through. -/
theorem checks_gate_every_attempt (f : Features) :
    (∀ (strict small : Bool) (timeNow : Time) (stored cached : JobUnit) (grants : List FrameworkAdmission)
        (matched : List String), matched.Nodup →
      (Reset matched
          (overwrite f timeNow stored (dequeue strict small timeNow cached grants matched)).admissionChecks ↔
        Leftover matched cached.admissionChecks)) ∧
    ∀ (w w' : World) (as : List Action), w.unit.status.phase ≠ .reserved →
      Run.exec (step f) w as = some w' → Run.Guarded (step f) (fun _ a => NoneReady a) w as →
      ∀ (strict : Bool) (now jitter : Time) (qu : JobUnit),
        reconcile f strict now jitter w'.unit = some qu → Released qu → ∀ n ∈ w'.matched, n ∈ w'.readied := by
  constructor
  · intro strict small timeNow stored cached grants matched hnodup
    rw [overwrite_checks, dequeue_checks]
    exact reset_iff_leftover timeNow hnodup cached.admissionChecks
  · intro w w' as hstart hrun hguard strict now jitter qu hr hq n hn
    have hinit : Gated w := fun hp => absurd hp hstart
    exact released_readied (Run.invariant (fun _ _ _ => gated_step) hinit hguard hrun) hr hq hn

def provisioned : AdmissionCheckState :=
  { name := "provision", state := .ready, lastTransitionTime := 1, message := "provisioned" }

def queued (checks : List AdmissionCheckState) : JobUnit :=
  { status := { phase := .enqueued }, admissionChecks := checks }

def reserve (timeNow : Time) (cached : JobUnit) : Action :=
  .dequeue false false timeNow cached [⟨"workers", 1⟩] ["provision"]

def firstAttempt : List Action := [reserve 0 (queued []), .setCheck 0 provisioned]

theorem first_attempt_gated :
    Reset ["provision"]
        (overwrite {} 0 (queued []) (dequeue false false 0 (queued [{ name := "provision" }]) [] ["provision"])).admissionChecks ∧
      ∃ w' qu, Run.exec (step {}) { unit := queued [] } firstAttempt = some w' ∧
        reconcile {} false 1 0 w'.unit = some qu ∧ Released qu ∧ "provision" ∈ w'.matched ∧ "provision" ∈ w'.readied := by
  refine ⟨((checks_gate_every_attempt {}).1 false false 0 (queued []) (queued [{ name := "provision" }]) []
    ["provision"] (by decide)).mpr (by decide +kernel), ?_⟩
  obtain ⟨w', hrun, h⟩ := (Option.any_eq_true _ _).mp (by decide +kernel :
    (Run.exec (step {}) { unit := queued [] } firstAttempt).any (fun w =>
      decide ("provision" ∈ w.matched) && (reconcile {} false 1 0 w.unit).any (fun qu => decide (Released qu))) = true)
  obtain ⟨hm, hr⟩ := Bool.and_eq_true_iff.mp h
  obtain ⟨qu, hqu, hq⟩ := (Option.any_eq_true _ _).mp hr
  refine ⟨w', qu, hrun, hqu, of_decide_eq_true hq, of_decide_eq_true hm, ?_⟩
  exact (checks_gate_every_attempt {}).2 { unit := queued [] } w' firstAttempt (by decide) hrun (by decide +kernel)
    false 1 0 qu hqu (of_decide_eq_true hq) "provision" (of_decide_eq_true hm)

/-- The unit passed its check, was evicted, and is reserved again. The check is still ready, so the
unit is let through at once. -/
theorem ready_check_carries_over :
    ¬ Reset ["provision"]
        (overwrite {} 2 (queued [provisioned])
          (dequeue false false 2 (queued [provisioned]) [] ["provision"])).admissionChecks ∧
      ∃ w' qu, Run.exec (step {}) { unit := queued [] }
          (firstAttempt ++ [.reconcile false 1 0, .write (queued [provisioned]),
            reserve 2 (queued [provisioned])]) = some w' ∧
        reconcile {} false 3 0 w'.unit = some qu ∧ Released qu ∧ "provision" ∈ w'.matched ∧
        "provision" ∉ w'.readied := by
  refine ⟨by decide +kernel, ?_⟩
  obtain ⟨w', hrun, h⟩ := (Option.any_eq_true _ _).mp (by decide +kernel :
    (Run.exec (step {}) { unit := queued [] }
        (firstAttempt ++ [.reconcile false 1 0, .write (queued [provisioned]),
          reserve 2 (queued [provisioned])])).any (fun w =>
      decide ("provision" ∈ w.matched ∧ "provision" ∉ w.readied) &&
        (reconcile {} false 3 0 w.unit).any (fun qu => decide (Released qu))) = true)
  obtain ⟨hm, hr⟩ := Bool.and_eq_true_iff.mp h
  obtain ⟨qu, hqu, hq⟩ := (Option.any_eq_true _ _).mp hr
  exact ⟨w', qu, hrun, hqu, of_decide_eq_true hq, of_decide_eq_true hm⟩

end KoordQueue.Scheduler.AdmissionChecks
