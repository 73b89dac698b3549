import KoordQueue.Lib.Run
import KoordQueue.Reserving.Settling

namespace KoordQueue.Reserving.Isolation

open JobExt.Records Records Controller Tasks Rounds

variable {J : Type}

def jobOf (cl : Cluster J) (req : NamespacedName) : NamespacedName :=
  match cl.units.get ⟨req.ns, (parse req.name).1⟩ with
  | none => ⟨req.ns, (parse req.name).2⟩
  | some qu => qu.consumer

/-- The reservations of a job are the same ones in both stores. -/
def Same (job : NamespacedName) (s t : Reservations) : Prop :=
  ∀ n e, labelled job e = true → (t.get n = some e ↔ s.get n = some e)

theorem Same.refl (job : NamespacedName) (s : Reservations) : Same job s s := fun _ _ _ => Iff.rfl

variable {job : NamespacedName} {s t : Reservations}

theorem Same.trans {u : Reservations} (h : Same job s t) (h' : Same job t u) : Same job s u :=
  fun n e hl => (h' n e hl).trans (h n e hl)

theorem Same.symm (h : Same job s t) : Same job t s :=
  fun n e hl => (h n e hl).symm

/-- What is listed for the other job is by now no reservation of this one. -/
def Sighted (job other : NamespacedName) (env : Env) (s : Reservations) : Prop :=
  ∀ r ∈ existing env s other, ∀ e, s.get r.name = some e → labelled job e = false

section Foreign

variable {job other : NamespacedName} {env : Env} {s : Reservations}

variable {cl : Cluster J} {resvs : List Reservation} {e : Reservation} {qu : ReservedUnit}

theorem notLabelled (hne : other ≠ job) (hl : labelled job e = true) : labelled other e = false := by
  cases h : labelled other e with
  | false => rfl
  | true => exact absurd (labelled_unique h hl) hne

theorem sighted_of_current (hne : other ≠ job) (h : env.faults.stale = none) : Sighted job other env s := by
  intro r hr e he
  rw [existing] at hr
  split at hr
  next => cases hr
  next =>
    rw [h, Option.getD_none, List.mem_filter, ObjectStore.mem_iff_get] at hr
    cases hr.1.symm.trans he
    exact notLabelled hne.symm hr.2

theorem Sighted.ne (h : Sighted job other env s) (hl : labelled job e = true) {n : String}
    (he : s.get n = some e) : ∀ r ∈ existing env s other, r.name ≠ n := by
  intro r hr hname
  have hnot := h r hr e (by rw [hname, he])
  rw [hl] at hnot
  cases hnot

theorem same_deleteWhere (h : Sighted job other env s) (p : Reservation → Bool) :
    Same job s (deleteWhere env s other p) := by
  intro n e hl
  rw [deleteWhere, ObjectStore.get_keep, Option.filter_eq_some_iff]
  refine and_iff_left_of_imp (fun hget => ?_)
  rw [Bool.not_eq_true', List.any_eq_false]
  intro r hr
  simp [ObjectStore.key_of_get hget, h.ne hl hget r hr]

theorem same_deleteInOrder (faults : Faults) (rs : List Reservation)
    (hrs : ∀ n e, labelled job e = true → s.get n = some e → ∀ r ∈ rs, r.name ≠ n) :
    Same job s (deleteInOrder faults s rs).1 := by
  induction rs generalizing s with
  | nil => exact .refl job s
  | cons r rs ih =>
    rw [deleteInOrder]
    split
    next => exact .refl job s
    split
    next => exact .refl job s
    next =>
      have hstep : Same job s (s.keep (fun o => decide (o.name ≠ r.name))) := by
        intro n e hl
        rw [ObjectStore.get_keep, Option.filter_eq_some_iff, decide_eq_true_eq]
        refine and_iff_left_of_imp (fun hget => ?_)
        rw [ObjectStore.key_of_get hget]
        exact (hrs n e hl hget r List.mem_cons_self).symm
      refine hstep.trans (ih (fun n e hl hget r' hr' => ?_))
      exact hrs n e hl ((hstep n e hl).mp hget) r' (List.mem_cons_of_mem _ hr')

theorem same_release (h : Sighted job other env cl.resvs) : Same job cl.resvs (release env cl other).cluster.resvs :=
  same_deleteInOrder _ _ (fun _ _ hl hget => h.ne hl hget)

theorem mem_runTasks (ts : List Task) (hts : ∀ t ∈ ts, labelled other (object t) = true) :
    ∀ e ∈ (runTasks env s ts).1.items, labelled other e = true ∨ e ∈ s.items := by
  refine forall_run env.faults _ (fun r hr => ?_) (fun r hr old hname _ => ?_) (s, []) (fun e he => .inr he)
  · exact .inl (hts _ (mem_schedule.mp hr))
  · rw [replace, if_pos hname]
    exact .inl (hts _ (mem_schedule.mp hr))

theorem mem_reconcileReservations :
    ∀ e ∈ (reconcileReservations env s qu resvs).1.items, labelled qu.consumer e = true ∨ e ∈ s.items := by
  intro e he
  simp only [reconcileReservations] at he
  split at he
  next => exact .inr he
  next =>
    refine mem_runTasks _ (fun t ht => ?_) e he
    obtain ⟨r, hr, rfl⟩ := List.mem_map.mp ht
    exact labelled_wanted r hr
  next =>
    split at he
    next => exact .inr he
    next => exact .inr (List.mem_of_mem_filter he)
  next =>
    split at he
    next => exact .inr (List.mem_of_mem_filter he)
    next =>
      refine mem_runTasks _ (fun t ht => ?_) e he
      obtain ⟨r, hr, ⟨rfl, -⟩ | ⟨e', -, -, rfl⟩⟩ := mem_tasks ht
      · exact labelled_wanted r hr
      · exact labelled_wanted r hr

theorem same_reconcileReservations (hne : qu.consumer ≠ job) (h : Sighted job qu.consumer env s) :
    Same job s (reconcileReservations env s qu resvs).1 := by
  intro n e hl
  have hnot := notLabelled hne hl
  constructor
  · intro hget
    obtain ⟨hmem, rfl⟩ := ObjectStore.get_eq_some.mp hget
    obtain hother | hold := mem_reconcileReservations e hmem
    · rw [hnot] at hother
      cases hother
    · exact ObjectStore.mem_iff_get.mp hold
  · intro hget
    exact reconcileReservations_foreign hget hnot (h.ne hl hget)

theorem same_byPhase {resvs : Except String (List Reservation)}
    (hne : qu.consumer ≠ job) (h : Sighted job qu.consumer env cl.resvs) :
    Same job cl.resvs (byPhase env cl qu resvs).cluster.resvs := by
  rw [byPhase]
  split
  next => exact same_deleteWhere h _
  next => exact same_deleteWhere h _
  next =>
    split
    next => exact .refl job _
    next => exact same_release h
  next =>
    split
    next => exact .refl job _
    next =>
      cases resvs with
      | error text => exact (resvs_writeUnit _ _ _ _ _).symm ▸ .refl job _
      | ok rs =>
        have hround : Same job cl.resvs (reconcileReservations env cl.resvs qu rs).1 :=
          same_reconcileReservations hne h
        simp only [whenSchedReady]
        split
        next => exact hround
        next => exact hround
        next => exact (resvs_writeUnit _ _ _ _ _).symm ▸ hround
        next => exact (resvs_writeUnit _ _ _ _ _).symm ▸ hround
        next => exact hround

theorem same_reconcile {handles : GoMap String (Handle J)} {req : NamespacedName}
    (hne : jobOf cl req ≠ job) (h : Sighted job (jobOf cl req) env cl.resvs) :
    Same job cl.resvs (reconcile handles env cl req).cluster.resvs := by
  rw [jobOf] at hne h
  rw [reconcile]
  split
  next => exact .refl job _
  split
  next hunit =>
    rw [hunit] at h
    split
    next => exact .refl job _
    next => exact same_release h
  next qu hunit =>
    rw [hunit] at hne h
    rw [reconcileUnit]
    split
    next => exact .refl job _
    split
    next => exact .refl job _
    split
    next => exact .refl job _
    split
    next => exact .refl job _
    split
    next => exact .refl job _
    next => exact same_byPhase hne h

end Foreign

section Deletion

theorem splitOn_single {sep : Char} {cs : List Char} (h : sep ∉ cs) : cs.splitOn sep = [cs] := by
  have hsplit : ([sep].intercalate [cs]).splitOn sep = [cs] :=
    List.splitOn_intercalate sep (by simpa using h) (List.cons_ne_nil _ _)
  simpa using hsplit

theorem splitOn_pair {sep : Char} {as bs : List Char} (ha : sep ∉ as) (hb : sep ∉ bs) :
    (as ++ sep :: bs).splitOn sep = [as, bs] := by
  have hsplit : ([sep].intercalate [as, bs]).splitOn sep = [as, bs] :=
    List.splitOn_intercalate sep (by simp [ha, hb]) (List.cons_ne_nil _ _)
  simpa using hsplit

theorem parse_unit {name : String} (h : '|' ∉ name.toList) : parse name = (name, name) := by
  rw [parse, splitOn_single h]

theorem parse_reservation {name job : String} (hn : '|' ∉ name.toList) (hj : '|' ∉ job.toList) :
    parse (name ++ "|" ++ job) = (name, job) := by
  have htoList : (name ++ "|" ++ job).toList = name.toList ++ '|' :: job.toList := by simp
  rw [parse, htoList, splitOn_pair hn hj]
  simp

theorem deleteInOrder_calm {s : Reservations} {rs : List Reservation} (hrs : ∀ r ∈ rs, ∃ e, s.get r.name = some e)
    (hnodup : (rs.map Reservation.name).Nodup) :
    (deleteInOrder {} s rs).2 = none ∧ ∀ e ∈ (deleteInOrder {} s rs).1.items, e ∈ s.items ∧ ∀ r ∈ rs, e.name ≠ r.name := by
  induction rs generalizing s with
  | nil => exact ⟨rfl, fun e he => ⟨he, by simp⟩⟩
  | cons r rs ih =>
    obtain ⟨⟨e, hget⟩, hrest⟩ := List.forall_mem_cons.mp hrs
    obtain ⟨hfirst, hnodup⟩ := List.nodup_cons.mp hnodup
    rw [deleteInOrder, if_neg Bool.false_ne_true, if_neg (by simp [hget])]
    obtain ⟨herr, hkept⟩ := ih (s := s.keep (fun o => decide (o.name ≠ r.name))) (fun r' hr' => by
      obtain ⟨e', hget'⟩ := hrest r' hr'
      have hne : r'.name ≠ r.name := fun he => hfirst (he ▸ List.mem_map_of_mem hr')
      exact ⟨e', by simp [hget', ObjectStore.key_of_get hget', hne]⟩) hnodup
    refine ⟨herr, fun e he => ?_⟩
    obtain ⟨hmem, hnames⟩ := hkept e he
    obtain ⟨hold, hname⟩ := List.mem_filter.mp hmem
    exact ⟨hold, List.forall_mem_cons.mpr ⟨of_decide_eq_true hname, hnames⟩⟩

theorem release_empty {env : Env} (cl : Cluster J) (hcalm : env.faults = {}) (job : NamespacedName) :
    (release env cl job).err = none ∧ (release env cl job).cluster.resvs.items.filter (labelled job) = [] := by
  have hlisted : ∀ r ∈ cl.resvs.items.filter (labelled job), ∃ e, cl.resvs.get r.name = some e := fun r hr =>
    ⟨r, ObjectStore.mem_iff_get.mp (List.mem_of_mem_filter hr)⟩
  obtain ⟨herr, hkept⟩ :=
    deleteInOrder_calm hlisted (cl.resvs.nodup.sublist (List.filter_sublist.map Reservation.name))
  simp only [release, hcalm, existing_calm hcalm]
  refine ⟨herr, List.filter_eq_nil_iff.mpr fun e he hl => ?_⟩
  obtain ⟨hmem, hnames⟩ := hkept e he
  exact hnames e (List.mem_filter.mpr ⟨hmem, hl⟩) rfl

/-- When a unit whose name ends in the suffix of its kind is deleted, its own
event looks for the reservations of a job with the name of the unit, and those
of its job stay. They go with the next event of any one of them. -/
theorem reservations_outlive_unit (handles : GoMap String (Handle J)) (cl : Cluster J) (job : NamespacedName)
    (suffix : String) (hgone : cl.units.get ⟨job.ns, job.name ++ "-" ++ suffix⟩ = none)
    (hsuffix : '|' ∉ suffix.toList) (hname : '|' ∉ job.name.toList) :
    (∀ env : Env, env.faults.stale = none →
        Same job cl.resvs (reconcile handles env cl ⟨job.ns, job.name ++ "-" ++ suffix⟩).cluster.resvs) ∧
      ∀ env : Env, env.faults = {} →
        let o := reconcile handles env cl ⟨job.ns, job.name ++ "-" ++ suffix ++ "|" ++ job.name⟩
        o.err = none ∧ o.cluster.resvs.items.filter (labelled job) = [] := by
  have hbar : '|' ∉ (job.name ++ "-" ++ suffix).toList := by
    simp only [String.toList_append, List.mem_append, not_or]
    exact ⟨⟨hname, by decide⟩, hsuffix⟩
  constructor
  · intro env hcurrent
    suffices hne : jobOf cl ⟨job.ns, job.name ++ "-" ++ suffix⟩ ≠ job from
      same_reconcile hne (sighted_of_current hne hcurrent)
    simp only [jobOf, parse_unit hbar, hgone]
    intro he
    have hlen := congrArg (fun job : NamespacedName => job.name.length) he
    simp only [String.length_append] at hlen
    have hdash : "-".length = 1 := rfl
    omega
  · intro env hcalm
    simp only [reconcile, parse_reservation hbar hname, hcalm, hgone, Bool.false_eq_true, if_false]
    exact release_empty cl hcalm job

theorem reservations_outlive_unit_train :
    (∀ env : Env, env.faults.stale = none → Same ⟨"a", "train"⟩ Settling.twoNamespaces.resvs
        (reconcile Settling.onlyWorkers env Settling.twoNamespaces ⟨"a", "train" ++ "-" ++ "tf-qu"⟩).cluster.resvs) ∧
      ∀ env : Env, env.faults = {} →
        let o := reconcile Settling.onlyWorkers env Settling.twoNamespaces
          ⟨"a", "train" ++ "-" ++ "tf-qu" ++ "|" ++ "train"⟩
        o.err = none ∧ o.cluster.resvs.items.filter (labelled ⟨"a", "train"⟩) = [] :=
  reservations_outlive_unit Settling.onlyWorkers Settling.twoNamespaces ⟨"a", "train"⟩ "tf-qu" (by decide +kernel)
    (by decide +kernel) (by decide +kernel)

end Deletion

section Runs

variable (handles : GoMap String (Handle J))

def step (cl : Cluster J) (call : Env × NamespacedName) : Option (Cluster J) :=
  some (reconcile handles call.1 cl call.2).cluster

/-- The reservations that were made for a job of the kind. -/
def madeFor (kind : String) (job : NamespacedName) (r : Reservation) : Bool :=
  labelled job r && decide (valueAt r.annotations "reserved-job-type" = kind)

theorem Same.madeFor_subset {job : NamespacedName} {s t : Reservations} (h : Same job s t) (kind : String) :
    t.items.filter (madeFor kind job) ⊆ s.items.filter (madeFor kind job) := by
  intro e he
  obtain ⟨hmem, hmade⟩ := List.mem_filter.mp he
  have hl : labelled job e = true := (Bool.and_eq_true_iff.mp hmade).1
  refine List.mem_filter.mpr ⟨ObjectStore.mem_iff_get.mpr ?_, hmade⟩
  exact (h _ e hl).mp (ObjectStore.mem_iff_get.mp hmem)

/-- Whatever the controller does for jobs of other names, and however its calls
fail, the reservations of a job stay the same ones. The labels do not tell the
kinds of jobs apart: a running unit of any kind removes the reservations of the
jobs of all kinds that have the name of its own. -/
theorem isolated_by_name (kind : String) (job : NamespacedName) :
    (∀ (cl cl' : Cluster J) (calls : List (Env × NamespacedName)),
      Run.Guarded (step handles)
        (fun cl call => jobOf cl call.2 ≠ job ∧ Sighted job (jobOf cl call.2) call.1 cl.resvs) cl calls →
      Run.exec (step handles) cl calls = some cl' →
      cl'.resvs.items.filter (madeFor kind job) ⊆ cl.resvs.items.filter (madeFor kind job) ∧
        cl.resvs.items.filter (madeFor kind job) ⊆ cl'.resvs.items.filter (madeFor kind job)) ∧
    ∀ (env : Env) (cl : Cluster J) (req : NamespacedName) (qu : ReservedUnit) (handle : Handle J) (object : J),
      env.faults = {} → cl.units.get ⟨req.ns, (parse req.name).1⟩ = some qu → qu.status.phase = .running →
      qu.consumer = job → handles.lookup qu.jobTypeKey = some handle → handle.reservation.isSome = true →
      cl.jobs.lookup (qu.jobTypeKey, job) = some object →
      (reconcile handles env cl req).cluster.resvs.items.filter (madeFor kind job) = [] := by
  constructor
  · intro cl cl' calls hguard hrun
    have hsame : Same job cl.resvs cl'.resvs := by
      refine @Run.invariant _ _ _ _ (fun c => Same job cl.resvs c.resvs) ?_ _ _ _ (.refl job _) hguard hrun
      rintro c call c' hc ⟨hne, hsighted⟩ hstep
      cases hstep
      exact hc.trans (same_reconcile hne hsighted)
    exact ⟨hsame.madeFor_subset kind, hsame.symm.madeFor_subset kind⟩
  · rintro env cl req qu handle object hcalm hunit hphase rfl hhandle hres hobject
    obtain ⟨reservation, hreservation⟩ := Option.isSome_iff_exists.mp hres
    have hround : reconcile handles env cl req = release env cl qu.consumer := by
      simp [reconcile, hunit, reconcileUnit, filter, hphase, hhandle, hobject, hreservation, byPhase, hcalm]
    have hgone := (release_empty cl hcalm qu.consumer).2
    rw [hround, List.filter_eq_nil_iff]
    intro e he hmade
    exact List.filter_eq_nil_iff.mp hgone e he (Bool.and_eq_true_iff.mp hmade).1

end Runs

def torchJob : ReservedUnit :=
  { Settling.train with name := "train-py", consumerKind := "PyTorchJob", status := { phase := .schedReady } }

def torchWorker : Reservation :=
  { name := "train-master-0"
    labels := GoMap.ofList [(jobNamespaceLabel, "b"), (jobNameLabel, "train")]
    annotations := Finmap.singleton "reserved-job-type" torchJob.jobTypeKey }

def twoKinds : Cluster Unit :=
  { Settling.twoNamespaces with
    units := { items := [{ Settling.train with status := { phase := .running } }, torchJob], nodup := by decide +kernel }
    resvs := { items := [torchWorker] } }

theorem isolated_by_name_twoKinds :
    (∃ cl', Run.exec (step Settling.onlyWorkers) Settling.twoNamespaces [({}, ⟨"b", "train"⟩)] = some cl' ∧
      Settling.twoNamespaces.resvs.items.filter (madeFor "" ⟨"a", "train"⟩) ⊆
        cl'.resvs.items.filter (madeFor "" ⟨"a", "train"⟩)) ∧
    twoKinds.resvs.items.filter (madeFor torchJob.jobTypeKey ⟨"b", "train"⟩) = [torchWorker] ∧
      (reconcile Settling.onlyWorkers {} twoKinds ⟨"b", "train"⟩).cluster.resvs.items.filter
        (madeFor torchJob.jobTypeKey ⟨"b", "train"⟩) = [] := by
  have hother : jobOf Settling.twoNamespaces ⟨"b", "train"⟩ ≠ ⟨"a", "train"⟩ := by decide +kernel
  refine ⟨⟨_, rfl, ((isolated_by_name Settling.onlyWorkers "" ⟨"a", "train"⟩).1 _ _ [({}, ⟨"b", "train"⟩)] ?_ rfl).2⟩,
    by decide +kernel, ?_⟩
  · exact fun _ _ => ⟨⟨hother, sighted_of_current hother rfl⟩, trivial⟩
  · exact (isolated_by_name Settling.onlyWorkers _ ⟨"b", "train"⟩).2 {} twoKinds ⟨"b", "train"⟩
      { Settling.train with status := { phase := .running } } Settling.workerHandle () rfl (by decide +kernel) rfl rfl
      Finmap.lookup_singleton_eq rfl Finmap.lookup_singleton_eq

end KoordQueue.Reserving.Isolation
