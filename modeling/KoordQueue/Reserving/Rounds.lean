import KoordQueue.Reserving.Tasks

namespace KoordQueue.Reserving.Rounds

open Api Records Verdict Blacklist Controller Tasks

/-- A reservation as the handles build it: they fill in neither annotations nor a status. -/
structure Plain (r : Reservation) : Prop where
  annotations : r.annotations = ∅
  phase : r.phase = .unset

section Wanted

variable {env : Env} {qu : ReservedUnit} {resvs : List Reservation}

theorem map_applyBlacklist {β : Type} (f : Reservation → β)
    (hf : ∀ (r : Reservation) (t : Option (Ptr PodTemplate)), f { r with template := t } = f r)
    (blacklist : List NodeSelectorRequirement) (rs : List Reservation) :
    (applyBlacklist blacklist rs).map f = rs.map f := by
  rw [applyBlacklist]
  split
  next => rfl
  next =>
    rw [foldl_map_excludeAt, List.map_map]
    exact List.map_congr_left (fun r _ => hf r _)

theorem forall_wanted {p : Reservation → Prop}
    (hp : ∀ (r : Reservation) (t : Option (Ptr PodTemplate)), p r → p { r with template := t })
    (h : ∀ r ∈ resvs, ∀ rv total, p (decorate qu rv total r)) : ∀ r ∈ wanted env qu resvs, p r := by
  intro r hr
  rw [wanted, applyBlacklist] at hr
  split at hr
  next =>
    obtain ⟨r₀, h₀, rfl⟩ := List.mem_map.mp hr
    exact h r₀ h₀ _ _
  next =>
    rw [foldl_map_excludeAt] at hr
    obtain ⟨r₁, h₁, rfl⟩ := List.mem_map.mp hr
    obtain ⟨r₀, h₀, rfl⟩ := List.mem_map.mp h₁
    exact hp _ _ (h r₀ h₀ _ _)

theorem labelled_wanted : ∀ r ∈ wanted env qu resvs, labelled qu.consumer r = true := by
  refine forall_wanted (fun _ _ h => h) (fun r _ rv total => ?_)
  simp [labelled, decorate, jobNamespaceLabel, jobNameLabel]

theorem phase_wanted (h : ∀ r ∈ resvs, Plain r) : ∀ r ∈ wanted env qu resvs, r.phase = .unset :=
  forall_wanted (fun _ _ h => h) (fun r hr _ _ => (h r hr).phase)

def version (env : Env) : String :=
  let black := getJobBlackList env.now env.blacklistcm
  if black.1 = [] then "" else black.2

theorem version_wanted (h : ∀ r ∈ resvs, Plain r) :
    ∀ r ∈ wanted env qu resvs, valueAt r.annotations blacklistLabel = version env := by
  intro r hr
  have hval : ∀ r ∈ resvs, ∀ rv total,
      valueAt (decorate qu rv total r).annotations blacklistLabel = rv.getD "" := by
    intro r hr rv total
    have hplain := (h r hr).annotations
    cases rv <;> cases hown : qu.ownerReferences <;> simp [decorate, valueAt, hplain, blacklistLabel, hown]
  rw [version]
  have hmem : valueAt r.annotations blacklistLabel ∈
      (wanted env qu resvs).map (fun r => valueAt r.annotations blacklistLabel) := List.mem_map_of_mem hr
  rw [wanted, map_applyBlacklist _ (fun _ _ => rfl), List.map_map] at hmem
  obtain ⟨r₀, h₀, he⟩ := List.mem_map.mp hmem
  rw [← he, Function.comp_apply, hval r₀ h₀]
  split <;> rfl

theorem names_wanted : (wanted env qu resvs).map Reservation.name = resvs.map Reservation.name := by
  rw [wanted, map_applyBlacklist _ (fun _ _ => rfl), List.map_map]
  rfl

theorem getJobBlackList_eq (now now' : Time) (cm : Option ConfigMap) : getJobBlackList now cm = getJobBlackList now' cm := by
  match cm with
  | none => rfl
  | some ⟨rv, none⟩ => rfl
  | some ⟨rv, some entries⟩ => rw [getJobBlackList_some, getJobBlackList_some]

theorem wanted_eq {env' : Env} (h : env.blacklistcm = env'.blacklistcm) : wanted env qu resvs = wanted env' qu resvs := by
  rw [wanted, wanted, h, getJobBlackList_eq env.now env'.now]

end Wanted

section Round

variable (job : NamespacedName) (want : List Reservation) (s : Reservations)

/-- No wanted name is held by a reservation of another job. -/
def Free : Prop := ∀ r ∈ want, ∀ e, s.get r.name = some e → labelled job e = true

def Clean : Prop := ∀ e ∈ s.items, labelled job e = true → e.phase ≠ .failed

def Complete : Prop :=
  ∀ r ∈ want, ∃ e, s.get r.name = some e ∧ labelled job e = true ∧
    valueAt e.annotations blacklistLabel = valueAt r.annotations blacklistLabel

/-- There is nothing left to write. -/
def Settled : Prop := if want = [] then s.items.filter (labelled job) = [] else Clean job s ∧ Complete job want s

end Round

section Frame

variable {env : Env} {s : Reservations} {qu : ReservedUnit} {resvs : List Reservation}

def todo (env : Env) (s : Reservations) (qu : ReservedUnit) (resvs : List Reservation) : List Task :=
  tasks (wanted env qu resvs) (existing env s qu.consumer)

/-- A reservation of another job stays as it is, if no listing still shows its
name for this one. -/
theorem reconcileReservations_foreign {n : String} {e : Reservation} (he : s.get n = some e)
    (hl : labelled qu.consumer e = false) (hseen : ∀ r ∈ existing env s qu.consumer, r.name ≠ n) :
    (reconcileReservations env s qu resvs).1.get n = some e := by
  have hruns : ∀ ts : List Task, (∀ t ∈ ts, (object t).name = n → t = .create (object t)) →
      (runTasks env s ts).1.get n = some e := fun ts hts =>
    get_foldl_run_of_creates env.faults _ _ (fun t ht hn => hts t (mem_schedule.mp ht) hn) he
  have hkeeps : ∀ p : Reservation → Bool, p e = true → (s.keep p).get n = some e := by
    intro p hp
    rw [ObjectStore.get_keep, he, Option.filter_some, if_pos hp]
  simp only [reconcileReservations]
  split
  next => exact he
  next =>
    refine hruns _ (fun t ht _ => ?_)
    obtain ⟨r, -, rfl⟩ := List.mem_map.mp ht
    rfl
  next =>
    split
    next => exact he
    next => exact hkeeps _ (by simp [hl])
  next =>
    split
    next =>
      refine hkeeps _ ?_
      rw [Bool.not_eq_true', List.any_eq_false]
      intro r hr
      simp [ObjectStore.key_of_get he, hseen r hr]
    next =>
      refine hruns _ (fun t ht hn => ?_)
      obtain ⟨r, -, ⟨rfl, -⟩ | ⟨e', he', hname, rfl⟩⟩ := mem_tasks ht
      · rfl
      · exact absurd (hname.trans hn) (hseen e' he')

theorem reconcileReservations_unlisted {r : Reservation} (hr : r ∈ wanted env qu resvs)
    (h : ∀ e ∈ existing env s qu.consumer, e.name ≠ r.name) (status : Status) (msg : String) :
    (reconcileReservations env s qu resvs).2 ≠ .verdict status msg := by
  simp only [reconcileReservations]
  split
  next hw => exact absurd hr (by simp [hw])
  next => split <;> simp
  next hw => exact absurd hr (by simp [hw])
  next =>
    split
    next => simp
    next =>
      have htask : Task.create r ∈ todo env s qu resvs := by
        refine List.mem_filterMap.mpr ⟨r, hr, ?_⟩
        rw [task, List.find?_eq_none.mpr (by simpa using h)]
      have hneed : (createOrUpdateReservation env s (wanted env qu resvs) (existing env s qu.consumer)).2.1 = true :=
        decide_eq_true (List.ne_nil_of_mem htask)
      split
      next => simp
      next => simp
      next hst =>
        rw [hst] at hneed
        cases hneed

end Frame

section Calm

variable {env : Env} {s : Reservations} {qu : ReservedUnit} {resvs : List Reservation} {n : String}

theorem existing_calm (hcalm : env.faults = {}) (job : NamespacedName) :
    existing env s job = s.items.filter (labelled job) := by
  rw [existing, hcalm]
  rfl

variable {want : List Reservation} {job : NamespacedName} {t : Task}

theorem mem_existing (hcalm : env.faults = {}) {e : Reservation} :
    e ∈ existing env s job ↔ s.get e.name = some e ∧ labelled job e = true := by
  rw [existing_calm hcalm, List.mem_filter, ObjectStore.mem_iff_get]

theorem find_existing (hcalm : env.faults = {}) {r : Reservation} :
    (existing env s job).find? (fun e => e.name = r.name) = (s.get r.name).filter (labelled job) := by
  rw [existing_calm hcalm]
  exact ObjectStore.get_keep s (labelled job) r.name

/-- A reservation of the job for the current blacklist. -/
def Current (env : Env) (job : NamespacedName) (e : Reservation) : Prop :=
  labelled job e = true ∧ valueAt e.annotations blacklistLabel = version env

theorem writes_todo (hplain : ∀ r ∈ resvs, Plain r) (ht : t ∈ todo env s qu resvs) :
    Writes (Current env qu.consumer) t := by
  obtain ⟨r, hr, ⟨rfl, -⟩ | ⟨e, -, -, rfl⟩⟩ := mem_tasks ht
  · exact ⟨labelled_wanted r hr, version_wanted hplain r hr⟩
  · intro old hname
    rw [replace, if_pos hname]
    exact ⟨labelled_wanted r hr, version_wanted hplain r hr⟩

theorem fits_todo (hcalm : env.faults = {}) (hfree : Free qu.consumer (wanted env qu resvs) s)
    (ht : t ∈ todo env s qu resvs) : Fits s t := by
  obtain ⟨r, hr, ⟨rfl, hnone⟩ | ⟨e, he, hname, rfl⟩⟩ := mem_tasks ht
  · rw [find_existing hcalm] at hnone
    cases hget : s.get r.name with
    | none => exact hget
    | some e =>
      rw [hget, Option.filter_some, if_pos (hfree r hr e hget)] at hnone
      cases hnone
  · exact ⟨e, hname ▸ ((mem_existing hcalm).mp he).1, rfl⟩

theorem Complete.free (h : Complete job want s) : Free job want s := by
  intro r hr e he
  obtain ⟨e', he', hl, -⟩ := h r hr
  cases he.symm.trans he'
  exact hl

theorem clean_iff :
    Clean job s ↔ (s.items.filter (labelled job)).any (fun r => decide (r.phase = .failed)) = false := by
  simp only [Clean, List.any_filter, List.any_eq_false, Bool.and_eq_true, decide_eq_true_eq, not_and, ne_eq]

theorem reservationStatus_order (order order' : List String) (attempts : Int64) (rs : List Reservation) :
    (reservationStatus order attempts rs).1 = (reservationStatus order' attempts rs).1 := by
  simp only [reservationStatus]
  split
  next => rfl
  next => split <;> rfl

theorem settled_iff_of_ne (hw : want ≠ []) :
    Settled job want s ↔ Clean job s ∧ Complete job want s := by rw [Settled, if_neg hw]

theorem settled_verdict (hcalm : env.faults = {}) (h : Settled qu.consumer (wanted env qu resvs) s) :
    ∃ msg, reconcileReservations env s qu resvs =
      (s, .verdict (reservationStatus [] qu.status.attempts (s.items.filter (labelled qu.consumer))).1 msg) := by
  simp only [reconcileReservations, existing_calm hcalm]
  split
  next hheld hw => exact ⟨_, by rw [hheld]; rfl⟩
  next r rs hheld hw =>
    rw [settled_iff_of_ne (by rw [hw]; exact List.cons_ne_nil r rs)] at h
    obtain ⟨e, he, hl, -⟩ := h.2 r (by rw [hw]; exact List.mem_cons_self)
    have hmem : e ∈ s.items.filter (labelled qu.consumer) :=
      List.mem_filter.mpr ⟨(ObjectStore.get_eq_some.mp he).1, hl⟩
    rw [hheld] at hmem
    cases hmem
  next hheld hw =>
    rw [Settled, if_pos hw, hheld] at h
    cases h
  next e es r rs hheld hw =>
    rw [settled_iff_of_ne (by rw [hw]; exact List.cons_ne_nil r rs)] at h
    have hnone : tasks (wanted env qu resvs) (s.items.filter (labelled qu.consumer)) = [] := by
      rw [tasks, List.filterMap_eq_nil_iff, ← existing_calm hcalm]
      intro r hr
      obtain ⟨e, he, hl, hver⟩ := h.2 r hr
      rw [task, find_existing hcalm, he, Option.filter_some, if_pos hl]
      exact if_neg (not_not_intro hver)
    have hrun : runTasks env s [] = (s, []) := by
      rw [runTasks, (env.schedule_perm []).eq_nil]
      rfl
    have hall := clean_iff.mp h.1
    rw [hheld] at hall hnone
    rw [hheld, hall, if_neg Bool.false_ne_true, createOrUpdateReservation, hnone, hrun]
    exact ⟨_, congrArg (fun status => (s, Answer.verdict status _)) (reservationStatus_order _ _ _ _)⟩

theorem clean_update (hplain : ∀ r ∈ resvs, Plain r) (hfree : Free qu.consumer (wanted env qu resvs) s)
    (hclean : Clean qu.consumer s) : Clean qu.consumer (runTasks env s (todo env s qu resvs)).1 := by
  -- an object that is updated has a wanted name, and then it is one of the job
  suffices h : ∀ e ∈ (runTasks env s (todo env s qu resvs)).1.items,
      (labelled qu.consumer e = true ∨ ∃ r ∈ wanted env qu resvs, r.name = e.name) → e.phase ≠ .failed from
    fun e he hl => h e he (.inl hl)
  refine forall_run env.faults _ (fun r ht => ?_) (fun r ht old hname hold => ?_) (s, []) ?_
  · obtain ⟨r, hr, ⟨heq, -⟩ | ⟨e, -, -, heq⟩⟩ := mem_tasks (mem_schedule.mp ht) <;> cases heq
    rw [phase_wanted hplain r hr]
    simp
  · obtain ⟨r, hr, ⟨heq, -⟩ | ⟨e, -, -, heq⟩⟩ := mem_tasks (mem_schedule.mp ht) <;> cases heq
    rw [replace, if_pos hname]
    exact fun _ => hold (.inr ⟨r, hr, hname.symm⟩)
  · rintro e he (hl | ⟨r, hr, hname⟩)
    · exact hclean e he hl
    · exact hclean e he (hfree r hr e (hname ▸ ObjectStore.mem_iff_get.mp he))

theorem complete_update (hcalm : env.faults = {}) (hplain : ∀ r ∈ resvs, Plain r)
    (hfree : Free qu.consumer (wanted env qu resvs) s) :
    Complete qu.consumer (wanted env qu resvs) (runTasks env s (todo env s qu resvs)).1 := by
  have hdone : ∀ t ∈ todo env s qu resvs, ∃ e,
      (runTasks env s (todo env s qu resvs)).1.get (object t).name = some e ∧ Current env qu.consumer e := by
    rw [runTasks, hcalm]
    intro t ht
    refine done_foldl_run (fun u hu => ?_) (s, []) (fun n => .inl rfl) t (mem_schedule.mpr ht)
    exact ⟨writes_todo hplain (mem_schedule.mp hu), fits_todo hcalm hfree (mem_schedule.mp hu)⟩
  have hkept : Replaced (Current env qu.consumer) s (runTasks env s (todo env s qu resvs)).1 := by
    rw [runTasks, hcalm]
    exact replaced_foldl_run (fun u hu => writes_todo hplain (mem_schedule.mp hu)) (s, [])
  suffices h : ∀ r ∈ wanted env qu resvs, ∃ e,
      (runTasks env s (todo env s qu resvs)).1.get r.name = some e ∧ Current env qu.consumer e by
    intro r hr
    obtain ⟨e, he, hl, hver⟩ := h r hr
    exact ⟨e, he, hl, hver.trans (version_wanted hplain r hr).symm⟩
  intro r hr
  by_cases htask : ∃ t, task (existing env s qu.consumer) r = some t
  · obtain ⟨t, ht⟩ := htask
    have hmem : t ∈ todo env s qu resvs := List.mem_filterMap.mpr ⟨r, hr, ht⟩
    have hname : (object t).name = r.name := by
      rw [task] at ht
      split at ht
      next => cases ht; rfl
      next =>
        split at ht
        next => cases ht; rfl
        next => cases ht
    exact hname ▸ hdone t hmem
  · -- no task: the reservation is there in the version that is wanted
    rw [task, find_existing hcalm] at htask
    split at htask
    next => simp at htask
    next e hfind =>
      obtain ⟨hget, hl⟩ := Option.filter_eq_some_iff.mp hfind
      split at htask
      next => simp at htask
      next hver =>
        obtain hsame | hgood := hkept r.name
        · exact ⟨e, hsame.trans hget, hl, (not_not.mp hver).trans (version_wanted hplain r hr)⟩
        · exact hgood

theorem settled_update (hcalm : env.faults = {}) (hplain : ∀ r ∈ resvs, Plain r) (hw : wanted env qu resvs ≠ [])
    (hfree : Free qu.consumer (wanted env qu resvs) s) (hclean : Clean qu.consumer s) :
    Settled qu.consumer (wanted env qu resvs) (runTasks env s (todo env s qu resvs)).1 :=
  (settled_iff_of_ne hw).mpr ⟨clean_update hplain hfree hclean, complete_update hcalm hplain hfree⟩

theorem settled_create (hcalm : env.faults = {}) (hplain : ∀ r ∈ resvs, Plain r) (hw : wanted env qu resvs ≠ [])
    (hfree : Free qu.consumer (wanted env qu resvs) s) (hown : s.items.filter (labelled qu.consumer) = []) :
    Settled qu.consumer (wanted env qu resvs) (createReservations env s (wanted env qu resvs)).1 := by
  have htodo : todo env s qu resvs = (wanted env qu resvs).map .create := by
    rw [todo, existing_calm hcalm, hown, tasks, ← List.filterMap_eq_map]
    rfl
  have hset := settled_update hcalm hplain hw hfree (clean_iff.mpr (by rw [hown]; rfl))
  rwa [htodo] at hset

theorem Free.mono {t : Reservations} (h : Free job want s)
    (hsub : ∀ k e, t.get k = some e → s.get k = some e) : Free job want t :=
  fun r hr e he => h r hr e (hsub _ _ he)

/-- A round that finds something to write asks for another one. It settles
everything at once, unless the scheduler has given up on a reservation: then it
only removes those it has given up on. -/
theorem round_unsettled (hcalm : env.faults = {}) (hplain : ∀ r ∈ resvs, Plain r)
    (hfree : Free qu.consumer (wanted env qu resvs) s) (h : ¬Settled qu.consumer (wanted env qu resvs) s) :
    (∀ status msg, (reconcileReservations env s qu resvs).2 ≠ .verdict status msg) ∧
      (Settled qu.consumer (wanted env qu resvs) (reconcileReservations env s qu resvs).1 ∨
        (¬Clean qu.consumer s ∧ Clean qu.consumer (reconcileReservations env s qu resvs).1)) ∧
      Free qu.consumer (wanted env qu resvs) (reconcileReservations env s qu resvs).1 := by
  have hheld := existing_calm (s := s) hcalm qu.consumer
  simp only [reconcileReservations, hheld]
  split
  next hnil hw => exact absurd (by rw [Settled, if_pos hw, hnil]) h
  next r rs hnil hw =>
    have hne : wanted env qu resvs ≠ [] := by
      rw [hw]
      exact List.cons_ne_nil r rs
    have hset := settled_create hcalm hplain hne hfree hnil
    refine ⟨?_, .inl hset, ?_⟩
    · intro status msg
      dsimp only
      split <;> simp
    · exact ((settled_iff_of_ne hne).mp hset).2.free
  next e es hcons hw =>
    rw [if_neg (by rw [hcalm]; exact Bool.false_ne_true)]
    refine ⟨by simp, .inl ?_, ?_⟩
    · rw [Settled, if_pos hw, ObjectStore.keep, List.filter_filter, List.filter_eq_nil_iff]
      simp
    · rw [hw]
      intro r hr
      cases hr
  next e es r rs hcons hw =>
    have hne : wanted env qu resvs ≠ [] := by
      rw [hw]
      exact List.cons_ne_nil r rs
    split
    next hfailed =>
      refine ⟨by simp, .inr ⟨?_, ?_⟩, hfree.mono ?_⟩
      · rw [clean_iff, hfailed]
        decide
      · intro e he hl hphase
        obtain ⟨hmem, hkeep⟩ := List.mem_filter.mp he
        have hlisted : e ∈ existing env s qu.consumer :=
          (mem_existing hcalm).mpr ⟨ObjectStore.mem_iff_get.mp hmem, hl⟩
        rw [Bool.not_eq_true', List.any_eq_false] at hkeep
        exact hkeep e hlisted (by simp [hphase, hcalm])
      · intro k e he
        rw [deleteWhere, ObjectStore.get_keep] at he
        exact (Option.filter_eq_some_iff.mp he).1
    next hfailed =>
      have hset : Settled qu.consumer (wanted env qu resvs)
          (createOrUpdateReservation env s (wanted env qu resvs) (s.items.filter (labelled qu.consumer))).1 := by
        rw [← hheld]
        exact settled_update hcalm hplain hne hfree (clean_iff.mpr (Bool.not_eq_true _ ▸ hfailed))
      refine ⟨?_, .inl hset, ?_⟩
      · intro status msg
        dsimp only
        split
        next => simp
        next => simp
        next hnone =>
          -- no task at all would mean that nothing was left to write
          have hnil : tasks (wanted env qu resvs) (s.items.filter (labelled qu.consumer)) = [] := by
            have hflag := congrArg Prod.fst hnone
            simpa [createOrUpdateReservation] using hflag
          rw [createOrUpdateReservation, hnil, runTasks, (env.schedule_perm []).eq_nil] at hset
          exact absurd hset h
      · exact ((settled_iff_of_ne hne).mp hset).2.free

end Calm

end KoordQueue.Reserving.Rounds
