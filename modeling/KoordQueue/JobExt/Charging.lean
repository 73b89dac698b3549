import KoordQueue.JobExt.Lifecycle

namespace KoordQueue.JobExt.Charging

open Api Resources UnitStatus UnitInfo Pods Records Reporter Effects Conditions Lifecycle Queue.Preempt
open Quota.Info Quota.Cache Quota.Reversal Quota.Solvency
open Quota.Conservation (CacheOp)
open Quota.Holding (storedAt)

/-- All admissions of the unit are for podsets that its spec lists. -/
def Payable (qu : QueueUnit) : Prop :=
  ∀ ad ∈ qu.status.admissions, ad.name ≠ koordQueueDefaultRequirement ∧ HasPodSet qu ad.name

section Amounts

variable [ResourceHelpers]

/-- The replicas of the admission times the request of its podset, and nothing
when there is no such podset. -/
def requestedAmount (qu : QueueUnit) (ad : Admission) (k : ResourceName) : Int64 :=
  ((qu.spec.podSets.find? (fun ps => ps.name = ad.name)).map (fun ps =>
    amount (newResource (ResourceHelpers.podRequests ps.template)).resources k * ad.replicas)).getD 0

def claimed (qu : QueueUnit) (ad : Admission) (k : ResourceName) : Int64 :=
  larger (requestedAmount qu ad k) ((ad.resources.lookup k).map (read k))

/-- What the unit reserves is defined and adds up what its admissions claim. A
unit of the old form has none and reserves what its spec says. -/
def Charged (qu : QueueUnit) : Prop :=
  ∃ res, getReservedResource qu = some res ∧
    (isV1VersionDequeued qu = false →
      ∀ k, amount res.resources k = qu.status.admissions.foldl (fun sum ad => sum + claimed qu ad k) 0)

variable {qu : QueueUnit}

theorem requestedByPodSet_listed {ad : Admission} (h : HasPodSet qu ad.name) :
    ∃ res, requestedByPodSet qu ad = some res ∧ ∀ k, amount res.resources k = requestedAmount qu ad k := by
  have hfound : (qu.spec.podSets.find? (fun ps => ps.name = ad.name)).isSome = true := by
    obtain ⟨ps, hps, hname⟩ := h
    rw [List.find?_isSome]
    exact ⟨ps, hps, decide_eq_true hname⟩
  obtain ⟨ps, hps⟩ := Option.isSome_iff_exists.mp hfound
  refine ⟨scaleUp (newResource (ResourceHelpers.podRequests ps.template)) ad.replicas, ?_, ?_⟩
  · rw [requestedByPodSet, hps, Option.map_some]
  · intro k
    rw [amount_scaleUp, requestedAmount, hps, Option.map_some, Option.getD_some]

theorem addAdmissions_listed {ads : List Admission} (h : ∀ ad ∈ ads, HasPodSet qu ad.name) (converted : Resource) :
    ∃ res, convertFromStatusAdmissionToResource.addAdmissions qu ads converted = some res ∧
      ∀ k, amount res.resources k = ads.foldl (fun sum ad => sum + claimed qu ad k) (amount converted.resources k) := by
  induction ads generalizing converted with
  | nil => exact ⟨converted, rfl, fun _ => rfl⟩
  | cons ad ads ih =>
    obtain ⟨hfirst, hrest⟩ := List.forall_mem_cons.mp h
    obtain ⟨req, hreq, hamount⟩ := requestedByPodSet_listed hfirst
    obtain ⟨res, hres, hsum⟩ := ih hrest (converted.add (max req (newResource ad.resources)).resourceList)
    refine ⟨res, ?_, ?_⟩
    · rw [convertFromStatusAdmissionToResource.addAdmissions, hreq]
      exact hres
    · intro k
      rw [hsum, List.foldl_cons, amount_add_resourceList, amount_max, hamount, lookup_newResource, claimed]

theorem getReservedResource_eq (hcurrent : isV1VersionDequeued qu = false)
    (hdefault : ∀ ad ∈ qu.status.admissions, ad.name ≠ koordQueueDefaultRequirement) :
    getReservedResource qu =
      convertFromStatusAdmissionToResource.addAdmissions qu qu.status.admissions (newResource ∅) := by
  unfold getReservedResource convertFromStatusAdmissionToResource
  rw [hcurrent, if_neg Bool.false_ne_true]
  split
  next ad hads =>
    have hname := hdefault ad (by rw [hads]; exact List.mem_singleton_self ad)
    rw [if_neg hname, hads]
  next => rfl

theorem charged_of_payable (h : Payable qu) : Charged qu := by
  cases hcurrent : isV1VersionDequeued qu with
  | true =>
    refine ⟨(newResource ∅).addResource (newResource qu.spec.resource), ?_, fun hfalse => ?_⟩
    · unfold getReservedResource convertFromStatusAdmissionToResource
      rw [if_pos hcurrent]
    · rw [hcurrent] at hfalse
      cases hfalse
  | false =>
    obtain ⟨res, hres, hsum⟩ := addAdmissions_listed (fun ad had => (h ad had).2) (newResource ∅)
    refine ⟨res, ?_, fun _ => hsum⟩
    rw [getReservedResource_eq hcurrent (fun ad had => (h ad had).1)]
    exact hres

end Amounts

section Steps

variable {job : Job} {handle : JobHandle} {podSets ps : List PodSet} {qu : QueueUnit} {name : String} {now : Time}

theorem payable_of_names (h : ∀ name ∈ qu.status.admissions.map Admission.name,
    name ≠ koordQueueDefaultRequirement ∧ HasPodSet qu name) : Payable qu :=
  fun ad had => h ad.name (List.mem_map_of_mem had)

theorem Payable.names (h : Payable qu) : ∀ name ∈ qu.status.admissions.map Admission.name,
    name ≠ koordQueueDefaultRequirement ∧ HasPodSet qu name := by
  intro name hname
  obtain ⟨ad, had, rfl⟩ := List.mem_map.mp hname
  exact h ad had

theorem mem_counts : (counts podSets).lookup name ≠ none ↔ ∃ ps ∈ podSets, ps.name = name := by
  rw [counts, ne_eq, GoMap.lookup_ofList_none, not_not, List.map_map]
  exact List.mem_map

theorem listed_reconcilePodSets (h : ∃ p ∈ ps, p.name = name) :
    ∃ p ∈ (reconcilePodSets podSets ps).2, p.name = name := by
  simp only [reconcilePodSets, List.mem_append]
  by_cases hold : (counts podSets).lookup name = none
  · have hfound : (ps.find? (fun np => np.name = name)).isSome = true := by
      obtain ⟨p, hp, hname⟩ := h
      rw [List.find?_isSome]
      exact ⟨p, hp, decide_eq_true hname⟩
    obtain ⟨p, hp⟩ := Option.isSome_iff_exists.mp hfound
    have hname := List.find?_some hp
    refine ⟨p, Or.inr (List.mem_filterMap.mpr ⟨name, ?_, hp⟩), of_decide_eq_true hname⟩
    obtain ⟨p', hp', hname'⟩ := h
    exact List.mem_filter.mpr ⟨List.mem_dedup.mpr (List.mem_map.mpr ⟨p', hp', hname'⟩), decide_eq_true hold⟩
  · obtain ⟨p, hp, rfl⟩ := mem_counts.mp hold
    obtain ⟨count, hcount⟩ := Option.ne_none_iff_exists'.mp (mem_counts.mpr h)
    exact ⟨{ p with count }, Or.inl (List.mem_filterMap.mpr ⟨p, hp, by rw [hcount, Option.map_some]⟩), rfl⟩

theorem listed_of_agree (hagree : (reconcilePodSets podSets ps).1 = false)
    (h : ∃ p ∈ podSets, p.name = name) : ∃ p ∈ ps, p.name = name := by
  obtain ⟨count, hcount⟩ := Option.ne_none_iff_exists'.mp (mem_counts.mpr h)
  have hany := (Bool.or_eq_false_iff.mp hagree).1
  rw [← mem_counts]
  intro hnone
  have htrue : GoMap.any (counts podSets) (fun n c => decide ((counts ps).lookup n ≠ some c)) = true := by
    rw [GoMap.any_iff]
    exact ⟨name, count, hcount, by rw [hnone]; rfl⟩
  rw [hany] at htrue
  cases htrue

/-- No step takes a podset away from an admission: grants and pods are for
podsets that the spec lists, and a job that drops a podset has nothing admitted
for it. -/
def Keeps (w : World) : Action → Prop
  | .observe => True
  | .dequeue _ _ _ _ _ grants _ =>
    (∀ ad ∈ w.cached.status.admissions, HasPodSet w.stored.toQueueUnit ad.name) ∧
      ∀ g ∈ grants, g.name ≠ koordQueueDefaultRequirement ∧ HasPodSet w.stored.toQueueUnit g.name
  | .preempt _ _ => True
  | .reconcile _ _ job base accepted => accepted = true → base = w.stored →
      ((reconcilePodSets w.stored.spec.podSets job.podSet).1 = true →
        ∀ ad ∈ w.stored.status.admissions, ∃ ps ∈ job.podSet, ps.name = ad.name) ∧
      ∀ pods, job.pods = some pods → ∀ name ∈ podSetNames pods,
        name ≠ koordQueueDefaultRequirement ∧ HasPodSet w.stored.toQueueUnit name
  | .charge _ => True

variable {w t : World} {a : Action}

theorem payable_dequeue {f : Features} {timeNow : Time} {strict small : Bool} {grants : List FrameworkAdmission}
    {matched : List String} (hcached : Payable w.cached.toQueueUnit)
    (hkeeps : Keeps w (.dequeue f now strict small timeNow grants matched)) :
    Payable (written w (.dequeue f now strict small timeNow grants matched)).toQueueUnit := by
  obtain ⟨hold, hgrants⟩ := hkeeps
  have hspec : (written w (.dequeue f now strict small timeNow grants matched)).spec = w.stored.spec :=
    (overwrite_spec f now w.stored _).1
  apply payable_of_names
  intro name hname
  rw [HasPodSet, hspec]
  rw [admissions_dequeue] at hname
  rcases (names_grants grants w.cached.status.admissions name).mp hname with hname | hname
  · obtain ⟨ad, had, rfl⟩ := List.mem_map.mp hname
    exact ⟨(hcached ad had).1, hold ad had⟩
  · obtain ⟨g, hg, rfl⟩ := List.mem_map.mp hname
    exact hgrants g hg

theorem payable_preempt {pps : GoMap String FrameworkAdmission} (h : Payable w.stored.toQueueUnit) :
    Payable (written w (.preempt now pps)).toQueueUnit := by
  rw [written]
  cases hqu : preemptQueueUnit pps now w.stored.toQueueUnit with
  | none => exact h
  | some qu =>
    obtain ⟨ads, hask, rfl⟩ := preemptQueueUnit_eq_some hqu
    have hnames := names_askBack hask
    apply payable_of_names
    intro name hname
    exact h.names name (hnames ▸ hname)

theorem listed_store {observedPods : GoMap String (Finset String)}
    {firstSeen : GoMap String Time} {stored : JobUnit} {pods : List Pod} {wr : Write}
    (hagree : (reconcilePodSets stored.spec.podSets job.podSet).1 = false)
    (h : Effect now handle job observedPods firstSeen
      (stored.setPodSets (reconcilePodSets stored.spec.podSets job.podSet).2) pods wr)
    (hlisted : HasPodSet stored.toQueueUnit name) : HasPodSet (Write.store wr stored).toQueueUnit name := by
  cases h with
  | reclaim | podDeletion | overadmission | partialRunning => exact hlisted
  | synced _ _ hs =>
    obtain ⟨_, rfl | rfl⟩ := syncInFlightWorkers_cases hs
    · exact listed_reconcilePodSets (listed_of_agree hagree hlisted)
    · exact hlisted

theorem payable_reconcile {base : JobUnit} {accepted : Bool}
    (h : Payable w.stored.toQueueUnit) (hkeeps : Keeps w (.reconcile now handle job base accepted)) :
    Payable (written w (.reconcile now handle job base accepted)).toQueueUnit := by
  rw [written]
  split
  next hacc =>
    obtain ⟨hdrops, hpods⟩ := hkeeps hacc.1 hacc.2
    refine store_round (P := fun u => Payable u.toQueueUnit) h
      (fun hneed ad had => ⟨(h ad had).1, listed_reconcilePodSets (hdrops hneed ad had)⟩)
      (fun pods wr hagree hjob heffect => payable_of_names (fun name hname => ?_))
    have hnamed : name ≠ koordQueueDefaultRequirement ∧ HasPodSet w.stored.toQueueUnit name := by
      rcases (names_effect heffect (rfl : w.stored.status.admissions = _)).1 name hname with hold | hnew
      · exact h.names name hold
      · exact hpods pods hjob name hnew
    exact ⟨hnamed.1, listed_store hagree heffect hnamed.2⟩
  next => exact h

/-- All versions of the unit are payable, and the quotas hold only those. -/
structure Orderly (w : World) : Prop where
  payable : ∀ qu ∈ w.seen, Payable qu.toQueueUnit
  stored : w.stored ∈ w.seen
  cached : w.cached ∈ w.seen
  uid : ∀ qu ∈ w.seen, qu.uid = w.stored.uid
  held : ∀ x v, storedAt w.quotas w.stored.uid x = some v → v.unit ∈ w.seen.map JobUnit.toQueueUnit

theorem orderly_start {qu : JobUnit} (h : Payable qu.toQueueUnit) : Orderly (start qu) where
  payable := by
    intro v hv
    rw [List.mem_singleton.mp hv]
    exact h
  stored := List.mem_singleton_self qu
  cached := List.mem_singleton_self qu
  uid := by
    intro v hv
    rw [List.mem_singleton.mp hv]
    rfl
  held := by
    intro x v hv
    cases hv

theorem Orderly.write (h : Orderly w) (hpay : Payable (written w a).toQueueUnit) (r : ResourceReporter) :
    Orderly { w with stored := written w a, seen := written w a :: w.seen, reporter := r } where
  payable := List.forall_mem_cons.mpr ⟨hpay, h.payable⟩
  stored := List.mem_cons_self
  cached := List.mem_cons_of_mem _ h.cached
  uid := List.forall_mem_cons.mpr ⟨rfl, fun qu hqu => (h.uid qu hqu).trans (uid_written w a).symm⟩
  held := by
    intro x v hv
    have hold : storedAt w.quotas w.stored.uid x = some v := uid_written w a ▸ hv
    exact List.mem_cons_of_mem _ (h.held x v hold)

variable [ResourceHelpers]

theorem orderly_step (h : Orderly w) (hkeeps : Keeps w a) (hstep : Lifecycle.step w a = some t) : Orderly t := by
  cases a with
  | observe =>
    cases hstep
    exact ⟨h.payable, h.stored, h.stored, h.uid, h.held⟩
  | dequeue f now strict small timeNow grants matched =>
    cases hstep
    exact h.write (payable_dequeue (h.payable _ h.cached) hkeeps) w.reporter
  | preempt now pps =>
    cases hstep
    exact h.write (payable_preempt (h.payable _ h.stored)) w.reporter
  | reconcile now handle job base accepted =>
    cases hstep
    exact h.write (payable_reconcile (h.payable _ h.stored) hkeeps) _
  | charge op =>
    rw [Lifecycle.step, Option.ite_none_right_eq_some] at hstep
    obtain ⟨hknown, hstep⟩ := hstep
    obtain ⟨quotas, hop, rfl⟩ := Option.map_eq_some_iff.mp hstep
    refine ⟨h.payable, h.stored, h.cached, h.uid, fun x v hv => ?_⟩
    rcases from_step hop w.stored.uid x v hv with hold | hnew
    · exact h.held x v hold
    · obtain ⟨info, _, hl⟩ := Option.bind_eq_some_iff.mp hv
      exact hknown v hnew (info.reserved.keyed _ _ hl)

/-- Charging works on every version of a unit: what it reserves is what its
admissions claim, and no call of the quota cache with these versions crashes. -/
theorem charging_never_crashes {qu : JobUnit} (hqu : Payable qu.toQueueUnit) {as : List Action}
    (hkeeps : Run.Guarded Lifecycle.step Keeps (start qu) as) (hrun : Run.exec Lifecycle.step (start qu) as = some w) :
    (∀ v ∈ w.seen, Charged v.toQueueUnit) ∧
      ∀ op : CacheOp, (∀ u ∈ named op, u.unit ∈ w.seen.map JobUnit.toQueueUnit) →
        ∃ c, Quota.Conservation.step w.quotas op = some c := by
  have hw : Orderly w := Run.invariant (fun _ _ _ h hk hs => orderly_step h hk hs) (orderly_start hqu) hkeeps hrun
  have hpriced : ∀ u : QueueUnitInfo, u.unit ∈ w.seen.map JobUnit.toQueueUnit → Priced u := by
    intro u hu
    obtain ⟨v, hv, hunit⟩ := List.mem_map.mp hu
    obtain ⟨res, hres, _⟩ := charged_of_payable (hw.payable v hv)
    rw [Priced, ← hunit, hres]
    simp
  refine ⟨fun v hv => charged_of_payable (hw.payable v hv), fun op hop => ?_⟩
  refine step_returns (fun u hu => hpriced u (hop u hu)) (fun u hu x v hv => hpriced v ?_)
  obtain ⟨version, hversion, hunit⟩ := List.mem_map.mp (hop u hu)
  have huid : u.unit.uid = w.stored.uid := by
    rw [← hunit]
    exact hw.uid version hversion
  rw [huid] at hv
  exact hw.held x v hv

end Steps

section Runs

def infoOf (qu : JobUnit) : QueueUnitInfo := { name := qu.key, unit := qu.toQueueUnit }

def twoCores : PodSpec := { containers := [{ requests := some (Finmap.singleton "cpu" ⟨2000⟩) }] }

def waitingUnit : JobUnit :=
  { workerUnit .enqueued 1 [] with
    uid := "u", labels := Finmap.singleton quotaNameLabelKey "a"
    spec := { podSets := [{ name := "worker", count := 1, template := twoCores }] } }

def admitWorker : Action := .dequeue {} 0 false false 0 [⟨"worker", 1⟩] []

def admittedUnit : JobUnit := written (start waitingUnit) admitWorker

def chargedRun : List Action :=
  [.charge (.addOrUpdateQuota (cpuQuota "a" koordRootQuota 10)), admitWorker,
    .charge (.reserve "a" (infoOf admittedUnit))]

def reportWorker : Action := .reconcile 0 {} (jobOf admittedUnit [worker "w-0" "node-1"]) admittedUnit true

def reportedUnit : JobUnit := written { start admittedUnit with seen := [] } reportWorker

def reportedRun : List Action :=
  [admitWorker, reportWorker, .charge (.addOrUpdateQuota (cpuQuota "a" koordRootQuota 10)),
    .charge (.reserve "a" (infoOf admittedUnit))]

theorem payable_waitingUnit : Payable waitingUnit.toQueueUnit := fun _ h => absurd h List.not_mem_nil

theorem keeps_reportedRun : Run.Guarded (@Lifecycle.step firstContainer) Keeps (start waitingUnit) reportedRun := by
  have hworker : HasPodSet waitingUnit.toQueueUnit "worker" := ⟨_, List.mem_singleton_self _, rfl⟩
  intro t ht
  cases ht
  refine ⟨⟨fun _ h => absurd h List.not_mem_nil, fun g hg => ?_⟩, fun t ht => ?_⟩
  · rw [List.mem_singleton.mp hg]
    exact ⟨by decide, hworker⟩
  · cases ht
    refine ⟨fun _ _ => ⟨fun hchanged => ?_, fun pods hpods name hname => ?_⟩, fun _ _ => ⟨trivial, fun _ _ => ⟨trivial, trivial⟩⟩⟩
    · revert hchanged
      decide +kernel
    · cases hpods
      cases List.mem_singleton.mp (hname : name ∈ ["worker"])
      exact ⟨by decide, hworker⟩

/-- A round of the reporter between the dequeue and the charge: the unit is charged with the request
of its pod, and the change of the unit can be charged too. -/
theorem reportedRun_survives : ∃ w, Run.exec (@Lifecycle.step firstContainer) (start waitingUnit) reportedRun = some w ∧
    reportedUnit ∈ w.seen ∧ reportedUnit.status.admissions.map Admission.running = [1] ∧
      (∃ res, @getReservedResource firstContainer reportedUnit.toQueueUnit = some res ∧ amount res.resources "cpu" = 2000) ∧
      ∃ c, @Quota.Conservation.step firstContainer w.quotas (.resize (infoOf admittedUnit) (infoOf reportedUnit)) = some c := by
  obtain ⟨w, hrun, hadmitted, hreported⟩ : ∃ w, Run.exec (@Lifecycle.step firstContainer) (start waitingUnit)
      reportedRun = some w ∧ admittedUnit ∈ w.seen ∧ reportedUnit ∈ w.seen := by decide +kernel
  obtain ⟨hcharged, hcalls⟩ := @charging_never_crashes w firstContainer waitingUnit payable_waitingUnit reportedRun
    keeps_reportedRun hrun
  refine ⟨w, hrun, hreported, by decide +kernel, ?_, hcalls _ (fun u hu => ?_)⟩
  · obtain ⟨res, hres, hsum⟩ := hcharged _ hreported
    exact ⟨res, hres, (hsum (by decide +kernel) "cpu").trans (by decide +kernel)⟩
  · obtain rfl | rfl : u = infoOf admittedUnit ∨ u = infoOf reportedUnit := by simpa [named] using hu
    · exact List.mem_map_of_mem hadmitted
    · exact List.mem_map_of_mem hreported

def strippedRun : List Action := chargedRun ++ [.reconcile 0 {} { queueUnit := some admittedUnit } admittedUnit true]

theorem strippedRun_crashes : ∃ w, Run.exec (@Lifecycle.step noPods) (start waitingUnit) strippedRun = some w ∧
    w.stored ∈ w.seen ∧ @getReservedResource noPods w.stored.toQueueUnit = none ∧
      @Quota.Conservation.step noPods w.quotas (.resize (infoOf admittedUnit) (infoOf w.stored)) = none := by
  decide +kernel

end Runs

end KoordQueue.JobExt.Charging
