import KoordQueue.Scheduler.QuotaSafety

namespace KoordQueue.Scheduler.QuotaInterleaving

open Api Resources Quota Info Cache Chain Charge CheckUsage Scheduler.Cycle QuotaSafety Run

section Runs

variable [ResourceHelpers] {w w' : World} {a : CycleAction}

theorem within_addQueueUnit {q : QuotaName} {unit : QueueUnit} {info info' : ElasticQuotaInfo} {k : ResourceName}
    (hspec : ChargesSpec unit)
    (hexact : (amount info.used k + amount (newResource unit.spec.resource).resources k).toInt =
      (amount info.used k).toInt + (amount (newResource unit.spec.resource).resources k).toInt)
    (hroom : Info.checkUsage q (unitInfoOf unit) 1 info = .ok ())
    (h : addQueueUnit q (unitInfoOf (copiedUnit unit)) info = some info') (hwithin : WithinMax info k) :
    WithinMax info' k := by
  by_cases hheld : (unitInfoOf (copiedUnit unit)).unit.uid ∈ info.reserved.units
  · rw [addQueueUnit_held hheld, Option.some.injEq] at h
    exact h ▸ hwithin
  · obtain ⟨res, hres, hinfo'⟩ := addQueueUnit_new hheld h
    have hused := amount_addQueueUnit hheld hres h .used k
    rw [unitInfoOf_unit] at hres hused
    have hshare : share .used q (copiedUnit unit) res k = amount res.resources k := if_pos rfl
    rw [hshare, hspec res hres k] at hused
    intro m hm
    have hmax : info'.max = info.max := by rw [hinfo', charge_max]
    rw [hmax] at hm
    change (amount (counter info' .used) k).toInt ≤ m.toInt
    rw [hused]
    by_cases hk : k ∈ (newResource unit.spec.resource).resources
    · rw [show counter info .used = info.used from rfl, hexact]
      have hroom' := @checkUsage_room q (unitInfoOf unit) info hroom k m
      rw [unitInfoOf_unit] at hroom'
      exact hroom' hk hm
    · have hzero : amount (newResource unit.spec.resource).resources k = 0 := by
        rw [amount, Finmap.lookup_eq_none.mpr hk]
        rfl
      rw [hzero, Int64.add_zero]
      exact hwithin m hm

theorem reserveSafe_of_checksHold (hw : ChecksHold w) (he : Exact w a) (h : cycleStep 1 w a = some w') :
    ReserveSafe w a w' := by
  rintro q unit rfl hq hq' x hx hne info info' hinfo hinfo' k hwithin m hm
  obtain ⟨hspec, hexact⟩ := he q unit rfl hq
  obtain ⟨_, cache, hq₁, hcase⟩ := taken_of_cycleStep h
  rw [hq, Stage.filtered.injEq] at hq₁
  subst hq₁
  rcases hcase with ⟨hr, rfl⟩ | ⟨_, _, _, _, rfl⟩
  · obtain ⟨checked, hchecked, hroom⟩ := checkUsage_ok hw.1 (hw.2 q unit hq) hx hne
    rw [hinfo, Option.some.injEq] at hchecked
    subst checked
    rw [Plugin.reserve, quota_copiedUnit] at hr
    rcases reserve_cases hr with ⟨rfl, _⟩ | ⟨_, hmem, _, quotas, hv, rfl⟩
    · change w.cache.quotas.lookup x = some info' at hinfo'
      rw [hinfo, Option.some.injEq] at hinfo'
      subst info'
      exact hwithin m hm
    · obtain ⟨_, hinfo₁, hadd⟩ := visitFrom_lookup_some hmem hv hinfo'
      change w.cache.quotas.lookup x = some _ at hinfo₁
      rw [hinfo, Option.some.injEq] at hinfo₁
      subst hinfo₁
      have hchain : x ∈ chain (markScheduling w.cache (unitInfoOf (copiedUnit unit)).unit.uid)
        (getQuotaName unit) := hx
      rw [if_pos hchain] at hadd
      exact within_addQueueUnit hspec (hexact x hx info hinfo k) hroom hadd hwithin m hm
  · rw [setCycle_cycle, if_pos rfl] at hq'
    cases hq'

/-- In a run where no cycle walks over quotas that another cycle has checked
and not reserved yet, every reserve stays within the limits. -/
theorem reserve_within_max {w₀ : World} {as : List CycleAction} (hidle : ∀ q, w₀.cycle q = .idle)
    (hroot : RootOnTop w₀.cache) (hg : Guarded (cycleStep 1) (fun w a => Exact w a ∧ Undisturbed w a) w₀ (as ++ [a]))
    (hrun : exec (cycleStep 1) w₀ as = some w) (hstep : cycleStep 1 w a = some w') : ReserveSafe w a w' := by
  have hstart : ChecksHold w₀ := by
    refine ⟨hroot, fun q unit hq => ?_⟩
    rw [hidle q] at hq
    cases hq
  have hw : ChecksHold w := invariant (fun _ _ _ hi hok hs => checksHold_step hi hok.2 hs) hstart
    (guarded_left hg) hrun
  exact reserveSafe_of_checksHold hw (guarded_append hg hrun w' hstep).1.1 hstep

end Runs

def siblingQuotas : CacheImpl :=
  [cpuQuota "p" koordRootQuota 10, cpuQuota "a" "p" 10, cpuQuota "b" "p" 10].foldl addOrUpdateQuota buildCache

variable {info : ElasticQuotaInfo} {x : QuotaName}

theorem siblingQuotas_fresh (h : siblingQuotas.quotas.lookup x = some info) :
    info.used = ∅ ∧ info.max = Finmap.singleton "cpu" 10 :=
  (GoMap.forall_entries siblingQuotas.quotas
    (fun _ info => info.used = ∅ ∧ info.max = Finmap.singleton "cpu" 10)).mp (by decide) x info h

theorem siblingQuotas_within
    (h : siblingQuotas.quotas.lookup x = some info) (k : ResourceName) : WithinMax info k := by
  obtain ⟨hused, hmax⟩ := siblingQuotas_fresh h
  intro m hm
  have hall := (GoMap.forall_entries info.max (fun _ m => (0 : Int64).toInt ≤ m.toInt)).mp
    (by rw [hmax]; decide) k m hm
  rwa [hused]

def apartQuotas : CacheImpl :=
  [cpuQuota "a" koordRootQuota 10, cpuQuota "b" koordRootQuota 10].foldl addOrUpdateQuota buildCache

def bothFiltered : World :=
  ((idleWorld apartQuotas).setCycle "qa" (.filtered (cpuUnit "u" "a" 6 .enqueued))).setCycle "qb"
    (.filtered (cpuUnit "v" "b" 6 .enqueued))

/-- The queues check units of quotas that meet in the root only, and then one of them reserves. -/
theorem reserve_within_max_apart :
    ∃ w', exec (@cycleStep noPods 1) (idleWorld apartQuotas)
        [.filter "qa" (cpuUnit "u" "a" 6 .enqueued), .filter "qb" (cpuUnit "v" "b" 6 .enqueued)] = some bothFiltered ∧
      @cycleStep noPods 1 bothFiltered (.reserve "qa") = some w' ∧ ReserveSafe bothFiltered (.reserve "qa") w' := by
  have hfirst := @cycleStep_filter noPods 1 (idleWorld apartQuotas) "qa" (cpuUnit "u" "a" 6 .enqueued) rfl (by decide +kernel)
  have hsecond := @cycleStep_filter noPods 1 ((idleWorld apartQuotas).setCycle "qa"
    (.filtered (cpuUnit "u" "a" 6 .enqueued))) "qb" (cpuUnit "v" "b" 6 .enqueued) rfl (by decide +kernel)
  have hrun : exec (@cycleStep noPods 1) (idleWorld apartQuotas)
      [.filter "qa" (cpuUnit "u" "a" 6 .enqueued), .filter "qb" (cpuUnit "v" "b" 6 .enqueued)] = some bothFiltered :=
    (exec_cons _ _ _ _ _).mpr ⟨_, hfirst, (exec_cons _ _ _ _ _).mpr ⟨_, hsecond, rfl⟩⟩
  have hreserve : (@cycleStep noPods 1 bothFiltered (.reserve "qa")).isSome = true := by decide +kernel
  obtain ⟨w', hw'⟩ := Option.isSome_iff_exists.mp hreserve
  refine ⟨w', hrun, hw', @reserve_within_max noPods _ w' _ (idleWorld apartQuotas) _ (fun _ => rfl) ?_ ?_ hrun hw'⟩
  · have htop : parentOf apartQuotas.quotaParent apartQuotas.quotas koordRootQuota = none := by decide
    intro p hp
    rw [idleWorld, htop] at hp
    cases hp
  · refine (guarded_cons_of_eq hfirst).mpr ⟨⟨by simp [Exact], by simp [Undisturbed, walkStart]⟩, ?_⟩
    refine (guarded_cons_of_eq hsecond).mpr ⟨⟨by simp [Exact], by simp [Undisturbed, walkStart]⟩, ?_⟩
    refine (guarded_cons_of_eq hw').mpr ⟨⟨?_, ?_⟩, trivial⟩
    · rintro q unit hq hf
      cases hq
      cases hf
      refine ⟨@chargesSpec_of_no_admissions noPods _ rfl, fun x _ info hinfo k => ?_⟩
      have hused : info.used = ∅ :=
        (GoMap.forall_entries apartQuotas.quotas (fun _ info => info.used = ∅)).mp (by decide) x info hinfo
      have hzero : amount info.used k = 0 := by
        rw [hused]
        rfl
      rw [hzero, Int64.zero_add]
      simp
    · intro p hp q unit hne hq
      cases hp
      -- the queue that has checked a unit and is not the one to reserve is the other one
      rw [bothFiltered, setCycle_cycle] at hq
      split at hq
      next =>
        cases hq
        decide +kernel
      next =>
        rw [setCycle_cycle] at hq
        split at hq
        next he => exact absurd (congrArg CycleAction.reserve he.symm) hne
        next => cases hq

/-- Two queues check units of sibling quotas before either of them reserves:
both reserve, and the parent ends above its limit. -/
theorem interleaved_reserve_exceeds_max :
    (∀ x info, siblingQuotas.quotas.lookup x = some info → ∀ k, WithinMax info k) ∧
    ∃ w w', exec (@cycleStep noPods 1) (idleWorld siblingQuotas)
        [.filter "qa" (cpuUnit "u" "a" 6 .enqueued), .filter "qb" (cpuUnit "v" "b" 6 .enqueued),
         .reserve "qa"] = some w ∧
      @cycleStep noPods 1 w (.reserve "qb") = some w' ∧ ¬ ReserveSafe w (.reserve "qb") w' := by
  refine ⟨fun x info hinfo k => siblingQuotas_within hinfo k, ?_⟩
  have hrun : (exec (@cycleStep noPods 1) (idleWorld siblingQuotas)
      [.filter "qa" (cpuUnit "u" "a" 6 .enqueued), .filter "qb" (cpuUnit "v" "b" 6 .enqueued),
       .reserve "qa"]).any (fun w => (@cycleStep noPods 1 w (.reserve "qb")).any (fun w' =>
        w.cycle "qb" = .filtered (cpuUnit "v" "b" 6 .enqueued) ∧
        w'.cycle "qb" = .reserved (cpuUnit "v" "b" 6 .enqueued) ∧ "p" ∈ chain w.cache "b" ∧
        (w.cache.quotas.lookup "p").any (fun info => (w'.cache.quotas.lookup "p").any (fun info' =>
          info.max = Finmap.singleton "cpu" 10 ∧ amount info.used "cpu" = 6 ∧
          info'.max.lookup "cpu" = some 10 ∧ amount info'.used "cpu" = 12)))) = true := by decide +kernel
  obtain ⟨w, hw, hlast⟩ := (Option.any_eq_true _ _).mp hrun
  obtain ⟨w', hw', hfacts⟩ := (Option.any_eq_true _ _).mp hlast
  obtain ⟨hbefore, hafter, hchain, hquotas⟩ := of_decide_eq_true hfacts
  obtain ⟨info, hinfo, hquotas⟩ := (Option.any_eq_true _ _).mp hquotas
  obtain ⟨info', hinfo', hquotas⟩ := (Option.any_eq_true _ _).mp hquotas
  obtain ⟨hmax, hused, hmax', hused'⟩ := of_decide_eq_true hquotas
  refine ⟨w, w', hw, hw', fun hsafe => ?_⟩
  have hwithin : WithinMax info "cpu" := by
    intro m hm
    rw [hmax, Finmap.lookup_singleton_eq, Option.some.injEq] at hm
    rw [hused, ← hm]
    decide
  have hbad := hsafe "qb" _ rfl hbefore hafter "p" hchain (by decide) info info' hinfo hinfo' "cpu" hwithin 10 hmax'
  rw [hused'] at hbad
  exact absurd hbad (by decide)

end KoordQueue.Scheduler.QuotaInterleaving
