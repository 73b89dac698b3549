import KoordQueue.Scheduler.Agreement

namespace KoordQueue.Scheduler.Settlement

open Api UnitStatus Quota Info Cache Chain Balance Ledger Scheduler.Cycle Informer Labels
open Convergence Agreement Run

section Start

variable [ResourceHelpers]

structure Uncharged (c : CacheImpl) : Prop where
  recorded : c.reserved = ∅
  charged : ∀ uid x, chargedAt c uid x = none
  balanced : ∀ x info, c.quotas.lookup x = some info → Balanced x info

omit [ResourceHelpers] in
theorem chargedAt_addOrUpdateQuota (c : CacheImpl) (q : ElasticQuota) (uid : UID) (x : QuotaName) :
    chargedAt (addOrUpdateQuota c q) uid x = chargedAt c uid x := by
  simp only [chargedAt, addOrUpdateQuota, GoMap.lookup_insert_eq]
  split
  next he =>
    subst x
    cases c.quotas.lookup q.name <;> rfl
  next => rfl

variable {c : CacheImpl}

theorem balanced_addOrUpdateQuota (h : ∀ x info, c.quotas.lookup x = some info → Balanced x info)
    (q : ElasticQuota) (x : QuotaName) (info : ElasticQuotaInfo)
    (hinfo : (addOrUpdateQuota c q).quotas.lookup x = some info) : Balanced x info := by
  simp only [addOrUpdateQuota, GoMap.lookup_insert_eq] at hinfo
  split at hinfo
  next he =>
    subst x
    cases hq : c.quotas.lookup q.name with
    | none =>
      simp only [hq, Option.some.injEq] at hinfo
      exact hinfo ▸ balanced_newElasticQuotaInfo q
    | some old =>
      simp only [hq, Option.some.injEq] at hinfo
      subst info
      intro i k
      rw [← h q.name old hq i k]
      cases i <;> rfl
  next => exact h x info hinfo

theorem uncharged_foldl (quotas : List ElasticQuota) (h : Uncharged c) :
    Uncharged (quotas.foldl addOrUpdateQuota c) := by
  induction quotas generalizing c with
  | nil => exact h
  | cons q quotas ih =>
    exact ih ⟨h.recorded, fun uid x => (chargedAt_addOrUpdateQuota c q uid x).trans (h.charged uid x),
      balanced_addOrUpdateQuota h.balanced q⟩

theorem uncharged_buildCache : Uncharged buildCache where
  recorded := rfl
  charged := fun _ _ => rfl
  balanced := fun _ _ hinfo => absurd hinfo (by simp [buildCache])

theorem Uncharged.booked (h : Uncharged c) (quotaOf : UID → QuotaName) :
    Booked quotaOf c.quotas.keys c (fun _ => none) where
  quotas := fun _ => Finmap.mem_keys.symm
  recorded := fun uid => by rw [h.recorded, Finmap.lookup_empty, Option.map_none]
  charged := fun uid x => by rw [h.charged, ite_self]
  placed := fun _ _ hv => absurd hv (by simp)
  priced := fun _ _ hv => absurd hv (by simp)
  owned := fun _ _ hv => absurd hv (by simp)
  balanced := h.balanced

theorem tallied_start (quotaOf : UID → QuotaName) (quotas : List ElasticQuota) :
    Tallied quotaOf (quotas.foldl addOrUpdateQuota buildCache).quotas.keys (start quotas) (fun _ => none) where
  booked := (uncharged_foldl quotas uncharged_buildCache).booked quotaOf
  agreeing := fun _ _ hv => absurd hv (by simp [start])
  backed := fun _ hne => absurd rfl hne

omit [ResourceHelpers] in
theorem wellLabelled_start (quotaOf : UID → QuotaName) (quotas : List ElasticQuota) :
    WellLabelled quotaOf (start quotas) where
  stage := fun _ _ h => by rcases h with h | h <;> cases h
  completing := fun _ h => absurd h List.not_mem_nil
  stored := fun _ _ h => absurd h (by simp [start])
  observed := fun _ _ h => absurd h (by simp [start])
  pending := fun _ _ h => absurd h List.not_mem_nil

end Start

section Runs

variable [ResourceHelpers] {quotaOf : UID → QuotaName} {rate : ℚ}

/-- Every quota on the path of an assigned unit is charged with the amount of
the unit's observed version, no quota is charged with any other unit, and the
counters are the sums of the charges. -/
structure Settled (w : Cluster) : Prop where
  assigned : ∀ uid v, w.observed.lookup uid = some v → isQueueUnitAssigned v = true →
    ∀ x ∈ chain w.world.cache (getQuotaName v), ∃ b res, chargedAt w.world.cache uid x = some b ∧
      getReservedResource b = some res ∧ getReservedResource v = some res
  unassigned : ∀ uid, ¬ Assigned w uid → ∀ x, chargedAt w.world.cache uid x = none
  counted : ∀ x info, w.world.cache.quotas.lookup x = some info → Balanced x info

theorem settled_of_tallied {known : Finset QuotaName} {w : Cluster} {book : Book} (h : Tallied quotaOf known w book)
    (hl : WellLabelled quotaOf w) (hquiet : Quiet w) : Settled w where
  assigned := by
    intro uid v hv ha x hx
    obtain ⟨rfl, hlabel⟩ := hl.observed uid v hv
    rw [hlabel] at hx
    have hq : quotaOf v.uid ∈ known := by
      rw [← h.booked.quotas]
      by_contra hnot
      rw [chain, if_neg hnot] at hx
      cases hx
    obtain ⟨b, hb, hsame⟩ := h.agreeing v.uid v hv ha hq
    obtain ⟨res, hres⟩ := h.booked.priced v.uid b hb
    refine ⟨b, res, ?_, hres, hsame ▸ hres⟩
    rw [h.booked.charged, if_pos hx, hb]
  unassigned := by
    intro uid hno x
    have hnone : book uid = none := by
      by_contra hne
      rcases h.backed uid hne with ha | ((⟨q, unit, hq, _⟩ | ⟨unit, hm, _⟩) | ⟨u, hm, _⟩) | ⟨v, hm, _⟩
      · exact hno ha
      · rw [hquiet.cycle] at hq
        cases hq
      · rw [hquiet.dequeuing] at hm
        cases hm
      · rw [hquiet.completing] at hm
        cases hm
      · rw [hquiet.pending] at hm
        cases hm
    rw [h.booked.charged, hnone, ite_self]
  counted := h.booked.balanced

/-- Once every change has been delivered and no cycle is under way, the charges
agree with the observed admissions, in every run whose steps do not come in the
way of a charge. -/
theorem charges_agree {quotas : List ElasticQuota} {as : List Action} {w : Cluster}
    (hlabels : ∀ a ∈ as, Labelled quotaOf a) (hok : Guarded (step rate) Steady (start quotas) as)
    (hrun : exec (step rate) (start quotas) as = some w) (hquiet : Quiet w) : Settled w := by
  have hstep : ∀ s a t, (WellLabelled quotaOf s ∧ ∃ book, Tallied quotaOf
      (quotas.foldl addOrUpdateQuota buildCache).quotas.keys s book) → Labelled quotaOf a ∧ Steady s a →
      step rate s a = some t → WellLabelled quotaOf t ∧ ∃ book, Tallied quotaOf
        (quotas.foldl addOrUpdateQuota buildCache).quotas.keys t book := by
    rintro s a t ⟨hl, book, h⟩ ⟨ha, hsteady⟩ hs
    exact ⟨wellLabelled_step hl ha hs, tallied_step h hl ha hsteady hs⟩
  obtain ⟨hl, book, h⟩ := invariant hstep ⟨wellLabelled_start quotaOf quotas, _, tallied_start quotaOf quotas⟩
    (guarded_and hlabels hok) hrun
  exact settled_of_tallied h hl hquiet

end Runs

section Decidable

instance (w : Cluster) (uid : UID) : Decidable (Assigned w uid) :=
  decidable_of_iff ((w.observed.lookup uid).any isQueueUnitAssigned = true) (Option.any_eq_true _ _)

instance (w : Cluster) (uid : UID) : Decidable (Announced w uid) :=
  decidable_of_iff (∃ e ∈ w.pending, ∃ v ∈ e.2, e.1 = uid ∧ isQueueUnitAssigned v = true) (by
    constructor
    · rintro ⟨⟨_, _⟩, hm, v, rfl, rfl, ha⟩
      exact ⟨v, hm, ha⟩
    · rintro ⟨v, hm, ha⟩
      exact ⟨_, hm, v, rfl, rfl, ha⟩)

deriving instance Decidable for OfQuota, Labelled

instance {p : QueueUnit → Prop} [DecidablePred p] : (stage : Stage) → Decidable (∀ unit, stage = .reserved unit → p unit)
  | .idle | .filtered _ => isTrue (fun _ h => nomatch h)
  | .reserved unit => decidable_of_iff (p unit) (by simp)

instance [ResourceHelpers] (c : CacheImpl) (uid : UID) (v : QueueUnit) : Decidable (ChargedLike c uid v) :=
  decidable_of_iff (∀ x ∈ c.quotas.keys, ∀ b ∈ chargedAt c uid x, getReservedResource b = getReservedResource v) (by
    constructor
    · intro h x b hb
      obtain ⟨info, hinfo, _⟩ := Option.bind_eq_some_iff.mp hb
      exact h x (Finmap.mem_keys.mpr (Finmap.mem_iff.mpr ⟨info, hinfo⟩)) b hb
    · exact fun h x _ b hb => h x b hb)

instance [ResourceHelpers] (w : Cluster) : (a : Action) → Decidable (Steady w a)
  | .deliver =>
    decidable_of_iff (∀ e ∈ w.pending.head?, ∀ v ∈ e.2, isQueueUnitAssigned v = true →
        (Assigned w e.1 ∧ e.1 ∉ w.world.cache.scheduling) ∨ ChargedLike w.world.cache e.1 v) (by
      constructor
      · intro h uid v rest hp
        exact h (uid, some v) (by simp [hp]) v rfl
      · rintro h ⟨uid, change⟩ he v rfl
        obtain ⟨rest, hp⟩ := List.head?_eq_some_iff.mp he
        exact h uid v rest hp)
  | .cycle (.laterReserveFails q) => inferInstanceAs (Decidable (∀ unit, w.world.cycle q = .reserved unit → _))
  | .cycle (.queueReserveFails q _) => inferInstanceAs (Decidable (∀ unit, w.world.cycle q = .reserved unit → _))
  | .cycle (.dequeueFails _ _) => inferInstanceAs (Decidable (_ → _))
  | .write _ _ _ _ _ _ => inferInstanceAs (Decidable (_ = _))
  | .complete _ => inferInstanceAs (Decidable (_ ∨ _))
  | .create _ | .modify _ | .remove _ | .cycle (.filter _ _) | .cycle (.reject _) | .cycle (.reserve _)
  | .cycle (.queueReserve _) | .cycle (.dequeueSucceeds _ _) => isTrue trivial

end Decidable

section TopUp

@[reducible] def overheadPods : ResourceHelpers := ⟨PodSpec.overhead⟩

def workers (replicas : Int64) : QueueUnit where
  ns := "ns"
  name := "u"
  uid := "u"
  labels := Finmap.singleton quotaNameLabelKey "a"
  spec := { podSets := [{ name := "worker", count := 2, template := { overhead := Finmap.singleton "cpu" ⟨6⟩ } }] }
  status := { phase := .dequeued, admissions := [{ name := "worker", replicas }] }

def toppedUp : QueueUnit := written (workers 1) (workers 1) ⟨false, false, false⟩ 0 [⟨"worker", 1⟩]

def topUp : List Action :=
  [.create (workers 1), .deliver, .cycle (.filter "q" (workers 1)), .cycle (.reserve "q"), .cycle (.queueReserve "q"),
    .write (workers 1) (workers 1) (workers 1) ⟨false, false, false⟩ 0 [⟨"worker", 1⟩]]

def oneQuota : Cluster := start [cpuQuota "a" koordRootQuota 20]

def cycledOnce : QueueName → Stage :=
  Function.update (Function.update (Function.update (fun _ => .idle) "q" (.filtered (workers 1)))
    "q" (.reserved (workers 1))) "q" .idle

theorem quiet_of_cycledOnce {w : Cluster} (hcycle : w.world.cycle = cycledOnce)
    (hdone : w.pending = [] ∧ w.world.dequeuing = [] ∧ w.completing = []) : Quiet w where
  pending := hdone.1
  cycle := by
    intro q
    rw [hcycle, cycledOnce, Function.update_idem, Function.update_idem, Function.update_apply, ite_self]
  dequeuing := hdone.2.1
  completing := hdone.2.2

theorem charges_agree_completed_first :
    ∃ w, exec (@step overheadPods 1) oneQuota (topUp ++ [.complete toppedUp, .deliver]) = some w ∧
      Assigned w "u" ∧ @Settled overheadPods w := by
  obtain ⟨w, hrun, ha, hdone⟩ : ∃ w, exec (@step overheadPods 1) oneQuota (topUp ++ [.complete toppedUp, .deliver]) =
      some w ∧ Assigned w "u" ∧ w.pending = [] ∧ w.world.dequeuing = [] ∧ w.completing = [] := by decide +kernel
  have hcycle : (exec (@step overheadPods 1) oneQuota (topUp ++ [.complete toppedUp, .deliver])).map
      (fun w => w.world.cycle) = some cycledOnce := rfl
  rw [hrun, Option.map_some, Option.some.injEq] at hcycle
  exact ⟨w, hrun, ha, @charges_agree overheadPods (fun _ => "a") 1 [cpuQuota "a" koordRootQuota 20] _ w
    (by decide +kernel) (by decide +kernel) hrun (quiet_of_cycledOnce hcycle hdone)⟩

/-- When the informer brings the write before `DequeueComplete` runs, its resize
is skipped and the charge stays at one worker. -/
theorem charge_stale_delivered_first :
    ∃ w, exec (@step overheadPods 1) oneQuota (topUp ++ [.deliver, .complete toppedUp]) = some w ∧ Quiet w ∧
      ¬ @Settled overheadPods w := by
  obtain ⟨w, hrun, hdone, hobs, hchain, hat⟩ : ∃ w,
      exec (@step overheadPods 1) oneQuota (topUp ++ [.deliver, .complete toppedUp]) = some w ∧
      (w.pending = [] ∧ w.world.dequeuing = [] ∧ w.completing = []) ∧ w.observed.lookup "u" = some toppedUp ∧
      "a" ∈ chain w.world.cache "a" ∧ chargedAt w.world.cache "u" "a" = some (workers 1) := by decide +kernel
  have hcycle : (exec (@step overheadPods 1) oneQuota (topUp ++ [.deliver, .complete toppedUp])).map
      (fun w => w.world.cycle) = some cycledOnce := rfl
  rw [hrun, Option.map_some, Option.some.injEq] at hcycle
  refine ⟨w, hrun, quiet_of_cycledOnce hcycle hdone, ?_⟩
  intro hs
  obtain ⟨b, res, hb, hold, hnew⟩ := @Settled.assigned overheadPods w hs "u" toppedUp hobs (by decide +kernel) "a" hchain
  rw [hat, Option.some.injEq] at hb
  have hdiffer : @getReservedResource overheadPods (workers 1) ≠ @getReservedResource overheadPods toppedUp := by
    decide +kernel
  exact hdiffer (hb ▸ hold.trans hnew.symm)

end TopUp

end KoordQueue.Scheduler.Settlement
