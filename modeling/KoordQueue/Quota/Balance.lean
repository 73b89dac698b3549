import KoordQueue.Lib.Total
import KoordQueue.Quota.Charge
import KoordQueue.Lib.Run

namespace KoordQueue.Quota.Balance

open Api Resources UnitStatus UnitInfo Info Charge

instance addCommMonoidInt64 : AddCommMonoid Int64 where
  add_assoc := Int64.add_assoc
  zero_add := Int64.zero_add
  add_zero := Int64.add_zero
  add_comm := Int64.add_comm
  nsmul := nsmulRec

variable [ResourceHelpers]

def stake (i : Counter) (q : QuotaName) (k : ResourceName) (u : QueueUnitInfo) : Int64 :=
  ((getReservedResource u.unit).map (fun res => share i q u.unit res k)).getD 0

def Balanced (q : QuotaName) (info : ElasticQuotaInfo) : Prop :=
  ∀ i k, amount (counter info i) k = GoMap.total (stake i q k) info.reserved.units

variable {q : QuotaName} {u : QueueUnitInfo} {info info' : ElasticQuotaInfo}

theorem stake_of_priced {res : Resource} (hres : getReservedResource u.unit = some res) (i : Counter) (k : ResourceName) :
    stake i q k u = share i q u.unit res k := by
  rw [stake, hres, Option.map_some, Option.getD_some]

theorem balanced_newElasticQuotaInfo (quota : ElasticQuota) : Balanced q (newElasticQuotaInfo quota) := by
  intro i k
  cases i <;> rfl

theorem balanced_addQueueUnit (hb : Balanced q info) (h : addQueueUnit q u info = some info') : Balanced q info' := by
  by_cases hu : u.unit.uid ∈ info.reserved.units
  · rw [addQueueUnit_held hu, Option.some.injEq] at h
    exact h ▸ hb
  · obtain ⟨res, hres, hinfo'⟩ := addQueueUnit_new hu h
    intro i k
    have hunits : info'.reserved.units = info.reserved.units.insert u.unit.uid u := by
      rw [hinfo', charge_reserved]
      rfl
    rw [amount_addQueueUnit hu hres h, hb i k, hunits, GoMap.total_insert hu, stake_of_priced hres, Int64.add_comm]

theorem balanced_deleteQueueUnit (hb : Balanced q info) (h : deleteQueueUnit q u info = some info') :
    Balanced q info' := by
  by_cases hu : u.unit.uid ∈ info.reserved.units
  · obtain ⟨old, hold⟩ := Finmap.mem_iff.mp hu
    obtain ⟨res, hres, hinfo'⟩ := deleteQueueUnit_held hold h
    intro i k
    have hunits : info'.reserved.units = info.reserved.units.erase u.unit.uid := by
      rw [hinfo', charge_reserved]
      rfl
    rw [amount_deleteQueueUnit hold hres h, hb i k, hunits, ← GoMap.total_erase hold, stake_of_priced hres,
      Int64.add_comm, Int64.add_sub_cancel]
  · rw [deleteQueueUnit_absent hu, Option.some.injEq] at h
    exact h ▸ hb

theorem balanced_resizeQueueUnit (hb : Balanced q info)
    (hlabel : ∀ old, info.reserved.units.lookup u.unit.uid = some old → getQuotaName old.unit = getQuotaName u.unit)
    (h : resizeQueueUnit q u info = some info') : Balanced q info' := by
  rcases resizeQueueUnit_cases h with ⟨_, rfl⟩ | ⟨old, _, _, hold, hres, hres', ⟨hsame, rfl⟩ | ⟨_, mid, hdel, hadd⟩⟩
  · exact hb
  · intro i k
    have hstake : stake i q k u = stake i q k old := by
      rw [stake_of_priced hres, stake_of_priced hres', share, share, hlabel old hold, hsame]
    exact (hb i k).trans (GoMap.total_replace hold _ hstake).symm
  · exact balanced_addQueueUnit (balanced_deleteQueueUnit hb hdel) hadd

section Runs

/-- The calls that change what is charged to one quota. -/
inductive QuotaOp
  | addQueueUnit (queueUnit : QueueUnitInfo)
  | deleteQueueUnit (queueUnit : QueueUnitInfo)
  | resizeQueueUnit (newQueueUnit : QueueUnitInfo)

def QuotaOp.queueUnit : QuotaOp → QueueUnitInfo
  | .addQueueUnit u => u
  | .deleteQueueUnit u => u
  | .resizeQueueUnit u => u

def quotaStep (q : QuotaName) (info : ElasticQuotaInfo) : QuotaOp → Option ElasticQuotaInfo
  | .addQueueUnit u => addQueueUnit q u info
  | .deleteQueueUnit u => deleteQueueUnit q u info
  | .resizeQueueUnit u => resizeQueueUnit q u info

def Kept (label : UID → QuotaName) (info : ElasticQuotaInfo) : Prop :=
  ∀ uid u, info.reserved.units.lookup uid = some u →
    getQuotaName u.unit = label uid ∧ getReservedResource u.unit ≠ none

variable {label : UID → QuotaName}

theorem kept_addQueueUnit (hk : Kept label info) (hu : getQuotaName u.unit = label u.unit.uid)
    (h : addQueueUnit q u info = some info') : Kept label info' := by
  by_cases hmem : u.unit.uid ∈ info.reserved.units
  · rw [addQueueUnit_held hmem, Option.some.injEq] at h
    exact h ▸ hk
  · obtain ⟨res, hres, rfl⟩ := addQueueUnit_new hmem h
    exact GoMap.forall_insert hk ⟨hu, by simp [hres]⟩

theorem kept_deleteQueueUnit (hk : Kept label info) (h : deleteQueueUnit q u info = some info') : Kept label info' := by
  intro uid v hv
  rw [lookup_deleteQueueUnit h, Option.ite_none_left_eq_some] at hv
  exact hk uid v hv.2

theorem kept_resizeQueueUnit (hk : Kept label info) (hu : getQuotaName u.unit = label u.unit.uid)
    (h : resizeQueueUnit q u info = some info') : Kept label info' := by
  rcases resizeQueueUnit_cases h with ⟨_, rfl⟩ | ⟨_, _, _, _, _, hres', ⟨_, rfl⟩ | ⟨_, mid, hdel, hadd⟩⟩
  · exact hk
  · exact GoMap.forall_insert hk ⟨hu, by simp [hres']⟩
  · exact kept_addQueueUnit (kept_deleteQueueUnit hk hdel) hu hadd

theorem balanced_quotaStep {op : QuotaOp} (hb : Balanced q info) (hk : Kept label info)
    (hop : getQuotaName op.queueUnit.unit = label op.queueUnit.unit.uid) (h : quotaStep q info op = some info') :
    Balanced q info' ∧ Kept label info' := by
  cases op with
  | addQueueUnit u => exact ⟨balanced_addQueueUnit hb h, kept_addQueueUnit hk hop h⟩
  | deleteQueueUnit u => exact ⟨balanced_deleteQueueUnit hb h, kept_deleteQueueUnit hk h⟩
  | resizeQueueUnit u =>
    have hsame : ∀ old, info.reserved.units.lookup u.unit.uid = some old →
        getQuotaName old.unit = getQuotaName u.unit :=
      fun old hold => (hk _ old hold).1.trans hop.symm
    exact ⟨balanced_resizeQueueUnit hb hsame h, kept_resizeQueueUnit hk hop h⟩

def reservedAmount (k : ResourceName) (u : QueueUnitInfo) : Int64 :=
  ((getReservedResource u.unit).map (fun res => amount res.resources k)).getD 0

theorem stake_eq (i : Counter) (k : ResourceName) (u : QueueUnitInfo) :
    stake i q k u = if i.counts (getQuotaName u.unit = q) then reservedAmount k u else 0 := by
  rw [stake, reservedAmount]
  cases getReservedResource u.unit with
  | none => simp
  | some res => rfl

theorem total_stake (i : Counter) (k : ResourceName) (units : GoMap UID QueueUnitInfo) :
    GoMap.total (stake i q k) units =
      GoMap.total (fun u => if i.counts (getQuotaName u.unit = q) then reservedAmount k u else 0) units :=
  congrArg (fun f => GoMap.total f units) (funext (stake_eq i k))

/-- The counters of a quota after any calls on it: sums over the units it
stores, whose reserved resources are all defined. -/
theorem counters_are_sums {quota : ElasticQuota} {ops : List QuotaOp}
    (hlabel : ∀ op ∈ ops, getQuotaName op.queueUnit.unit = label op.queueUnit.unit.uid)
    (hrun : Run.exec (quotaStep q) (newElasticQuotaInfo quota) ops = some info) :
    (∀ uid u, info.reserved.units.lookup uid = some u → getReservedResource u.unit ≠ none) ∧
    ∀ k, amount info.used k = GoMap.total (reservedAmount k) info.reserved.units ∧
      amount info.selfUsed k =
        GoMap.total (fun u => if getQuotaName u.unit = q then reservedAmount k u else 0) info.reserved.units ∧
      amount info.childrenUsed k =
        GoMap.total (fun u => if getQuotaName u.unit ≠ q then reservedAmount k u else 0) info.reserved.units ∧
      amount info.used k = amount info.selfUsed k + amount info.childrenUsed k ∧
      amount info.guaranteedUsed k = amount info.used k ∧
      amount info.selfGuaranteedUsed k = amount info.selfUsed k ∧
      amount info.childrenGuaranteedUsed k = amount info.childrenUsed k := by
  have hkeeps : ∀ s op t, Balanced q s ∧ Kept label s →
      (getQuotaName op.queueUnit.unit = label op.queueUnit.unit.uid ∧ True) → quotaStep q s op = some t →
        Balanced q t ∧ Kept label t :=
    fun s op t hs hop ht => balanced_quotaStep hs.1 hs.2 hop.1 ht
  have hstart : Balanced q (newElasticQuotaInfo quota) ∧ Kept label (newElasticQuotaInfo quota) :=
    ⟨balanced_newElasticQuotaInfo quota, fun uid u hu => by cases hu⟩
  obtain ⟨hb, hk⟩ := Run.invariant hkeeps hstart (Run.guarded_and hlabel (Run.guarded_true _ ops)) hrun
  refine ⟨fun uid u hu => (hk uid u hu).2, ?_⟩
  intro k
  have hused : amount info.used k = GoMap.total (reservedAmount k) info.reserved.units :=
    (hb .used k).trans (total_stake .used k _)
  have hself := (hb .selfUsed k).trans (total_stake .selfUsed k _)
  have hchildren := (hb .childrenUsed k).trans (total_stake .childrenUsed k _)
  simp only [counter, Counter.counts, decide_eq_true_eq, Bool.not_eq_true', decide_eq_false_iff_not] at hself hchildren
  refine ⟨hused, hself, hchildren, ?_, ?_, ?_, ?_⟩
  · rw [hused, hself, hchildren, ← GoMap.total_add]
    apply congrArg (fun f => GoMap.total f info.reserved.units)
    funext u
    by_cases hu : getQuotaName u.unit = q <;> simp [hu]
  · exact (hb .guaranteedUsed k).trans (hb .used k).symm
  · exact (hb .selfGuaranteedUsed k).trans (hb .selfUsed k).symm
  · exact (hb .childrenGuaranteedUsed k).trans (hb .childrenUsed k).symm

def mixedOps : List QuotaOp :=
  [.addQueueUnit (cpuUnitInfo "u" "a" 6 .dequeued), .addQueueUnit (cpuUnitInfo "v" "b" 3 .dequeued),
   .resizeQueueUnit (cpuUnitInfo "u" "a" 7 .dequeued)]

omit [ResourceHelpers] in
theorem mixedOps_sums : ∃ info, Run.exec (@quotaStep noPods "a") (newElasticQuotaInfo (cpuQuota "a" koordRootQuota 10))
    mixedOps = some info ∧ amount info.used "cpu" = amount info.selfUsed "cpu" + amount info.childrenUsed "cpu" ∧
      amount info.used "cpu" = 10 := by
  have h : (Run.exec (@quotaStep noPods "a") (newElasticQuotaInfo (cpuQuota "a" koordRootQuota 10)) mixedOps).any
      (fun info => amount info.used "cpu" = 10) = true := by decide
  obtain ⟨info, hrun, hused⟩ := (Option.any_eq_true _ _).mp h
  have hlabel : ∀ op ∈ mixedOps, getQuotaName op.queueUnit.unit =
      (fun uid => if uid = "u" then "a" else "b") op.queueUnit.unit.uid := by decide
  exact ⟨info, hrun, ((@counters_are_sums noPods "a" info (fun uid => if uid = "u" then "a" else "b") _
    mixedOps hlabel hrun).2 "cpu").2.2.2.1, of_decide_eq_true hused⟩

end Runs

end KoordQueue.Quota.Balance
