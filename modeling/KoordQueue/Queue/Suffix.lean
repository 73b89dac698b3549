import KoordQueue.Lib.SortedSlice
import KoordQueue.Queue.Sizing

namespace KoordQueue.Queue.Suffix

open Api Resources UnitStatus UnitInfo Memory Less Policy Victims Rightful Sizing SortedSlice

/-- The three results of `dryRunPreemption`. -/
structure DryRun where
  preemptedQueueUnitKeys : List String := []
  preempted : List Ref := []
  preemptedReplicas : GoMap String (GoMap String FrameworkAdmission) := ∅

section Model

variable [ResourceHelpers] (fw : Handle) (m : Infos) (now : Time)

def scan (preemptor : QueueUnitInfo) (preemptorResource : Resource) (reclaimProtectTime : Int) :
    List Ref → Resource → DryRun → DryRun
  | [], _, result => result
  | last :: assumed, releasedResource, result =>
    if less preemptor (m.get last) < 0 ∧ isResLargeThan releasedResource preemptorResource = false then
      match canFree m now reclaimProtectTime last with
      | none => scan preemptor preemptorResource reclaimProtectTime assumed releasedResource result
      | some (ps, res) =>
        scan preemptor preemptorResource reclaimProtectTime assumed (releasedResource.addResource res)
          { preemptedQueueUnitKeys := result.preemptedQueueUnitKeys ++ [m.key last]
            preempted := result.preempted ++ [last]
            preemptedReplicas := result.preemptedReplicas.insert (m.key last) ps }
    else result

/-- `dryRunPreemption` on a list of assumed units, with all that it returns. -/
def dryRun (preemptor : Ref) (assumed : List Ref) (reclaimProtectTime : Int) : DryRun :=
  if getQueueUnitBaseQuotaName fw (m.unit preemptor) = "" then {}
  else match (sortQueue m assumed).reverse with
    | [] => {}
    | last :: rest =>
      if less (m.get preemptor) (m.get last) < 0 then
        if isResLargeThan (newResource ∅) (preemptorResource (m.unit preemptor)) = false then
          scan m now (m.get preemptor) (preemptorResource (m.unit preemptor)) reclaimProtectTime (last :: rest)
            (newResource ∅) {}
        else {}
      else {}

end Model

def record (m : Infos) (result : DryRun) (victims : List (Ref × GoMap String FrameworkAdmission)) : DryRun where
  preemptedQueueUnitKeys := result.preemptedQueueUnitKeys ++ victims.map (fun v => m.key v.1)
  preempted := result.preempted ++ victims.map Prod.fst
  preemptedReplicas := victims.foldl (fun replicas v => replicas.insert (m.key v.1) v.2) result.preemptedReplicas

section Scan

variable [ResourceHelpers] {fw : Handle} {m : Infos} {now : Time} {preemptor : QueueUnitInfo} {need : Resource}
  {protect : Int}

theorem scan_eq (assumed : List Ref) (start : Resource) (result : DryRun) :
    scan m now preemptor need protect assumed start result =
      record m result (selectVictims m now preemptor need protect assumed start) := by
  induction assumed generalizing start result with
  | nil => simp [scan, selectVictims, record]
  | cons last assumed ih =>
    rw [scan, selectVictims]
    split
    next =>
      cases canFree m now protect last with
      | none => exact ih start result
      | some found =>
        obtain ⟨ps, res⟩ := found
        dsimp only
        rw [ih]
        simp [record]
    next => simp [record]

theorem dryRun_eq {p : Ref} (hquota : getQueueUnitBaseQuotaName fw (m.unit p) ≠ "") (assumed : List Ref) :
    dryRun fw m now p assumed protect = record m {} (selectVictims m now (m.get p) (preemptorResource (m.unit p))
      protect (sortQueue m assumed).reverse (newResource ∅)) := by
  rw [dryRun, if_neg hquota]
  cases (sortQueue m assumed).reverse with
  | nil => simp [selectVictims, record]
  | cons last rest =>
    dsimp only
    rw [scan_eq, selectVictims]
    by_cases hlast : less (m.get p) (m.get last) < 0
    · by_cases hneed : isResLargeThan (newResource ∅) (preemptorResource (m.unit p)) = false
      · simp only [hlast, hneed, if_true, and_self]
      · simp [hneed, record]
    · simp [hlast, record]

theorem dryRun_preempted (p : Ref) (order : List String) (q : PriorityQueue) :
    (dryRun fw m now p (order.filterMap q.queueUnits.lookup) q.reclaimProtectTime).preempted =
      (dryRunPreemption fw m now p order q).map Prod.fst := by
  by_cases hquota : getQueueUnitBaseQuotaName fw (m.unit p) = ""
  · rw [dryRun, if_pos hquota, dryRunPreemption, if_pos hquota]
    rfl
  · rw [dryRun_eq hquota, dryRunPreemption, if_neg hquota]
    exact List.nil_append _

/-- The part of the list that the scan passes: all of it comes after the
preemptor, nothing shorter frees enough, and the scan has a reason to stop. -/
structure Passed (m : Infos) (now : Time) (preemptor : QueueUnitInfo) (need : Resource) (protect : Int)
    (start : Resource) (scanned rest : List Ref) : Prop where
  after : ∀ x ∈ scanned, less preemptor (m.get x) < 0
  short : ∀ taken, taken <+: scanned → taken ≠ scanned →
    isResLargeThan (released m now protect start taken) need = false
  stops : rest = [] ∨ (∃ x, rest.head? = some x ∧ ¬ less preemptor (m.get x) < 0) ∨
    isResLargeThan (released m now protect start scanned) need = true

def victim (m : Infos) (now : Time) (protect : Int) (r : Ref) : Option (Ref × GoMap String FrameworkAdmission) :=
  (canFree m now protect r).map (fun found => (r, found.1))

theorem selectVictims_passed (assumed : List Ref) (start : Resource) :
    ∃ scanned rest, assumed = scanned ++ rest ∧ Passed m now preemptor need protect start scanned rest ∧
      selectVictims m now preemptor need protect assumed start = scanned.filterMap (victim m now protect) := by
  induction assumed generalizing start with
  | nil =>
    refine ⟨[], [], rfl, ⟨by simp, ?_, Or.inl rfl⟩, rfl⟩
    intro taken ht hne
    exact absurd (List.prefix_nil.mp ht) hne
  | cons last assumed ih =>
    rw [selectVictims]
    split
    next hlast =>
      obtain ⟨scanned, rest, hsplit, hs, hsel⟩ := ih (released m now protect start [last])
      refine ⟨last :: scanned, rest, congrArg (List.cons last) hsplit, ⟨?_, ?_, ?_⟩, ?_⟩
      · exact List.forall_mem_cons.mpr ⟨hlast.1, hs.after⟩
      · intro taken ht hne
        cases taken with
        | nil => exact hlast.2
        | cons x taken =>
          obtain ⟨rfl, hrest⟩ := List.cons_prefix_cons.mp ht
          exact hs.short taken hrest (fun he => hne (congrArg (List.cons x) he))
      · exact hs.stops
      · rw [List.filterMap_cons, victim, ← hsel]
        cases hfree : canFree m now protect last with
        | none => simp [released, hfree]
        | some found => simp [released, hfree]
    next hlast =>
      refine ⟨[], last :: assumed, rfl, ⟨by simp, ?_, ?_⟩, rfl⟩
      · intro taken ht hne
        exact absurd (List.prefix_nil.mp ht) hne
      · right
        by_cases hless : less preemptor (m.get last) < 0
        · right
          exact Bool.eq_true_of_not_eq_false (fun h => hlast ⟨hless, h⟩)
        · exact Or.inl ⟨last, rfl, hless⟩

theorem filterMap_victim (protect : Int) (l : List Ref) :
    (l.filterMap (victim m now protect)).map Prod.fst =
      l.filter (fun r => (canFree m now protect r).isSome) := by
  induction l with
  | nil => rfl
  | cons r l ih =>
    rw [List.filterMap_cons, List.filter_cons, victim]
    cases canFree m now protect r with
    | none => simpa using ih
    | some found => simpa using ih

theorem released_filter (protect : Int) (start : Resource) (l : List Ref) :
    released m now protect start (l.filter (fun r => (canFree m now protect r).isSome)) =
      released m now protect start l := by
  induction l generalizing start with
  | nil => rfl
  | cons r l ih =>
    cases hfree : canFree m now protect r with
    | none =>
      have hskip : released m now protect start (r :: l) = released m now protect start l := by
        rw [released, List.foldl_cons, hfree]
        rfl
      rw [List.filter_cons_of_neg (by simp [hfree]), hskip]
      exact ih start
    | some found =>
      rw [List.filter_cons_of_pos (by simp [hfree])]
      simp only [released, List.foldl_cons, hfree]
      exact ih _

theorem Passed.without_last {start : Resource} {scanned rest victims : List Ref} {last : Ref}
    (h : Passed m now preemptor need protect start scanned rest)
    (hv : scanned.filter (fun r => (canFree m now protect r).isSome) = victims ++ [last]) :
    isResLargeThan (released m now protect start victims) need = false := by
  obtain ⟨before, behind, rfl, hbefore, hlast⟩ := List.filter_eq_append_iff.mp hv
  obtain ⟨skipped, tail, rfl, _, _, _⟩ := List.filter_eq_cons_iff.mp hlast
  rw [← hbefore, released_filter]
  refine h.short before (List.prefix_append _ _) (fun he => ?_)
  have hlen := congrArg List.length he
  simp at hlen

end Scan

def reclaimable (qu : QueueUnit) (reclaimProtectTime : Int) (now : Time) : Bool :=
  ((getResourcesCanReclaim qu reclaimProtectTime now).map (fun ps => ps.any (fun _ ad => 0 < ad.replicas))).getD false

/-- No podset is listed with a negative amount. -/
def NonNegative (qu : QueueUnit) (reclaimProtectTime : Int) (now : Time) : Prop :=
  ∀ ps, getResourcesCanReclaim qu reclaimProtectTime now = some ps →
    ps.all (fun _ ad => 0 ≤ ad.replicas) = true

theorem isResLargeThan_iff (a b : Resource) :
    isResLargeThan a b = true ↔ ∀ k ∈ b.resources, amount b.resources k ≤ amount a.resources k := by
  rw [isResLargeThan, GoMap.all_iff]
  simp only [gt_iff_lt, Bool.not_eq_true', decide_eq_false_iff_not, Int64.not_lt]
  constructor
  · intro h k hk
    obtain ⟨v, hv⟩ := Finmap.mem_iff.mp hk
    have hle := h k v hv
    rwa [show amount b.resources k = v by rw [amount, hv, Option.getD_some]]
  · intro h k v hv
    have hle := h k (Finmap.mem_of_lookup_eq_some hv)
    rwa [show amount b.resources k = v by rw [amount, hv, Option.getD_some]] at hle

section Coverage

variable [ResourceHelpers] (m : Infos) (now : Time) (protect : Int)

/-- What the unit gives back of a resource. -/
def gives (k : ResourceName) (r : Ref) : Int64 :=
  ((getResourcesCanReclaim (m.unit r) protect now).map (fun ps => listedAmount (m.unit r) ps k)).getD 0

/-- Of every resource in the request of the preemptor the units together give back as much as it asks for. -/
def Covers (p : Ref) (taken : List Ref) : Prop :=
  ∀ k ∈ (preemptorResource (m.unit p)).resources,
    listedAmount (m.unit p) (getQueueUnitResourceRequirementAds (m.unit p)) k ≤ (taken.map (gives m now protect k)).sum

theorem amount_canFree (k : ResourceName) (r : Ref) :
    ((canFree m now protect r).map (fun found => amount found.2.resources k)).getD 0 = gives m now protect k r := by
  rw [canFree, gives]
  cases getResourcesCanReclaim (m.unit r) protect now with
  | none => rfl
  | some ps =>
    dsimp only
    split
    next hempty =>
      subst hempty
      rfl
    next => exact amount_convert (m.unit r) ps k

theorem amount_released (start : Resource) (taken : List Ref) (k : ResourceName) :
    amount (released m now protect start taken).resources k =
      amount start.resources k + (taken.map (gives m now protect k)).sum := by
  induction taken generalizing start with
  | nil => exact (Int64.add_zero _).symm
  | cons r taken ih =>
    rw [List.map_cons, List.sum_cons, ← amount_canFree, ← Int64.add_assoc]
    cases hfree : canFree m now protect r with
    | none =>
      have hskip : released m now protect start (r :: taken) = released m now protect start taken := by
        rw [released, List.foldl_cons, hfree]
        rfl
      rw [hskip, ih]
      exact congrArg (· + _) (Int64.add_zero _).symm
    | some found =>
      have hadd : released m now protect start (r :: taken) =
          released m now protect (start.addResource found.2) taken := by
        rw [released, List.foldl_cons, hfree]
        rfl
      rw [hadd, ih, amount_addResource]
      rfl

theorem covers_iff (p : Ref) (taken : List Ref) :
    isResLargeThan (released m now protect (newResource ∅) taken) (preemptorResource (m.unit p)) = true ↔
      Covers m now protect p taken := by
  have hzero : ∀ k, amount (newResource ∅).resources k = 0 := fun _ => rfl
  rw [isResLargeThan_iff, Covers]
  refine forall₂_congr (fun k _ => ?_)
  rw [amount_released, hzero, Int64.zero_add, preemptorResource, amount_convert]

theorem not_covers_iff (p : Ref) (taken : List Ref) :
    isResLargeThan (released m now protect (newResource ∅) taken) (preemptorResource (m.unit p)) = false ↔
      ¬ Covers m now protect p taken := by
  rw [← covers_iff, Bool.not_eq_true]

/-- The part of the ranking that the scan passes: all of it comes after the
preemptor, nothing shorter covers the request, and the scan has a reason to stop. -/
structure Scanned (p : Ref) (scanned rest : List Ref) : Prop where
  after : ∀ x ∈ scanned, less (m.get p) (m.get x) < 0
  short : ∀ taken, taken <+: scanned → taken ≠ scanned → ¬ Covers m now protect p taken
  stops : rest = [] ∨ (∃ x, rest.head? = some x ∧ ¬ less (m.get p) (m.get x) < 0) ∨ Covers m now protect p scanned

theorem scanned_of_passed {m : Infos} {now : Time} {protect : Int} {p : Ref} {scanned rest : List Ref}
    (h : Passed m now (m.get p) (preemptorResource (m.unit p)) protect (newResource ∅) scanned rest) :
    Scanned m now protect p scanned rest where
  after := h.after
  short taken ht hne := (not_covers_iff m now protect p taken).mp (h.short taken ht hne)
  stops := h.stops.imp_right (Or.imp_right (covers_iff m now protect p scanned).mp)

end Coverage

/-- No two of the units share a UID, a key or a place in the order. -/
structure Distinct (m : Infos) (assumed : List Ref) : Prop where
  uids : (assumed.map (fun r => (m.unit r).uid)).Nodup
  keys : (assumed.map m.key).Nodup
  ranks : (assumed.map (fun r => rank (m.get r))).Nodup

section Result

variable {m : Infos} {now : Time} {protect : Int} {assumed : List Ref}

theorem listed_ne_zero {qu : QueueUnit} {ps : GoMap String FrameworkAdmission}
    (h : getResourcesCanReclaim qu protect now = some ps) {name : String} {ad : FrameworkAdmission}
    (hl : ps.lookup name = some ad) : ad.replicas ≠ 0 := by
  obtain ⟨_, rfl⟩ := canReclaim_eq_some h
  obtain ⟨a, ha, heq⟩ := List.mem_map.mp (GoMap.mem_of_lookup_ofList hl)
  cases heq
  have hne := (of_decide_eq_true (List.mem_filter.mp ha).2).1
  intro hzero
  apply hne
  calc a.replicas = a.replicas - a.running + a.running := (Int64.sub_add_cancel _ _).symm
    _ = 0 + a.running := congrArg (· + a.running) hzero
    _ = a.running := Int64.zero_add _

theorem canFree_isSome [ResourceHelpers] {r : Ref} (h : NonNegative (m.unit r) protect now) :
    (canFree m now protect r).isSome = reclaimable (m.unit r) protect now := by
  rw [canFree, reclaimable]
  cases hps : getResourcesCanReclaim (m.unit r) protect now with
  | none => rfl
  | some ps =>
    have hnonneg := (GoMap.all_iff _ _).mp (h ps hps)
    rw [Option.map_some, Option.getD_some, Bool.eq_iff_iff, GoMap.any_iff]
    dsimp only
    split
    next hempty =>
      subst hempty
      simp
    next hne =>
      refine iff_of_true rfl ?_
      obtain ⟨name, hname⟩ : ∃ name, name ∈ ps := by
        by_contra hall
        apply hne
        apply Finmap.ext_lookup
        intro name
        rw [Finmap.lookup_empty, Finmap.lookup_eq_none]
        exact fun hn => hall ⟨name, hn⟩
      obtain ⟨ad, had⟩ := Finmap.mem_iff.mp hname
      refine ⟨name, ad, had, decide_eq_true ?_⟩
      have hle : 0 ≤ ad.replicas := of_decide_eq_true (hnonneg name ad had)
      have hnz := listed_ne_zero hps had
      exact Int64.lt_of_le_of_ne hle hnz.symm

theorem canFree_podSets [ResourceHelpers] {r : Ref} {found : GoMap String FrameworkAdmission × Resource}
    (h : canFree m now protect r = some found) : getResourcesCanReclaim (m.unit r) protect now = some found.1 := by
  rw [canFree] at h
  split at h
  next => cases h
  next ps hps =>
    split at h
    next => cases h
    next =>
      cases h
      exact hps

theorem sortQueue_sorted (h : Distinct m assumed) : Sorted (fun r => rank (m.get r)) (sortQueue m assumed) := by
  have huid : ∀ a ∈ assumed, ∀ b ∈ assumed, (m.unit a).uid = (m.unit b).uid → a = b :=
    fun a ha b hb he => List.inj_on_of_nodup_map h.uids ha hb he
  apply sorted_mergeSort
  · intro a ha b hb
    rw [decide_eq_decide]
    by_cases hu : (m.get a).unit.uid = (m.get b).unit.uid
    · rw [huid a ha b hb hu]
      exact iff_of_true (less_of_eq rfl).le le_rfl
    · obtain ⟨hlt, heq⟩ := less_of_ne hu
      rw [le_iff_lt_or_eq, le_iff_lt_or_eq]
      exact or_congr hlt heq
  · exact fun a ha b hb he => List.inj_on_of_nodup_map h.ranks ha hb he
  · exact List.Nodup.of_map _ h.keys

theorem lowest_first (h : Distinct m assumed) :
    (sortQueue m assumed).reverse.Pairwise (fun a b => less (m.get b) (m.get a) < 0) := by
  rw [List.pairwise_reverse]
  apply (sortQueue_sorted h).imp_of_mem
  intro a b ha hb hlt
  have hne : (m.get a).unit.uid ≠ (m.get b).unit.uid := by
    intro hu
    have hab : a = b := List.inj_on_of_nodup_map h.uids
      ((List.mergeSort_perm _ _).mem_iff.mp ha) ((List.mergeSort_perm _ _).mem_iff.mp hb) hu
    rw [hab] at hlt
    exact lt_irrefl _ hlt
  exact (less_of_ne hne).1.mpr hlt

theorem nodup_victim_keys [ResourceHelpers] {scanned : List Ref} (h : (scanned.map m.key).Nodup) :
    ((scanned.filterMap (victim m now protect)).map (fun v => m.key v.1)).Nodup := by
  have hcomp : (scanned.filterMap (victim m now protect)).map (fun v => m.key v.1) =
      ((scanned.filterMap (victim m now protect)).map Prod.fst).map m.key := by
    rw [List.map_map]
    rfl
  rw [hcomp, filterMap_victim]
  exact h.sublist (List.filter_sublist.map m.key)

theorem lookup_preemptedReplicas {victims : List (Ref × GoMap String FrameworkAdmission)}
    (hn : (victims.map (fun v => m.key v.1)).Nodup) (key : String) (ps : GoMap String FrameworkAdmission) :
    (record m {} victims).preemptedReplicas.lookup key = some ps ↔ ∃ r, (r, ps) ∈ victims ∧ m.key r = key := by
  have hlist : (record m {} victims).preemptedReplicas = GoMap.ofList (victims.map (fun v => (m.key v.1, v.2))) := by
    rw [record, GoMap.ofList, List.foldl_map]
  have hfst : ((victims.map (fun v => (m.key v.1, v.2))).map Prod.fst).Nodup := by
    rw [List.map_map]
    exact hn
  rw [hlist]
  constructor
  · intro h
    obtain ⟨⟨r, ps'⟩, hv, heq⟩ := List.mem_map.mp (GoMap.mem_of_lookup_ofList h)
    cases heq
    exact ⟨r, hv, rfl⟩
  · rintro ⟨r, hv, rfl⟩
    exact GoMap.lookup_ofList_of_mem hfst (List.mem_map.mpr ⟨(r, ps), hv, rfl⟩)

/-- The call takes, from the lowest ranked unit up, what can be reclaimed in the
part of the assumed units that it scans. That part ends before the first unit
not ranked below the preemptor, or where enough is released and not before. -/
theorem dryRun_lowest_suffix [ResourceHelpers] {fw : Handle} {p : Ref}
    (hquota : getQueueUnitBaseQuotaName fw (m.unit p) ≠ "") (hdistinct : Distinct m assumed)
    (hnonneg : ∀ r ∈ assumed, NonNegative (m.unit r) protect now) :
    ∃ ranked scanned rest, ranked.Perm assumed ∧ ranked.Pairwise (fun a b => less (m.get b) (m.get a) < 0) ∧
      ranked = scanned ++ rest ∧
      Scanned m now protect p scanned rest ∧
      (dryRun fw m now p assumed protect).preempted =
        scanned.filter (fun r => reclaimable (m.unit r) protect now) ∧
      (dryRun fw m now p assumed protect).preemptedQueueUnitKeys =
        (dryRun fw m now p assumed protect).preempted.map m.key ∧
      (∀ key ps, (dryRun fw m now p assumed protect).preemptedReplicas.lookup key = some ps ↔
        ∃ r ∈ (dryRun fw m now p assumed protect).preempted, m.key r = key ∧
          getResourcesCanReclaim (m.unit r) protect now = some ps) ∧
      (∀ victims last, (dryRun fw m now p assumed protect).preempted = victims ++ [last] →
        ¬ Covers m now protect p victims) ∧
      ∀ order q, order.filterMap q.queueUnits.lookup = assumed → q.reclaimProtectTime = protect →
        (dryRunPreemption fw m now p order q).map Prod.fst = (dryRun fw m now p assumed protect).preempted := by
  have hperm : (sortQueue m assumed).reverse.Perm assumed :=
    (List.reverse_perm _).trans (List.mergeSort_perm _ _)
  obtain ⟨scanned, rest, hsplit, hscan, hsel⟩ := @selectVictims_passed _ m now (m.get p)
    (preemptorResource (m.unit p)) protect (sortQueue m assumed).reverse (newResource ∅)
  have hmem : ∀ r ∈ scanned, r ∈ assumed := by
    intro r hr
    rw [← hperm.mem_iff, hsplit]
    exact List.mem_append_left rest hr
  have hfree : scanned.filter (fun r => (canFree m now protect r).isSome) =
      scanned.filter (fun r => reclaimable (m.unit r) protect now) :=
    List.filter_congr (fun r hr => canFree_isSome (hnonneg r (hmem r hr)))
  have hvictims : (dryRun fw m now p assumed protect).preempted =
      scanned.filter (fun r => (canFree m now protect r).isSome) := by
    rw [dryRun_eq hquota, hsel, ← filterMap_victim]
    exact List.nil_append _
  refine ⟨_, scanned, rest, hperm, lowest_first hdistinct, hsplit, scanned_of_passed hscan, hvictims.trans hfree,
    ?_, ?_, ?_, ?_⟩
  · rw [dryRun_eq hquota]
    simp [record]
  · intro key ps
    have hkeys : (scanned.map m.key).Nodup := by
      have hall := (hperm.map m.key).nodup_iff.mpr hdistinct.keys
      rw [hsplit, List.map_append] at hall
      exact hall.of_append_left
    rw [hvictims, dryRun_eq hquota, hsel, lookup_preemptedReplicas (nodup_victim_keys hkeys)]
    simp only [List.mem_filterMap, victim, Option.map_eq_some_iff, Prod.mk.injEq, List.mem_filter,
      Option.isSome_iff_exists]
    constructor
    · rintro ⟨r, ⟨_, hr, found, hfound, rfl, rfl⟩, hkey⟩
      exact ⟨_, ⟨hr, found, hfound⟩, hkey, canFree_podSets hfound⟩
    · rintro ⟨r, ⟨hr, found, hfound⟩, hkey, hps⟩
      have heq := canFree_podSets hfound
      rw [hps, Option.some.injEq] at heq
      exact ⟨r, ⟨r, hr, found, hfound, rfl, heq.symm⟩, hkey⟩
  · intro victims last hlast
    exact (not_covers_iff m now protect p victims).mp (hscan.without_last (hvictims.symm.trans hlast))
  · rintro order q rfl rfl
    exact (dryRun_preempted p order q).symm

end Result

def workersOf (name : String) (priority count : Int32) (replicas running : Int64) : QueueUnit where
  ns := "ns"
  name := name
  uid := name
  spec := { priority := some ⟨0, priority⟩, podSets := [{ name := "worker", count, template := oneCpu }] }
  status := { admissions := [{ name := "worker", replicas, running }] }

/-- A preemptor that asks for two pods, and five assumed units. -/
def sixInfos : Infos :=
  [workersOf "p" 5 2 0 0, workersOf "a" 1 1 1 0, workersOf "b" 2 1 1 1, workersOf "c" 3 1 1 0, workersOf "d" 4 1 1 0,
    workersOf "e" 7 1 1 0].foldl (fun m qu => m.newQueueUnitInfo 0 qu) {}

/-- The lowest unit is taken, the second passed over because all of it runs, and
with the third the request is covered. -/
theorem dryRun_takes_two : ∃ ranked scanned rest : List Ref, ranked.Perm [5, 4, 3, 2, 1] ∧ ranked = scanned ++ rest ∧
    (@dryRun plainPods oneQuota sixInfos 10 0 [5, 4, 3, 2, 1] 0).preempted =
      scanned.filter (fun r => reclaimable (sixInfos.unit r) 0 10) ∧
    (@dryRun plainPods oneQuota sixInfos 10 0 [5, 4, 3, 2, 1] 0).preempted = [1, 3] ∧
    ¬ @Covers plainPods sixInfos 10 0 0 [1] := by
  have hnonneg : ∀ r ∈ [5, 4, 3, 2, 1], NonNegative (sixInfos.unit r) 0 10 := by
    simp only [List.forall_mem_cons]
    refine ⟨?_, ?_, ?_, ?_, ?_, by simp⟩
    all_goals
      intro ps hps
      cases hps
      decide +kernel
  have hsorted : sortQueue sixInfos [5, 4, 3, 2, 1] = [5, 4, 3, 2, 1] :=
    List.mergeSort_of_pairwise (by decide +kernel)
  have htwo : (@dryRun plainPods oneQuota sixInfos 10 0 [5, 4, 3, 2, 1] 0).preempted = [1, 3] := by
    unfold dryRun
    rw [hsorted]
    decide +kernel
  obtain ⟨ranked, scanned, rest, hperm, _, hsplit, _, hvictims, _, _, hminimal, _⟩ :=
    @dryRun_lowest_suffix sixInfos 10 0 [5, 4, 3, 2, 1] plainPods oneQuota 0 (by decide +kernel)
      ⟨by decide, by decide, by decide +kernel⟩ hnonneg
  exact ⟨ranked, scanned, rest, hperm, hsplit, hvictims, htwo, hminimal [1] 3 htwo⟩

end KoordQueue.Queue.Suffix
