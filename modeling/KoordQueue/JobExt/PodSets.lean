import KoordQueue.JobExt.Due

namespace KoordQueue.JobExt.PodSets

open Api Reporter Due
open GoMap (Ranges)

/-- The variables of the first loop of `reconcilePodSets`. -/
structure Merge where
  needUpdate : Bool
  curPs : GoMap String Int32
  expectPs : GoMap String Int32

def mergeOne (m : Merge) (n : String) : Merge :=
  match m.expectPs.lookup n with
  | some ep =>
    { needUpdate := m.needUpdate || decide (m.curPs.lookup n ≠ some ep)
      curPs := m.curPs.insert n ep
      expectPs := m.expectPs.erase n }
  | none => ⟨true, m.curPs.erase n, m.expectPs⟩

def merge (curOrder : List String) (podSets ps : List PodSet) : Merge :=
  curOrder.foldl mergeOne ⟨false, counts podSets, counts ps⟩

/-- `reconcilePodSets` with the orders in which the two maps are ranged over. -/
def reconcileInOrder (curOrder expectOrder : List String) (podSets ps : List PodSet) : Bool × List PodSet :=
  let m := merge curOrder podSets ps
  (m.needUpdate || decide (m.expectPs ≠ ∅),
    podSets.filterMap (fun p => (m.curPs.lookup p.name).map (fun count => { p with count })) ++
      expectOrder.map (fun n => (ps.find? (fun np => np.name = n)).getD {}))

/-- Orders in which Go may range over the two maps. -/
structure Orders (curOrder expectOrder : List String) (podSets ps : List PodSet) : Prop where
  cur : Ranges curOrder (counts podSets)
  expect : Ranges expectOrder (merge curOrder podSets ps).expectPs

section Loop

variable (m : Merge) (k n : String)

theorem curPs_mergeOne : (mergeOne m k).curPs.lookup n = if n = k then m.expectPs.lookup n else m.curPs.lookup n := by
  rw [mergeOne]
  split
  next ep hep =>
    rw [GoMap.lookup_insert_eq]
    split
    next he => rw [he, hep]
    next => rfl
  next hnone =>
    rw [GoMap.lookup_erase_eq]
    split
    next he => rw [he, hnone]
    next => rfl

theorem expectPs_mergeOne : (mergeOne m k).expectPs.lookup n = if n = k then none else m.expectPs.lookup n := by
  rw [mergeOne]
  split
  next => rw [GoMap.lookup_erase_eq]
  next hnone =>
    split
    next he => rw [he, hnone]
    next => rfl

theorem needUpdate_mergeOne (hk : k ∈ m.curPs) :
    (mergeOne m k).needUpdate = true ↔ m.needUpdate = true ∨ m.expectPs.lookup k ≠ m.curPs.lookup k := by
  obtain ⟨c, hc⟩ := Finmap.mem_iff.mp hk
  rw [mergeOne]
  split
  next ep hep => rw [Bool.or_eq_true, decide_eq_true_eq, hep, ne_comm]
  next hnone => simp [hnone, hc]

theorem merge_spec {order : List String} (hn : order.Nodup) {m : Merge} (hcur : ∀ n ∈ order, n ∈ m.curPs) :
    (∀ n, (order.foldl mergeOne m).curPs.lookup n = if n ∈ order then m.expectPs.lookup n else m.curPs.lookup n) ∧
      (∀ n, (order.foldl mergeOne m).expectPs.lookup n = if n ∈ order then none else m.expectPs.lookup n) ∧
      ((order.foldl mergeOne m).needUpdate = true ↔
        m.needUpdate = true ∨ ∃ n ∈ order, m.expectPs.lookup n ≠ m.curPs.lookup n) := by
  induction order generalizing m with
  | nil => simp
  | cons k order ih =>
    rw [List.nodup_cons] at hn
    rw [List.forall_mem_cons] at hcur
    have hne : ∀ n ∈ order, n ≠ k := fun n hmem he => hn.1 (he ▸ hmem)
    have hkept : ∀ n ∈ order, n ∈ (mergeOne m k).curPs := by
      intro n hmem
      obtain ⟨c, hc⟩ := Finmap.mem_iff.mp (hcur.2 n hmem)
      exact Finmap.mem_iff.mpr ⟨c, by rw [curPs_mergeOne, if_neg (hne n hmem), hc]⟩
    obtain ⟨hcur', hexp', hneed'⟩ := ih hn.2 hkept
    rw [List.foldl_cons]
    refine ⟨fun n => ?_, fun n => ?_, ?_⟩
    · rw [hcur', expectPs_mergeOne, curPs_mergeOne]
      by_cases hk : n = k
      · simp [hk, hn.1]
      · simp [hk]
    · rw [hexp', expectPs_mergeOne]
      by_cases hk : n = k
      · simp [hk]
      · simp [hk]
    · rw [hneed', needUpdate_mergeOne m k hcur.1, List.exists_mem_cons_iff, or_assoc]
      apply or_congr_right
      apply or_congr_right
      apply exists_congr
      intro n
      apply and_congr_right
      intro hmem
      rw [expectPs_mergeOne, curPs_mergeOne, if_neg (hne n hmem), if_neg (hne n hmem)]

variable {curOrder expectOrder : List String} {podSets ps : List PodSet}

theorem curPs_merge (h : Ranges curOrder (counts podSets)) (n : String) :
    (merge curOrder podSets ps).curPs.lookup n = if n ∈ counts podSets then (counts ps).lookup n else none := by
  rw [merge, (merge_spec h.nodup (fun n hmem => (h.mem n).mp hmem)).1]
  dsimp only
  by_cases hmem : n ∈ counts podSets
  · rw [if_pos ((h.mem n).mpr hmem), if_pos hmem]
  · rw [if_neg (fun hm => hmem ((h.mem n).mp hm)), if_neg hmem, Finmap.lookup_eq_none.mpr hmem]

theorem expectPs_merge (h : Ranges curOrder (counts podSets)) (n : String) :
    (merge curOrder podSets ps).expectPs.lookup n = if n ∈ counts podSets then none else (counts ps).lookup n := by
  rw [merge, (merge_spec h.nodup (fun n hmem => (h.mem n).mp hmem)).2.1]
  dsimp only
  by_cases hmem : n ∈ counts podSets
  · rw [if_pos ((h.mem n).mpr hmem), if_pos hmem]
  · rw [if_neg (fun hm => hmem ((h.mem n).mp hm)), if_neg hmem]

theorem mem_expectPs (h : Ranges curOrder (counts podSets)) (n : String) :
    n ∈ (merge curOrder podSets ps).expectPs ↔ n ∈ counts ps ∧ n ∉ counts podSets := by
  rw [Finmap.mem_iff, Finmap.mem_iff, expectPs_merge h]
  by_cases hmem : n ∈ counts podSets
  · simp [hmem]
  · simp [hmem]

theorem needUpdate_inOrder (h : Orders curOrder expectOrder podSets ps) :
    (reconcileInOrder curOrder expectOrder podSets ps).1 = true ↔ counts podSets ≠ counts ps := by
  have hneed := (merge_spec h.cur.nodup (m := ⟨false, counts podSets, counts ps⟩) (fun n hmem => (h.cur.mem n).mp hmem)).2.2
  have hempty : (merge curOrder podSets ps).expectPs = ∅ ↔ ∀ n, n ∉ counts podSets → (counts ps).lookup n = none := by
    constructor
    · intro he n hn
      have hnone : (merge curOrder podSets ps).expectPs.lookup n = _ := expectPs_merge h.cur n
      rwa [he, Finmap.lookup_empty, if_neg hn, eq_comm] at hnone
    · intro hall
      apply Finmap.ext_lookup
      intro n
      rw [expectPs_merge h.cur, Finmap.lookup_empty]
      split
      next => rfl
      next hn => exact hall n hn
  rw [reconcileInOrder, Bool.or_eq_true, decide_eq_true_eq, ne_eq, hempty, merge, hneed]
  constructor
  · rintro ((hf | ⟨n, _, hne⟩) | hne) heq
    · cases hf
    · exact hne (by rw [heq])
    · refine hne (fun n hn => ?_)
      rw [← heq, Finmap.lookup_eq_none.mpr hn]
  · intro hne
    by_contra hsame
    simp only [Bool.false_eq_true, false_or, not_or, not_exists, not_and, not_not] at hsame
    apply hne
    apply Finmap.ext_lookup
    intro n
    by_cases hmem : n ∈ counts podSets
    · exact (hsame.1 n ((h.cur.mem n).mpr hmem)).symm
    · rw [Finmap.lookup_eq_none.mpr hmem, hsame.2 n hmem]

end Loop

section Result

variable {podSets ps new : List PodSet} {curOrder expectOrder : List String}

theorem mem_counts (podSets : List PodSet) (n : String) : n ∈ counts podSets ↔ n ∈ podSets.map PodSet.name := by
  rw [← not_iff_not, ← Finmap.lookup_eq_none, counts, GoMap.lookup_ofList_none, List.map_map]
  rfl

theorem lookup_counts (hn : (podSets.map PodSet.name).Nodup) (n : String) (c : Int32) :
    (counts podSets).lookup n = some c ↔ ∃ p ∈ podSets, p.name = n ∧ p.count = c := by
  constructor
  · intro hl
    obtain ⟨p, hp, he⟩ := List.mem_map.mp (GoMap.mem_of_lookup_ofList hl)
    cases he
    exact ⟨p, hp, rfl, rfl⟩
  · rintro ⟨p, hp, rfl, rfl⟩
    apply GoMap.lookup_ofList_of_mem
    · rw [List.map_map]
      exact hn
    · exact List.mem_map.mpr ⟨p, hp, rfl⟩

/-- The podsets of the unit once they are those of the job: podsets on both
sides stay in place with their templates, the others of the unit are dropped,
and the new ones of the job follow as they are. -/
structure Merged (podSets ps new : List PodSet) : Prop where
  counts : counts new = counts ps
  parts : ∃ kept added, new = kept ++ added ∧
    kept.map (fun p => (p.name, p.template)) =
      (podSets.filter (fun p => p.name ∈ ps.map PodSet.name)).map (fun p => (p.name, p.template)) ∧
    added.Perm (ps.filter (fun p => p.name ∉ podSets.map PodSet.name))

def kept (podSets ps : List PodSet) : List PodSet :=
  podSets.filterMap (fun p => ((counts ps).lookup p.name).map (fun count => { p with count }))

theorem kept_inOrder (h : Orders curOrder expectOrder podSets ps) :
    podSets.filterMap (fun p => ((merge curOrder podSets ps).curPs.lookup p.name).map (fun count => { p with count })) =
      kept podSets ps := by
  apply List.filterMap_congr
  intro p hp
  rw [curPs_merge h.cur, if_pos ((mem_counts podSets p.name).mpr (List.mem_map_of_mem hp))]

theorem map_kept (podSets ps : List PodSet) :
    (kept podSets ps).map (fun p => (p.name, p.template)) =
      (podSets.filter (fun p => p.name ∈ ps.map PodSet.name)).map (fun p => (p.name, p.template)) := by
  induction podSets with
  | nil => rfl
  | cons p podSets ih =>
    have hmem := mem_counts ps p.name
    rw [kept, List.filterMap_cons, List.filter_cons]
    cases hl : (counts ps).lookup p.name with
    | none =>
      rw [if_neg]
      · exact ih
      · rw [decide_eq_true_eq, ← hmem]
        exact Finmap.lookup_eq_none.mp hl
    | some c =>
      rw [if_pos]
      · exact congrArg ((p.name, p.template) :: ·) ih
      · rw [decide_eq_true_eq, ← hmem]
        exact Finmap.mem_iff.mpr ⟨c, hl⟩

theorem find_of_nodup_map {α κ : Type} [DecidableEq κ] {f : α → κ} {l : List α} (hn : (l.map f).Nodup) {a : α}
    (h : a ∈ l) : l.find? (fun b => f b = f a) = some a := by
  induction l with
  | nil => cases h
  | cons b l ih =>
    rw [List.map_cons, List.nodup_cons] at hn
    rcases List.mem_cons.mp h with rfl | h
    · exact List.find?_cons_of_pos (decide_eq_true rfl)
    · have hne : f b ≠ f a := fun he => hn.1 (he ▸ List.mem_map_of_mem h)
      rw [List.find?_cons_of_neg (by simpa using hne), ih hn.2 h]

theorem added_perm (hps : (ps.map PodSet.name).Nodup) (h : Orders curOrder expectOrder podSets ps) :
    (expectOrder.map (fun n => (ps.find? (fun np => np.name = n)).getD {})).Perm
      (ps.filter (fun p => p.name ∉ podSets.map PodSet.name)) := by
  have hnames : ((ps.filter (fun p => p.name ∉ podSets.map PodSet.name)).map PodSet.name).Nodup :=
    hps.sublist (List.filter_sublist.map PodSet.name)
  have horder : expectOrder.Perm ((ps.filter (fun p => p.name ∉ podSets.map PodSet.name)).map PodSet.name) := by
    rw [List.perm_ext_iff_of_nodup h.expect.nodup hnames]
    intro n
    rw [h.expect.mem, mem_expectPs h.cur, mem_counts, mem_counts]
    simp only [List.mem_map, List.mem_filter, decide_eq_true_eq]
    constructor
    · rintro ⟨⟨p, hp, rfl⟩, hnot⟩
      exact ⟨p, ⟨hp, hnot⟩, rfl⟩
    · rintro ⟨p, ⟨hp, hnot⟩, rfl⟩
      exact ⟨⟨p, hp, rfl⟩, hnot⟩
  refine (horder.map _).trans ?_
  rw [List.map_map]
  have hfind : ∀ p ∈ ps.filter (fun p => p.name ∉ podSets.map PodSet.name),
      ((fun n => (ps.find? (fun np => np.name = n)).getD {}) ∘ PodSet.name) p = p := by
    intro p hp
    have hfound := find_of_nodup_map hps (List.mem_of_mem_filter hp)
    exact congrArg (fun found : Option PodSet => found.getD {}) hfound
  rw [List.map_congr_left hfind, List.map_id']

theorem new_eq (h : Orders curOrder expectOrder podSets ps) :
    (reconcileInOrder curOrder expectOrder podSets ps).2 =
      kept podSets ps ++ expectOrder.map (fun n => (ps.find? (fun np => np.name = n)).getD {}) :=
  congrArg (· ++ _) (kept_inOrder h)

theorem nodup_new (hcur : (podSets.map PodSet.name).Nodup) (hps : (ps.map PodSet.name).Nodup)
    (h : Orders curOrder expectOrder podSets ps) :
    ((reconcileInOrder curOrder expectOrder podSets ps).2.map PodSet.name).Nodup := by
  have hkept : (kept podSets ps).map PodSet.name =
      (podSets.filter (fun p => p.name ∈ ps.map PodSet.name)).map PodSet.name := by
    have hmap := congrArg (List.map Prod.fst) (map_kept podSets ps)
    rwa [List.map_map, List.map_map] at hmap
  have hadded := (added_perm hps h).map PodSet.name
  rw [new_eq h, List.map_append, List.nodup_append, hkept, hadded.nodup_iff]
  refine ⟨hcur.sublist (List.filter_sublist.map _), hps.sublist (List.filter_sublist.map _), ?_⟩
  rintro a ha b hb rfl
  obtain ⟨p, hp, rfl⟩ := List.mem_map.mp ha
  obtain ⟨p', hp', hname⟩ := List.mem_map.mp (hadded.mem_iff.mp hb)
  have hout := of_decide_eq_true (List.mem_filter.mp hp').2
  rw [hname] at hout
  exact hout (List.mem_map_of_mem (List.mem_of_mem_filter hp))

theorem mem_kept {p : PodSet} (hps : (ps.map PodSet.name).Nodup) :
    p ∈ kept podSets ps ↔ ∃ p₀ ∈ podSets, ∃ np ∈ ps, np.name = p₀.name ∧ p = { p₀ with count := np.count } := by
  simp only [kept, List.mem_filterMap, Option.map_eq_some_iff, lookup_counts hps]
  constructor
  · rintro ⟨p₀, hp₀, c, ⟨np, hnp, hname, rfl⟩, rfl⟩
    exact ⟨p₀, hp₀, np, hnp, hname, rfl⟩
  · rintro ⟨p₀, hp₀, np, hnp, hname, rfl⟩
    exact ⟨p₀, hp₀, np.count, ⟨np, hnp, hname, rfl⟩, rfl⟩

theorem counts_inOrder (hcur : (podSets.map PodSet.name).Nodup) (hps : (ps.map PodSet.name).Nodup)
    (h : Orders curOrder expectOrder podSets ps) :
    counts (reconcileInOrder curOrder expectOrder podSets ps).2 = counts ps := by
  apply Finmap.ext_lookup
  intro n
  apply Option.ext
  intro c
  rw [lookup_counts (nodup_new hcur hps h), lookup_counts hps, new_eq h]
  simp only [List.mem_append, mem_kept hps, (added_perm hps h).mem_iff, List.mem_filter, decide_eq_true_eq]
  constructor
  · rintro ⟨p, ⟨p₀, _, np, hnp, hname, rfl⟩ | ⟨hp, _⟩, rfl, rfl⟩
    · exact ⟨np, hnp, hname, rfl⟩
    · exact ⟨p, hp, rfl, rfl⟩
  · rintro ⟨np, hnp, rfl, rfl⟩
    by_cases hmem : np.name ∈ podSets.map PodSet.name
    · obtain ⟨p₀, hp₀, hname⟩ := List.mem_map.mp hmem
      exact ⟨_, Or.inl ⟨p₀, hp₀, np, hnp, hname.symm, rfl⟩, hname, rfl⟩
    · exact ⟨np, Or.inr ⟨hnp, hmem⟩, rfl, rfl⟩

theorem inOrder_of_counts (hcur : (podSets.map PodSet.name).Nodup) (h : Orders curOrder expectOrder podSets ps)
    (heq : counts podSets = counts ps) : reconcileInOrder curOrder expectOrder podSets ps = (false, podSets) := by
  have hneed : (reconcileInOrder curOrder expectOrder podSets ps).1 = false := by
    rw [Bool.eq_false_iff]
    exact fun hn => (needUpdate_inOrder h).mp hn heq
  have hkept : kept podSets ps = podSets := by
    rw [kept, ← heq]
    refine (List.filterMap_congr (fun p hp => ?_)).trans List.filterMap_some
    rw [(lookup_counts hcur p.name p.count).mpr ⟨p, hp, rfl, rfl⟩]
    rfl
  have hadded : expectOrder = [] := by
    rw [List.eq_nil_iff_forall_not_mem]
    intro n hn
    obtain ⟨hin, hout⟩ := (mem_expectPs h.cur n).mp ((h.expect.mem n).mp hn)
    exact hout (heq ▸ hin)
  refine Prod.ext hneed ?_
  rw [reconcileInOrder]
  dsimp only
  rw [kept_inOrder h, hkept, hadded, List.map_nil, List.append_nil]

theorem reconcilePodSets_inOrder (podSets ps : List PodSet) :
    let curOrder := (podSets.map PodSet.name).dedup
    let expectOrder := (ps.map PodSet.name).dedup.filter (fun n => decide ((counts podSets).lookup n = none))
    Orders curOrder expectOrder podSets ps ∧
      reconcilePodSets podSets ps = reconcileInOrder curOrder expectOrder podSets ps := by
  intro curOrder expectOrder
  have hcur : Ranges curOrder (counts podSets) :=
    ⟨List.nodup_dedup _, fun n => by rw [List.mem_dedup, mem_counts]⟩
  have h : Orders curOrder expectOrder podSets ps := by
    refine ⟨hcur, (List.nodup_dedup _).filter _, fun n => ?_⟩
    rw [mem_expectPs hcur, List.mem_filter, List.mem_dedup, mem_counts, decide_eq_true_eq, Finmap.lookup_eq_none]
  refine ⟨h, Prod.ext ?_ ?_⟩
  · rw [Bool.eq_iff_iff, needUpdate_iff, needUpdate_inOrder h]
  · rw [new_eq h]
    refine congrArg (kept podSets ps ++ ·) ?_
    refine Eq.trans (List.filterMap_congr fun n hn => ?_) (congrFun List.filterMap_eq_map expectOrder)
    obtain ⟨np, hnp, rfl⟩ := List.mem_map.mp (List.mem_dedup.mp (List.mem_of_mem_filter hn))
    cases hf : ps.find? (fun p => p.name = np.name) with
    | none => exact absurd (List.find?_eq_none.mp hf np hnp) (by simp)
    | some p => simp [hf]

/-- Whatever the orders of the two maps, the podsets of the unit become those of
the job, an update is reported exactly when the names and counts differed, and
doing it again with any orders changes nothing. -/
theorem podSets_merged (hcur : (podSets.map PodSet.name).Nodup) (hps : (ps.map PodSet.name).Nodup)
    (h : Orders curOrder expectOrder podSets ps) :
    Merged podSets ps (reconcileInOrder curOrder expectOrder podSets ps).2 ∧
      ((reconcileInOrder curOrder expectOrder podSets ps).1 = true ↔ counts podSets ≠ counts ps) ∧
      ∀ curOrder' expectOrder', Orders curOrder' expectOrder' (reconcileInOrder curOrder expectOrder podSets ps).2 ps →
        reconcileInOrder curOrder' expectOrder' (reconcileInOrder curOrder expectOrder podSets ps).2 ps =
          (false, (reconcileInOrder curOrder expectOrder podSets ps).2) := by
  have hcounts := counts_inOrder hcur hps h
  refine ⟨⟨hcounts, _, _, new_eq h, map_kept podSets ps, added_perm hps h⟩, needUpdate_inOrder h, ?_⟩
  intro curOrder' expectOrder' h'
  exact inOrder_of_counts (nodup_new hcur hps h) h' hcounts

end Result

def twoPodSets : List PodSet := [{ name := "master", count := 1 }, { name := "worker", count := 2 }]

def otherPodSets : List PodSet := [{ name := "worker", count := 3 }, { name := "ps", count := 1 }]

theorem twoPodSets_merged :
    Merged twoPodSets otherPodSets (reconcileInOrder ["worker", "master"] ["ps"] twoPodSets otherPodSets).2 ∧
      (reconcileInOrder ["worker", "master"] ["ps"] twoPodSets otherPodSets).2 = otherPodSets := by
  have hcur : Ranges ["worker", "master"] (counts twoPodSets) := by
    refine ⟨by decide, fun n => ?_⟩
    rw [mem_counts, twoPodSets]
    simp [or_comm]
  have hexpect : Ranges ["ps"] (merge ["worker", "master"] twoPodSets otherPodSets).expectPs := by
    refine ⟨by decide, fun n => ?_⟩
    rw [mem_expectPs hcur, mem_counts, mem_counts, twoPodSets, otherPodSets]
    simp only [List.map_cons, List.map_nil, List.mem_cons, List.not_mem_nil, or_false]
    grind
  exact ⟨(podSets_merged (by decide) (by decide) ⟨hcur, hexpect⟩).1, by decide⟩

end KoordQueue.JobExt.PodSets
