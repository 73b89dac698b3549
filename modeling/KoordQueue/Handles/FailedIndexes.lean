import KoordQueue.Handles.BatchJob
import KoordQueue.Lib.Machine
import Mathlib.Data.Finset.Fold

namespace KoordQueue.Handles.FailedIndexes

open Decimal Machine BatchJob

def bounds (interval : List Char) : Option (Int64 × Int64) :=
  (atoi (cut '-' interval).1).bind (fun start =>
    (endOf start (cut '-' interval).2).map (fun stop => (start, stop)))

def span (start stop : Int) : Finset Int :=
  (Finset.range (stop + 1 - start).toNat).image (fun i : Nat => start + i)

def covered : List (List Char) → Finset Int
  | [] => ∅
  | interval :: intervals =>
    match bounds interval with
    | none => covered intervals
    | some (start, stop) => span start.toInt stop.toInt ∪ covered intervals

def denoted (indexes : String) : Finset Int :=
  if indexes = "" then ∅ else covered (indexes.toList.splitOn ',')

section Counting

theorem mem_span {start stop i : Int} : i ∈ span start stop ↔ start ≤ i ∧ i ≤ stop := by
  rw [span, Finset.mem_image]
  constructor
  · rintro ⟨k, hk, rfl⟩
    have := Finset.mem_range.mp hk
    omega
  · rintro ⟨h1, h2⟩
    refine ⟨(i - start).toNat, Finset.mem_range.mpr (by omega), by omega⟩

theorem card_span (start stop : Int) : (span start stop).card = (stop + 1 - start).toNat := by
  rw [span, Finset.card_image_of_injective, Finset.card_range]
  intro a b h
  dsimp only at h
  omega

variable {completions count previousEnd c : Int64} {interval : List Char} {intervals : List (List Char)}

theorem countIntervals_cons_ok :
    countIntervals completions (interval :: intervals) count previousEnd = .ok c ↔
      ∃ start stop, bounds interval = some (start, stop) ∧
        previousEnd.toInt < start.toInt ∧ start.toInt ≤ stop.toInt ∧ stop.toInt < completions.toInt ∧
        countIntervals completions intervals (count + (stop - start + 1)) stop = .ok c := by
  rw [countIntervals, bounds]
  dsimp only
  cases atoi (cut '-' interval).1 with
  | none => simp
  | some start =>
    dsimp only
    rw [Option.bind_some]
    cases endOf start (cut '-' interval).2 with
    | none => simp
    | some stop =>
      dsimp only
      rw [Option.map_some]
      simp only [Option.some.injEq, Prod.mk.injEq, Int64.le_iff_toInt_le, Int64.lt_iff_toInt_lt, ge_iff_le]
      split
      next h =>
        simp only [reduceCtorEq, false_iff]
        rintro ⟨start', stop', ⟨rfl, rfl⟩, h1, h2, h3, _⟩
        omega
      next h =>
        constructor
        · intro hc
          exact ⟨start, stop, ⟨rfl, rfl⟩, by omega, by omega, by omega, hc⟩
        · rintro ⟨start', stop', ⟨rfl, rfl⟩, _, _, _, hc⟩
          exact hc

/-- The intervals come in order, so each adds new indexes, all of them between the end of the last
one and the number of completions. The count never passes that end, and so it cannot overflow. -/
theorem countIntervals_spec (h : countIntervals completions intervals count previousEnd = .ok c)
    (hcount : 0 ≤ count.toInt) (hend : count.toInt ≤ previousEnd.toInt + 1) :
    c.toInt = count.toInt + (covered intervals).card ∧
      ∀ i ∈ covered intervals, previousEnd.toInt < i ∧ i < completions.toInt := by
  induction intervals generalizing count previousEnd with
  | nil =>
    cases h
    simp [covered]
  | cons interval intervals ih =>
    obtain ⟨start, stop, hb, hprev, hle, hlt, hrest⟩ := countIntervals_cons_ok.mp h
    have hlen : (count + (stop - start + 1)).toInt = count.toInt + (stop.toInt - start.toInt + 1) := by
      have hmax := Int64.toInt_lt completions
      have hone : (1 : Int64).toInt = 1 := rfl
      have hsub : (stop - start).toInt = stop.toInt - start.toInt :=
        toInt_sub_of_nonneg (by omega) (by omega)
      have hsucc : (stop - start + 1).toInt = stop.toInt - start.toInt + 1 := by
        rw [toInt_add_of_fits (by omega) (by omega), hsub, hone]
      rw [toInt_add_of_fits (by omega) (by omega), hsucc]
    obtain ⟨hcard, hin⟩ := ih hrest (by omega) (by omega)
    have hdisj : Disjoint (span start.toInt stop.toInt) (covered intervals) := by
      rw [Finset.disjoint_left]
      intro i hi hi'
      have := (mem_span.mp hi).2
      have := (hin i hi').1
      omega
    rw [covered, hb]
    dsimp only
    refine ⟨?_, ?_⟩
    · rw [Finset.card_union_of_disjoint hdisj, card_span, hcard, hlen]
      omega
    · intro i hi
      rcases Finset.mem_union.mp hi with hi | hi
      · have := mem_span.mp hi
        omega
      · have := hin i hi
        omega

theorem countFailedIndexes_ok {indexes : String} (h : countFailedIndexes indexes completions = .ok c) :
    c.toInt = (denoted indexes).card ∧ ∀ i ∈ denoted indexes, 0 ≤ i ∧ i < completions.toInt := by
  rw [countFailedIndexes] at h
  rw [denoted]
  split at h
  next he =>
    cases h
    rw [if_pos he]
    exact ⟨rfl, fun i hi => absurd hi (Finset.notMem_empty i)⟩
  next he =>
    obtain ⟨hcard, hin⟩ := countIntervals_spec h (by decide) (by decide)
    rw [if_neg he]
    refine ⟨hcard.trans (zero_add _), ?_⟩
    intro i hi
    have hi := hin i hi
    have hminus : (-1 : Int64).toInt = -1 := rfl
    omega

theorem countFailedIndexes_le {indexes : String} (h : countFailedIndexes indexes completions = .ok c) :
    c.toInt ≤ max 0 completions.toInt := by
  obtain ⟨hcard, hin⟩ := countFailedIndexes_ok h
  have hsub : denoted indexes ⊆ span 0 (completions.toInt - 1) := by
    intro i hi
    have := hin i hi
    exact mem_span.mpr (by omega)
  have hle := Finset.card_le_card hsub
  rw [card_span] at hle
  omega

end Counting

section Rendering

def renderRun (run : Nat × Nat) : List Char :=
  if run.1 = run.2 then Nat.toDigits 10 run.1
  else Nat.toDigits 10 run.1 ++ '-' :: Nat.toDigits 10 run.2

def runs : List Nat → List (Nat × Nat)
  | [] => []
  | i :: is =>
    match runs is with
    | [] => [(i, i)]
    | (first, last) :: rest =>
      if i + 1 = first then (i, last) :: rest else (i, i) :: (first, last) :: rest

def renderRuns (rs : List (Nat × Nat)) : String := String.ofList ([','].intercalate (rs.map renderRun))

def inOrder (indexes : Finset Nat) : List Nat :=
  (List.range (indexes.fold max 0 id + 1)).filter (fun i => decide (i ∈ indexes))

def render (indexes : Finset Nat) : String := renderRuns (runs (inOrder indexes))

theorem pairwise_inOrder (indexes : Finset Nat) : (inOrder indexes).Pairwise (fun a b => a < b) :=
  List.pairwise_lt_range.sublist List.filter_sublist

theorem mem_inOrder (indexes : Finset Nat) (i : Nat) : i ∈ inOrder indexes ↔ i ∈ indexes := by
  rw [inOrder, List.mem_filter, decide_eq_true_eq, List.mem_range]
  refine ⟨And.right, fun h => ⟨?_, h⟩⟩
  exact Nat.lt_succ_of_le ((Finset.le_fold_max i).mpr (Or.inr ⟨i, h, Nat.le_refl i⟩))

structure Maximal (rs : List (Nat × Nat)) : Prop where
  ordered : ∀ r ∈ rs, r.1 ≤ r.2
  apart : rs.Pairwise (fun r r' => r.2 + 1 < r'.1)

theorem runs_ordered (is : List Nat) : ∀ r ∈ runs is, r.1 ≤ r.2 := by
  induction is with
  | nil => simp [runs]
  | cons i is ih =>
    rw [runs]
    cases hr : runs is with
    | nil => simp
    | cons run rest =>
      obtain ⟨first, last⟩ := run
      rw [hr] at ih
      have hhead := ih (first, last) List.mem_cons_self
      dsimp only at hhead ⊢
      split
      next he =>
        intro r hmem
        rcases List.mem_cons.mp hmem with rfl | hmem
        · dsimp only
          omega
        · exact ih r (List.mem_cons_of_mem _ hmem)
      next =>
        intro r hmem
        rcases List.mem_cons.mp hmem with rfl | hmem
        · exact Nat.le_refl _
        · exact ih r hmem

theorem mem_runs (is : List Nat) (j : Nat) : (∃ r ∈ runs is, r.1 ≤ j ∧ j ≤ r.2) ↔ j ∈ is := by
  induction is with
  | nil => simp [runs]
  | cons i is ih =>
    have hordered := runs_ordered is
    rw [runs, List.mem_cons, ← ih]
    cases hr : runs is with
    | nil =>
      simp
      omega
    | cons run rest =>
      obtain ⟨first, last⟩ := run
      rw [hr] at hordered
      have hhead := hordered (first, last) List.mem_cons_self
      dsimp only at hhead ⊢
      split
      next he =>
        simp only [List.mem_cons, exists_eq_or_imp]
        rw [← or_assoc]
        refine or_congr_left ?_
        omega
      next =>
        simp only [List.mem_cons, exists_eq_or_imp]
        refine or_congr_left ?_
        omega

theorem maximal_runs {is : List Nat} (h : is.Pairwise (fun a b => a < b)) : Maximal (runs is) := by
  refine ⟨runs_ordered is, ?_⟩
  induction is with
  | nil => exact List.Pairwise.nil
  | cons i is ih =>
    rw [List.pairwise_cons] at h
    have hapart := ih h.2
    have hordered := runs_ordered is
    have hfirst : ∀ r ∈ runs is, i < r.1 :=
      fun r hr => h.1 r.1 ((mem_runs is r.1).mp ⟨r, hr, Nat.le_refl _, hordered r hr⟩)
    rw [runs]
    cases hr : runs is with
    | nil => exact List.pairwise_singleton _ _
    | cons run rest =>
      obtain ⟨first, last⟩ := run
      rw [hr] at hapart hordered hfirst
      rw [List.pairwise_cons] at hapart
      have hhead := hordered (first, last) List.mem_cons_self
      have hi := hfirst (first, last) List.mem_cons_self
      dsimp only at hhead hi ⊢
      split
      next => exact List.pairwise_cons.mpr ⟨hapart.1, hapart.2⟩
      next hne =>
        refine List.pairwise_cons.mpr ⟨?_, List.pairwise_cons.mpr hapart⟩
        intro r hmem
        dsimp only
        rcases List.mem_cons.mp hmem with rfl | hmem
        · dsimp only
          omega
        · have := hapart.1 r hmem
          dsimp only at this
          omega

theorem bounds_renderRun {r : Nat × Nat} (h1 : r.1 < 2 ^ 63) (h2 : r.2 < 2 ^ 63) :
    bounds (renderRun r) = some (Int64.ofInt r.1, Int64.ofInt r.2) := by
  have hdash : '-' ∉ Nat.toDigits 10 r.1 := notMem_toDigits r.1 (by decide)
  rw [bounds, renderRun]
  split
  next he => rw [cut_of_notMem hdash, atoi_toDigits h1, Option.bind_some, endOf, Option.map_some, he]
  next => rw [cut_append hdash, atoi_toDigits h1, Option.bind_some, endOf, atoi_toDigits h2, Option.map_some]

variable {completions : Int64} {rs : List (Nat × Nat)}

theorem mem_covered (h : ∀ r ∈ rs, r.1 < 2 ^ 63 ∧ r.2 < 2 ^ 63) (i : Int) :
    i ∈ covered (rs.map renderRun) ↔ ∃ r ∈ rs, (r.1 : Int) ≤ i ∧ i ≤ r.2 := by
  induction rs with
  | nil => simp [covered]
  | cons r rs ih =>
    obtain ⟨h1, h2⟩ := h r List.mem_cons_self
    rw [List.map_cons, covered, bounds_renderRun h1 h2]
    dsimp only
    rw [Finset.mem_union, ih (fun r hr => h r (List.mem_cons_of_mem _ hr)), mem_span,
      Int64.toInt_ofInt_of_le (by omega) (by omega), Int64.toInt_ofInt_of_le (by omega) (by omega)]
    simp

theorem countIntervals_runs (hm : Maximal rs)
    (hlt : ∀ r ∈ rs, (r.2 : Int) < completions.toInt) (count previousEnd : Int64)
    (hprev : ∀ r ∈ rs, previousEnd.toInt < r.1) :
    ∃ c, countIntervals completions (rs.map renderRun) count previousEnd = .ok c := by
  induction rs generalizing count previousEnd with
  | nil => exact ⟨count, rfl⟩
  | cons r rs ih =>
    have hmax := Int64.toInt_lt completions
    have hlast := hlt r List.mem_cons_self
    have hordered := hm.ordered r List.mem_cons_self
    have hapart := List.pairwise_cons.mp hm.apart
    have htoFirst : (Int64.ofInt r.1).toInt = r.1 := Int64.toInt_ofInt_of_le (by omega) (by omega)
    have htoLast : (Int64.ofInt r.2).toInt = r.2 := Int64.toInt_ofInt_of_le (by omega) (by omega)
    obtain ⟨c, hc⟩ := ih ⟨fun r hr => hm.ordered r (List.mem_cons_of_mem _ hr), hapart.2⟩
      (fun r hr => hlt r (List.mem_cons_of_mem _ hr))
      (count + (Int64.ofInt r.2 - Int64.ofInt r.1 + 1)) (Int64.ofInt r.2) (by
        intro r' hr'
        have := hapart.1 r' hr'
        rw [htoLast]
        omega)
    have hfirst := hprev r List.mem_cons_self
    refine ⟨c, countIntervals_cons_ok.mpr ⟨_, _, bounds_renderRun (by omega) (by omega), ?_, ?_, ?_, hc⟩⟩
    · rwa [htoFirst]
    · rw [htoFirst, htoLast]
      omega
    · rwa [htoLast]

theorem comma_notMem_renderRun (r : Nat × Nat) : ',' ∉ renderRun r := by
  have hcomma : ∀ n, ',' ∉ Nat.toDigits 10 n := fun n => notMem_toDigits n (by decide)
  rw [renderRun]
  split
  next => exact hcomma r.1
  next => simp [hcomma]

theorem renderRun_ne_nil (r : Nat × Nat) : renderRun r ≠ [] := by
  rw [renderRun]
  split
  next => exact Nat.toDigits_ne_nil
  next => simp

theorem splitOn_renderRuns (h : rs ≠ []) : (renderRuns rs).toList.splitOn ',' = rs.map renderRun := by
  rw [renderRuns, String.toList_ofList]
  apply List.splitOn_intercalate
  · intro s hs
    obtain ⟨r, _, rfl⟩ := List.mem_map.mp hs
    exact comma_notMem_renderRun r
  · rwa [ne_eq, List.map_eq_nil_iff]

theorem renderRuns_ne (h : rs ≠ []) : renderRuns rs ≠ "" := by
  intro he
  have hsplit := splitOn_renderRuns h
  rw [he] at hsplit
  obtain ⟨r, rs, rfl⟩ := List.exists_cons_of_ne_nil h
  rw [List.map_cons] at hsplit
  exact renderRun_ne_nil r (List.cons.inj hsplit).1.symm

theorem denoted_renderRuns (h : ∀ r ∈ rs, r.1 < 2 ^ 63 ∧ r.2 < 2 ^ 63) (i : Int) :
    i ∈ denoted (renderRuns rs) ↔ ∃ r ∈ rs, (r.1 : Int) ≤ i ∧ i ≤ r.2 := by
  rw [denoted]
  cases rs with
  | nil => simp [renderRuns]
  | cons r rs =>
    have hne : r :: rs ≠ [] := List.cons_ne_nil r rs
    rw [if_neg (renderRuns_ne hne), splitOn_renderRuns hne, mem_covered h]

theorem countFailedIndexes_runs (hm : Maximal rs) (hlt : ∀ r ∈ rs, (r.2 : Int) < completions.toInt) :
    ∃ c, countFailedIndexes (renderRuns rs) completions = .ok c := by
  rw [countFailedIndexes]
  split
  next => exact ⟨0, rfl⟩
  next hne =>
    have hrs : rs ≠ [] := by
      rintro rfl
      exact hne rfl
    rw [splitOn_renderRuns hrs]
    refine countIntervals_runs hm hlt 0 (-1) (fun r _ => ?_)
    have hminus : (-1 : Int64).toInt = -1 := rfl
    omega

theorem countFailedIndexes_render {indexes : Finset Nat} (h : ∀ i ∈ indexes, (i : Int) < completions.toInt) :
    ∃ c, countFailedIndexes (render indexes) completions = .ok c ∧ c.toInt = indexes.card := by
  have hmax := Int64.toInt_lt completions
  have hm := maximal_runs (pairwise_inOrder indexes)
  have hmem : ∀ j, (∃ r ∈ runs (inOrder indexes), r.1 ≤ j ∧ j ≤ r.2) ↔ j ∈ indexes :=
    fun j => (mem_runs _ j).trans (mem_inOrder indexes j)
  rw [render]
  generalize runs (inOrder indexes) = rs at hm hmem ⊢
  have hlt : ∀ r ∈ rs, (r.2 : Int) < completions.toInt :=
    fun r hr => h r.2 ((hmem r.2).mp ⟨r, hr, hm.ordered r hr, Nat.le_refl _⟩)
  have hfits : ∀ r ∈ rs, r.1 < 2 ^ 63 ∧ r.2 < 2 ^ 63 := by
    intro r hr
    have := hlt r hr
    have := hm.ordered r hr
    omega
  obtain ⟨c, hc⟩ := countFailedIndexes_runs hm hlt
  have hdenoted : denoted (renderRuns rs) = indexes.image Int.ofNat := by
    ext i
    rw [denoted_renderRuns hfits, Finset.mem_image]
    constructor
    · rintro ⟨r, hr, h1, h2⟩
      obtain ⟨j, rfl⟩ := Int.eq_ofNat_of_zero_le (by omega : 0 ≤ i)
      exact ⟨j, (hmem j).mp ⟨r, hr, by omega, by omega⟩, rfl⟩
    · rintro ⟨j, hj, rfl⟩
      obtain ⟨r, hr, h1, h2⟩ := (hmem j).mpr hj
      exact ⟨r, hr, Int.ofNat_le.mpr h1, Int.ofNat_le.mpr h2⟩
  refine ⟨c, hc, ?_⟩
  rw [(countFailedIndexes_ok hc).1, hdenoted, Finset.card_image_of_injective indexes (fun _ _ => Int.ofNat.inj)]

end Rendering

section Counts

theorem toInt_parallel (job : Job) : job.parallel.toInt = (job.parallelism.map Int32.toInt).getD 1 := by
  rw [Job.parallel]
  cases job.parallelism with
  | none => rfl
  | some parallelism => exact Int32.toInt_toInt64 parallelism

theorem toInt_completion (job : Job) :
    job.completion.toInt =
      (job.completions.map Int32.toInt).getD ((job.parallelism.map Int32.toInt).getD 1) := by
  rw [Job.completion, ← toInt_parallel]
  cases job.completions with
  | none => rfl
  | some completions => exact Int32.toInt_toInt64 completions

theorem parallel_fits (job : Job) : -2 ^ 31 ≤ job.parallel.toInt ∧ job.parallel.toInt < 2 ^ 31 := by
  rw [toInt_parallel]
  cases job.parallelism with
  | none => decide
  | some parallelism => exact ⟨Int32.le_toInt parallelism, Int32.toInt_lt parallelism⟩

theorem completion_fits (job : Job) : -2 ^ 31 ≤ job.completion.toInt ∧ job.completion.toInt < 2 ^ 31 := by
  rw [toInt_completion, ← toInt_parallel]
  cases job.completions with
  | none => exact parallel_fits job
  | some completions => exact ⟨Int32.le_toInt completions, Int32.toInt_lt completions⟩

theorem failed_fits (job : Job) : 0 ≤ job.failed.toInt ∧ job.failed.toInt ≤ max 0 job.completion.toInt := by
  have hzero : (0 : Int64).toInt = 0 := rfl
  rw [Job.failed]
  split
  next =>
    split
    next => omega
    next =>
      split
      next => omega
      next h =>
        have hle := countFailedIndexes_le h
        have hcard := (countFailedIndexes_ok h).1
        omega
  next => omega

theorem toInt_count (job : Job) :
    (min job.parallel (max 0 (job.completion - job.succeeded.toInt64 - job.failed))).toInt32.toInt =
      min job.parallel.toInt (max 0 (job.completion.toInt - job.succeeded.toInt - job.failed.toInt)) := by
  have hzero : (0 : Int64).toInt = 0 := rfl
  have hp := parallel_fits job
  have hc := completion_fits job
  have hf := failed_fits job
  have hsl := Int32.le_toInt job.succeeded
  have hsu := Int32.toInt_lt job.succeeded
  have hs : job.succeeded.toInt64.toInt = job.succeeded.toInt := Int32.toInt_toInt64 _
  have hsub : (job.completion - job.succeeded.toInt64).toInt = job.completion.toInt - job.succeeded.toInt := by
    rw [toInt_sub_of_fits (by omega) (by omega), hs]
  have hremaining : (job.completion - job.succeeded.toInt64 - job.failed).toInt =
      job.completion.toInt - job.succeeded.toInt - job.failed.toInt := by
    rw [toInt_sub_of_fits (by omega) (by omega), hsub]
  have hcount : (min job.parallel (max 0 (job.completion - job.succeeded.toInt64 - job.failed))).toInt =
      min job.parallel.toInt (max 0 (job.completion.toInt - job.succeeded.toInt - job.failed.toInt)) := by
    rw [toInt_min, toInt_max, hremaining, hzero]
  rw [toInt_toInt32_of_fits (by omega) (by omega), hcount]

theorem failed_of_ok {job : Job} {indexes : String} {failed : Int64} (hmode : job.completionMode = some .indexed)
    (hindexes : job.failedIndexes = some indexes)
    (h : countFailedIndexes indexes job.completion = .ok failed) : job.failed = failed := by
  rw [Job.failed, hmode, hindexes, Option.getD_some, if_pos rfl]
  dsimp only
  rw [h]

/-- The failed indexes of a job are counted right: the text for a set of
indexes gives the size of the set; any text that is accepted gives the number
of indexes it denotes, at most the number of completions; and the podset of an
indexed job leaves out what has succeeded and these indexes. -/
theorem failedIndexes_counted :
    (∀ (completions : Int64) (indexes : Finset Nat), (∀ i ∈ indexes, (i : Int) < completions.toInt) →
      ∃ c, countFailedIndexes (render indexes) completions = .ok c ∧ c.toInt = indexes.card) ∧
    (∀ (indexes : String) (completions c : Int64), countFailedIndexes indexes completions = .ok c →
      c.toInt = (denoted indexes).card ∧ c.toInt ≤ max 0 completions.toInt) ∧
    (∀ (job : Job) (indexes : String) (failed : Int64), job.completionMode = some .indexed →
      job.failedIndexes = some indexes → countFailedIndexes indexes job.completion = .ok failed →
      let parallelism := (job.parallelism.map Int32.toInt).getD 1
      let completions := (job.completions.map Int32.toInt).getD parallelism
      (podSet job).map (fun ps => (ps.name, ps.template, ps.count.toInt)) =
        [(job.name, job.template,
          min parallelism (max 0 (completions - job.succeeded.toInt - (denoted indexes).card)))]) := by
  refine ⟨fun _ _ h => countFailedIndexes_render h,
    fun _ _ _ h => ⟨(countFailedIndexes_ok h).1, countFailedIndexes_le h⟩, ?_⟩
  intro job indexes failed hmode hindexes h parallelism completions
  have hcount := toInt_count job
  rw [toInt_parallel, toInt_completion, failed_of_ok hmode hindexes h, (countFailedIndexes_ok h).1] at hcount
  rw [podSet, List.map_singleton, ← hcount, failed_of_ok hmode hindexes h]

def fiveFailed : Job :=
  { name := "job", parallelism := some 3, completions := some 10, completionMode := some .indexed
    succeeded := 3, failedIndexes := some "1,3-5,7" }

theorem fiveFailed_counted :
    render {1, 3, 4, 5, 7} = "1,3-5,7" ∧
      (∃ c, countFailedIndexes (render {1, 3, 4, 5, 7}) 10 = .ok c ∧ c.toInt = 5) ∧
      (denoted "1,3-5,7").card = 5 ∧
      (podSet fiveFailed).map (fun ps => ps.count.toInt) = [2] := by
  have hok : countFailedIndexes "1,3-5,7" 10 = .ok 5 := by decide +kernel
  have hcard : (denoted "1,3-5,7").card = 5 := Int.ofNat_inj.mp (failedIndexes_counted.2.1 _ _ _ hok).1.symm
  have hps := failedIndexes_counted.2.2 fiveFailed _ 5 rfl rfl hok
  rw [hcard] at hps
  refine ⟨by decide +kernel, failedIndexes_counted.1 10 {1, 3, 4, 5, 7} (by decide), hcard, ?_⟩
  have hcount := congrArg (List.map (fun entry => entry.2.2)) hps
  rw [List.map_map] at hcount
  exact hcount

end Counts

end KoordQueue.Handles.FailedIndexes
