import KoordQueue.Lib.SortedSlice

namespace KoordQueue.SortFunc

open SortedSlice

variable {α κ : Type}

structure StrictWeak (cmp : α → α → Int) (l : List α) : Prop where
  irrefl : ∀ a ∈ l, ¬ cmp a a < 0
  trans : ∀ a ∈ l, ∀ b ∈ l, ∀ c ∈ l, cmp a b < 0 → cmp b c < 0 → cmp a c < 0
  incomparable : ∀ a ∈ l, ∀ b ∈ l, ∀ c ∈ l, ¬ cmp a b < 0 → ¬ cmp b c < 0 → ¬ cmp a c < 0
  flip : ∀ a ∈ l, ∀ b ∈ l, 0 < cmp a b ↔ cmp b a < 0

/-- A sort that is correct for every strict weak order. -/
structure Sorts (sort : (α → α → Int) → List α → List α) : Prop where
  perm : ∀ {cmp l}, StrictWeak cmp l → (sort cmp l).Perm l
  sorted : ∀ {cmp l}, StrictWeak cmp l → (sort cmp l).Pairwise (fun a b => ¬ cmp b a < 0)

def mergeSortFunc (cmp : α → α → Int) (l : List α) : List α := l.mergeSort (fun a b => cmp a b ≤ 0)

theorem StrictWeak.le_iff {cmp : α → α → Int} {l : List α} (h : StrictWeak cmp l) {a b : α} (ha : a ∈ l) (hb : b ∈ l) :
    cmp a b ≤ 0 ↔ ¬ cmp b a < 0 := by
  rw [← not_lt, h.flip a ha b hb]

theorem sorts_mergeSort : Sorts (mergeSortFunc (α := α)) where
  perm _ := List.mergeSort_perm _ _
  sorted {cmp l} h := by
    have hmap : (l.attach.mergeSort (fun a b => decide (cmp a.1 b.1 ≤ 0))).map Subtype.val = mergeSortFunc cmp l := by
      rw [List.map_mergeSort (s := fun a b => decide (cmp a b ≤ 0)) (fun _ _ _ _ => rfl), List.attach_map_subtype_val]
      rfl
    rw [← hmap, List.pairwise_map]
    refine (List.pairwise_mergeSort ?_ ?_ l.attach).imp ?_
    · intro a b c hab hbc
      simp only [decide_eq_true_eq, h.le_iff a.2 b.2, h.le_iff b.2 c.2, h.le_iff a.2 c.2] at hab hbc ⊢
      exact h.incomparable c.1 c.2 b.1 b.2 a.1 a.2 hbc hab
    · intro a b
      simp only [Bool.or_eq_true, decide_eq_true_eq, h.le_iff a.2 b.2]
      by_cases hba : cmp b.1 a.1 < 0
      · exact .inr hba.le
      · exact .inl hba
    · intro a b hab
      exact (h.le_iff a.2 b.2).mp (of_decide_eq_true hab)

variable [LinearOrder κ] {rank : α → κ} {cmp : α → α → Int} {l : List α} {sort : (α → α → Int) → List α → List α}

def Ranked (rank : α → κ) (cmp : α → α → Int) (l : List α) : Prop :=
  ∀ a ∈ l, ∀ b ∈ l, (cmp a b < 0 ↔ rank a < rank b) ∧ (0 < cmp a b ↔ rank b < rank a)

theorem strictWeak_of_ranked (h : Ranked rank cmp l) : StrictWeak cmp l where
  irrefl a ha := by
    rw [(h a ha a ha).1]
    exact lt_irrefl _
  trans a ha b hb c hc := by
    rw [(h a ha b hb).1, (h b hb c hc).1, (h a ha c hc).1]
    exact lt_trans
  incomparable a ha b hb c hc := by
    rw [(h a ha b hb).1, (h b hb c hc).1, (h a ha c hc).1, not_lt, not_lt, not_lt]
    exact fun hab hbc => hbc.trans hab
  flip a ha b hb := by rw [(h a ha b hb).2, (h b hb a ha).1]

theorem sorted_of_sorts (hs : Sorts sort) (h : Ranked rank cmp l) (hn : l.Pairwise (fun a b => rank a ≠ rank b)) :
    Sorted rank (sort cmp l) := by
  have hperm := hs.perm (strictWeak_of_ranked h)
  have hne : (sort cmp l).Pairwise (fun a b => rank a ≠ rank b) := hperm.symm.pairwise hn (fun hab => hab.symm)
  apply ((hs.sorted (strictWeak_of_ranked h)).and hne).imp_of_mem
  intro a b ha hb hab
  rw [(h b (hperm.mem_iff.mp hb) a (hperm.mem_iff.mp ha)).1, not_lt] at hab
  exact lt_of_le_of_ne hab.1 hab.2

theorem eq_of_sorted {l l' : List α} (hl : Sorted rank l) (hl' : Sorted rank l') (hperm : l.Perm l') : l = l' := by
  apply List.Perm.eq_of_pairwise _ hl hl' hperm
  intro a b _ _ hab hba
  exact absurd hba hab.asymm

theorem eq_of_sorts {sort' : (α → α → Int) → List α → List α} (hs : Sorts sort) (hs' : Sorts sort')
    (h : Ranked rank cmp l) (hn : l.Pairwise (fun a b => rank a ≠ rank b)) : sort cmp l = sort' cmp l :=
  have hw := strictWeak_of_ranked h
  eq_of_sorted (sorted_of_sorts hs h hn) (sorted_of_sorts hs' h hn) ((hs.perm hw).trans (hs'.perm hw).symm)

end KoordQueue.SortFunc
