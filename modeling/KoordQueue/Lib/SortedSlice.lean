import KoordQueue.Lib.BinarySearch
import Mathlib.Order.Lattice
import Mathlib.Data.List.Sort

namespace KoordQueue.SortedSlice

open BinarySearch

variable {α β κ : Type} [LinearOrder κ] (rank : α → κ)

def Sorted (l : List α) : Prop := l.Pairwise (fun a b => rank a < rank b)

def below (t : κ) (l : List α) : List α := l.filter (fun a => rank a < t)

def above (t : κ) (l : List α) : List α := l.filter (fun a => ¬ rank a < t)

variable {rank}

theorem below_append_above {l : List α} (hl : Sorted rank l) (t : κ) : below rank t l ++ above rank t l = l := by
  induction l with
  | nil => rfl
  | cons a l ih =>
    obtain ⟨ha, hrest⟩ := List.pairwise_cons.mp hl
    by_cases hlt : rank a < t
    · have hsplit := ih hrest
      simp only [below, above] at hsplit ⊢
      simpa [hlt] using hsplit
    · have hge : ∀ b ∈ a :: l, ¬ rank b < t := by
        intro b hb hbt
        rcases List.mem_cons.mp hb with rfl | hb
        · exact hlt hbt
        · exact hlt ((ha b hb).trans hbt)
      have hnone : below rank t (a :: l) = [] := by
        apply List.filter_eq_nil_iff.mpr
        intro b hb
        simpa using hge b hb
      have hall : above rank t (a :: l) = a :: l := by
        apply List.filter_eq_self.mpr
        intro b hb
        simpa using hge b hb
      rw [hnone, hall, List.nil_append]

variable {a b : α}

theorem head_above {l : List α} (hl : Sorted rank l) (ha : a ∈ l) : (above rank (rank a) l).head? = some a := by
  induction l with
  | nil => cases ha
  | cons b l ih =>
    obtain ⟨hb, hrest⟩ := List.pairwise_cons.mp hl
    rcases List.mem_cons.mp ha with rfl | hmem
    · simp [above]
    · have hlt := hb a hmem
      have := ih hrest hmem
      simp only [above] at this ⊢
      simpa [hlt] using this

def Aligned (rank : α → κ) (cmp : α → β → Int) (target : β) (t : κ) (l : List α) : Prop :=
  ∀ a ∈ l, (cmp a target < 0 ↔ rank a < t) ∧ (cmp a target = 0 ↔ rank a = t)

variable {cmp : α → β → Int} {target : β} {t : κ} {l : List α}

theorem binarySearchFunc_eq (hl : Sorted rank l) (hc : Aligned rank cmp target t l) :
    binarySearchFunc l target cmp = ((below rank t l).length, (above rank t l).head?.any (fun a => rank a = t)) := by
  have hbelow : ∀ a ∈ below rank t l, cmp a target < 0 := by
    intro a ha
    obtain ⟨hmem, hlt⟩ := List.mem_filter.mp ha
    exact (hc a hmem).1.mpr (of_decide_eq_true hlt)
  have habove : ∀ a ∈ above rank t l, ¬ cmp a target < 0 := by
    intro a ha
    obtain ⟨hmem, hge⟩ := List.mem_filter.mp ha
    rw [(hc a hmem).1]
    exact of_decide_eq_true hge
  have h := binarySearchFunc_append (below rank t l) (above rank t l) target cmp hbelow habove
  rw [below_append_above hl] at h
  rw [h]
  congr 1
  cases hhead : (above rank t l).head? with
  | none => rfl
  | some a =>
    have hmem : a ∈ l := List.mem_of_mem_filter (List.mem_of_mem_head? hhead)
    simp only [Option.any_some]
    rw [decide_eq_decide]
    exact (hc a hmem).2

theorem not_found (hl : Sorted rank l) (hc : Aligned rank cmp target t l) (ht : ∀ a ∈ l, rank a ≠ t) :
    binarySearchFunc l target cmp = ((below rank t l).length, false) := by
  rw [binarySearchFunc_eq hl hc]
  congr 1
  cases hhead : (above rank t l).head? with
  | none => rfl
  | some a =>
    have hmem : a ∈ l := List.mem_of_mem_filter (List.mem_of_mem_head? hhead)
    simpa using ht a hmem

theorem found (hl : Sorted rank l) (hc : Aligned rank cmp target (rank a) l) (ha : a ∈ l) :
    binarySearchFunc l target cmp = ((below rank (rank a) l).length, true) := by
  rw [binarySearchFunc_eq hl hc, head_above hl ha]
  simp

theorem insertIdx_length_append (pre post : List α) (a : α) :
    (pre ++ post).insertIdx pre.length a = pre ++ a :: post := by
  induction pre with
  | nil => rfl
  | cons b pre ih => simpa using ih

theorem insertIdx_below (hl : Sorted rank l) (t : κ) (a : α) :
    l.insertIdx (below rank t l).length a = below rank t l ++ a :: above rank t l := by
  have h := insertIdx_length_append (below rank t l) (above rank t l) a
  rwa [below_append_above hl] at h

theorem below_cons_of_not_lt (hl : Sorted rank (b :: l)) (hb : ¬ rank b < t) : below rank t (b :: l) = [] := by
  apply List.filter_eq_nil_iff.mpr
  intro c hc
  rw [decide_eq_true_eq]
  rcases List.mem_cons.mp hc with rfl | hc
  · exact hb
  · exact fun h => hb (((List.pairwise_cons.mp hl).1 c hc).trans h)

theorem eraseIdx_below (hl : Sorted rank l) (ha : a ∈ l) :
    l.eraseIdx (below rank (rank a) l).length = l.filter (fun b => rank b ≠ rank a) := by
  induction l with
  | nil => cases ha
  | cons b l ih =>
    obtain ⟨hb, hrest⟩ := List.pairwise_cons.mp hl
    rcases List.mem_cons.mp ha with rfl | hmem
    · rw [below_cons_of_not_lt hl (lt_irrefl _)]
      have hkeep : l.filter (fun b => rank b ≠ rank a) = l := by
        apply List.filter_eq_self.mpr
        intro c hc
        exact decide_eq_true (hb c hc).ne'
      simp only [List.length_nil, List.eraseIdx_zero, List.tail_cons]
      rw [List.filter_cons_of_neg (by simp), hkeep]
    · have hlt := hb a hmem
      have hbelow : below rank (rank a) (b :: l) = b :: below rank (rank a) l :=
        List.filter_cons_of_pos (decide_eq_true hlt)
      have hkeep : (b :: l).filter (fun b => rank b ≠ rank a) = b :: l.filter (fun b => rank b ≠ rank a) :=
        List.filter_cons_of_pos (decide_eq_true hlt.ne)
      rw [hbelow, List.length_cons, List.eraseIdx_cons_succ, ih hrest hmem, hkeep]

theorem mem_insert (hl : Sorted rank l) : b ∈ below rank t l ++ a :: above rank t l ↔ b = a ∨ b ∈ l := by
  conv_rhs => rw [← below_append_above hl t]
  simp only [List.mem_append, List.mem_cons]
  tauto

theorem sorted_insert (hl : Sorted rank l) (ha : ∀ b ∈ l, rank b ≠ rank a) :
    Sorted rank (below rank (rank a) l ++ a :: above rank (rank a) l) := by
  apply List.pairwise_append.mpr
  refine ⟨hl.filter _, List.pairwise_cons.mpr ⟨?_, hl.filter _⟩, ?_⟩
  · intro b hb
    obtain ⟨hmem, hge⟩ := List.mem_filter.mp hb
    exact lt_of_le_of_ne (not_lt.mp (of_decide_eq_true hge)) (ha b hmem).symm
  · intro b hb c hc
    have hba : rank b < rank a := of_decide_eq_true (List.mem_filter.mp hb).2
    rcases List.mem_cons.mp hc with rfl | hc
    · exact hba
    · exact hba.trans_le (not_lt.mp (of_decide_eq_true (List.mem_filter.mp hc).2))

theorem eq_of_mem_iff {l' : List α} (hl : Sorted rank l) (hl' : Sorted rank l') (h : ∀ a, a ∈ l ↔ a ∈ l') : l = l' := by
  have hasymm : Std.Antisymm (fun a b => rank a < rank b) := ⟨fun a b hab hba => absurd (hab.trans hba) (lt_irrefl _)⟩
  have hirrefl : Std.Irrefl (fun a b => rank a < rank b) := ⟨fun a => lt_irrefl _⟩
  exact List.Pairwise.eq_of_mem_iff hl hl' h

theorem sorted_mergeSort {le : α → α → Bool} (hle : ∀ a ∈ l, ∀ b ∈ l, le a b = decide (rank a ≤ rank b))
    (hinj : ∀ a ∈ l, ∀ b ∈ l, rank a = rank b → a = b) (hn : l.Nodup) : Sorted rank (l.mergeSort le) := by
  have hsame : l.mergeSort le = l.mergeSort (fun a b => decide (rank a ≤ rank b)) := by
    have hmap := List.map_mergeSort (f := id) (s := fun a b => decide (rank a ≤ rank b)) hle
    rwa [List.map_id, List.map_id] at hmap
  have hsorted : (l.mergeSort (fun a b => decide (rank a ≤ rank b))).Pairwise
      (fun a b => decide (rank a ≤ rank b) = true) := by
    apply List.pairwise_mergeSort
    · intro a b c hab hbc
      exact decide_eq_true ((of_decide_eq_true hab).trans (of_decide_eq_true hbc))
    · intro a b
      simpa using le_total (rank a) (rank b)
  have hperm := List.mergeSort_perm l (fun a b => decide (rank a ≤ rank b))
  have hnodup := hperm.nodup_iff.mpr hn
  rw [hsame]
  apply (hsorted.and hnodup).imp_of_mem
  intro a b ha hb h
  refine lt_of_le_of_ne (of_decide_eq_true h.1) (fun he => h.2 ?_)
  exact hinj a (hperm.mem_iff.mp ha) b (hperm.mem_iff.mp hb) he

end KoordQueue.SortedSlice
