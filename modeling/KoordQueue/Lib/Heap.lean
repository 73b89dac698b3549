import Mathlib.Data.List.Basic

namespace KoordQueue

abbrev Ref := Nat

/-- Objects at the addresses `0, 1, …` in the order in which they were built. -/
structure Heap (α : Type) where
  cells : List α := []
deriving DecidableEq

namespace Heap

variable {α : Type}

def Allocated (h : Heap α) (r : Ref) : Prop := r < h.cells.length
deriving Decidable

def alloc (h : Heap α) (x : α) : Heap α := ⟨h.cells ++ [x]⟩

def next (h : Heap α) : Ref := h.cells.length

def set (h : Heap α) (r : Ref) (x : α) : Heap α := ⟨h.cells.set r x⟩

theorem allocated_alloc (h : Heap α) (x : α) (r : Ref) : (h.alloc x).Allocated r ↔ h.Allocated r ∨ r = h.next := by
  simp only [Allocated, alloc, next, List.length_append, List.length_singleton]
  exact Nat.lt_succ_iff_lt_or_eq

theorem allocated_set (h : Heap α) (r s : Ref) (x : α) : (h.set r x).Allocated s ↔ h.Allocated s := by
  simp only [Allocated, set, List.length_set]

variable {h : Heap α} {r : Ref}

theorem set_of_not_allocated (hr : ¬ h.Allocated r) (x : α) : h.set r x = h := by
  rw [set, List.set_eq_of_length_le (Nat.le_of_not_lt hr)]

variable [Inhabited α]

def get (h : Heap α) (r : Ref) : α := h.cells.getD r default

theorem get_alloc_next (h : Heap α) (x : α) : (h.alloc x).get h.next = x := by
  simp [get, alloc, next]

theorem get_alloc (hr : h.Allocated r) (x : α) : (h.alloc x).get r = h.get r := by
  unfold Allocated at hr
  simp only [get, alloc, List.getD_eq_getElem?_getD, List.getElem?_append_left hr]

theorem get_alloc_eq (h : Heap α) (x : α) (r : Ref) : (h.alloc x).get r = if r = h.next then x else h.get r := by
  rcases Nat.lt_trichotomy r h.cells.length with hr | hr | hr
  · rw [if_neg (show ¬ r = h.next from Nat.ne_of_lt hr)]
    exact get_alloc hr x
  · subst hr
    rw [if_pos (show h.cells.length = h.next from rfl)]
    exact get_alloc_next h x
  · rw [if_neg (show ¬ r = h.next from Nat.ne_of_gt hr)]
    simp only [get, alloc, List.getD_eq_getElem?_getD]
    rw [List.getElem?_eq_none (by rw [List.length_append]; exact hr), List.getElem?_eq_none (Nat.le_of_lt hr)]

theorem get_set (hr : h.Allocated r) (x : α) (s : Ref) : (h.set r x).get s = if s = r then x else h.get s := by
  unfold Allocated at hr
  by_cases hs : s = r
  · subst s
    simp [get, set, hr]
  · simp [get, set, Ne.symm hs, hs]

end Heap

end KoordQueue
