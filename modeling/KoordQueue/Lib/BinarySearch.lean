import Mathlib.Data.List.Basic

namespace KoordQueue.BinarySearch

variable {α β : Type}

/-- The halving loop on the window from `i` to `j`, for at most `n` rounds. -/
def search (below : Nat → Bool) : Nat → Nat → Nat → Nat
  | 0, i, _ => i
  | n + 1, i, j =>
    if i < j then
      if below ((i + j) / 2) then search below n ((i + j) / 2 + 1) j
      else search below n i ((i + j) / 2)
    else i

/-- The position at which `target` belongs and whether an equal element is
there, for a list in the order of `cmp`. -/
def binarySearchFunc (x : List α) (target : β) (cmp : α → β → Int) : Nat × Bool :=
  let i := search (fun h => x[h]?.any (fun e => cmp e target < 0)) x.length 0 x.length
  (i, x[i]?.any (fun e => cmp e target = 0))

theorem search_boundary (below : Nat → Bool) (m n i j : Nat) (hi : i ≤ m) (hj : m ≤ j)
    (hn : j - i ≤ n) (hlow : ∀ h, h < m → below h = true) (hhigh : ∀ h, m ≤ h → h < j → below h = false) :
    search below n i j = m := by
  induction n generalizing i j with
  | zero =>
    rw [search]
    omega
  | succ n ih =>
    rw [search]
    split
    next hij =>
      by_cases hm : (i + j) / 2 < m
      · rw [if_pos (hlow _ hm)]
        exact ih _ _ (by omega) hj (by omega) hhigh
      · have hfalse := hhigh ((i + j) / 2) (by omega) (by omega)
        rw [if_neg (by rw [hfalse]; exact Bool.false_ne_true)]
        exact ih _ _ hi (by omega) (by omega) (fun h hmh hh => hhigh h hmh (by omega))
    next hij => omega

/-- On a list split into the elements below the target and the others, the
search stops at the split. -/
theorem binarySearchFunc_append (pre post : List α) (target : β) (cmp : α → β → Int)
    (hpre : ∀ e ∈ pre, cmp e target < 0) (hpost : ∀ e ∈ post, ¬ cmp e target < 0) :
    binarySearchFunc (pre ++ post) target cmp =
      (pre.length, post.head?.any (fun e => cmp e target = 0)) := by
  have hs : search (fun h => (pre ++ post)[h]?.any (fun e => cmp e target < 0))
      (pre ++ post).length 0 (pre ++ post).length = pre.length := by
    apply search_boundary
    · exact Nat.zero_le _
    · simp
    · simp
    · intro h hh
      rw [List.getElem?_append_left hh, List.getElem?_eq_getElem hh]
      simpa using hpre _ (List.getElem_mem hh)
    · intro h hh hl
      rw [List.getElem?_append_right hh]
      have hb : h - pre.length < post.length := by
        rw [List.length_append] at hl
        omega
      rw [List.getElem?_eq_getElem hb]
      simpa using hpost _ (List.getElem_mem hb)
  simp only [binarySearchFunc, hs, List.getElem?_append_right (Nat.le_refl _), Nat.sub_self,
    List.head?_eq_getElem?]

end KoordQueue.BinarySearch
