import Mathlib.Data.List.Basic

namespace KoordQueue.Cursor

variable {α : Type} {waiting waiting' : α → Prop} {l pre post : List α} {n : Nat}

/-- A cursor that stands at position `n` has left nothing waiting behind it. -/
def Swept (waiting : α → Prop) (l : List α) (n : Nat) : Prop := ∀ x ∈ l.take n, ¬ waiting x

theorem swept_zero (waiting : α → Prop) (l : List α) : Swept waiting l 0 := by
  intro x hx
  rw [List.take_zero] at hx
  cases hx

theorem Swept.imp (h : Swept waiting l n) (himp : ∀ x ∈ l.take n, waiting' x → waiting x) : Swept waiting' l n :=
  fun x hx hw => h x hx (himp x hx hw)

theorem Swept.succ (h : Swept waiting l n) (hedge : ∀ x, l[n]? = some x → ¬ waiting x) : Swept waiting l (n + 1) := by
  intro x hx
  rw [List.take_add_one, List.mem_append, Option.mem_toList] at hx
  rcases hx with hx | hx
  · exact h x hx
  · exact hedge x hx

theorem Swept.add (h : Swept waiting l n) (hdrop : l.drop n = pre ++ post) (hpre : ∀ x ∈ pre, ¬ waiting x) :
    Swept waiting l (n + pre.length) := by
  intro x hx
  rw [List.take_add, hdrop, List.take_left, List.mem_append] at hx
  rcases hx with hx | hx
  · exact h x hx
  · exact hpre x hx

theorem Swept.filter_of_kept {p : α → Bool} (h : Swept waiting l n) (hp : ∀ x ∈ l.take n, p x = true) :
    Swept waiting (l.filter p) n := by
  induction l generalizing n with
  | nil => exact h
  | cons a l ih =>
    cases n with
    | zero => exact swept_zero waiting _
    | succ n =>
      rw [List.take_succ_cons] at hp
      have ha := hp a List.mem_cons_self
      have hrest := ih (fun x hx => h x (List.mem_cons_of_mem a hx)) (fun x hx => hp x (List.mem_cons_of_mem a hx))
      intro x hx
      rw [List.filter_cons_of_pos ha, List.take_succ_cons] at hx
      rcases List.mem_cons.mp hx with rfl | hx
      · exact h x List.mem_cons_self
      · exact hrest x hx

theorem Swept.filter_one {p : α → Bool} (hone : l.Pairwise (fun a b => p a = true ∨ p b = true))
    (h : Swept waiting l (n + 1)) : Swept waiting (l.filter p) n := by
  induction l generalizing n with
  | nil =>
    intro x hx
    rw [List.filter_nil, List.take_nil] at hx
    cases hx
  | cons a l ih =>
    obtain ⟨ha, hone⟩ := List.pairwise_cons.mp hone
    have hrest : Swept waiting l n := fun x hx => h x (List.mem_cons_of_mem a hx)
    by_cases hp : p a = true
    · rw [List.filter_cons_of_pos hp]
      cases n with
      | zero => exact swept_zero waiting _
      | succ n =>
        intro x hx
        rcases List.mem_cons.mp hx with rfl | hx
        · exact h x List.mem_cons_self
        · exact ih hone hrest x hx
    · have hall : l.filter p = l := by
        apply List.filter_eq_self.mpr
        exact fun x hx => (ha x hx).resolve_left hp
      rw [List.filter_cons_of_neg hp, hall]
      exact hrest

theorem Swept.insert_after (h : Swept waiting (pre ++ post) n) (hn : n ≤ pre.length) (y : α) :
    Swept waiting (pre ++ y :: post) n := by
  intro x hx
  apply h
  rw [List.take_append_of_le_length hn] at hx ⊢
  exact hx

/-- An entry that goes in before the cursor takes the place of the last one it
has passed. -/
theorem Swept.insert_before (h : Swept waiting (pre ++ post) n) (hn : pre.length ≤ n) {y : α} (hy : ¬ waiting y) :
    Swept waiting (pre ++ y :: post) (n + 1) := by
  induction pre generalizing n with
  | nil =>
    intro x hx
    rcases List.mem_cons.mp hx with rfl | hx
    · exact hy
    · exact h x hx
  | cons a pre ih =>
    cases n with
    | zero => cases hn
    | succ n =>
      have hrest := ih (fun x hx => h x (List.mem_cons_of_mem a hx)) (Nat.le_of_succ_le_succ hn)
      intro x hx
      rcases List.mem_cons.mp hx with rfl | hx
      · exact h x List.mem_cons_self
      · exact hrest x hx

end KoordQueue.Cursor
