import Mathlib.Logic.Relation
import Mathlib.Data.Finset.Card

namespace KoordQueue.ParentWalk

variable {α : Type} [DecidableEq α] (next : α → Option α)

/-- Follow `next` until it is undefined or meets an element seen before. -/
def walk : Nat → List α → α → List α
  | 0, _, _ => []
  | n + 1, seen, a =>
    if a ∈ seen then [] else
      a :: match next a with
        | none => []
        | some b => walk n (a :: seen) b

def Leads : α → α → Prop := Relation.ReflTransGen (fun a b => next a = some b)

variable {next}

variable {S : Finset α} {seen : List α} {n : Nat} {a b : α}

theorem leads_of_mem_walk (h : b ∈ walk next n seen a) : Leads next a b := by
  induction n generalizing seen a with
  | zero => simp [walk] at h
  | succ n ih =>
    rw [walk] at h
    split at h
    next => simp at h
    next =>
      cases hn : next a with
      | none =>
        simp only [hn, List.mem_singleton] at h
        subst b
        exact .refl
      | some c =>
        simp only [hn, List.mem_cons] at h
        rcases h with rfl | h
        · exact .refl
        · exact .head hn (ih h)

theorem walk_fresh (h : b ∈ walk next n seen a) : b ∉ seen := by
  induction n generalizing seen a with
  | zero => simp [walk] at h
  | succ n ih =>
    rw [walk] at h
    split at h
    next => simp at h
    next ha =>
      cases hn : next a with
      | none =>
        simp only [hn, List.mem_singleton] at h
        subst b
        exact ha
      | some c =>
        simp only [hn, List.mem_cons] at h
        rcases h with rfl | h
        · exact ha
        · exact fun hb => ih h (List.mem_cons_of_mem a hb)

omit [DecidableEq α] in
theorem mem_cons_or_mem {x : α} {rest : List α} : x ∈ a :: seen ∨ x ∈ rest ↔ x ∈ seen ∨ x ∈ a :: rest := by
  rw [List.mem_cons, List.mem_cons, or_assoc, or_left_comm]

theorem length_le_card (hseen : ∀ x ∈ seen, x ∈ S) (hn : seen.Nodup) : seen.length ≤ S.card := by
  rw [← List.toFinset_card_of_nodup hn]
  exact Finset.card_le_card (fun x hx => hseen x (List.mem_toFinset.mp hx))

/-- With enough fuel for the elements not seen yet, the walk ends on its own,
so what it visits is closed under `next`. -/
theorem walk_closed {S : Finset α} (hS : ∀ a ∈ S, ∀ b, next a = some b → b ∈ S)
    {n : Nat} {seen : List α} {a : α} (ha : a ∈ S) (hseen : ∀ x ∈ seen, x ∈ S) (hn : seen.Nodup)
    (hfuel : S.card < n + seen.length) (hlast : ∀ x ∈ seen, ∀ y, next x = some y → y ∈ seen ∨ y = a) :
    (a ∈ seen ∨ a ∈ walk next n seen a) ∧
      ∀ x, x ∈ seen ∨ x ∈ walk next n seen a → ∀ y, next x = some y →
        y ∈ seen ∨ y ∈ walk next n seen a := by
  induction n generalizing seen a with
  | zero =>
    have hle := length_le_card hseen hn
    omega
  | succ n ih =>
    rw [walk]
    by_cases hmem : a ∈ seen
    · simp only [hmem, if_true, List.not_mem_nil, or_false, true_and]
      intro x hx y hy
      rcases hlast x hx y hy with h | rfl
      · exact h
      · exact hmem
    · simp only [hmem, if_false]
      cases hna : next a with
      | none =>
        refine ⟨Or.inr (by simp), ?_⟩
        intro x hx y hy
        rcases hx with hx | hx
        · rcases hlast x hx y hy with h | rfl
          · exact Or.inl h
          · exact Or.inr (by simp)
        · simp only [List.mem_singleton] at hx
          subst x
          rw [hna] at hy
          cases hy
      | some b =>
        have hcons : ∀ x ∈ a :: seen, x ∈ S := by
          intro x hx
          rcases List.mem_cons.mp hx with rfl | hx
          · exact ha
          · exact hseen x hx
        have hstep : ∀ x ∈ a :: seen, ∀ y, next x = some y → y ∈ a :: seen ∨ y = b := by
          intro x hx y hy
          rcases List.mem_cons.mp hx with rfl | hx
          · rw [hna] at hy
            cases hy
            exact Or.inr rfl
          · rcases hlast x hx y hy with h | rfl
            · exact Or.inl (List.mem_cons_of_mem a h)
            · exact Or.inl List.mem_cons_self
        obtain ⟨_, hclosed⟩ := ih (hS a ha b hna) hcons (List.nodup_cons.mpr ⟨hmem, hn⟩)
          (by simp only [List.length_cons]; omega) hstep
        refine ⟨Or.inr List.mem_cons_self, ?_⟩
        intro x hx y hy
        exact mem_cons_or_mem.mp (hclosed x (mem_cons_or_mem.mpr hx) y hy)

theorem mem_walk_iff (hS : ∀ a ∈ S, ∀ b, next a = some b → b ∈ S)
    (ha : a ∈ S) : b ∈ walk next (S.card + 1) [] a ↔ Leads next a b := by
  constructor
  · exact leads_of_mem_walk
  · intro h
    obtain ⟨hstart, hclosed⟩ := @walk_closed α _ next S hS (S.card + 1) [] a ha (by simp)
      List.nodup_nil (by simp) (by simp)
    induction h with
    | refl => simpa using hstart
    | tail _ hnext ih => simpa using hclosed _ (Or.inr ih) _ hnext

end KoordQueue.ParentWalk
