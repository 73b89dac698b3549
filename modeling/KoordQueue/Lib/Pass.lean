import Mathlib.Data.List.Forall2

namespace KoordQueue.Pass

variable {M A : Type}

/-- What is left behind by a visit: the memory that is handed on, the element
as it was written back, and whether it was written at all. -/
structure Visit (M A : Type) where
  memory : M
  item : A
  updated : Bool

def walk (body : M → A → Visit M A) : M → List A → Visit M (List A)
  | m, [] => ⟨m, [], false⟩
  | m, a :: as =>
    ⟨(walk body (body m a).memory as).memory, (body m a).item :: (walk body (body m a).memory as).item,
      (body m a).updated || (walk body (body m a).memory as).updated⟩

variable {body : M → A → Visit M A}

variable {P : A → Prop} {as : List A} {m : M}

/-- A loop invariant on the memory gives a relation between each element and
what it became. -/
theorem walk_forall₂ (Inv : M → Prop) (R : A → A → Prop)
    (hbody : ∀ m, Inv m → ∀ a ∈ as, Inv (body m a).memory ∧ R a (body m a).item) (hm : Inv m) :
    Inv (walk body m as).memory ∧ List.Forall₂ R as (walk body m as).item := by
  induction as generalizing m with
  | nil => exact ⟨hm, List.Forall₂.nil⟩
  | cons a as ih =>
    obtain ⟨hmem, hitem⟩ := hbody m hm a List.mem_cons_self
    obtain ⟨hrest, hitems⟩ := ih (fun m hm b hb => hbody m hm b (List.mem_cons_of_mem a hb)) hmem
    exact ⟨hrest, List.Forall₂.cons hitem hitems⟩

theorem walk_same (hbody : ∀ m a, (body m a).updated = false → (body m a).item = a)
    (h : (walk body m as).updated = false) : (walk body m as).item = as := by
  induction as generalizing m with
  | nil => rfl
  | cons a as ih =>
    simp only [walk, Bool.or_eq_false_iff] at h ⊢
    rw [hbody m a h.1, ih h.2]

theorem walk_updated_cons (m : M) (a : A) (as : List A) :
    (walk body m (a :: as)).updated = true ↔
      (body m a).updated = true ∨ (walk body (body m a).memory as).updated = true := by
  rw [walk, Bool.or_eq_true]

theorem walk_unit (body : A → Visit Unit A) (as : List A) :
    walk (fun _ => body) () as = ⟨(), as.map (fun a => (body a).item), as.any (fun a => (body a).updated)⟩ := by
  induction as with
  | nil => rfl
  | cons a as ih => rw [walk, ih, List.map_cons, List.any_cons]

theorem forall_of_forall₂ {B : Type} {R : A → B → Prop} {Q : B → Prop} {bs : List B}
    (h : List.Forall₂ R as bs) (hstep : ∀ a b, R a b → P a → Q b) (hP : ∀ a ∈ as, P a) : ∀ b ∈ bs, Q b := by
  induction h with
  | nil =>
    intro b hb
    cases hb
  | cons hR _ ih =>
    rw [List.forall_mem_cons] at hP ⊢
    exact ⟨hstep _ _ hR hP.1, ih hP.2⟩

theorem walk_forall (Inv : M → Prop) (P : A → Prop)
    (hbody : ∀ m, Inv m → ∀ a ∈ as, Inv (body m a).memory ∧ (P a → P (body m a).item)) (hm : Inv m)
    (h : ∀ a ∈ as, P a) : ∀ a ∈ (walk body m as).item, P a :=
  forall_of_forall₂ (walk_forall₂ Inv (fun a a' => P a → P a') hbody hm).2 (fun _ _ hstep hold => hstep hold) h

theorem forall₂_comp {B C : Type} {R : A → B → Prop} {S : B → C → Prop} {T : A → C → Prop}
    (h : ∀ a b c, R a b → S b c → T a c) {bs : List B} {cs : List C}
    (hR : List.Forall₂ R as bs) (hS : List.Forall₂ S bs cs) : List.Forall₂ T as cs := by
  induction hR generalizing cs with
  | nil =>
    cases hS
    exact .nil
  | cons hab _ ih =>
    cases hS with
    | cons hbc hS => exact .cons (h _ _ _ hab hbc) (ih hS)

theorem forall_iff_of_forall₂ {B : Type} {R : A → B → Prop} {Q : B → Prop} {bs : List B}
    (h : List.Forall₂ R as bs) (hiff : ∀ a, ∀ b ∈ bs, R a b → (P a ↔ Q b)) : (∀ a ∈ as, P a) ↔ ∀ b ∈ bs, Q b := by
  induction h with
  | nil => simp
  | cons hR _ ih =>
    rw [List.forall_mem_cons, List.forall_mem_cons, ih (fun a b hb => hiff a b (List.mem_cons_of_mem _ hb))]
    exact and_congr_left (fun _ => hiff _ _ List.mem_cons_self hR)

end KoordQueue.Pass
