import Mathlib.Data.List.Infix

namespace KoordQueue.Run

variable {S A : Type} (step : S → A → Option S)

def exec : S → List A → Option S
  | s, [] => some s
  | s, a :: as => (step s a).bind (fun t => exec t as)

/-- Every action that is taken meets `ok` in the state where it is taken. -/
def Guarded (ok : S → A → Prop) : S → List A → Prop
  | _, [] => True
  | s, a :: as => ∀ t, step s a = some t → ok s a ∧ Guarded ok t as

/-- Running the program decides whether it gets to a state with the property. -/
instance decidableReaches {o : Option S} {p : S → Prop} [DecidablePred p] : Decidable (∃ s, o = some s ∧ p s) :=
  inferInstanceAs (Decidable (∃ s, s ∈ o ∧ p s))

theorem exec_cons (s : S) (a : A) (as : List A) (u : S) :
    exec step s (a :: as) = some u ↔ ∃ t, step s a = some t ∧ exec step t as = some u := by
  rw [exec, Option.bind_eq_some_iff]

theorem exec_append (s : S) (as bs : List A) :
    exec step s (as ++ bs) = (exec step s as).bind (fun t => exec step t bs) := by
  induction as generalizing s with
  | nil => rfl
  | cons a as ih =>
    rw [List.cons_append, exec, exec, Option.bind_assoc]
    exact congrArg _ (funext ih)

variable {step}

variable {as bs : List A} {s t : S} {ok ok' : S → A → Prop}

theorem guarded_cons_of_eq {a : A} (h : step s a = some t) :
    Guarded step ok s (a :: as) ↔ ok s a ∧ Guarded step ok t as := by
  constructor
  · exact fun hg => hg t h
  · intro hok u hu
    cases h.symm.trans hu
    exact hok

instance decidableGuarded {ok : S → A → Prop} [∀ s a, Decidable (ok s a)] :
    (s : S) → (as : List A) → Decidable (Guarded step ok s as)
  | _, [] => isTrue trivial
  | s, a :: as =>
    match h : step s a with
    | none => isTrue (fun t ht => absurd (h.symm.trans ht) (Option.some_ne_none t).symm)
    | some t =>
      have : Decidable (Guarded step ok t as) := decidableGuarded t as
      decidable_of_iff _ (guarded_cons_of_eq h).symm

theorem guarded_append (h : Guarded step ok s (as ++ bs)) (ht : exec step s as = some t) : Guarded step ok t bs := by
  induction as generalizing s with
  | nil =>
    cases ht
    exact h
  | cons a as ih =>
    obtain ⟨v, hv, hw⟩ := (exec_cons step s a as t).mp ht
    exact ih (h v hv).2 hw

theorem guarded_left (h : Guarded step ok s (as ++ bs)) : Guarded step ok s as := by
  induction as generalizing s with
  | nil => trivial
  | cons a as ih => exact fun t ht => ⟨(h t ht).1, ih (h t ht).2⟩

theorem Guarded.mono (h : ∀ s a, ok s a → ok' s a) (hg : Guarded step ok s as) : Guarded step ok' s as := by
  induction as generalizing s with
  | nil => trivial
  | cons a as ih => exact fun t ht => ⟨h s a (hg t ht).1, ih (hg t ht).2⟩

theorem guarded_congr (h : ∀ s a, ok s a ↔ ok' s a) (s : S) (as : List A) :
    Guarded step ok s as ↔ Guarded step ok' s as :=
  ⟨.mono fun s a => (h s a).mp, .mono fun s a => (h s a).mpr⟩

theorem guarded_true (s : S) (as : List A) : Guarded step (fun _ _ => True) s as := by
  induction as generalizing s with
  | nil => trivial
  | cons a as ih => exact fun t _ => ⟨trivial, ih t⟩

theorem guarded_and {p : A → Prop} (hp : ∀ a ∈ as, p a)
    (h : Guarded step ok s as) : Guarded step (fun s a => p a ∧ ok s a) s as := by
  induction as generalizing s with
  | nil => trivial
  | cons a as ih =>
    intro t ht
    exact ⟨⟨hp a List.mem_cons_self, (h t ht).1⟩, ih (fun b hb => hp b (List.mem_cons_of_mem a hb)) (h t ht).2⟩

theorem invariant {ok : S → A → Prop} {Inv : S → Prop} (hstep : ∀ s a t, Inv s → ok s a → step s a = some t → Inv t)
    {s u : S} {as : List A} (hs : Inv s) (hg : Guarded step ok s as)
    (hu : exec step s as = some u) : Inv u := by
  induction as generalizing s with
  | nil =>
    cases hu
    exact hs
  | cons a as ih =>
    obtain ⟨t, ht, hr⟩ := (exec_cons step s a as u).mp hu
    exact ih (hstep s a t hs (hg t ht).1 ht) (hg t ht).2 hr

/-- When the guard is exact for one step, a run stays inside the invariant
precisely when each of its actions meets the guard. -/
theorem always_iff_guarded {Inv : S → Prop}
    (hstep : ∀ s a t, Inv s → step s a = some t → (Inv t ↔ ok s a)) (hs : Inv s) (as : List A) :
    (∀ bs u, bs <+: as → exec step s bs = some u → Inv u) ↔ Guarded step ok s as := by
  induction as generalizing s with
  | nil =>
    constructor
    · intro _
      trivial
    · intro _ bs u hb hu
      rw [List.prefix_nil] at hb
      subst bs
      cases hu
      exact hs
  | cons a as ih =>
    constructor
    · intro h t ht
      have hi : Inv t := h [a] t ⟨as, rfl⟩ ((exec_cons step s a [] t).mpr ⟨t, ht, rfl⟩)
      refine ⟨(hstep s a t hs ht).mp hi, (ih hi).mp ?_⟩
      intro bs u hb hu
      exact h (a :: bs) u (List.cons_prefix_cons.mpr ⟨rfl, hb⟩)
        ((exec_cons step s a bs u).mpr ⟨t, ht, hu⟩)
    · intro h bs u hb hu
      cases bs with
      | nil =>
        cases hu
        exact hs
      | cons b bs =>
        obtain ⟨rfl, hbs⟩ := List.cons_prefix_cons.mp hb
        obtain ⟨t, ht, hr⟩ := (exec_cons step s b bs u).mp hu
        exact (ih ((hstep s b t hs ht).mpr (h t ht).1)).mpr (h t ht).2 bs u hbs hr

end KoordQueue.Run
