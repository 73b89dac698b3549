import Mathlib.Data.List.Nodup

namespace KoordQueue

structure ObjectStore {K α : Type} (key : α → K) where
  items : List α := []
  nodup : (items.map key).Nodup := by simp

namespace ObjectStore

variable {K α : Type} [DecidableEq K] {key : α → K}

def get (s : ObjectStore key) (k : K) : Option α := s.items.find? (fun o => key o = k)

/-- Keep the objects that satisfy `p`. -/
def keep (s : ObjectStore key) (p : α → Bool) : ObjectStore key :=
  ⟨s.items.filter p, s.nodup.sublist (List.filter_sublist.map key)⟩

def modify (s : ObjectStore key) (f : α → α) (hf : ∀ o, key (f o) = key o) : ObjectStore key :=
  ⟨s.items.map f, by
    have hkey : key ∘ f = key := funext hf
    rw [List.map_map, hkey]
    exact s.nodup⟩

def create (s : ObjectStore key) (o : α) : ObjectStore key :=
  if h : key o ∈ s.items.map key then s
  else ⟨s.items ++ [o], by
    rw [List.map_append, List.nodup_append]
    refine ⟨s.nodup, List.nodup_singleton _, ?_⟩
    intro k hk j hj he
    rw [List.map_singleton, List.mem_singleton] at hj
    exact h (hj ▸ he ▸ hk)⟩

variable {k : K} {s : ObjectStore key} {o : α}

theorem get_eq_some : s.get k = some o ↔ o ∈ s.items ∧ key o = k := by
  constructor
  · intro h
    exact ⟨List.mem_of_find?_eq_some h, by simpa using List.find?_some h⟩
  · rintro ⟨ho, rfl⟩
    cases hf : s.get (key o) with
    | none =>
      have hne := List.find?_eq_none.mp hf o ho
      simp at hne
    | some o' =>
      have hmem : o' ∈ s.items := List.mem_of_find?_eq_some hf
      have hkey : key o' = key o := by simpa using List.find?_some hf
      exact congrArg some (List.inj_on_of_nodup_map s.nodup hmem ho hkey)

theorem get_eq_none : s.get k = none ↔ k ∉ s.items.map key := by
  rw [get, List.find?_eq_none]
  simp

theorem mem_iff_get : o ∈ s.items ↔ s.get (key o) = some o := by
  rw [get_eq_some, and_iff_left rfl]

theorem key_of_get (h : s.get k = some o) : key o = k :=
  (get_eq_some.mp h).2

@[simp] theorem get_keep (s : ObjectStore key) (p : α → Bool) (k : K) : (s.keep p).get k = (s.get k).filter p := by
  ext o
  rw [get_eq_some, Option.filter_eq_some_iff, get_eq_some, keep, List.mem_filter]
  tauto

@[simp] theorem get_modify (s : ObjectStore key) (f : α → α) (hf : ∀ o, key (f o) = key o) (k : K) :
    (s.modify f hf).get k = (s.get k).map f := by
  ext o
  rw [get_eq_some, Option.map_eq_some_iff, modify, List.mem_map]
  constructor
  · rintro ⟨⟨o', ho', rfl⟩, hk⟩
    exact ⟨o', get_eq_some.mpr ⟨ho', (hf o').symm.trans hk⟩, rfl⟩
  · rintro ⟨o', ho', rfl⟩
    obtain ⟨hmem, hk⟩ := get_eq_some.mp ho'
    exact ⟨⟨o', hmem, rfl⟩, (hf o').trans hk⟩

@[simp] theorem get_create (s : ObjectStore key) (o : α) (k : K) :
    (s.create o).get k = (s.get k).or (if key o = k then some o else none) := by
  rw [create]
  split
  next hmem =>
    cases hk : s.get k with
    | some o' => rfl
    | none =>
      rw [Option.none_or, if_neg]
      rintro rfl
      exact get_eq_none.mp hk hmem
  next => simp [get, List.find?_append, List.find?_singleton]

end ObjectStore

end KoordQueue
