import Mathlib.Data.Finmap
import Mathlib.Data.Finset.Basic

namespace KoordQueue

abbrev GoMap (K V : Type) := Finmap (fun _ : K => V)

namespace GoMap

variable {K V W : Type} [DecidableEq K]

/-- The map with the defined values of `f` among the given keys. -/
def assemble (ks : Finset K) (f : K → Option V) : GoMap K V :=
  Finmap.keysLookupEquiv.symm
    ⟨(ks.filter (fun k => (f k).isSome), fun k => if k ∈ ks then f k else none), by
      intro k
      by_cases hk : k ∈ ks <;> simp [hk]⟩

theorem lookup_assemble (ks : Finset K) (f : K → Option V) (k : K) :
    (assemble ks f).lookup k = if k ∈ ks then f k else none := by
  simp [assemble]

/-- The loop `for k, v := range b` whose body rewrites only the entry of `a`
at the current key; `none` stands for a missing entry on both sides. -/
def range (body : K → Option W → V → Option W) (a : GoMap K W) (b : GoMap K V) : GoMap K W :=
  assemble (a.keys ∪ b.keys) (fun k =>
    match b.lookup k with
    | none => a.lookup k
    | some v => body k (a.lookup k) v)

theorem lookup_range (body : K → Option W → V → Option W) (a : GoMap K W) (b : GoMap K V) (k : K) :
    (range body a b).lookup k =
      match b.lookup k with
      | none => a.lookup k
      | some v => body k (a.lookup k) v := by
  rw [range, lookup_assemble]
  split
  next => rfl
  next hk =>
    simp only [Finset.mem_union, Finmap.mem_keys, not_or] at hk
    rw [Finmap.lookup_eq_none.mpr hk.2, Finmap.lookup_eq_none.mpr hk.1]

/-- An order in which a loop may visit the entries: each key once. -/
structure Ranges (order : List K) (m : GoMap K V) : Prop where
  nodup : order.Nodup
  mem : ∀ k, k ∈ order ↔ k ∈ m

theorem lookup_insert_eq (m : GoMap K V) (k j : K) (v : V) :
    Finmap.lookup j (Finmap.insert k v m) = if j = k then some v else m.lookup j := by
  by_cases hj : j = k
  · subst j
    simp
  · rw [Finmap.lookup_insert_of_ne m hj, if_neg hj]

theorem lookup_erase_eq (m : GoMap K V) (k j : K) :
    Finmap.lookup j (Finmap.erase k m) = if j = k then none else m.lookup j := by
  by_cases hj : j = k
  · subst j
    simp
  · rw [Finmap.lookup_erase_ne hj, if_neg hj]

variable {m : GoMap K V} {k : K} {l : List (K × V)} {v : V}

theorem forall_insert {P : K → V → Prop} (h : ∀ j x, m.lookup j = some x → P j x) (hv : P k v) :
    ∀ j x, (Finmap.insert k v m).lookup j = some x → P j x := by
  intro j x hx
  rw [lookup_insert_eq] at hx
  split at hx
  next he =>
    cases hx
    exact he ▸ hv
  next => exact h j x hx

theorem lookup_of_erase {j : K} (h : (m.erase k).lookup j = some v) : m.lookup j = some v := by
  rw [lookup_erase_eq] at h
  split at h
  next => cases h
  next => exact h

theorem insert_of_lookup (h : m.lookup k = some v) : m.insert k v = m := by
  apply Finmap.ext_lookup
  intro j
  rw [lookup_insert_eq]
  split
  next he => rw [he, h]
  next => rfl

theorem erase_of_notMem (h : k ∉ m) : m.erase k = m := by
  apply Finmap.ext_lookup
  intro j
  rw [lookup_erase_eq]
  split
  next he => rw [he, Finmap.lookup_eq_none.mpr h]
  next => rfl

theorem eq_of_lookup_of_card {a b : GoMap K V} (h : ∀ k v, a.lookup k = some v → b.lookup k = some v)
    (hcard : a.keys.card = b.keys.card) : a = b := by
  have hsub : a.keys ⊆ b.keys := by
    intro k hk
    rw [Finmap.mem_keys, Finmap.mem_iff] at hk ⊢
    obtain ⟨v, hv⟩ := hk
    exact ⟨v, h k v hv⟩
  have hkeys : a.keys = b.keys := Finset.eq_of_subset_of_card_le hsub hcard.ge
  apply Finmap.ext_lookup
  intro k
  cases ha : a.lookup k with
  | some v => exact (h k v ha).symm
  | none =>
    rw [Finmap.lookup_eq_none, ← Finmap.mem_keys, hkeys, Finmap.mem_keys] at ha
    exact (Finmap.lookup_eq_none.mpr ha).symm

theorem lookup_singleton (k j : K) (v : V) :
    Finmap.lookup j (Finmap.singleton k v : GoMap K V) = if j = k then some v else none := by
  by_cases hj : j = k
  · subst j
    simp
  · rw [if_neg hj, Finmap.lookup_eq_none, Finmap.mem_singleton]
    exact hj

theorem forall_entries (m : GoMap K V) (p : K → V → Prop) :
    (∀ e ∈ m.entries, p e.1 e.2) ↔ ∀ k v, m.lookup k = some v → p k v := by
  constructor
  · intro h k v hk
    exact h ⟨k, v⟩ (Finmap.lookup_eq_some_iff.mp hk)
  · rintro h ⟨k, v⟩ he
    exact h k v (Finmap.lookup_eq_some_iff.mpr he)

def all (m : GoMap K V) (p : K → V → Bool) : Bool := decide (∀ e ∈ m.entries, p e.1 e.2 = true)

def any (m : GoMap K V) (p : K → V → Bool) : Bool := !all m (fun k v => !p k v)

theorem all_iff (m : GoMap K V) (p : K → V → Bool) : all m p = true ↔ ∀ k v, m.lookup k = some v → p k v = true := by
  rw [all, decide_eq_true_eq, forall_entries m (fun k v => p k v = true)]

theorem any_iff (m : GoMap K V) (p : K → V → Bool) : any m p = true ↔ ∃ k v, m.lookup k = some v ∧ p k v = true := by
  rw [any, Bool.not_eq_true', Bool.eq_false_iff, ne_eq, all_iff]
  simp only [Bool.not_eq_true', not_forall, Bool.not_eq_false, exists_prop]

def ofList (l : List (K × V)) : GoMap K V :=
  l.foldl (fun m p => m.insert p.1 p.2) ∅

theorem lookup_foldl_insert (l : List (K × V)) (m : GoMap K V) (k : K) :
    (l.foldl (fun m p => Finmap.insert p.1 p.2 m) m).lookup k =
      ((l.reverse.find? (fun p => p.1 = k)).map Prod.snd).or (m.lookup k) := by
  induction l generalizing m with
  | nil => simp
  | cons p l ih =>
    rw [List.foldl_cons, ih, List.reverse_cons, List.find?_append, lookup_insert_eq]
    cases hl : l.reverse.find? (fun p => p.1 = k) with
    | some q => simp
    | none =>
      by_cases hp : p.1 = k
      · simp [hp]
      · simp [hp, Ne.symm hp]

theorem lookup_ofList (l : List (K × V)) (k : K) :
    (ofList l).lookup k = (l.reverse.find? (fun p => p.1 = k)).map Prod.snd := by
  rw [ofList, lookup_foldl_insert, Finmap.lookup_empty, Option.or_none]

theorem mem_of_lookup_ofList (h : (ofList l).lookup k = some v) : (k, v) ∈ l := by
  rw [lookup_ofList, Option.map_eq_some_iff] at h
  obtain ⟨p, hp, rfl⟩ := h
  have hk : p.1 = k := by simpa using List.find?_some hp
  subst k
  simpa using List.mem_of_find?_eq_some hp

theorem lookup_ofList_of_mem (hn : (l.map Prod.fst).Nodup) (h : (k, v) ∈ l) : (ofList l).lookup k = some v := by
  cases hl : (ofList l).lookup k with
  | none =>
    rw [lookup_ofList, Option.map_eq_none_iff, List.find?_eq_none] at hl
    have hne := hl (k, v) (List.mem_reverse.mpr h)
    simp at hne
  | some w =>
    have hw := List.inj_on_of_nodup_map hn (mem_of_lookup_ofList hl) h rfl
    simp only [Prod.mk.injEq, true_and] at hw
    rw [hw]

theorem lookup_ofList_none : (ofList l).lookup k = none ↔ k ∉ l.map Prod.fst := by
  rw [lookup_ofList, Option.map_eq_none_iff, List.find?_eq_none]
  simp only [List.mem_reverse, decide_eq_true_eq, List.mem_map, not_exists, not_and]

theorem mem_foldl_erase {A : Type} (f : A → K) (as : List A) (m : GoMap K V) (k : K) :
    k ∈ as.foldl (fun m a => m.erase (f a)) m ↔ k ∈ m ∧ ∀ a ∈ as, f a ≠ k := by
  induction as generalizing m with
  | nil => simp
  | cons a as ih =>
    rw [List.foldl_cons, ih, Finmap.mem_erase, List.forall_mem_cons, ne_comm]
    tauto

theorem lookup_foldl_erase {A : Type} (f : A → K) (as : List A) (m : GoMap K V) (k : K) :
    (as.foldl (fun m a => m.erase (f a)) m).lookup k = if k ∈ as.map f then none else m.lookup k := by
  induction as generalizing m with
  | nil => rfl
  | cons a as ih =>
    rw [List.foldl_cons, ih, lookup_erase_eq, List.map_cons]
    by_cases ha : k = f a <;> simp [ha]

theorem lookup_of_foldl_erase {A : Type} {f : A → K} {as : List A}
    (h : (as.foldl (fun m a => m.erase (f a)) m).lookup k = some v) : m.lookup k = some v := by
  rw [lookup_foldl_erase, Option.ite_none_left_eq_some] at h
  exact h.2

theorem forall_mem_lookups {p : V → Prop} (h : ∀ k v, m.lookup k = some v → p v) (ks : List K) :
    ∀ v ∈ ks.filterMap m.lookup, p v := by
  intro v hv
  obtain ⟨k, _, hk⟩ := List.mem_filterMap.mp hv
  exact h k v hk

theorem entries_ofList (hn : (l.map Prod.fst).Nodup) :
    (ofList l).entries = (l.map (fun p => (⟨p.1, p.2⟩ : Sigma (fun _ : K => V))) : List _) := by
  have hinj : Function.Injective (fun p : K × V => (⟨p.1, p.2⟩ : Sigma (fun _ : K => V))) := by
    rintro ⟨k, v⟩ ⟨j, w⟩ h
    cases h
    rfl
  have hpairs : (l.map (fun p => (⟨p.1, p.2⟩ : Sigma (fun _ : K => V)))).Nodup := hn.of_map.map hinj
  rw [Multiset.Nodup.ext (ofList l).nodupKeys.nodup (Multiset.coe_nodup.mpr hpairs)]
  rintro ⟨k, v⟩
  rw [← Finmap.mem_lookup_iff, Multiset.mem_coe, List.mem_map]
  constructor
  · intro h
    exact ⟨(k, v), mem_of_lookup_ofList h, rfl⟩
  · rintro ⟨⟨j, w⟩, hmem, he⟩
    cases he
    exact lookup_ofList_of_mem hn hmem

end GoMap

end KoordQueue
