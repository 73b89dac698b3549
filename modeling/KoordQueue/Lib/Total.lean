import KoordQueue.Lib.GoMap
import Mathlib.Algebra.BigOperators.Group.Finset.Basic

namespace KoordQueue.GoMap

variable {K V M : Type} [DecidableEq K] [AddCommMonoid M]

def total (f : V → M) (m : GoMap K V) : M := ∑ k ∈ m.keys, ((m.lookup k).map f).getD 0

theorem mem_keys_insert (m : GoMap K V) (k : K) (v : V) : (m.insert k v).keys = insert k m.keys := by
  ext j
  rw [Finmap.mem_keys, Finmap.mem_insert, Finset.mem_insert, Finmap.mem_keys]

variable {m : GoMap K V} {k : K} {v : V}

theorem sum_congr_off {f : V → M} {m' : GoMap K V} {s : Finset K} (hk : k ∉ s)
    (hoff : ∀ j, j ≠ k → m'.lookup j = m.lookup j) :
    ∑ j ∈ s, ((m'.lookup j).map f).getD 0 = ∑ j ∈ s, ((m.lookup j).map f).getD 0 := by
  apply Finset.sum_congr rfl
  intro j hj
  rw [hoff j (fun he => hk (he ▸ hj))]

theorem total_insert (hk : k ∉ m) (f : V → M) (v : V) : total f (m.insert k v) = f v + total f m := by
  have hkeys : k ∉ m.keys := fun h => hk (Finmap.mem_keys.mp h)
  rw [total, mem_keys_insert, Finset.sum_insert hkeys, Finmap.lookup_insert, Option.map_some, Option.getD_some,
    sum_congr_off hkeys (fun j hj => Finmap.lookup_insert_of_ne m hj), total]

theorem total_erase (hk : m.lookup k = some v) (f : V → M) : f v + total f (m.erase k) = total f m := by
  have hmem : k ∈ m.keys := Finmap.mem_keys.mpr (Finmap.mem_iff.mpr ⟨v, hk⟩)
  rw [total, Finmap.keys_erase, sum_congr_off (Finset.notMem_erase k m.keys) (fun j hj => Finmap.lookup_erase_ne hj),
    total, ← Finset.add_sum_erase m.keys _ hmem, hk, Option.map_some, Option.getD_some]

theorem total_replace {old : V} (hk : m.lookup k = some old) (f : V → M) (hf : f v = f old) :
    total f (m.insert k v) = total f m := by
  have herase : (m.insert k v).erase k = m.erase k := by
    apply Finmap.ext_lookup
    intro j
    rw [lookup_erase_eq, lookup_erase_eq, lookup_insert_eq]
    split <;> rfl
  rw [← total_erase (Finmap.lookup_insert m) f, ← total_erase hk f, herase, hf]

theorem total_add (f g : V → M) (m : GoMap K V) : total (fun v => f v + g v) m = total f m + total g m := by
  rw [total, total, total, ← Finset.sum_add_distrib]
  apply Finset.sum_congr rfl
  intro k _
  cases m.lookup k with
  | none => simp
  | some v => rfl

end KoordQueue.GoMap
