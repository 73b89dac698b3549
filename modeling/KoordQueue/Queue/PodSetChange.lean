import KoordQueue.Queue.Intelligent

namespace KoordQueue.Queue.PodSetChange

open Api
open Policy (Handle)
open Update (podSetCounts podSetsChanged)

/-- Some podsets of no pods are replaced by as many others, and the rest stays. -/
structure ZerosReplaced (old new : QueueUnit) : Prop where
  replaced : ∃ k ∈ podSetCounts old, k ∉ podSetCounts new
  zeros : ∀ k ∈ podSetCounts old, k ∉ podSetCounts new → (podSetCounts old).lookup k = some 0
  rest : ∀ k v w, (podSetCounts old).lookup k = some v → (podSetCounts new).lookup k = some w → w = v
  asMany : (podSetCounts old).keys.card = (podSetCounts new).keys.card

theorem podSetsChanged_eq_false (old new : QueueUnit) :
    podSetsChanged old new = false ↔ (podSetCounts old).keys.card = (podSetCounts new).keys.card ∧
      ∀ k v, (podSetCounts old).lookup k = some v → ((podSetCounts new).lookup k).getD 0 = v := by
  rw [podSetsChanged]
  split
  next hcard => exact iff_of_false (Bool.noConfusion) (fun h => hcard h.1)
  next hcard =>
    rw [Bool.eq_false_iff, ne_eq, GoMap.any_iff, not_not.mp hcard]
    simp

variable {new old : QueueUnit}

theorem ZerosReplaced.ne (h : ZerosReplaced old new) : podSetCounts old ≠ podSetCounts new := by
  obtain ⟨k, hold, hnew⟩ := h.replaced
  exact fun heq => hnew (heq ▸ hold)

theorem ZerosReplaced.same (h : ZerosReplaced old new) {k : String} {v : Int32}
    (hv : (podSetCounts old).lookup k = some v) : ((podSetCounts new).lookup k).getD 0 = v := by
  cases hw : (podSetCounts new).lookup k with
  | some w => exact h.rest k v w hv hw
  | none =>
    have hzero := h.zeros k (Finmap.mem_of_lookup_eq_some hv) (Finmap.lookup_eq_none.mp hw)
    exact Option.some.inj (hzero.symm.trans hv)

/-- A name that the new version lacks reads as 0 there, so the old version has nothing to tell from
it but podsets of no pods. -/
theorem unchanged_iff (old new : QueueUnit) :
    podSetsChanged old new = false ↔ podSetCounts old = podSetCounts new ∨ ZerosReplaced old new := by
  rw [podSetsChanged_eq_false]
  constructor
  · rintro ⟨hcard, hsame⟩
    by_cases hkept : ∀ k ∈ podSetCounts old, k ∈ podSetCounts new
    · refine Or.inl (GoMap.eq_of_lookup_of_card (fun k v hv => ?_) hcard)
      obtain ⟨w, hw⟩ := Finmap.mem_iff.mp (hkept k (Finmap.mem_of_lookup_eq_some hv))
      have hwv := hsame k v hv
      rw [hw, Option.getD_some] at hwv
      rw [hw, hwv]
    · refine Or.inr ⟨?_, ?_, ?_, hcard⟩
      · simpa only [not_forall, exists_prop] using hkept
      · intro k hold hnew
        obtain ⟨v, hv⟩ := Finmap.mem_iff.mp hold
        have hzero := hsame k v hv
        rw [Finmap.lookup_eq_none.mpr hnew, Option.getD_none] at hzero
        rw [hv, hzero]
      · intro k v w hv hw
        have hwv := hsame k v hv
        rwa [hw, Option.getD_some] at hwv
  · rintro (h | h)
    · rw [h]
      exact ⟨rfl, fun k v hv => by rw [hv, Option.getD_some]⟩
    · exact ⟨h.asMany, fun k v hv => h.same hv⟩

/-- The comparison finds the podsets unchanged just where the counts are equal, both ways, and an
update that changes them is not taken for none. -/
def Exact (changed unchanged : QueueUnit → QueueUnit → Bool) (old new : QueueUnit) : Prop :=
  (changed old new = false ↔ podSetCounts old = podSetCounts new) ∧
    changed old new = changed new old ∧
    (podSetCounts old ≠ podSetCounts new → unchanged old new = false)

theorem exact_iff {unchanged : QueueUnit → QueueUnit → Bool}
    (hunchanged : podSetsChanged old new = true → unchanged old new = false) :
    Exact podSetsChanged unchanged old new ↔ ¬ZerosReplaced old new ∧ ¬ZerosReplaced new old := by
  have hforth := unchanged_iff old new
  have hback := unchanged_iff new old
  constructor
  · rintro ⟨hexact, hsymm, -⟩
    refine ⟨fun h => h.ne (hexact.mp (hforth.mpr (Or.inr h))), fun h => h.ne ?_⟩
    exact (hexact.mp (hsymm.trans (hback.mpr (Or.inr h)))).symm
  · rintro ⟨h, h'⟩
    rw [or_iff_left h] at hforth
    rw [or_iff_left h', eq_comm (a := podSetCounts new), ← hforth] at hback
    refine ⟨hforth, (Bool.eq_iff_iff.mpr ?_), fun hne => hunchanged ?_⟩
    · rw [← not_iff_not, Bool.not_eq_true, Bool.not_eq_true, hback]
    · exact (Bool.not_eq_false _).mp (mt hforth.mp hne)

/-- In both queues the comparison of the podsets is exact unless one version is the other with some
podsets of no pods replaced. -/
theorem podSets_compared_exactly_iff (fw : Handle) (old new : QueueUnit) :
    (Exact podSetsChanged Update.unchanged old new ↔ ¬ZerosReplaced old new ∧ ¬ZerosReplaced new old) ∧
      (Exact Intelligent.podSetsChanged (Intelligent.unchanged fw) old new ↔
        ¬ZerosReplaced old new ∧ ¬ZerosReplaced new old) := by
  refine ⟨exact_iff fun h => ?_, exact_iff fun h => ?_⟩
  · simp [Update.unchanged, h]
  · have h' : Intelligent.podSetsChanged old new = true := h
    simp [Intelligent.unchanged, h']

def unitOf (podSets : List (String × Int32)) : QueueUnit :=
  { spec := { podSets := podSets.map (fun p => { name := p.1, count := p.2 }) } }

/-- Podsets of no pods can be renamed unnoticed, and whether a podset of no pods is replaced by others
is noticed on the way back only. -/
theorem renamed_zero_unseen :
    podSetsChanged (unitOf [("a", 0)]) (unitOf [("b", 0)]) = false ∧
      podSetCounts (unitOf [("a", 0)]) ≠ podSetCounts (unitOf [("b", 0)]) ∧
      Update.unchanged (unitOf [("a", 0)]) (unitOf [("b", 0)]) = true ∧
      Intelligent.unchanged ⟨fun _ => none, false⟩ (unitOf [("a", 0)]) (unitOf [("b", 0)]) = true ∧
      podSetsChanged (unitOf [("a", 0), ("b", 1)]) (unitOf [("b", 1), ("c", 5)]) = false ∧
      podSetsChanged (unitOf [("b", 1), ("c", 5)]) (unitOf [("a", 0), ("b", 1)]) = true := by
  decide +kernel

end KoordQueue.Queue.PodSetChange
