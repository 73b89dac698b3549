import KoordQueue.Queue.UpdatePassing

namespace KoordQueue.Queue.Reinsertion

open Api Cursor SortedSlice Memory Less Policy Update Frames Filing Queue.Representation
open Slice SliceOps Scan Consistency Passing UpdatePassing

variable {obj : Objects} {fw : Handle} {handed : Finset String} {s : State} {old new : QueueUnit}

section Reinsert

variable (now : Time) (hrep : Represented obj s) (hold : obj.Has old) (hnew : obj.Has new)
  (hkey : old.key = new.key) (hmatch : ∀ r, s.pq.queueUnits.lookup new.key = some r → Matches s r old)

include hrep in
theorem withoutKey_reinsert (old : QueueUnit) :
    (withoutKey new.key s.pq (reinsert now old new s).infos).queue =
      s.pq.queue.filter (fun r => s.infos.key r ≠ new.key) := by
  apply List.filter_congr
  intro r hr
  rw [Infos.key, (extends_reinsert now old new s).unit (hrep.filed.slice r hr), Infos.key]

include hrep hold hnew in
theorem rankOf_reinserted : rankOf (reinsert now old new s).infos (reinserted now old s) =
    rank (s.infos.fresh now new) := by
  have hext := extend_reinsert now hrep hold hnew
  have halloc := allocated_reinserted now old new s
  have hunit := unit_reinserted now old new s
  apply (rank_eq_iff _ _).mpr
  rw [Infos.fresh_unit, Infos.fresh_name, fresh_initial hrep.built hnew, hext.built.initial halloc,
    hext.built.name halloc, key_reinserted, hunit]
  exact ⟨congrArg priorityOf hunit, rfl, rfl⟩

include hrep hold hnew in
theorem landing_eq : (below (rankOf (reinsert now old new s).infos)
    (rankOf (reinsert now old new s).infos (reinserted now old s))
    (withoutKey new.key s.pq (reinsert now old new s).infos).queue).length = landing now new s := by
  rw [withoutKey_reinsert now hrep, rankOf_reinserted now hrep hold hnew, landing, below, List.filter_filter]
  congr 1
  apply List.filter_congr
  intro r hr
  rw [← Bool.decide_and, decide_eq_decide, and_comm]
  apply and_congr_right
  intro hne
  have hmem := hrep.filed.slice r hr
  have hu : (s.infos.get r).unit.uid ≠ (s.infos.fresh now new).unit.uid := by
    intro he
    apply hne
    rw [hrep.built.key hmem, hnew.1]
    rw [Infos.fresh_unit] at he
    exact congrArg obj.key he
  rw [(less_of_ne hu).1, rankOf_extend hrep.filed (extends_reinsert now old new s) hr]
  rfl

include hrep hold hnew hkey hmatch

theorem swept_reinsert (hswept : Swept (Waiting fw handed s) s.pq.queue s.pq.nextIdx)
    (hok : landing now new s < s.pq.nextIdx ∨ NotPassed s new.key ∨ EdgeClear fw handed s new.key) :
    Swept (fun r => Waiting fw handed s r ∧ (reinsert now old new s).infos.key r ≠ new.key)
      (reinsert now old new s).pq.queue s.pq.nextIdx := by
  have hothers : Swept (fun r => Waiting fw handed s r ∧ s.infos.key r ≠ new.key) s.pq.queue s.pq.nextIdx :=
    hswept.imp (fun _ _ hw => hw.1)
  have hlanding := landing_eq now hrep hold hnew
  have hsorted := (represented_withoutKey (extend_reinsert now hrep hold hnew) new.key).sorted
  have hsame : ∀ {n}, Swept (fun r => Waiting fw handed s r ∧ s.infos.key r ≠ new.key)
      (s.pq.queue.filter (fun r => s.infos.key r ≠ new.key)) n →
      Swept (fun r => Waiting fw handed s r ∧ (reinsert now old new s).infos.key r ≠ new.key)
        (withoutKey new.key s.pq (reinsert now old new s).infos).queue n := by
    intro n h
    rw [withoutKey_reinsert now hrep]
    apply h.imp
    intro r hr hw
    have hmem := List.mem_of_mem_filter (List.mem_of_mem_take hr)
    rw [Infos.key, (extends_reinsert now old new s).unit (hrep.filed.slice r hmem)] at hw
    exact hw
  rw [queue_reinsert now hrep hold hnew hkey hmatch]
  dsimp only at hlanding hsorted ⊢
  by_cases hlt : landing now new s < s.pq.nextIdx
  · obtain ⟨n, hn⟩ : ∃ n, s.pq.nextIdx = n + 1 := ⟨s.pq.nextIdx - 1, by omega⟩
    rw [hn] at hothers hlt ⊢
    have hfilter := hsame (hothers.filter_one (pairwise_key hrep.toListed new.key))
    rw [← below_append_above hsorted (rankOf (reinsert now old new s).infos (reinserted now old s))] at hfilter
    apply hfilter.insert_before
    · omega
    · exact fun hw => hw.2 (key_reinserted now old new s)
  · have hfilter := hsame (swept_others hrep.toListed hothers (hok.resolve_left hlt))
    rw [← below_append_above hsorted (rankOf (reinsert now old new s).infos (reinserted now old s))] at hfilter
    apply hfilter.insert_after
    omega

theorem reinserted_passed (h : reinserted now old s ∈ (reinsert now old new s).pq.queue.take s.pq.nextIdx) :
    landing now new s < s.pq.nextIdx := by
  rw [queue_reinsert now hrep hold hnew hkey hmatch] at h
  dsimp only at h
  by_contra hle
  rw [← landing_eq now hrep hold hnew, not_lt] at hle
  rw [List.take_append_of_le_length hle] at h
  have hmem := List.mem_of_mem_filter (List.mem_of_mem_take h)
  rw [withoutKey, List.mem_filter, decide_eq_true_eq] at hmem
  exact hmem.2 (key_reinserted now old new s)

theorem scanned_reinsert (h : Scanned fw handed s) (hu : unchanged old new = false)
    (hok : s.pq.resetNextIdxFlag = true ∨ rewindsScan fw s old new = true ∨
      if landing now new s < s.pq.nextIdx then ¬ WaitsAfter fw handed s old new new
      else NotPassed s new.key ∨ EdgeClear fw handed s new.key) :
    Scanned fw handed (refresh fw old new
      ⟨(reinsert now old new s).infos, settle fw old new (reinsert now old new s).pq⟩) := by
  have hin := represented_reinsert now hrep hold hnew hkey hmatch
  have hl := (lookup_reinsert now old new s new.key).trans (if_pos rfl)
  apply scanned_settle hin hu hl
  rcases h with hflag | hswept
  · exact Or.inl hflag
  rcases hok with hflag | hrewinds | hok
  · exact Or.inl hflag
  · exact Or.inr (Or.inl hrewinds)
  right
  right
  constructor
  · apply (swept_reinsert now hrep hold hnew hkey hmatch hswept _).imp
    · rintro r hr ⟨hw, hne⟩
      refine ⟨waiting_of_same ?_ id hw, hne⟩
      rcases List.eq_or_mem_of_mem_insertIdx (List.mem_of_mem_take hr) with rfl | hr
      · exact absurd (key_reinserted now old new s) hne
      · exact (extends_reinsert now old new s).unit (hrep.filed.slice r (mem_removeFound _ hr))
    · split at hok
      next hlt => exact Or.inl hlt
      next => exact Or.inr hok
  · intro r hr hkeyr
    have hmem : reinserted now old s ∈ (reinsert now old new s).pq.queue :=
      hin.listed.mpr (by rw [key_reinserted]; exact hl)
    have hr' := hin.eq_of_key (List.mem_of_mem_take hr) hmem (hkeyr.trans (key_reinserted now old new s).symm)
    subst hr'
    rw [if_pos (reinserted_passed now hrep hold hnew hkey hmatch hr)] at hok
    have hkept : keptVersion ((reinsert now old new s).infos.unit (reinserted now old s)) new = new := by
      rw [keptVersion, unit_reinserted, if_neg (not_not.mpr rfl)]
    rw [hkept]
    exact hok

end Reinsert

theorem scanned_update (hrep : Represented obj s) (h : Scanned fw handed s) (now : Time)
    (hsettled : Settled fw obj s (.update now old new))
    (hok : s.pq.resetNextIdxFlag = true ∨ UpdatesInTurn fw handed now old new s) :
    Scanned fw handed (update fw now old new s) := by
  obtain ⟨hold, hnew, hkey, hmatch⟩ := hsettled
  rw [update]
  rcases updateBody_cases fw now rfl with ⟨hu, heq⟩ | ⟨hu, hd, heq⟩ | ⟨hu, hd, hr, heq⟩ | ⟨hu, hd, hr, heq⟩
  · rw [heq]
    cases hl : s.pq.queueUnits.lookup new.key with
    | none =>
      rw [refresh, hl]
      exact h
    | some x =>
      rcases h with hflag | hswept
      · exact Or.inl (flag_refresh hl (Or.inl hflag))
      rcases hok with hflag | hok
      · exact Or.inl (flag_refresh hl (Or.inl hflag))
      simp only [UpdatesInTurn, rewindsScan, hu, Bool.true_eq_false, false_and, if_false, Bool.not_true,
        Bool.false_and, Bool.or_false] at hok
      rcases hok with hreleased | hown
      · exact Or.inl (flag_refresh hl (Or.inr hreleased))
      · apply scanned_refresh hrep.toListed hl (hswept.imp (fun _ _ hw => hw.1))
        intro r hr hkeyr hnot hwants
        by_contra hhanded
        exact hown r hr hkeyr ⟨hwants, fun hin => absurd hin hnot, hhanded⟩
  · rw [heq, refresh_dropDequeued]
    rcases hok with hflag | hok
    · obtain ⟨b, _, hdrop⟩ := dropDequeued_eq now old new s
      rw [hdrop]
      exact Or.inl (by simp [hflag])
    · rw [UpdatesInTurn, if_pos ⟨hu, hd⟩] at hok
      exact scanned_dropDequeued hrep h now hnew (fun r hl => by simpa [hu, hd] using hmatch r hl) hok
  · rw [heq]
    apply scanned_reinsert now hrep hold hnew hkey (fun r hl => by simpa [hu, hd, hr] using hmatch r hl) h hu
    simpa [UpdatesInTurn, hu, hd, hr] using hok
  · rw [heq]
    have hin : new.key ∈ s.pq.queueUnits := by
      by_contra hnot
      simp [needsReinsert, hnot] at hr
    obtain ⟨x, hl⟩ := Finmap.mem_iff.mp hin
    apply scanned_settle hrep hu hl
    rcases h with hflag | hswept
    · exact Or.inl hflag
    rcases hok with hflag | hok
    · exact Or.inl hflag
    simp only [UpdatesInTurn, hu, hd, hr, Bool.false_eq_true, and_false, if_false] at hok
    rcases hok with hrewinds | hown
    · exact Or.inr (Or.inl hrewinds)
    · exact Or.inr (Or.inr ⟨hswept.imp (fun _ _ hw => hw.1), hown⟩)

end KoordQueue.Queue.Reinsertion
