import KoordQueue.Scheduler.Convergence

namespace KoordQueue.Scheduler.Agreement

open Api UnitStatus Quota Info Cache Chain Ledger Scheduler.Cycle Marks Dequeue Informer Labels
open Convergence

variable [ResourceHelpers] {quotaOf : UID → QuotaName} {known : Finset QuotaName} {rate : ℚ} {w w' : Cluster}
  {book : Book}

variable {q : QueueName} {current unit : QueueUnit} {world : World}

theorem tallied_fails {cache : CacheImpl} (h : Tallied quotaOf known w book)
    (hq : w.world.cycle q = .reserved unit) (hcurrent : OfQuota quotaOf current) (huid : current.uid = unit.uid)
    (hok : Assigned w unit.uid → unit.uid ∉ w.world.cache.reserved)
    (hu : Plugin.unreserve w.world.cache (unitInfoOf current) = some cache) :
    ∃ book', Tallied quotaOf known { w with world := (w.world.setCache cache).setCycle q .idle } book' := by
  refine ⟨_, h.cleared (booked_remove h.booked hcurrent hu) rfl rfl (huid ▸ hok) ?_⟩
  intro uid hne
  apply Or.imp_left
  intro hopen
  have hidle : Open ((w.world.setCache cache).setCycle q .idle) uid ↔ OpenBeside w.world q uid := open_setCycle (by simp) uid
  rw [hidle]
  rcases (open_iff_beside uid).mp hopen with ⟨unit', hq', rfl⟩ | hbeside
  · rw [hq] at hq'
    cases hq'
    exact absurd huid.symm hne
  · exact hbeside

theorem tallied_reserve (h : Tallied quotaOf known w book) (hl : WellLabelled quotaOf w)
    (hstep : cycleStep rate w.world (.reserve q) = some world) :
    ∃ book', Tallied quotaOf known { w with world } book' := by
  obtain ⟨unit, cache, hq, hcase⟩ := taken_of_cycleStep hstep
  have hunit : OfQuota quotaOf (copiedUnit unit) := hl.stage q unit (Or.inl hq)
  have hbeside := @open_iff_beside_of w.world q (by simp [hq])
  rcases hcase with ⟨hr, rfl⟩ | ⟨err, cache', hr, hu, rfl⟩
  · have hopen : ∀ uid, Open ((w.world.setCache cache).setCycle q (.reserved unit)) uid ↔
        unit.uid = uid ∨ OpenBeside w.world q uid := fun uid => open_setCycle_reserved uid
    refine ⟨_, h.entered (booked_pluginReserve h.booked hunit hr).1 rfl rfl ?_ ?_⟩
    · exact Or.inr (Or.inl (Or.inl ((hopen unit.uid).mpr (Or.inl rfl))))
    · intro uid _
      exact Or.imp_left (fun ho => (hopen uid).mpr (Or.inr ((hbeside uid).mp ho)))
  · obtain ⟨hbooked, hnone⟩ := booked_pluginReserve h.booked hunit hr
    have hfree : (copiedUnit unit).uid ∉ w.world.cache.reserved := fun hmem =>
      (h.booked.mem_reserved _).mp hmem (hnone (by simp))
    have hidle : ∀ uid, Open ((w.world.setCache cache').setCycle q .idle) uid ↔ OpenBeside w.world q uid :=
      open_setCycle (by simp)
    have hclear := booked_remove hbooked hunit hu
    rw [clear_enter] at hclear
    refine ⟨_, h.cleared hclear rfl rfl (fun _ => hfree) ?_⟩
    intro uid _
    exact Or.imp_left (fun ho => (hidle uid).mpr ((hbeside uid).mp ho))

theorem tallied_cycle {a : CycleAction} (h : Tallied quotaOf known w book)
    (hl : WellLabelled quotaOf w) (ha : Labelled quotaOf (.cycle a)) (hok : Steady w (.cycle a))
    (hsame : sameUnit w.world a = true) (hstep : cycleStep rate w.world a = some world) :
    ∃ book', Tallied quotaOf known { w with world } book' := by
  have ht := taken_of_cycleStep hstep
  cases a with
  | filter q unit =>
    refine ⟨book, ?_⟩
    rcases ht with rfl | ⟨hidle, _, rfl⟩
    · exact h
    · refine h.same rfl rfl (fun uid => Or.imp_left fun ho => ?_) (fun _ ha => ha)
      rwa [open_setCycle (by simp), ← open_iff_beside_of (by simp [hidle])]
  | reject q =>
    obtain ⟨unit, hq, rfl⟩ := ht
    refine ⟨book, h.same rfl rfl (fun uid => Or.imp_left fun ho => ?_) (fun _ ha => ha)⟩
    rwa [open_setCycle (by simp), ← open_iff_beside_of (by simp [hq])]
  | reserve q => exact tallied_reserve h hl hstep
  | laterReserveFails q =>
    obtain ⟨unit, cache, hq, hu, rfl⟩ := ht
    have hunit : OfQuota quotaOf (copiedUnit unit) := hl.stage q unit (Or.inr hq)
    exact tallied_fails h hq hunit rfl (hok unit hq) hu
  | queueReserveFails q current =>
    obtain ⟨unit, cache, hq, hu, rfl⟩ := ht
    have huid : current.uid = unit.uid := by
      rw [sameUnit, hq] at hsame
      exact of_decide_eq_true hsame
    exact tallied_fails h hq (ha current List.mem_cons_self) huid (hok unit hq) hu
  | queueReserve q =>
    obtain ⟨unit, hq, rfl⟩ := ht
    exact ⟨book, h.same rfl rfl (fun uid => Or.imp_left (open_queueReserve hq uid).mpr) (fun _ ha => ha)⟩
  | dequeueFails unit current =>
    obtain ⟨hmem, cache, hu, rfl⟩ := ht
    have huid : current.uid = unit.uid := of_decide_eq_true hsame
    refine ⟨_, h.cleared (booked_remove h.booked (ha current List.mem_cons_self) hu) rfl rfl (huid ▸ hok) ?_⟩
    intro uid hne
    apply Or.imp_left
    intro hopen
    rcases (open_iff_without hmem uid).mp hopen with he | hrest
    · exact absurd (huid.trans he).symm hne
    · exact hrest
  | dequeueSucceeds unit updated => cases hsame

theorem tallied_write {read : QueueUnit} {cfg : Config} {timeNow : Time}
    {grants : List FrameworkAdmission} (h : Tallied quotaOf known w book)
    (hok : Steady w (.write unit read current cfg timeNow grants))
    (hstep : step rate w (.write unit read current cfg timeNow grants) = some w') : Tallied quotaOf known w' book := by
  obtain ⟨hunit, _, rfl⟩ := moved_of_step hstep
  have hannounce := h.announce current.uid (some (written read current cfg timeNow grants))
  refine hannounce.same rfl rfl ?_ (fun _ ha => ha)
  rintro uid (hopen | ⟨u, hu, huid⟩)
  · rcases (open_iff_without hunit uid).mp hopen with he | hrest
    · exact Or.inr ⟨_, List.mem_cons_self, hok.trans he⟩
    · exact Or.inl hrest
  · exact Or.inr ⟨u, List.mem_cons_of_mem _ hu, huid⟩

theorem tallied_complete {updated : QueueUnit} (h : Tallied quotaOf known w book) (hl : WellLabelled quotaOf w)
    (hok : Steady w (.complete updated)) (hstep : step rate w (.complete updated) = some w') :
    ∃ book', Tallied quotaOf known w' book' := by
  obtain ⟨hmem, cache, hc, rfl⟩ := moved_of_step hstep
  have hbooked := booked_dequeueComplete h.booked (hl.completing updated hmem) hc
  refine ⟨_, h.entered hbooked rfl rfl (hok.imp id Or.inr) ?_⟩
  rintro uid hne (hopen | ⟨u, hu, huid⟩)
  · exact Or.inl hopen
  · refine Or.inr ⟨u, (List.mem_erase_of_ne ?_).mpr hu, huid⟩
    rintro rfl
    exact hne huid.symm

theorem tallied_step {a : Action} (h : Tallied quotaOf known w book) (hl : WellLabelled quotaOf w)
    (ha : Labelled quotaOf a) (hok : Steady w a) (hstep : step rate w a = some w') :
    ∃ book', Tallied quotaOf known w' book' := by
  have hmoved := moved_of_step hstep
  cases a with
  | create v =>
    cases hmoved
    exact ⟨book, h.announce v.uid (some v)⟩
  | modify v =>
    cases hmoved
    exact ⟨book, h.announce v.uid (some v)⟩
  | remove uid =>
    cases hmoved
    exact ⟨book, h.announce uid none⟩
  | deliver => exact tallied_deliver h hl hok hstep
  | cycle a =>
    obtain ⟨hsame, world, hworld, rfl⟩ := hmoved
    exact tallied_cycle h hl ha hok hsame hworld
  | write unit read current cfg timeNow grants => exact ⟨book, tallied_write h hok hstep⟩
  | complete updated => exact tallied_complete h hl hok hstep

end KoordQueue.Scheduler.Agreement
