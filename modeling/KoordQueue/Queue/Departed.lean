import KoordQueue.Queue.IntelligentFrames

namespace KoordQueue.Queue.Departed

open Api UnitStatus Memory Intelligent IntelligentSteps IntelligentFrames
open Policy (Handle)
open Steps (Answer attempted refreshed)
open Filing (extends_attempted unit_refreshed)

/-- The dequeue of a unit begins when it is reserved. It ends when it succeeded,
when the scheduler is done with its failure, or when the unit is deleted. -/
def flightAfter (inFlight : Finset String) (s : State) : Action → Finset String
  | .reserve r => if (reserve s.infos r s.iq).2 = .ok then insert (s.infos.key r) inFlight else inFlight
  | .dequeueSuccess qu | .delete _ qu => inFlight.erase qu.key
  | .addUnschedulable r _ | .errorFunc _ r _ _ _ => inFlight.erase (s.infos.key r)
  | .newInfo .. | .forgetInfos .. | .add .. | .update .. | .next .. | .fix .. | .updateQueueCr .. => inFlight

variable (fw : Handle)

def tracked (w : Watched) (a : Action) : Option Watched :=
  (step fw w.state a).map (fun s => ⟨s, flightAfter w.inFlight w.state a⟩)

def marks (q : IntelligentQueue) : Finset String := q.assumed ∪ q.updating

def Here (w : Watched) (key : String) : Prop := key ∈ w.state.iq.queueUnits ∨ key ∈ w.inFlight
deriving Decidable

/-- Every mark is for a unit that is here, and `Reserve` answers as if the
others had never been marked. -/
structure Present (w : Watched) : Prop where
  marked : ∀ key ∈ marks w.state.iq, Here w key
  reserve : ∀ r, (reserve w.state.infos r { w.state.iq with assumed := w.state.iq.assumed.filter (Here w) }).2 =
    (IntelligentSteps.reserve w.state.infos r w.state.iq).2

/-- No action leaves a mark behind when a unit goes: a version that needs nothing
comes for a unit in no update or in flight, a dequeue succeeds for a unit that is
not assumed or still queued, no marked unit is moved unless it is in flight, and
a unit that is not found any more is not marked or still queued. -/
def Clears (w : Watched) : Action → Prop
  | .update _ old new => unchanged fw old new = false → isQueueUnitDequeued new = true →
      new.key ∈ w.state.iq.updating → new.key ∈ w.inFlight
  | .dequeueSuccess qu => qu.key ∈ w.state.iq.assumed → qu.key ∈ w.state.iq.queueUnits
  | .fix _ order => ∀ r ∈ order.filterMap w.state.iq.queueUnits.lookup,
      w.state.infos.key r ∈ marks w.state.iq → w.state.infos.key r ∈ w.inFlight
  | .errorFunc _ r .updateNotFound _ _ =>
    w.state.infos.key r ∈ marks w.state.iq → w.state.infos.key r ∈ w.state.iq.queueUnits
  | .newInfo .. | .forgetInfos .. | .add .. | .delete .. | .next .. | .reserve .. | .addUnschedulable ..
  | .updateQueueCr .. | .errorFunc _ _ .getNotFound _ _ | .errorFunc _ _ .getFailed _ _
  | .errorFunc _ _ (.got _) _ _ => True

instance decidableClears (w : Watched) (a : Action) : Decidable (Clears fw w a) := by
  delta Clears
  induction a using IntelligentSteps.Action.casesOn with
  | errorFunc _ _ answer => induction answer using Steps.Answer.casesOn <;> infer_instance
  | _ => infer_instance

variable {fw} {w : Watched}

theorem present_iff : Present w ↔ ∀ key ∈ marks w.state.iq, Here w key := by
  constructor
  · exact Present.marked
  · intro h
    have hall : w.state.iq.assumed.filter (Here w) = w.state.iq.assumed :=
      Finset.filter_true_of_mem (fun key hkey => h key (Finset.mem_union_left _ hkey))
    exact ⟨h, fun r => by rw [hall]⟩

section Steps

variable {s : State} {flight : Finset String}

variable {t : State} {key : String}

theorem present_erase (h : Present ⟨s, flight⟩) (hunits : ∀ k, k ≠ key → k ∈ s.iq.queueUnits → k ∈ t.iq.queueUnits)
    (hmarks : marks t.iq ⊆ (marks s.iq).erase key) : Present ⟨t, flight.erase key⟩ := by
  rw [present_iff] at h ⊢
  intro k hk
  obtain ⟨hne, hold⟩ := Finset.mem_erase.mp (hmarks hk)
  rcases h k hold with hin | hin
  · exact Or.inl (hunits k hne hin)
  · exact Or.inr (Finset.mem_erase.mpr ⟨hne, hin⟩)

theorem present_insert (key : String) (h : Present ⟨s, flight⟩)
    (hunits : ∀ k, k ∈ t.iq.queueUnits ↔ k = key ∨ k ∈ s.iq.queueUnits)
    (hmarks : marks t.iq ⊆ insert key (marks s.iq)) : Present ⟨t, flight⟩ := by
  rw [present_iff] at h ⊢
  intro k hk
  rcases Finset.mem_insert.mp (hmarks hk) with rfl | hold
  · exact Or.inl ((hunits k).mpr (Or.inl rfl))
  · rcases h k hold with hin | hin
    · exact Or.inl ((hunits k).mpr (Or.inr hin))
    · exact Or.inr hin

theorem present_same (h : Present ⟨s, flight⟩) (hunits : t.iq.queueUnits = s.iq.queueUnits)
    (hassumed : t.iq.assumed = s.iq.assumed) (hupdating : t.iq.updating = s.iq.updating) : Present ⟨t, flight⟩ := by
  rw [present_iff] at h ⊢
  intro k hk
  rw [marks, hassumed, hupdating] at hk
  rcases h k hk with hin | hin
  · left
    show k ∈ t.iq.queueUnits
    rw [hunits]
    exact hin
  · exact Or.inr hin

theorem erase_union_erase (a b : Finset String) (key : String) : a.erase key ∪ b.erase key = (a ∪ b).erase key :=
  (Finset.erase_union_distrib a b key).symm

theorem present_add (h : Present ⟨s, flight⟩) (r : Ref) :
    Present ⟨{ s with iq := (addQueueUnitInfo s.infos r s.iq).1 }, flight⟩ := by
  have hsub : ∀ {ms : Finset String}, (ms = s.iq.assumed ∨ ms = insert (s.infos.unit r).key s.iq.assumed) →
      ms ∪ s.iq.updating ⊆ insert (s.infos.unit r).key (marks s.iq) := by
    rintro ms (rfl | rfl)
    · exact Finset.subset_insert _ _
    · rw [Finset.insert_union]
      exact Finset.Subset.refl _
  rcases addQueueUnitInfo_cases s.infos r s.iq with ⟨_, he⟩ | ⟨_, ms, hms, ⟨hin, he⟩ | ⟨_, reset, he⟩⟩
  · rw [he]
    exact h
  · apply present_insert (s.infos.unit r).key h
    · intro k
      rw [he]
      constructor
      · exact Or.inr
      · rintro (rfl | hk)
        · exact hin
        · exact hk
    · rw [he]
      exact hsub hms
  · obtain ⟨high, low, hdistribute⟩ := distributeToQueue_eq s.infos
      { s.iq with queueUnits := s.iq.queueUnits.insert (s.infos.unit r).key r, assumed := ms } r
    apply present_insert (s.infos.unit r).key h
    · intro k
      rw [he, hdistribute]
      exact Finmap.mem_insert
    · rw [he, hdistribute]
      exact hsub hms

theorem present_delete (h : Present ⟨s, flight⟩) (now : Time) (qu : QueueUnit) :
    Present ⟨delete fw now qu s, flight.erase qu.key⟩ := by
  obtain ⟨blocked, hdelete⟩ := delete_eq fw now qu s
  apply present_erase h
  · intro k hne hk
    rw [hdelete]
    exact Finmap.mem_erase.mpr ⟨hne, hk⟩
  · rw [marks, hdelete, erase_union_erase]
    exact Finset.Subset.refl _

theorem present_addUnschedulable (h : Present ⟨s, flight⟩) (m : Infos) (r : Ref) (changed : Bool) :
    Present ⟨addUnschedulable fw r changed { s with infos := m }, flight.erase (m.key r)⟩ := by
  obtain ⟨reset, j, blocked, he⟩ := addUnschedulableIfNotPresent_eq fw m s.iq r changed
  apply present_erase h
  · intro k _ hk
    rw [addUnschedulable, he]
    exact hk
  · rw [marks, addUnschedulable, he, erase_union_erase]
    exact Finset.Subset.refl _

theorem present_reserve (h : Present ⟨s, flight⟩) (r : Ref) : Present ⟨{ s with iq := (reserve s.infos r s.iq).1 },
      if (reserve s.infos r s.iq).2 = .ok then insert (s.infos.key r) flight else flight⟩ := by
  rw [reserve]
  split
  next => exact h
  next =>
    rw [present_iff] at h ⊢
    intro k hk
    have hmark : k = s.infos.key r ∨ k ∈ marks s.iq := by
      simp only [marks, Finset.mem_union, Finset.mem_insert] at hk ⊢
      tauto
    rcases hmark with rfl | hold
    · exact Or.inr (Finset.mem_insert_self _ _)
    · exact (h k hold).imp_right (Finset.mem_insert_of_mem)

/-- A unit that needs nothing more leaves, with its mark among the assumed units
only. -/
theorem present_leave_iff (h : Present ⟨s, flight⟩) (hunits : t.iq.queueUnits = s.iq.queueUnits.erase key)
    (hmarks : marks t.iq = s.iq.assumed.erase key ∪ s.iq.updating) :
    Present ⟨t, flight⟩ ↔ (key ∈ s.iq.updating → key ∈ flight) := by
  have hhere : ∀ k, Here ⟨t, flight⟩ k ↔ (k ≠ key ∧ k ∈ s.iq.queueUnits) ∨ k ∈ flight := by
    intro k
    rw [Here, hunits, Finmap.mem_erase]
  rw [present_iff] at h ⊢
  simp only [hmarks, hhere]
  constructor
  · intro hall hup
    rcases hall key (Finset.mem_union_right _ hup) with ⟨hne, _⟩ | hin
    · exact absurd rfl hne
    · exact hin
  · intro hclears k hk
    by_cases hkey : k = key
    · subst hkey
      rcases Finset.mem_union.mp hk with hgone | hup
      · exact absurd rfl (Finset.mem_erase.mp hgone).1
      · exact Or.inr (hclears hup)
    · have hold : k ∈ marks s.iq := Finset.union_subset_union_left (Finset.erase_subset _ _) hk
      exact (h k hold).imp_left (fun hin => ⟨hkey, hin⟩)

theorem present_update_iff (h : Present ⟨s, flight⟩) (now : Time) (old new : QueueUnit) :
    Present ⟨update fw now old new s, flight⟩ ↔
      (unchanged fw old new = false → isQueueUnitDequeued new = true → new.key ∈ s.iq.updating → new.key ∈ flight) := by
  obtain ⟨reset, blocked, hrefresh⟩ := refresh_eq fw old new (updateBody fw now old new s)
  obtain ⟨reset', ⟨hsame, hbody⟩ | ⟨hsame, hdequeued, hbody⟩ | ⟨hsame, hdequeued, hbody⟩⟩ :=
    updateBody_cases fw now old new s
  · refine iff_of_true (present_same h ?_ ?_ ?_) (fun hfalse => ?_)
    · rw [update, hrefresh, hbody]
    · rw [update, hrefresh, hbody]
    · rw [update, hrefresh, hbody]
    · rw [hsame] at hfalse
      cases hfalse
  · obtain ⟨reset'', blocked', hdrop⟩ := dropDequeued_eq now old new (withReset reset' s)
    obtain ⟨high, low, hremove⟩ := removeFromQueue_eq (s.infos.newQueueUnitInfo now old)
      (withReset reset' s).iq (s.infos.fresh now old)
    have hunits : (update fw now old new s).iq.queueUnits = s.iq.queueUnits.erase new.key := by
      rw [update, hrefresh, hbody, hdrop]
    have hmarks : marks (update fw now old new s).iq = s.iq.assumed.erase new.key ∪ s.iq.updating := by
      rw [marks, update, hrefresh, hbody, hdrop, hremove]
    rw [present_leave_iff h hunits hmarks]
    exact ⟨fun hleave _ _ => hleave, fun hclears => hclears hsame hdequeued⟩
  · obtain ⟨high, low, hreinsert⟩ := reinsert_eq now old new (withReset reset' s)
    obtain ⟨reset'', ms, htrack, hsub⟩ := track_eq new (reinsert now old new (withReset reset' s)).iq
    rw [hreinsert] at hsub
    refine iff_of_true (present_insert new.key h ?_ ?_) (fun _ htrue => ?_)
    · intro k
      rw [update, hrefresh, hbody, htrack, hreinsert]
      exact Finmap.mem_insert
    · rw [marks, update, hrefresh, hbody, htrack, hreinsert, marks, ← Finset.insert_union]
      exact Finset.union_subset_union_left hsub
    · rw [hdequeued] at htrue
      cases htrue

theorem present_dequeueSuccess_iff (h : Present ⟨s, flight⟩) (qu : QueueUnit) :
    Present ⟨{ s with iq := dequeueSuccess qu s.iq }, flight.erase qu.key⟩ ↔
      (qu.key ∈ s.iq.assumed → qu.key ∈ s.iq.queueUnits) := by
  rw [present_iff] at h ⊢
  constructor
  · intro hall hassumed
    rcases hall qu.key (Finset.mem_union_left _ hassumed) with hin | hin
    · exact hin
    · exact absurd rfl (Finset.mem_erase.mp hin).1
  · intro hclears k hk
    have hold : k ∈ marks s.iq := Finset.union_subset_union_right (Finset.erase_subset _ _) hk
    by_cases hkey : k = qu.key
    · subst hkey
      rcases Finset.mem_union.mp hk with hassumed | hgone
      · exact Or.inl (hclears hassumed)
      · exact absurd rfl (Finset.mem_erase.mp hgone).1
    · exact (h k hold).imp_right (fun hin => Finset.mem_erase.mpr ⟨hkey, hin⟩)

theorem present_fix_iff (h : Present ⟨s, flight⟩) (order : List String) :
    Present ⟨{ s with iq := fix s.infos order s.iq }, flight⟩ ↔
      ∀ r ∈ order.filterMap s.iq.queueUnits.lookup, s.infos.key r ∈ marks s.iq → s.infos.key r ∈ flight := by
  obtain ⟨high, low, he⟩ := fix_eq s.infos order s.iq
  have hmarks : marks (fix s.infos order s.iq) = marks s.iq := by rw [he, marks, marks]
  have hunits : ∀ k, k ∈ (fix s.infos order s.iq).queueUnits ↔
      k ∈ s.iq.queueUnits ∧ ∀ r ∈ order.filterMap s.iq.queueUnits.lookup, s.infos.key r ≠ k := by
    intro k
    rw [he]
    exact GoMap.mem_foldl_erase s.infos.key _ _ k
  rw [present_iff] at h ⊢
  simp only [hmarks, Here, hunits]
  constructor
  · intro hall r hr hmark
    rcases hall _ hmark with hin | hin
    · exact absurd rfl (hin.2 r hr)
    · exact hin
  · intro hclears k hk
    rcases h k hk with hin | hin
    · by_cases hmoved : ∀ r ∈ order.filterMap s.iq.queueUnits.lookup, s.infos.key r ≠ k
      · exact Or.inl ⟨hin, hmoved⟩
      · simp only [not_forall, not_not] at hmoved
        obtain ⟨r, hr, rfl⟩ := hmoved
        exact Or.inr (hclears r hr hk)
    · exact Or.inr hin

theorem present_notFound_iff (h : Present ⟨s, flight⟩) (m : Infos) (key : String) :
    Present ⟨{ s with infos := m }, flight.erase key⟩ ↔ (key ∈ marks s.iq → key ∈ s.iq.queueUnits) := by
  rw [present_iff] at h ⊢
  constructor
  · intro hall hmark
    rcases hall key hmark with hin | hin
    · exact hin
    · exact absurd rfl (Finset.mem_erase.mp hin).1
  · intro hclears k hk
    by_cases hkey : k = key
    · subst hkey
      exact Or.inl (hclears hk)
    · exact (h k hk).imp_right (fun hin => Finset.mem_erase.mpr ⟨hkey, hin⟩)

theorem present_errorFunc_iff {now : Time} {r : Ref} {answer : Answer} {reasons : String} {changed : Bool}
    (h : Present ⟨s, flight⟩) (he : Enabled s (.errorFunc now r answer reasons changed)) :
    Present ⟨errorFunc fw now r answer reasons changed s, flight.erase (s.infos.key r)⟩ ↔
      Clears fw ⟨s, flight⟩ (.errorFunc now r answer reasons changed) := by
  have hr : s.infos.heap.Allocated r := he.1 r List.mem_cons_self
  have hkey : (attempted now r s.infos).key r = s.infos.key r :=
    congrArg QueueUnit.key ((extends_attempted now hr).unit hr)
  cases answer with
  | getNotFound =>
    have hsame : Present ⟨{ s with infos := attempted now r s.infos }, flight⟩ := present_same h rfl rfl rfl
    exact iff_of_true (present_delete hsame now (s.infos.unit r)) trivial
  | getFailed =>
    have hkept := @present_addUnschedulable fw s flight h (attempted now r s.infos) r changed
    rw [hkey] at hkept
    exact iff_of_true hkept trivial
  | updateNotFound => exact present_notFound_iff h (attempted now r s.infos) (s.infos.key r)
  | got qu =>
    have hkept := @present_addUnschedulable fw s flight h (refreshed now r reasons qu s.infos) r changed
    have hnew : (refreshed now r reasons qu s.infos).key r = s.infos.key r := by
      rw [Infos.key, unit_refreshed now hr reasons qu hr, if_pos rfl]
      exact congrArg₂ (fun a b => a ++ "/" ++ b) he.2.1 he.2.2
    rw [hnew] at hkept
    exact iff_of_true hkept trivial

theorem present_step_iff {a : Action} {t : Watched} (h : Present w) (hstep : tracked fw w a = some t) :
    Present t ↔ Clears fw w a := by
  obtain ⟨s, flight⟩ := w
  obtain ⟨s', hs', rfl⟩ := Option.map_eq_some_iff.mp hstep
  obtain ⟨he, rfl⟩ := (step_eq_some fw).mp hs'
  cases a with
  | newInfo | forgetInfos => exact iff_of_true (present_same h rfl rfl rfl) trivial
  | add r => exact iff_of_true (present_add h r) trivial
  | delete now qu => exact iff_of_true (present_delete h now qu) trivial
  | update now old new => exact present_update_iff h now old new
  | next now =>
    obtain ⟨i, j, reset, blocked, unit, time, hnext⟩ := next_eq fw s.infos now s.iq
    refine iff_of_true (present_same h ?_ ?_ ?_) trivial
    · rw [act, hnext]
    · rw [act, hnext]
    · rw [act, hnext]
  | reserve r => exact iff_of_true (present_reserve h r) trivial
  | dequeueSuccess qu => exact present_dequeueSuccess_iff h qu
  | addUnschedulable r changed => exact iff_of_true (present_addUnschedulable h s.infos r changed) trivial
  | fix g order => exact present_fix_iff h order
  | updateQueueCr threshold wait order =>
    obtain ⟨high, low, reset, hcr⟩ := updateQueueCr_eq s.infos s.iq threshold wait order
    refine iff_of_true (present_same h ?_ ?_ ?_) trivial
    · rw [act, hcr]
    · rw [act, hcr]
    · rw [act, hcr]
  | errorFunc now r answer reasons changed => exact present_errorFunc_iff h he

end Steps

/-- A queue is marked only by units that are here, through a whole run, exactly
when no action of the run leaves a mark behind. -/
theorem marks_are_present_iff (h : Present w) (as : List Action) :
    (∀ bs u, bs <+: as → Run.exec (tracked fw) w bs = some u → Present u) ↔
      Run.Guarded (tracked fw) (Clears fw) w as :=
  Run.always_iff_guarded (fun _ _ _ hw hstep => present_step_iff hw hstep) h as

def waitingQueue : Watched := ⟨{ iq := newIntelligentQueue {} "q" 4 (-1) true [] }, ∅⟩

theorem present_waitingQueue : Present waitingQueue := present_iff.mpr (by decide)

def ranThrough : List Action :=
  [.newInfo 0 (workers "a" "1" "x" 9 1 0), .add 0, .reserve 0, .dequeueSuccess (workers "a" "1" "x" 9 1 0),
    .update 0 (workers "a" "1" "x" 9 1 0) (workers "a" "2" "x" 9 1 1)]

theorem ranThrough_present : Run.Guarded (tracked labelQuota) (Clears labelQuota) waitingQueue ranThrough ∧
    ∀ bs u, bs <+: ranThrough → Run.exec (tracked labelQuota) waitingQueue bs = some u → Present u := by
  have hclears : Run.Guarded (tracked labelQuota) (Clears labelQuota) waitingQueue ranThrough := by decide +kernel
  exact ⟨hclears, (marks_are_present_iff present_waitingQueue ranThrough).mpr hclears⟩

/-- A unit with one of its two workers waits for its pods when the mapping sends
it to another queue. -/
def movedAway : List Action :=
  [.newInfo 0 (workers "a" "1" "x" 9 2 1), .newInfo 0 (workers "b" "1" "x" 8 1 0), .add 0, .add 1,
    .fix (fun qu => if qu.name = "a" then "other" else "q") ["ns/a"]]

theorem movedAway_blocks :
    ∃ w, Run.exec (tracked labelQuota) waitingQueue movedAway = some w ∧
      "ns/a" ∈ w.state.iq.assumed ∧ "ns/a" ∉ w.state.iq.queueUnits ∧ w.inFlight = ∅ ∧
      (reserve w.state.infos 1 w.state.iq).2 = .refused ∧
      (reserve w.state.infos 1 { w.state.iq with assumed := w.state.iq.assumed.filter (Here w) }).2 = .ok ∧
      ¬ Present w := by
  obtain ⟨w, hrun, hassumed, hgone, hidle, hrefused, hfree⟩ : ∃ w,
      Run.exec (tracked labelQuota) waitingQueue movedAway = some w ∧ "ns/a" ∈ w.state.iq.assumed ∧
      "ns/a" ∉ w.state.iq.queueUnits ∧ w.inFlight = ∅ ∧ (reserve w.state.infos 1 w.state.iq).2 = .refused ∧
      (reserve w.state.infos 1 { w.state.iq with assumed := w.state.iq.assumed.filter (Here w) }).2 = .ok :=
      by decide +kernel
  refine ⟨w, hrun, hassumed, hgone, hidle, hrefused, hfree, fun hpresent => ?_⟩
  rw [hpresent.reserve 1, hrefused] at hfree
  cases hfree

end KoordQueue.Queue.Departed
