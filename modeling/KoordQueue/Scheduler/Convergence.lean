import KoordQueue.Scheduler.Labels
import KoordQueue.Scheduler.Marks

namespace KoordQueue.Scheduler.Convergence

open Api UnitStatus Quota Info Cache Chain Ledger Marks Informer Labels

/-- The informer's latest version of the unit is assigned. -/
def Assigned (w : Cluster) (uid : UID) : Prop :=
  ∃ v, w.observed.lookup uid = some v ∧ isQueueUnitAssigned v = true

def Announced (w : Cluster) (uid : UID) : Prop := ∃ v, (uid, some v) ∈ w.pending ∧ isQueueUnitAssigned v = true

def InWindow (w : Cluster) (uid : UID) : Prop := Open w.world uid ∨ ∃ u ∈ w.completing, u.uid = uid

variable [ResourceHelpers]

/-- Every version that the unit is charged with comes to the amount of `v`. -/
def ChargedLike (c : CacheImpl) (uid : UID) (v : QueueUnit) : Prop :=
  ∀ x b, chargedAt c uid x = some b → getReservedResource b = getReservedResource v

/-- The step does not come in the way of a charge. An assigned version that
reaches a charged unit finds it assigned and not marked, or charged with the
same amount; no cycle fails for a charged unit that is observed as assigned;
the status is written to the object that was reserved; and `DequeueComplete`
runs while the unit is observed or announced as assigned. -/
def Steady (w : Cluster) : Action → Prop
  | .deliver => ∀ uid v rest, w.pending = (uid, some v) :: rest → isQueueUnitAssigned v = true →
      (Assigned w uid ∧ uid ∉ w.world.cache.scheduling) ∨ ChargedLike w.world.cache uid v
  | .cycle (.laterReserveFails q) | .cycle (.queueReserveFails q _) => ∀ unit, w.world.cycle q = .reserved unit →
      Assigned w unit.uid → unit.uid ∉ w.world.cache.reserved
  | .cycle (.dequeueFails unit _) => Assigned w unit.uid → unit.uid ∉ w.world.cache.reserved
  | .write unit _ current _ _ _ => current.uid = unit.uid
  | .complete updated => Assigned w updated.uid ∨ Announced w updated.uid
  | _ => True

/-- The cache is kept by a book that has the amount of every assigned unit, and
charges no other unit unless a cycle or a change under way accounts for it. -/
structure Tallied (quotaOf : UID → QuotaName) (known : Finset QuotaName) (w : Cluster) (book : Book) : Prop where
  booked : Booked quotaOf known w.world.cache book
  agreeing : ∀ uid v, w.observed.lookup uid = some v → isQueueUnitAssigned v = true →
    quotaOf uid ∈ known → ∃ b, book uid = some b ∧ getReservedResource b = getReservedResource v
  backed : ∀ uid, book uid ≠ none → Assigned w uid ∨ InWindow w uid ∨ Announced w uid

variable {quotaOf : UID → QuotaName} {known : Finset QuotaName} {rate : ℚ} {w w' : Cluster} {book book' : Book}

theorem Tallied.next (h : Tallied quotaOf known w book) (hbooked : Booked quotaOf known w'.world.cache book')
    (hobserved : w'.observed = w.observed) (hkeep : ∀ uid, Assigned w uid → book uid ≠ none → book' uid = book uid)
    (hback : ∀ uid, book' uid ≠ none → Assigned w uid ∨ InWindow w' uid ∨ Announced w' uid) :
    Tallied quotaOf known w' book' where
  booked := hbooked
  agreeing := by
    intro uid v hv ha hq
    rw [hobserved] at hv
    obtain ⟨b, hb, hsame⟩ := h.agreeing uid v hv ha hq
    exact ⟨b, by rw [hkeep uid ⟨v, hv, ha⟩ (by simp [hb]), hb], hsame⟩
  backed := by
    intro uid hne
    rw [Assigned, hobserved]
    exact hback uid hne

theorem Tallied.same (h : Tallied quotaOf known w book) (hcache : w'.world.cache = w.world.cache)
    (hobserved : w'.observed = w.observed) (hwindow : ∀ uid, InWindow w uid → InWindow w' uid)
    (hannounced : ∀ uid, Announced w uid → Announced w' uid) : Tallied quotaOf known w' book := by
  refine h.next (hcache ▸ h.booked) hobserved (fun _ _ _ => rfl) ?_
  intro uid hne
  exact (h.backed uid hne).imp id (Or.imp (hwindow uid) (hannounced uid))

theorem Tallied.announce (h : Tallied quotaOf known w book) (uid : UID) (change : Option QueueUnit) :
    Tallied quotaOf known (w.announce uid change) book := by
  refine h.same rfl rfl (fun _ hw => hw) ?_
  rintro uid' ⟨v, hv, ha⟩
  exact ⟨v, List.mem_append_left _ hv, ha⟩

variable {marked present : Bool} {change : Option QueueUnit} {v : QueueUnit} {uid uid' : UID}

theorem Tallied.entered (h : Tallied quotaOf known w book)
    (hbooked : Booked quotaOf known w'.world.cache (enter present v book)) (hobserved : w'.observed = w.observed)
    (hpending : w'.pending = w.pending)
    (hself : Assigned w v.uid ∨ InWindow w' v.uid ∨ Announced w v.uid)
    (hwindow : ∀ uid, uid ≠ v.uid → InWindow w uid → InWindow w' uid) : Tallied quotaOf known w' (enter present v book) := by
  have hannounced : ∀ uid, Announced w' uid ↔ Announced w uid := fun uid => by rw [Announced, hpending, Announced]
  refine h.next hbooked hobserved ?_ ?_
  · intro uid _ hne
    exact enter_charged hne
  · intro uid hne
    rw [hannounced]
    by_cases he : uid = v.uid
    · exact he ▸ hself
    · rw [enter_of_ne he] at hne
      exact (h.backed uid hne).imp id (Or.imp_left (hwindow uid he))

theorem Tallied.cleared (h : Tallied quotaOf known w book)
    (hbooked : Booked quotaOf known w'.world.cache (clear uid book)) (hobserved : w'.observed = w.observed)
    (hpending : w'.pending = w.pending)
    (hself : Assigned w uid → uid ∉ w.world.cache.reserved)
    (hwindow : ∀ uid', uid' ≠ uid → InWindow w uid' → InWindow w' uid') : Tallied quotaOf known w' (clear uid book) := by
  have hannounced : ∀ uid, Announced w' uid ↔ Announced w uid := fun uid => by rw [Announced, hpending, Announced]
  refine h.next hbooked hobserved ?_ ?_
  · intro uid' ha hne
    apply Function.update_of_ne
    rintro rfl
    exact hself ha ((h.booked.mem_reserved uid').mpr hne)
  · intro uid' hne
    have hother : uid' ≠ uid := by
      rintro rfl
      exact hne (Function.update_self _ _ _)
    have hold : clear uid book uid' = book uid' := Function.update_of_ne hother _ _
    rw [hannounced]
    exact (h.backed uid' (hold ▸ hne)).imp id (Or.imp_left (hwindow uid' hother))

omit [ResourceHelpers] in
theorem bookChange_other {old new : Option QueueUnit}
    (hold : ∀ o, old = some o → o.uid = uid) (hnew : ∀ v, new = some v → v.uid = uid) (hne : uid' ≠ uid) :
    bookChange present marked old new book uid' = book uid' := by
  rw [bookChange]
  cases ho : old.filter isQueueUnitAssigned with
  | none =>
    cases hn : new.filter isQueueUnitAssigned with
    | none => rfl
    | some v => exact enter_of_ne (hnew v (Option.filter_eq_some_iff.mp hn).1 ▸ hne)
  | some o =>
    cases hn : new.filter isQueueUnitAssigned with
    | none => exact Function.update_of_ne (hold o (Option.filter_eq_some_iff.mp ho).1 ▸ hne) _ _
    | some v =>
      cases marked with
      | true => rfl
      | false => exact rebook_of_ne (hnew v (Option.filter_eq_some_iff.mp hn).1 ▸ hne)

theorem Tallied.same_amount (h : Tallied quotaOf known w book) {b : QueueUnit}
    (hlike : ChargedLike w.world.cache uid v) (hb : book uid = some b) :
    getReservedResource b = getReservedResource v := by
  have hq : quotaOf uid ∈ w.world.cache.quotas := (h.booked.quotas _).mpr (h.booked.placed uid b hb)
  have hat : chargedAt w.world.cache uid (quotaOf uid) = some b := by
    rw [h.booked.charged, if_pos (self_mem_chain hq), hb]
  exact hlike _ b hat

theorem Tallied.bookChange_self (h : Tallied quotaOf known w book) (hv : v.uid = uid)
    (ha : isQueueUnitAssigned v = true) (hq : quotaOf uid ∈ known)
    (hok : (Assigned w uid ∧ uid ∉ w.world.cache.scheduling) ∨ ChargedLike w.world.cache uid v) :
    ∃ b, bookChange (quotaOf uid ∈ known) (isScheduling w.world.cache uid) (w.observed.lookup uid) (some v) book uid =
      some b ∧ getReservedResource b = getReservedResource v := by
  subst uid
  have hnew : (some v).filter isQueueUnitAssigned = some v := by rw [Option.filter_some, if_pos ha]
  simp only [bookChange, hnew]
  cases ho : (w.observed.lookup v.uid).filter isQueueUnitAssigned with
  | none =>
    refine ⟨_, enter_self (decide_eq_true hq), ?_⟩
    cases hb : book v.uid with
    | none => rfl
    | some b =>
      rcases hok with ⟨⟨o, hobs, hao⟩, _⟩ | hlike
      · rw [hobs, Option.filter_some, if_pos hao] at ho
        cases ho
      · exact h.same_amount hlike hb
  | some o =>
    obtain ⟨hobs, hao⟩ := Option.filter_eq_some_iff.mp ho
    obtain ⟨b, hb, _⟩ := h.agreeing v.uid o hobs hao hq
    by_cases hm : v.uid ∈ w.world.cache.scheduling
    · refine ⟨b, by simp [isScheduling, hm, hb], ?_⟩
      rcases hok with ⟨_, hfree⟩ | hlike
      · exact absurd hm hfree
      · exact h.same_amount hlike hb
    · refine ⟨v, ?_, rfl⟩
      simp only [isScheduling, hm, decide_false, Bool.false_eq_true, if_false]
      exact rebook_self (by simp [hb])

omit [ResourceHelpers] in
theorem bookChange_released (hold : ∀ o, w.observed.lookup uid = some o → o.uid = uid)
    (hnew : ∀ v, change = some v → isQueueUnitAssigned v = false) (ha : Assigned w uid) :
    bookChange present marked (w.observed.lookup uid) change book uid = none := by
  obtain ⟨o, hobs, hao⟩ := ha
  have hnone : change.filter isQueueUnitAssigned = none := by
    rw [Option.filter_eq_none_iff]
    intro v hv
    simp [hnew v hv]
  have hsome : (w.observed.lookup uid).filter isQueueUnitAssigned = some o := by
    rw [hobs, Option.filter_some, if_pos hao]
  simp only [bookChange, hnone, hsome, clear, hold o hobs, Function.update_self]

omit [ResourceHelpers] in
theorem bookChange_unassigned (hnew : ∀ v, change = some v → isQueueUnitAssigned v = false) (ha : ¬ Assigned w uid) :
    bookChange present marked (w.observed.lookup uid) change book = book := by
  have hnone : change.filter isQueueUnitAssigned = none := by
    rw [Option.filter_eq_none_iff]
    intro v hv
    simp [hnew v hv]
  have hold : (w.observed.lookup uid).filter isQueueUnitAssigned = none := by
    rw [Option.filter_eq_none_iff]
    intro o ho hao
    exact ha ⟨o, ho, hao⟩
  simp only [bookChange, hnone, hold]

omit [ResourceHelpers] in
theorem assigned_takeIn (hobs : w'.observed = takeIn w.observed uid change) :
    Assigned w' uid' ↔ if uid' = uid then ∃ v, change = some v ∧ isQueueUnitAssigned v = true else Assigned w uid' := by
  rw [Assigned, hobs, lookup_takeIn]
  split <;> rfl

omit [ResourceHelpers] in
theorem announced_of_pending {rest : List (UID × Option QueueUnit)}
    (hpending : w.pending = (uid, change) :: rest) (h : Announced w uid') :
    (uid' = uid ∧ ∃ v, change = some v ∧ isQueueUnitAssigned v = true) ∨
      ∃ v, (uid', some v) ∈ rest ∧ isQueueUnitAssigned v = true := by
  obtain ⟨v, hv, ha⟩ := h
  rw [hpending] at hv
  rcases List.mem_cons.mp hv with he | hrest
  · cases he
    exact Or.inl ⟨rfl, v, rfl, ha⟩
  · exact Or.inr ⟨v, hrest, ha⟩

/-- A charge that is left after a delivery without an assigned version was there before, and the
unit was not observed as assigned. -/
theorem Tallied.backed_unassigned (h : Tallied quotaOf known w book)
    (hold : ∀ o, w.observed.lookup uid = some o → o.uid = uid)
    (hfree : ∀ v, change = some v → isQueueUnitAssigned v = false)
    (hcharged : bookChange present marked (w.observed.lookup uid) change book uid ≠ none) :
    InWindow w uid ∨ Announced w uid := by
  have hunassigned : ¬ Assigned w uid := fun ha => hcharged (bookChange_released hold hfree ha)
  rw [bookChange_unassigned hfree hunassigned] at hcharged
  exact (h.backed uid hcharged).resolve_left hunassigned

theorem tallied_deliver (h : Tallied quotaOf known w book) (hl : WellLabelled quotaOf w) (hok : Steady w .deliver)
    (hstep : step rate w .deliver = some w') : ∃ book', Tallied quotaOf known w' book' := by
  obtain ⟨uid, change, rest, cache, hpending, hcache, rfl⟩ := moved_of_step hstep
  have hold := hl.observed uid
  have hnew : ∀ v, change = some v → v.uid = uid ∧ OfQuota quotaOf v := by
    rintro v rfl
    exact hl.pending uid v (hpending ▸ List.mem_cons_self)
  have hother : ∀ uid', uid' ≠ uid → bookChange (quotaOf uid ∈ known)
      (isScheduling w.world.cache uid) (w.observed.lookup uid) change book uid' = book uid' :=
    fun uid' hne => bookChange_other (fun o ho => (hold o ho).1) (fun v hv => (hnew v hv).1) hne
  refine ⟨_, booked_handleChange h.booked hold hnew hcache, ?_, ?_⟩
  · intro uid' v hv ha hq
    dsimp only at hv
    rw [lookup_takeIn] at hv
    split at hv
    next he =>
      subst uid' change
      exact h.bookChange_self (hnew v rfl).1 ha hq (hok uid v rest hpending ha)
    next hne =>
      rw [hother uid' hne]
      exact h.agreeing uid' v hv ha hq
  · intro uid' hcharged
    rw [assigned_takeIn rfl]
    split
    next he =>
      subst uid'
      by_cases hgrant : ∃ v, change = some v ∧ isQueueUnitAssigned v = true
      · exact Or.inl hgrant
      · have hfree : ∀ v, change = some v → isQueueUnitAssigned v = false :=
          fun v hv => Bool.eq_false_iff.mpr (fun ha => hgrant ⟨v, hv, ha⟩)
        refine Or.inr ((h.backed_unassigned (fun o ho => (hold o ho).1) hfree hcharged).imp_right ?_)
        exact fun hann => (announced_of_pending hpending hann).resolve_left (fun hnow => hgrant hnow.2)
    next hne =>
      rw [hother uid' hne] at hcharged
      refine (h.backed uid' hcharged).imp_right (Or.imp_right ?_)
      exact fun hann => (announced_of_pending hpending hann).resolve_left (fun hnow => hne hnow.1)

end KoordQueue.Scheduler.Convergence
