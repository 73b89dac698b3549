import KoordQueue.Quota.Balance
import KoordQueue.Quota.Holding

namespace KoordQueue.Quota.Ledger

open Api UnitStatus UnitInfo Info Cache Chain Charge Holding Balance

def chargedVersion (info : ElasticQuotaInfo) (uid : UID) : Option QueueUnit :=
  (info.reserved.units.lookup uid).map QueueUnitInfo.unit

def chargedAt (c : CacheImpl) (uid : UID) (x : QuotaName) : Option QueueUnit :=
  (c.quotas.lookup x).bind (fun info => chargedVersion info uid)

abbrev Book := UID → Option QueueUnit

def enter (known : Bool) (v : QueueUnit) (book : Book) : Book :=
  if known = true ∧ book v.uid = none then Function.update book v.uid (some v) else book

def rebook (v : QueueUnit) (book : Book) : Book :=
  if book v.uid = none then book else Function.update book v.uid (some v)

def clear (uid : UID) (book : Book) : Book := Function.update book uid none

def OfQuota (quotaOf : UID → QuotaName) (v : QueueUnit) : Prop := getQuotaName v = quotaOf v.uid

variable {book : Book} {known : Bool} {v : QueueUnit} {uid : UID}

theorem enter_of_ne (h : uid ≠ v.uid) : enter known v book uid = book uid := by
  rw [enter]
  split
  next => exact Function.update_of_ne h _ _
  next => rfl

theorem enter_charged (h : book uid ≠ none) : enter known v book uid = book uid := by
  rw [enter]
  split
  next hc =>
    apply Function.update_of_ne
    rintro rfl
    exact h hc.2
  next => rfl

theorem enter_self (hknown : known = true) : enter known v book v.uid = some ((book v.uid).getD v) := by
  rw [enter]
  cases hb : book v.uid with
  | none => simp [hknown]
  | some b => simp [hb]

theorem rebook_of_ne (h : uid ≠ v.uid) : rebook v book uid = book uid := by
  rw [rebook]
  split
  next => rfl
  next => exact Function.update_of_ne h _ _

theorem rebook_self (h : book v.uid ≠ none) : rebook v book v.uid = some v := by
  rw [rebook, if_neg h, Function.update_self]

theorem clear_eq_self (h : book uid = none) : clear uid book = book := by
  rw [clear, ← h]
  exact Function.update_eq_self uid book

theorem clear_enter (known : Bool) (v : QueueUnit) (book : Book) : clear v.uid (enter known v book) = clear v.uid book := by
  rw [enter]
  split
  next => exact Function.update_idem _ _ _
  next => rfl

variable {quotas' : GoMap QuotaName ElasticQuotaInfo} {q : QuotaName}
  {visit : QuotaName → ElasticQuotaInfo → Option ElasticQuotaInfo}

theorem chargedAt_eq (c : CacheImpl) (uid : UID) (x : QuotaName) :
    chargedAt c uid x = (storedAt c uid x).map QueueUnitInfo.unit :=
  Option.map_bind.symm

variable [ResourceHelpers]

/-- The cache charges every unit along the whole path of its quota with the
version in the book, and nowhere else. The known quotas stay the same, and
their counters are the sums of the charges. -/
structure Booked (quotaOf : UID → QuotaName) (known : Finset QuotaName) (c : CacheImpl) (book : Book) : Prop where
  quotas : ∀ x, x ∈ c.quotas ↔ x ∈ known
  recorded : ∀ uid, c.reserved.lookup uid = (book uid).map (fun _ => quotaOf uid)
  charged : ∀ uid x, chargedAt c uid x = if x ∈ chain c (quotaOf uid) then book uid else none
  placed : ∀ uid v, book uid = some v → quotaOf uid ∈ known
  priced : ∀ uid v, book uid = some v → ∃ res, getReservedResource v = some res
  owned : ∀ uid v, book uid = some v → getQuotaName v = quotaOf uid
  balanced : ∀ x info, c.quotas.lookup x = some info → Balanced x info

variable {quotaOf : UID → QuotaName} {known : Finset QuotaName} {c c' : CacheImpl} {book : Book}

theorem Booked.mem_reserved (h : Booked quotaOf known c book) (uid : UID) : uid ∈ c.reserved ↔ book uid ≠ none := by
  rw [Finmap.mem_iff, h.recorded uid]
  cases book uid <;> simp

theorem Booked.congr (h : Booked quotaOf known c book) (hrec : c'.reserved = c.reserved) (hquotas : c'.quotas = c.quotas)
    (hparent : c'.quotaParent = c.quotaParent) : Booked quotaOf known c' book where
  quotas := fun x => by rw [hquotas, h.quotas]
  recorded := fun uid => by rw [hrec, h.recorded]
  charged := fun uid x => by
    have hchain := chain_congr hparent (fun y => by rw [hquotas]) (quotaOf uid) x
    simp only [hchain, ← h.charged, chargedAt, hquotas]
  placed := h.placed
  priced := h.priced
  owned := h.owned
  balanced := fun x info hinfo => h.balanced x info (hquotas ▸ hinfo)

theorem Booked.walk {uid : UID} (h : Booked quotaOf known c book) (change : Option QueueUnit → Option QueueUnit)
    (hframe : Frame c c' (quotaOf uid)) (hq : quotaOf uid ∈ c.quotas) (hpriced : ∀ v, change (book uid) = some v →
      getQuotaName v = quotaOf uid ∧ ∃ res, getReservedResource v = some res)
    (hbalanced : ∀ x info, c'.quotas.lookup x = some info → Balanced x info) (hrec : ∀ uid', c'.reserved.lookup uid' =
      if uid' = uid then (change (book uid)).map (fun _ => quotaOf uid) else c.reserved.lookup uid')
    (hcharged : ∀ uid' x, chargedAt c' uid' x =
      if uid' = uid ∧ x ∈ chain c (quotaOf uid) then change (chargedAt c uid' x) else chargedAt c uid' x) :
    Booked quotaOf known c' (Function.update book uid (change (book uid))) where
  quotas := fun x => (hframe.mem x).trans (h.quotas x)
  recorded := by
    intro uid'
    rw [hrec, h.recorded, Function.update_apply]
    split
    next he => rw [he]
    next => rfl
  charged := by
    intro uid' x
    rw [hcharged, Function.update_apply]
    simp only [hframe.chain, h.charged]
    by_cases he : uid' = uid
    · subst uid'
      by_cases hx : x ∈ chain c (quotaOf uid) <;> simp [hx]
    · simp [he]
  placed := by
    intro uid' v hv
    rw [Function.update_apply] at hv
    split at hv
    next he => exact he ▸ (h.quotas _).mp hq
    next => exact h.placed uid' v hv
  priced := by
    intro uid' v hv
    rw [Function.update_apply] at hv
    split at hv
    next => exact (hpriced v hv).2
    next => exact h.priced uid' v hv
  owned := by
    intro uid' v hv
    rw [Function.update_apply] at hv
    split at hv
    next he => exact he ▸ (hpriced v hv).1
    next => exact h.owned uid' v hv
  balanced := hbalanced

theorem Booked.balanced_visitFrom (h : Booked quotaOf known c book)
    (hq : q ∈ c.quotas) (hv : visitFrom visit c q = some quotas') (hc' : c'.quotas = quotas')
    (hvisit : ∀ x info info', c.quotas.lookup x = some info → Balanced x info → visit x info = some info' →
      Balanced x info') (x : QuotaName) (info' : ElasticQuotaInfo) (hinfo' : c'.quotas.lookup x = some info') :
    Balanced x info' := by
  rw [hc'] at hinfo'
  obtain ⟨info, hinfo, hcase⟩ := visitFrom_lookup_some hq hv hinfo'
  have hb := h.balanced x info hinfo
  split at hcase
  next => exact hvisit x info info' hinfo hb hcase
  next => exact hcase ▸ hb

section Calls

variable {u : QueueUnitInfo} {err : Option String}

variable {quotas : GoMap QuotaName ElasticQuotaInfo} {q : QuotaName}

theorem priced_of_add (hq : q ∈ c.quotas)
    (hfree : chargedAt c u.unit.uid q = none) (hv : visitFrom (fun q => addQueueUnit q u) c q = some quotas) :
    ∃ res, getReservedResource u.unit = some res := by
  obtain ⟨info, hinfo⟩ := Finmap.mem_iff.mp hq
  obtain ⟨info', _, hvisit⟩ := visitFrom_some_of_lookup hq hv hinfo
  rw [if_pos (self_mem_chain hq)] at hvisit
  rw [chargedAt_eq, storedAt_of_lookup hinfo, Option.map_eq_none_iff, Finmap.lookup_eq_none] at hfree
  obtain ⟨res, hres, _⟩ := addQueueUnit_new hfree hvisit
  exact ⟨res, hres⟩

theorem priced_of_resize {v : QueueUnit} (hq : q ∈ c.quotas) (hheld : chargedAt c u.unit.uid q = some v)
    (hv : visitFrom (fun q => resizeQueueUnit q u) c q = some quotas) :
    ∃ res, getReservedResource u.unit = some res := by
  obtain ⟨info, hinfo⟩ := Finmap.mem_iff.mp hq
  obtain ⟨info', _, hvisit⟩ := visitFrom_some_of_lookup hq hv hinfo
  rw [if_pos (self_mem_chain hq)] at hvisit
  rw [chargedAt_eq, storedAt_of_lookup hinfo] at hheld
  obtain ⟨old, hold, _⟩ := Option.map_eq_some_iff.mp hheld
  simp only [resizeQueueUnit, hold] at hvisit
  obtain ⟨_, _, hvisit⟩ := Option.bind_eq_some_iff.mp hvisit
  obtain ⟨res, hres, _⟩ := Option.bind_eq_some_iff.mp hvisit
  exact ⟨res, hres⟩

theorem booked_reserve (h : Booked quotaOf known c book) (hown : OfQuota quotaOf u.unit)
    (hr : reserve c (quotaOf u.unit.uid) u = some (c', err)) :
    Booked quotaOf known c' (enter (quotaOf u.unit.uid ∈ known) u.unit book) := by
  rcases reserve_cases hr with ⟨rfl, hcase⟩ | ⟨hu, hq, _, quotas, hv, hc'⟩
  · rw [enter, if_neg]
    · exact h
    · rintro ⟨hq, hnone⟩
      rcases hcase with hmem | hnot
      · exact (h.mem_reserved u.unit.uid).mp hmem hnone
      · exact hnot ((h.quotas _).mpr (of_decide_eq_true hq))
  · have hnone : book u.unit.uid = none := not_not.mp (fun hne => hu ((h.mem_reserved _).mpr hne))
    have hfree : chargedAt c u.unit.uid (quotaOf u.unit.uid) = none := by simp [h.charged, hnone]
    have hwalk := h.walk (fun old => old.or (some u.unit)) (frame_reserve hr) hq
      (fun v hchange => by
        rw [hnone, Option.none_or, Option.some.injEq] at hchange
        rw [← hchange]
        exact ⟨hown, priced_of_add hq hfree hv⟩)
      (h.balanced_visitFrom hq hv (congrArg CacheImpl.quotas hc') (fun _ _ _ _ => balanced_addQueueUnit))
      (fun uid => by
        rw [hc']
        simp [GoMap.lookup_insert_eq, hnone])
      (fun uid x => by
        rw [chargedAt_eq, chargedAt_eq, storedAt_reserve hq hv (congrArg CacheImpl.quotas hc')]
        split <;> simp)
    rw [enter, if_pos ⟨decide_eq_true ((h.quotas _).mp hq), hnone⟩]
    simpa only [hnone, Option.none_or] using hwalk

theorem none_of_reserve_refused (h : Booked quotaOf known c book) {text : String}
    (hr : reserve c (quotaOf u.unit.uid) u = some (c', some text)) : book u.unit.uid = none := by
  by_contra hne
  obtain ⟨v, hv⟩ := Option.ne_none_iff_exists'.mp hne
  rw [reserve, h.recorded, hv] at hr
  simp at hr

theorem booked_unreserve (h : Booked quotaOf known c book) (hr : unreserve c (quotaOf u.unit.uid) u = some (c', err)) :
    Booked quotaOf known c' (clear u.unit.uid book) := by
  rcases unreserve_cases hr with ⟨rfl, hu, _⟩ | ⟨_, hu, hq, _⟩ | ⟨hu, hq, _, quotas, hv, hc'⟩
  · rw [clear_eq_self]
    · exact h
    · exact not_not.mp (fun hne => hu ((h.mem_reserved _).mpr hne))
  · obtain ⟨v, hbook⟩ := Option.ne_none_iff_exists'.mp ((h.mem_reserved _).mp hu)
    exact absurd ((h.quotas _).mpr (h.placed _ v hbook)) hq
  · exact h.walk (fun _ => none) (frame_unreserve hr) hq
      (fun _ hchange => absurd hchange (by simp))
      (h.balanced_visitFrom hq hv (congrArg CacheImpl.quotas hc') (fun _ _ _ _ => balanced_deleteQueueUnit))
      (fun uid => by
        rw [hc']
        simp [GoMap.lookup_erase_eq])
      (fun uid x => by
        rw [chargedAt_eq, chargedAt_eq, storedAt_unreserve hq hv (congrArg CacheImpl.quotas hc')]
        split <;> rfl)

theorem booked_resizeInPlace (h : Booked quotaOf known c book) (hown : OfQuota quotaOf u.unit)
    (hr : resizeInPlace c (quotaOf u.unit.uid) u = some (c', err)) : Booked quotaOf known c' (rebook u.unit book) := by
  by_cases hnone : book u.unit.uid = none
  · have hu : u.unit.uid ∉ c.reserved := fun hmem => (h.mem_reserved _).mp hmem hnone
    rw [resizeInPlace, if_neg hu] at hr
    cases hr
    rw [rebook, if_pos hnone]
    exact h
  · obtain ⟨v, hbook⟩ := Option.ne_none_iff_exists'.mp hnone
    have hq := (h.quotas _).mpr (h.placed _ v hbook)
    rw [resizeInPlace, if_pos ((h.mem_reserved _).mpr hnone), if_pos hq] at hr
    obtain ⟨quotas, hv, hr⟩ := Option.bind_eq_some_iff.mp hr
    cases hr
    have hquotas : ({ c with quotas } : CacheImpl).quotas = quotas := rfl
    have hframe : Frame c { c with quotas } (quotaOf u.unit.uid) := .of_visitFrom hq rfl hv
    have hheld : chargedAt c u.unit.uid (quotaOf u.unit.uid) = some v := by
      rw [h.charged, if_pos (self_mem_chain hq), hbook]
    have hlabel : ∀ x info, c.quotas.lookup x = some info → ∀ old, info.reserved.units.lookup u.unit.uid = some old →
        getQuotaName old.unit = getQuotaName u.unit := by
      intro x info hinfo old hold
      have hat : chargedAt c u.unit.uid x = some old.unit := by
        rw [chargedAt_eq, storedAt_of_lookup hinfo, hold, Option.map_some]
      rw [h.charged] at hat
      split at hat
      next => rw [h.owned _ _ hat, hown]
      next => cases hat
    have hwalk := h.walk (fun old => old.map (fun _ => u.unit)) hframe hq
      (fun w hchange => by
        rw [hbook, Option.map_some, Option.some.injEq] at hchange
        rw [← hchange]
        exact ⟨hown, priced_of_resize hq hheld hv⟩)
      (h.balanced_visitFrom hq hv hquotas (fun x info _ hinfo hb => balanced_resizeQueueUnit hb (hlabel x info hinfo)))
      (fun uid => by
        rw [h.recorded]
        split
        next he => simp [he, hbook]
        next => rfl)
      (fun uid x => by
        rw [chargedAt_eq, chargedAt_eq, storedAt_resizeInPlace hq hv hquotas]
        split <;> simp [Function.comp_def])
    rw [rebook, if_neg hnone]
    simpa only [hbook, Option.map_some] using hwalk

end Calls

end KoordQueue.Quota.Ledger
