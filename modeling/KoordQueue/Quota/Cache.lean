import KoordQueue.Quota.Info

namespace KoordQueue.Quota.Cache

open Api Resources UnitInfo Info

/-- The quota cache. Its scheduling map only ever holds `true`. -/
structure CacheImpl where
  reserved : GoMap UID QuotaName
  scheduling : Finset UID
  quotas : GoMap QuotaName ElasticQuotaInfo
  quotaParent : GoMap QuotaName QuotaName
deriving DecidableEq

def buildCache : CacheImpl := ⟨∅, ∅, ∅, ∅⟩

/-- The loop of `checkUsage`. Each round adds a quota to the path, so a round
for every quota and one more are enough. -/
def checkUsagePath (c : CacheImpl) (queueUnit : QueueUnitInfo) (oversellRate : ℚ) :
    Nat → List QuotaName → QuotaName → Except CheckError Unit
  | 0, visited, currentQuota => .error (.cycleReference queueUnit.name currentQuota visited)
  | n + 1, visited, currentQuota =>
    if currentQuota = koordRootQuota then .ok ()
    else if currentQuota ∈ visited then
      .error (.cycleReference queueUnit.name currentQuota visited)
    else match c.quotas.lookup currentQuota with
      | none => .error (.quotaNotExist queueUnit.name currentQuota (visited ++ [currentQuota]))
      | some info => do
          Info.checkUsage currentQuota queueUnit oversellRate info
          match c.quotaParent.lookup currentQuota with
          | some parent => checkUsagePath c queueUnit oversellRate n (visited ++ [currentQuota]) parent
          | none => .ok ()

def checkUsage (c : CacheImpl) (queueUnitQuota : QuotaName) (queueUnit : QueueUnitInfo) (oversellRate : ℚ) :
    Except CheckError Unit :=
  checkUsagePath c queueUnit oversellRate (c.quotas.keys.card + 1) [] queueUnitQuota

/-- The loop that `reserve`, `unreserve` and `resizeInPlace` share: visit the
quotas from `currentQuota` up, until there is no parent or one comes again. -/
def visitQuotas (visit : QuotaName → ElasticQuotaInfo → Option ElasticQuotaInfo)
    (quotaParent : GoMap QuotaName QuotaName) :
    Nat → List QuotaName → QuotaName → GoMap QuotaName ElasticQuotaInfo →
      Option (GoMap QuotaName ElasticQuotaInfo)
  | 0, _, _, quotas => some quotas
  | n + 1, visited, currentQuota, quotas =>
    match quotas.lookup currentQuota with
    | none => some quotas
    | some info =>
      if currentQuota ∈ visited then some quotas
      else do
        let info ← visit currentQuota info
        match quotaParent.lookup currentQuota with
        | some parent =>
          visitQuotas visit quotaParent n (currentQuota :: visited) parent
            (quotas.insert currentQuota info)
        | none => some (quotas.insert currentQuota info)

def visitFrom (visit : QuotaName → ElasticQuotaInfo → Option ElasticQuotaInfo) (c : CacheImpl)
    (queueUnitQuota : QuotaName) : Option (GoMap QuotaName ElasticQuotaInfo) :=
  visitQuotas visit c.quotaParent (c.quotas.keys.card + 1) [] queueUnitQuota c.quotas

/-- What a call leaves: the cache and the error it returned, if any. A call
that crashes leaves nothing. -/
abbrev Outcome := Option (CacheImpl × Option String)

variable [ResourceHelpers]

def reserve (c : CacheImpl) (queueUnitQuota : QuotaName) (queueUnit : QueueUnitInfo) : Outcome :=
  match c.reserved.lookup queueUnit.unit.uid with
  | some quota =>
    if quota = queueUnitQuota then some (c, none)
    else some (c, some ("reserve item failed, itemName:" ++ queueUnit.name ++ ", quotaName:" ++
      queueUnitQuota ++ ", already reserved in another quota " ++ quota))
  | none =>
    if queueUnitQuota ∈ c.quotas then do
      let quotas ← visitFrom (fun q => addQueueUnit q queueUnit) c queueUnitQuota
      some ({ c with reserved := c.reserved.insert queueUnit.unit.uid queueUnitQuota, quotas }, none)
    else some (c, some ("reserve item failed, quota not found, itemName:" ++ queueUnit.name ++
      ", quotaName:" ++ queueUnitQuota))

def unreserve (c : CacheImpl) (queueUnitQuota : QuotaName) (queueUnit : QueueUnitInfo) : Outcome :=
  if queueUnit.unit.uid ∈ c.reserved then
    if queueUnitQuota ∈ c.quotas then do
      let quotas ← visitFrom (fun q => deleteQueueUnit q queueUnit) c queueUnitQuota
      some ({ c with reserved := c.reserved.erase queueUnit.unit.uid, quotas }, none)
    else some (c, some ("unreserve item failed, quota not found, itemName:" ++ queueUnit.name ++
      ", quotaName:" ++ queueUnitQuota))
  else some (c, none)

def resizeInPlace (c : CacheImpl) (queueUnitQuota : QuotaName) (queueUnit : QueueUnitInfo) : Outcome :=
  if queueUnit.unit.uid ∈ c.reserved then
    if queueUnitQuota ∈ c.quotas then do
      let quotas ← visitFrom (fun q => resizeQueueUnit q queueUnit) c queueUnitQuota
      some ({ c with quotas }, none)
    else some (c, some ("resize item failed, quota not found, itemName:" ++ queueUnit.name ++
      ", quotaName:" ++ queueUnitQuota))
  else some (c, none)

def resize (c : CacheImpl) (old new : QueueUnitInfo) : Outcome :=
  if getQuotaName old.unit ≠ getQuotaName new.unit then
    match unreserve c (getQuotaName old.unit) old with
    | none => none
    | some (c, some err) => some (c, some err)
    | some (c, none) => reserve c (getQuotaName new.unit) new
  else resizeInPlace c (getQuotaName new.unit) new

section Outcomes

variable {c c' : CacheImpl} {q : QuotaName} {u : QueueUnitInfo} {err : Option String}

theorem reserve_cases (h : reserve c q u = some (c', err)) :
    (c' = c ∧ (u.unit.uid ∈ c.reserved ∨ q ∉ c.quotas)) ∨
    (u.unit.uid ∉ c.reserved ∧ q ∈ c.quotas ∧ err = none ∧
      ∃ quotas, visitFrom (fun q => addQueueUnit q u) c q = some quotas ∧
        c' = { c with reserved := c.reserved.insert u.unit.uid q, quotas }) := by
  rw [reserve] at h
  split at h
  next quota hquota =>
    have hmem : u.unit.uid ∈ c.reserved := Finmap.mem_iff.mpr ⟨quota, hquota⟩
    split at h
    all_goals
      cases h
      exact Or.inl ⟨rfl, Or.inl hmem⟩
  next hnone =>
    split at h
    next hq =>
      obtain ⟨quotas, hquotas, h⟩ := Option.bind_eq_some_iff.mp h
      cases h
      exact Or.inr ⟨Finmap.lookup_eq_none.mp hnone, hq, rfl, quotas, hquotas, rfl⟩
    next hq =>
      cases h
      exact Or.inl ⟨rfl, Or.inr hq⟩

theorem unreserve_cases (h : unreserve c q u = some (c', err)) :
    (c' = c ∧ u.unit.uid ∉ c.reserved ∧ err = none) ∨
    (c' = c ∧ u.unit.uid ∈ c.reserved ∧ q ∉ c.quotas ∧ err ≠ none) ∨
    (u.unit.uid ∈ c.reserved ∧ q ∈ c.quotas ∧ err = none ∧
      ∃ quotas, visitFrom (fun q => deleteQueueUnit q u) c q = some quotas ∧
        c' = { c with reserved := c.reserved.erase u.unit.uid, quotas }) := by
  rw [unreserve] at h
  split at h
  next hmem =>
    split at h
    next hq =>
      obtain ⟨quotas, hquotas, h⟩ := Option.bind_eq_some_iff.mp h
      cases h
      exact Or.inr (Or.inr ⟨hmem, hq, rfl, quotas, hquotas, rfl⟩)
    next hq =>
      cases h
      exact Or.inr (Or.inl ⟨rfl, hmem, hq, by simp⟩)
  next hmem =>
    cases h
    exact Or.inl ⟨rfl, hmem, rfl⟩

theorem resizeInPlace_cases (h : resizeInPlace c q u = some (c', err)) :
    c' = c ∨ q ∈ c.quotas ∧
      ∃ quotas, visitFrom (fun q => resizeQueueUnit q u) c q = some quotas ∧ c' = { c with quotas } := by
  rw [resizeInPlace] at h
  split at h
  next =>
    split at h
    next hq =>
      obtain ⟨quotas, hquotas, h⟩ := Option.bind_eq_some_iff.mp h
      cases h
      exact Or.inr ⟨hq, quotas, hquotas, rfl⟩
    next =>
      cases h
      exact Or.inl rfl
  next =>
    cases h
    exact Or.inl rfl

theorem resize_cases {old new : QueueUnitInfo} (h : resize c old new = some (c', err)) :
    (getQuotaName old.unit = getQuotaName new.unit ∧
      resizeInPlace c (getQuotaName new.unit) new = some (c', err)) ∨
    (getQuotaName old.unit ≠ getQuotaName new.unit ∧ err ≠ none ∧
      unreserve c (getQuotaName old.unit) old = some (c', err)) ∨
    (getQuotaName old.unit ≠ getQuotaName new.unit ∧
      ∃ mid, unreserve c (getQuotaName old.unit) old = some (mid, none) ∧
        reserve mid (getQuotaName new.unit) new = some (c', err)) := by
  rw [resize] at h
  split at h
  next hne =>
    split at h
    next => cases h
    next mid err' hu =>
      cases h
      exact Or.inr (Or.inl ⟨hne, by simp, hu⟩)
    next mid hu => exact Or.inr (Or.inr ⟨hne, mid, hu, h⟩)
  next he => exact Or.inl ⟨not_not.mp he, h⟩

end Outcomes

omit [ResourceHelpers]

def addOrUpdateQuota (c : CacheImpl) (q : ElasticQuota) : CacheImpl :=
  let info := match c.quotas.lookup q.name with
    | none => newElasticQuotaInfo q
    | some info => { info with max := transResourceList q.spec.max, min := transResourceList q.spec.min }
  { c with
    quotas := c.quotas.insert q.name info
    quotaParent := c.quotaParent.insert q.name (getParentQuotaName q) }

def deleteQuota (c : CacheImpl) (q : ElasticQuota) : CacheImpl :=
  { c with quotas := c.quotas.erase q.name, quotaParent := c.quotaParent.erase q.name }

def markScheduling (c : CacheImpl) (uid : UID) : CacheImpl := { c with scheduling := insert uid c.scheduling }

def clearScheduling (c : CacheImpl) (uid : UID) : CacheImpl := { c with scheduling := c.scheduling.erase uid }

def isScheduling (c : CacheImpl) (uid : UID) : Bool := uid ∈ c.scheduling

end KoordQueue.Quota.Cache
