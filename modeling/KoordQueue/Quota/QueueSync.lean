import KoordQueue.Quota.Info

namespace KoordQueue.Quota.QueueSync

open Info

abbrev Attributes := Option (GoMap String String)

def Attributes.value (attributes : Attributes) (key : String) : String :=
  ((attributes.bind (fun m => m.lookup key))).getD ""

/-- What the handler reads of an `ElasticQuota`. -/
structure QuotaObject where
  name : String := ""
  labels : Attributes := none
  annotations : Attributes := none

/-- A `Queue`. The copy of an existing one keeps `rest`, which stands for the fields that the
handler does not name. -/
structure QueueObject where
  ns : String := ""
  name : String := ""
  labels : Attributes := none
  annotations : Attributes := none
  priority : Option Int32 := none
  queuePolicy : String := ""
  rest : String := ""

def koordQueueNamespace : String := "koord-queue"
def quotaKoordQueueEnable : String := "quota-koord-queue-enable"
def queuePolicyLabelKey : String := "koord-queue/queue-policy"
def queuePolicyLabelKeyKubeQueue : String := "kube-queue/queue-policy"

def shouldSyncAnnotation (key : String) : Bool :=
  "koord-queue/".toList.isPrefixOf key.toList && decide (key ≠ queuePolicyLabelKey)

def getQueuePolicyFromLabels (labels : Attributes) : String :=
  if labels.value queuePolicyLabelKey ≠ "" then labels.value queuePolicyLabelKey
  else labels.value queuePolicyLabelKeyKubeQueue

def allSupportedPolicies : List String := ["Priority", "Block", "Round", "Intelligent"]

def findMatchedSupportPolicy (quota : QuotaObject) : String :=
  let requestedPolicy := getQueuePolicyFromLabels quota.labels
  if requestedPolicy ≠ "" then
    (allSupportedPolicies.find? (fun supportPolicy => decide (supportPolicy = requestedPolicy))).getD ""
  else ""

def desiredPolicy (quota : QuotaObject) : String :=
  if findMatchedSupportPolicy quota = "" then "Priority" else findMatchedSupportPolicy quota

def syncAnnotations (quota : QuotaObject) (annotations : GoMap String String) : GoMap String String :=
  match quota.annotations with
  | none => annotations
  | some source =>
    GoMap.range (fun key old v => if shouldSyncAnnotation key then some v else old) annotations source

def syncParent (quota : QuotaObject) (labels : GoMap String String) : GoMap String String :=
  if quota.labels.isSome then
    labels.insert parentQuotaNameLabelKey (quota.labels.value parentQuotaNameLabelKey)
  else labels

def syncEnable (quota : QuotaObject) (annotations : GoMap String String) : GoMap String String :=
  annotations.insert quotaKoordQueueEnable (quota.annotations.value quotaKoordQueueEnable)

def newQueue (quota : QuotaObject) : QueueObject where
  ns := koordQueueNamespace
  name := quota.name
  annotations := some (if quota.annotations.isSome then syncAnnotations quota (syncEnable quota ∅) else ∅)
  labels := some (syncParent quota ∅)
  priority := some 1000
  queuePolicy := desiredPolicy quota

def needUpdate (existQueue : QueueObject) (quota : QuotaObject) : Bool :=
  decide (existQueue.queuePolicy ≠ desiredPolicy quota) ||
    decide (existQueue.annotations.value quotaKoordQueueEnable ≠ quota.annotations.value quotaKoordQueueEnable) ||
    decide (existQueue.labels.value parentQuotaNameLabelKey ≠ quota.labels.value parentQuotaNameLabelKey) ||
    (quota.annotations.getD ∅).any (fun key v =>
      shouldSyncAnnotation key && decide (existQueue.annotations.value key ≠ v))

def updated (existQueue : QueueObject) (quota : QuotaObject) : QueueObject :=
  { existQueue with
    queuePolicy := desiredPolicy quota
    annotations := some (syncAnnotations quota (syncEnable quota (existQueue.annotations.getD ∅)))
    labels := some (syncParent quota (existQueue.labels.getD ∅)) }

def makeNewestQueueCr (existQueue : Option QueueObject) (quota : QuotaObject) : QueueObject × Bool :=
  match existQueue with
  | none => (newQueue quota, true)
  | some existQueue =>
    if needUpdate existQueue quota then (updated existQueue quota, true) else (existQueue, false)

/-- The queue is as the quota asks: policy, enable flag, parent label, and every annotation of the
quota that is synced. -/
structure Agrees (quota : QuotaObject) (queue : QueueObject) : Prop where
  policy : queue.queuePolicy = desiredPolicy quota
  enable : queue.annotations.value quotaKoordQueueEnable = quota.annotations.value quotaKoordQueueEnable
  parent : queue.labels.value parentQuotaNameLabelKey = quota.labels.value parentQuotaNameLabelKey
  synced : ∀ key v, (quota.annotations.getD ∅).lookup key = some v → shouldSyncAnnotation key = true →
    queue.annotations.value key = v

theorem needUpdate_eq_false_iff (existQueue : QueueObject) (quota : QuotaObject) :
    needUpdate existQueue quota = false ↔ Agrees quota existQueue := by
  rw [needUpdate, ← Bool.not_eq_true]
  simp only [Bool.or_eq_true, decide_eq_true_eq, GoMap.any_iff, Bool.and_eq_true, not_or, not_not, not_exists,
    not_and, ne_eq]
  constructor
  · rintro ⟨⟨⟨hp, he⟩, hl⟩, hs⟩
    exact ⟨hp, he, hl, hs⟩
  · rintro ⟨hp, he, hl, hs⟩
    exact ⟨⟨⟨hp, he⟩, hl⟩, hs⟩

section Sync

variable {quota : QuotaObject} {key : String}

theorem shouldSync_enable : shouldSyncAnnotation quotaKoordQueueEnable = false := by decide +kernel

theorem value_syncAnnotations (quota : QuotaObject) (annotations : GoMap String String) (key : String) :
    Attributes.value (some (syncAnnotations quota annotations)) key =
      if shouldSyncAnnotation key = true then
        ((quota.annotations.getD ∅).lookup key).getD (Attributes.value (some annotations) key)
      else Attributes.value (some annotations) key := by
  rw [syncAnnotations]
  cases quota.annotations with
  | none => simp
  | some source =>
    simp only [Attributes.value, Option.bind_some, GoMap.lookup_range, Option.getD_some]
    cases source.lookup key with
    | none => simp
    | some v =>
      dsimp only
      split <;> rfl

theorem value_syncEnable (quota : QuotaObject) (annotations : GoMap String String) (key : String) :
    Attributes.value (some (syncEnable quota annotations)) key =
      if key = quotaKoordQueueEnable then quota.annotations.value quotaKoordQueueEnable
      else Attributes.value (some annotations) key := by
  rw [syncEnable, Attributes.value, Option.bind_some, GoMap.lookup_insert_eq]
  split <;> rfl

theorem value_syncParent (quota : QuotaObject) (labels : GoMap String String) :
    Attributes.value (some (syncParent quota labels)) parentQuotaNameLabelKey =
      if quota.labels.isSome = true then quota.labels.value parentQuotaNameLabelKey
      else Attributes.value (some labels) parentQuotaNameLabelKey := by
  rw [syncParent]
  split
  next => rw [Attributes.value, Option.bind_some, GoMap.lookup_insert_eq, if_pos rfl, Option.getD_some]
  next => rfl

theorem value_getD (attributes : Attributes) (key : String) :
    Attributes.value (some (attributes.getD ∅)) key = attributes.value key := by
  cases attributes <;> rfl

/-- The annotations after both copies: the enable flag is the quota's, and an annotation that is
synced is the quota's if the quota has it. -/
theorem value_synced (quota : QuotaObject) (annotations : GoMap String String) (key : String) :
    Attributes.value (some (syncAnnotations quota (syncEnable quota annotations))) key =
      if key = quotaKoordQueueEnable then quota.annotations.value quotaKoordQueueEnable
      else if shouldSyncAnnotation key = true then
        ((quota.annotations.getD ∅).lookup key).getD (Attributes.value (some annotations) key)
      else Attributes.value (some annotations) key := by
  rw [value_syncAnnotations, value_syncEnable]
  by_cases he : key = quotaKoordQueueEnable
  · rw [if_pos he, if_pos he, he, shouldSync_enable, if_neg Bool.false_ne_true]
  · rw [if_neg he, if_neg he]

theorem value_synced_of_sync (annotations : GoMap String String) (hkey : shouldSyncAnnotation key = true) :
    Attributes.value (some (syncAnnotations quota (syncEnable quota annotations))) key =
      ((quota.annotations.getD ∅).lookup key).getD (Attributes.value (some annotations) key) := by
  have hne : key ≠ quotaKoordQueueEnable := by
    rintro rfl
    exact Bool.false_ne_true (shouldSync_enable.symm.trans hkey)
  rw [value_synced, if_neg hne, if_pos hkey]

theorem value_new (quota : QuotaObject) (key : String) :
    (newQueue quota).annotations.value key =
      Attributes.value (some (syncAnnotations quota (syncEnable quota ∅))) key := by
  rw [newQueue]
  dsimp only
  cases h : quota.annotations with
  | none =>
    rw [value_synced, h]
    simp [Attributes.value]
  | some source => rfl

theorem agrees_new (quota : QuotaObject) : Agrees quota (newQueue quota) where
  policy := rfl
  enable := by rw [value_new, value_synced, if_pos rfl]
  parent := by
    rw [newQueue]
    dsimp only
    rw [value_syncParent]
    split
    next => rfl
    next h =>
      rw [Option.not_isSome_iff_eq_none.mp h]
      rfl
  synced := by
    intro key v hv hkey
    rw [value_new, value_synced_of_sync _ hkey, hv, Option.getD_some]

theorem agrees_updated_iff (existQueue : QueueObject) (quota : QuotaObject) :
    Agrees quota (updated existQueue quota) ↔
      quota.labels ≠ none ∨ existQueue.labels.value parentQuotaNameLabelKey = "" := by
  have hparent : (updated existQueue quota).labels.value parentQuotaNameLabelKey =
      if quota.labels.isSome = true then quota.labels.value parentQuotaNameLabelKey
      else existQueue.labels.value parentQuotaNameLabelKey := by
    rw [updated]
    dsimp only
    rw [value_syncParent, value_getD]
  have hagrees : Agrees quota (updated existQueue quota) ↔
      (updated existQueue quota).labels.value parentQuotaNameLabelKey = quota.labels.value parentQuotaNameLabelKey := by
    refine ⟨fun h => h.parent, fun h => ⟨rfl, ?_, h, ?_⟩⟩
    · exact (value_synced quota _ _).trans (if_pos rfl)
    · intro key v hv hkey
      exact (value_synced_of_sync _ hkey).trans (by rw [hv, Option.getD_some])
  rw [hagrees, hparent]
  cases quota.labels with
  | none => simp [Attributes.value]
  | some labels => simp

theorem value_newest (existQueue : Option QueueObject) (hkey : shouldSyncAnnotation key = true) :
    (makeNewestQueueCr existQueue quota).1.annotations.value key =
      ((quota.annotations.getD ∅).lookup key).getD
        (Attributes.value (existQueue.bind QueueObject.annotations) key) := by
  cases existQueue with
  | none =>
    rw [makeNewestQueueCr, value_new, value_synced_of_sync _ hkey]
    rfl
  | some existQueue =>
    rw [makeNewestQueueCr]
    split
    next => exact (value_synced_of_sync _ hkey).trans (by rw [value_getD]; rfl)
    next h =>
      have hagrees := (needUpdate_eq_false_iff existQueue quota).mp (Bool.not_eq_true _ ▸ h)
      cases hv : (quota.annotations.getD ∅).lookup key with
      | none => rfl
      | some v => exact hagrees.synced key v hv hkey

theorem agrees_newest_iff (existQueue : Option QueueObject) (quota : QuotaObject) :
    Agrees quota (makeNewestQueueCr existQueue quota).1 ↔
      quota.labels ≠ none ∨ Attributes.value (existQueue.bind QueueObject.labels) parentQuotaNameLabelKey = "" := by
  cases existQueue with
  | none => exact iff_of_true (agrees_new quota) (Or.inr rfl)
  | some existQueue =>
    rw [makeNewestQueueCr]
    split
    next => exact agrees_updated_iff existQueue quota
    next h =>
      have hagrees := (needUpdate_eq_false_iff existQueue quota).mp (Bool.not_eq_true _ ▸ h)
      refine iff_of_true hagrees ?_
      cases hl : quota.labels with
      | none =>
        right
        have hparent := hagrees.parent
        rwa [hl] at hparent
      | some labels => exact Or.inl (Option.some_ne_none labels)

theorem newest_settled_iff (queue : QueueObject) (quota : QuotaObject) :
    makeNewestQueueCr (some queue) quota = (queue, false) ↔ Agrees quota queue := by
  rw [← needUpdate_eq_false_iff, makeNewestQueueCr]
  split
  next h => simp [h]
  next h => simp [h]

/-- The second application finds nothing to do and the queue is as the quota
asks, exactly when the quota has labels or no parent was recorded before. What
is recorded under a key that is synced and that the quota does not have stays. -/
theorem queue_converges_iff (existQueue : Option QueueObject) (quota : QuotaObject) :
    let queue := (makeNewestQueueCr existQueue quota).1
    (makeNewestQueueCr (some queue) quota = (queue, false) ∧ Agrees quota queue ↔
      quota.labels ≠ none ∨ Attributes.value (existQueue.bind QueueObject.labels) parentQuotaNameLabelKey = "") ∧
    ((∀ key, shouldSyncAnnotation key = true → queue.annotations.value key = quota.annotations.value key) ↔
      ∀ key, shouldSyncAnnotation key = true → (quota.annotations.getD ∅).lookup key = none →
        Attributes.value (existQueue.bind QueueObject.annotations) key = "") := by
  intro queue
  have hvalue : ∀ key, quota.annotations.value key = ((quota.annotations.getD ∅).lookup key).getD "" := by
    intro key
    cases quota.annotations <;> rfl
  refine ⟨by rw [newest_settled_iff, and_self, agrees_newest_iff], forall₂_congr fun key hkey => ?_⟩
  rw [value_newest existQueue hkey, hvalue]
  cases (quota.annotations.getD ∅).lookup key <;> simp

def orphan : QuotaObject := { name := "q" }

def formerChild : QueueObject :=
  { newQueue orphan with labels := some (Finmap.singleton parentQuotaNameLabelKey "root") }

theorem formerChild_never_settles :
    (makeNewestQueueCr (some formerChild) orphan).2 = true ∧
      (makeNewestQueueCr (some (makeNewestQueueCr (some formerChild) orphan).1) orphan).2 = true ∧
      (makeNewestQueueCr (some formerChild) orphan).1.labels.value parentQuotaNameLabelKey = "root" := by
  decide +kernel

end Sync

end KoordQueue.Quota.QueueSync
