import KoordQueue.Lib.Run
import KoordQueue.Queue.Steps

namespace KoordQueue.Queue.UnsetPriority

open Api UnitStatus UnitInfo BinarySearch Memory Less Policy Update Steps

def setPriority (p : Option (Ptr Int32)) (qu : QueueUnit) : QueueUnit := { qu with spec := { qu.spec with priority := p } }

def Alike (a b : QueueUnit) : Prop := priorityOf b = priorityOf a ∧ ∃ p, b = setPriority p a

structure AlikeInfo (a b : QueueUnitInfo) : Prop where
  unit : Alike a.unit b.unit
  rest : b = { a with unit := b.unit }

structure AlikeInfos (m m' : Infos) : Prop where
  length : m'.heap.cells.length = m.heap.cells.length
  info : ∀ r, AlikeInfo (m.get r) (m'.get r)
  cache : m'.cache = m.cache

structure AlikeStates (s s' : State) : Prop where
  infos : AlikeInfos s.infos s'.infos
  pq : s'.pq = s.pq

/-- The same quotas are named, whichever way the priority is given. -/
structure AlikeHandles (fw fw' : Handle) : Prop where
  quota : ∀ {a b}, Alike a b → fw'.getQueueUnitQuotaName b = fw.getQueueUnitQuotaName a
  active : fw'.queueUnitActive = fw.queueUnitActive

inductive AlikeAnswer : Answer → Answer → Prop
  | same (answer : Answer) : AlikeAnswer answer answer
  | got {qu qu' : QueueUnit} (h : Alike qu qu') : AlikeAnswer (.got qu) (.got qu')

inductive AlikeAction : Action → Action → Prop
  | newInfo (now : Time) {qu qu' : QueueUnit} (h : Alike qu qu') : AlikeAction (.newInfo now qu) (.newInfo now qu')
  | forgetInfos (present : UID → Bool) : AlikeAction (.forgetInfos present) (.forgetInfos present)
  | add (r : Ref) : AlikeAction (.add r) (.add r)
  | delete (now : Time) {qu qu' : QueueUnit} (h : Alike qu qu') : AlikeAction (.delete now qu) (.delete now qu')
  | update (now : Time) {old old' new new' : QueueUnit} (ho : Alike old old') (hn : Alike new new') :
      AlikeAction (.update now old new) (.update now old' new')
  | next (now : Time) : AlikeAction (.next now) (.next now)
  | reserve (now : Time) (r : Ref) : AlikeAction (.reserve now r) (.reserve now r)
  | dequeueSuccess {qu qu' : QueueUnit} (h : Alike qu qu') : AlikeAction (.dequeueSuccess qu) (.dequeueSuccess qu')
  | addUnschedulable (r : Ref) (changed : Bool) : AlikeAction (.addUnschedulable r changed) (.addUnschedulable r changed)
  | fix (now : Time) {g g' : QueueUnit → String} (hg : ∀ {a b}, Alike a b → g' b = g a) (order : List String) :
      AlikeAction (.fix now g order) (.fix now g' order)
  | fixQueue : AlikeAction .fixQueue .fixQueue
  | errorFunc (now : Time) (r : Ref) {answer answer' : Answer} (h : AlikeAnswer answer answer') (reasons : String)
      (changed : Bool) : AlikeAction (.errorFunc now r answer reasons changed) (.errorFunc now r answer' reasons changed)

theorem Alike.refl (a : QueueUnit) : Alike a a := ⟨rfl, a.spec.priority, rfl⟩

theorem AlikeInfo.refl (a : QueueUnitInfo) : AlikeInfo a a := ⟨Alike.refl a.unit, rfl⟩

section Units

variable {a b c d : QueueUnit}

theorem Alike.congr {α : Type} (f : QueueUnit → α) (hf : ∀ p qu, f (setPriority p qu) = f qu) (h : Alike a b) :
    f b = f a := by
  obtain ⟨-, p, rfl⟩ := h
  exact hf p a

theorem Alike.key (h : Alike a b) : b.key = a.key := h.congr QueueUnit.key (fun _ _ => rfl)

theorem Alike.uid (h : Alike a b) : b.uid = a.uid := h.congr QueueUnit.uid (fun _ _ => rfl)

theorem Alike.ns (h : Alike a b) : b.ns = a.ns := h.congr QueueUnit.ns (fun _ _ => rfl)

theorem Alike.name (h : Alike a b) : b.name = a.name := h.congr QueueUnit.name (fun _ _ => rfl)

theorem Alike.version (h : Alike a b) : b.resourceVersion = a.resourceVersion :=
  h.congr QueueUnit.resourceVersion (fun _ _ => rfl)

theorem Alike.created (h : Alike a b) : b.creationTimestamp = a.creationTimestamp :=
  h.congr QueueUnit.creationTimestamp (fun _ _ => rfl)

theorem Alike.status (h : Alike a b) : b.status = a.status := h.congr QueueUnit.status (fun _ _ => rfl)

theorem Alike.satisfied (h : Alike a b) : isQueueUnitSatisfied b = isQueueUnitSatisfied a :=
  h.congr isQueueUnitSatisfied (fun _ _ => rfl)

theorem Alike.active (h : Alike a b) : isQueueUnitActive b = isQueueUnitActive a :=
  h.congr isQueueUnitActive (fun _ _ => rfl)

theorem Alike.dequeued (h : Alike a b) : isQueueUnitDequeued b = isQueueUnitDequeued a :=
  h.congr isQueueUnitDequeued (fun _ _ => rfl)

theorem Alike.reservedNotRun (h : Alike a b) : isQueueUnitReservedNotRun b = isQueueUnitReservedNotRun a :=
  h.congr isQueueUnitReservedNotRun (fun _ _ => rfl)

theorem Alike.reservedAny (h : Alike a b) : isQueueUnitReservedAnyResource b = isQueueUnitReservedAnyResource a :=
  h.congr isQueueUnitReservedAnyResource (fun _ _ => rfl)

theorem Alike.allRunning (h : Alike a b) : isQueueUnitAllRunning b = isQueueUnitAllRunning a :=
  h.congr isQueueUnitAllRunning (fun _ _ => rfl)

theorem Alike.released (h : Alike a b) (h' : Alike c d) : isResourceReleased b d = isResourceReleased a c :=
  (h.congr (fun qu => isResourceReleased qu d) (fun _ _ => rfl)).trans
    (h'.congr (isResourceReleased a) (fun _ _ => rfl))

theorem Alike.canReclaim (h : Alike a b) (protect : Int) (now : Time) :
    getResourcesCanReclaim b protect now = getResourcesCanReclaim a protect now :=
  h.congr (fun qu => getResourcesCanReclaim qu protect now) (fun _ _ => rfl)

theorem Alike.setStatus (h : Alike a b) (f : QueueUnitStatus → QueueUnitStatus) :
    Alike { a with status := f a.status } { b with status := f b.status } := by
  obtain ⟨hp, p, rfl⟩ := h
  exact ⟨hp, p, rfl⟩

end Units

section Memory

variable {m m' : Infos} {fw fw' : Handle}

variable {qu qu' : QueueUnit} {a b : QueueUnitInfo}

theorem AlikeInfo.name (h : AlikeInfo a b) : b.name = a.name := by rw [h.rest]

theorem AlikeInfo.attempt (h : AlikeInfo a b) : b.initialAttemptTimestamp = a.initialAttemptTimestamp := by rw [h.rest]

theorem less_alike {c d : QueueUnitInfo} (h : AlikeInfo a b) (h' : AlikeInfo c d) : less b d = less a c := by
  simp only [less, h.unit.1, h'.unit.1, h.unit.uid, h'.unit.uid, h.name, h'.name, h.attempt, h'.attempt]

theorem AlikeInfos.unit (h : AlikeInfos m m') (r : Ref) : Alike (m.unit r) (m'.unit r) := (h.info r).unit

theorem AlikeInfos.key (h : AlikeInfos m m') (r : Ref) : m'.key r = m.key r := (h.unit r).key

theorem AlikeInfos.allocated (h : AlikeInfos m m') (r : Ref) : m'.heap.Allocated r ↔ m.heap.Allocated r := by
  rw [Heap.Allocated, Heap.Allocated, h.length]

theorem AlikeInfos.next (h : AlikeInfos m m') : m'.heap.next = m.heap.next := h.length

theorem alike_fresh (h : AlikeInfos m m') (now : Time) (hqu : Alike qu qu') :
    AlikeInfo (m.fresh now qu) (m'.fresh now qu') := by
  rw [Infos.fresh, Infos.fresh, h.cache, hqu.uid]
  cases m.cache.lookup qu.uid with
  | none => exact ⟨hqu, by simp only [Option.map_none, infoOf, hqu.key, hqu.created]⟩
  | some r =>
    refine ⟨hqu, ?_⟩
    have hr := h.info r
    simp only [Option.map_some, infoOf, hqu.key, hr.attempt]
    rw [hr.rest]

theorem alike_newQueueUnitInfo (h : AlikeInfos m m') (now : Time) (hqu : Alike qu qu') :
    AlikeInfos (m.newQueueUnitInfo now qu) (m'.newQueueUnitInfo now qu') where
  length := by simp [Infos.newQueueUnitInfo, Heap.alloc, h.length]
  info r := by
    simp only [Infos.newQueueUnitInfo, Infos.get, Heap.get_alloc_eq, h.next]
    split
    next => exact alike_fresh h now hqu
    next => exact h.info r
  cache := by simp only [Infos.newQueueUnitInfo, h.cache, hqu.uid, h.next]

theorem alike_set (h : AlikeInfos m m') (r : Ref) {info info' : QueueUnitInfo} (hi : AlikeInfo info info') :
    AlikeInfos (m.set r info) (m'.set r info') where
  length := by simp [Infos.set, Heap.set, h.length]
  info x := by
    by_cases hr : m.heap.Allocated r
    · rw [Infos.get_set hr, Infos.get_set ((h.allocated r).mpr hr)]
      split
      next => exact hi
      next => exact h.info x
    · rw [Infos.set, Infos.set, Heap.set_of_not_allocated hr,
        Heap.set_of_not_allocated (fun hr' => hr ((h.allocated r).mp hr'))]
      exact h.info x
  cache := h.cache

theorem alike_setUnit (h : AlikeInfos m m') (r : Ref) (hqu : Alike qu qu') :
    AlikeInfos (m.setUnit r qu) (m'.setUnit r qu') := by
  refine alike_set h r ⟨hqu, ?_⟩
  rw [(h.info r).rest]

theorem alike_forget (h : AlikeInfos m m') (present : UID → Bool) :
    AlikeInfos (m.forgetQueueUnitInfo present) (m'.forgetQueueUnitInfo present) where
  length := h.length
  info := h.info
  cache := by simp only [Infos.forgetQueueUnitInfo, h.cache]

theorem alike_attempted (h : AlikeInfos m m') (now : Time) (r : Ref) :
    AlikeInfos (attempted now r m) (attempted now r m') := by
  refine alike_set h r ⟨h.unit r, ?_⟩
  rw [(h.info r).rest]

end Memory

section Operations

variable {m m' : Infos} {fw fw' : Handle} {a b : QueueUnit} {q : PriorityQueue}

theorem binarySearchFunc_congr {α β : Type} {cmp cmp' : α → β → Int} {t t' : β} (h : ∀ x, cmp' x t' = cmp x t)
    (l : List α) : binarySearchFunc l t' cmp' = binarySearchFunc l t cmp := by
  simp only [binarySearchFunc, h]

theorem position_alike (h : AlikeInfos m m') (queue : List Ref) {t t' : QueueUnitInfo} (ht : AlikeInfo t t') :
    position m' queue t' = position m queue t :=
  binarySearchFunc_congr (fun x => less_alike (h.info x) ht) queue

theorem removeFound_alike (h : AlikeInfos m m') (queue : List Ref) {t t' : QueueUnitInfo} (ht : AlikeInfo t t') :
    removeFound m' queue t' = removeFound m queue t := by
  rw [removeFound, removeFound, position_alike h queue ht]

theorem sortQueue_alike (h : AlikeInfos m m') (queue : List Ref) : sortQueue m' queue = sortQueue m queue := by
  simp only [sortQueue, less_alike (h.info _) (h.info _)]

theorem firstQuota_alike (hf : AlikeHandles fw fw') (h : Alike a b) : firstQuota fw' b = firstQuota fw a := by
  rw [firstQuota, firstQuota, hf.quota h]

theorem releaseQuota_alike (hf : AlikeHandles fw fw') (h : Alike a b) (q : PriorityQueue) :
    releaseQuota fw' b q = releaseQuota fw a q := by
  rw [releaseQuota, releaseQuota, firstQuota_alike hf h]

theorem skips_alike (hf : AlikeHandles fw fw') (h : AlikeInfos m m') (q : PriorityQueue) :
    skips fw' m' q = skips fw m q := by
  funext r
  simp only [skips, h.key, hf.active, (h.unit r).active, (h.unit r).satisfied, firstQuota_alike hf (h.unit r)]

theorem next_alike (hf : AlikeHandles fw fw') (h : AlikeInfos m m') (now : Time) (q : PriorityQueue) :
    next fw' m' now q = next fw m now q := by
  simp only [next, judge, findNextQueueUnit, handOut, skips_alike hf h, (h.unit _).ns, (h.info _).name]

theorem add_alike (hf : AlikeHandles fw fw') (h : AlikeInfos m m') (r : Ref) (q : PriorityQueue) :
    addQueueUnitInfo fw' m' r q = addQueueUnitInfo fw m r q := by
  simp only [addQueueUnitInfo, (h.unit r).dequeued, (h.unit r).reservedNotRun, (h.unit r).key,
    position_alike h _ (h.info r), releaseQuota_alike hf (h.unit r)]

theorem reserve_alike (h : AlikeInfos m m') (now : Time) (r : Ref) (q : PriorityQueue) :
    reserve m' now r q = reserve m now r q := by
  simp only [reserve, h.key, less_alike (h.info _) (h.info _), (h.unit _).canReclaim]

theorem addUnschedulable_alike (hf : AlikeHandles fw fw') (h : AlikeInfos m m') (r : Ref) (changed : Bool)
    (q : PriorityQueue) :
    addUnschedulableIfNotPresent fw' m' r changed q = addUnschedulableIfNotPresent fw m r changed q := by
  simp only [addUnschedulableIfNotPresent, blockQuota, firstQuota_alike hf (h.unit r), h.key]

theorem fixQueue_alike (h : AlikeInfos m m') (q : PriorityQueue) : fixQueue m' q = fixQueue m q := by
  simp only [fixQueue, sortQueue_alike h, less_alike (h.info _) (h.info _)]

end Operations

section States

variable {fw fw' : Handle} {s s' : State} {now : Time}

variable {qu qu' : QueueUnit}

theorem alike_filedInfo (h : AlikeStates s s') (now : Time) (hqu : Alike qu qu') :
    AlikeInfos (filedInfo now qu s).1 (filedInfo now qu' s').1 ∧
      AlikeInfo (filedInfo now qu s).2 (filedInfo now qu' s').2 := by
  rw [filedInfo, filedInfo, h.pq, hqu.key]
  cases s.pq.queueUnits.lookup qu.key with
  | some r => exact ⟨h.infos, h.infos.info r⟩
  | none => exact ⟨alike_newQueueUnitInfo h.infos now hqu, alike_fresh h.infos now hqu⟩

theorem alike_deleteWithoutLock (hf : AlikeHandles fw fw') (h : AlikeStates s s') (now : Time)
    (hqu : Alike qu qu') : AlikeStates (deleteWithoutLock fw now qu s) (deleteWithoutLock fw' now qu' s') := by
  obtain ⟨hm, hi⟩ := alike_filedInfo h now hqu
  refine ⟨hm, ?_⟩
  simp only [deleteWithoutLock, h.pq, hqu.key, removeFound_alike hm _ hi, releaseQuota_alike hf hqu]

theorem alike_delete (hf : AlikeHandles fw fw') (h : AlikeStates s s') (now : Time)
    (hqu : Alike qu qu') : AlikeStates (delete fw now qu s) (delete fw' now qu' s') := by
  have hreset : AlikeStates { s with pq := { s.pq with resetNextIdxFlag := true } }
      { s' with pq := { s'.pq with resetNextIdxFlag := true } } := ⟨h.infos, by rw [h.pq]⟩
  exact alike_deleteWithoutLock hf hreset now hqu

theorem alike_fix (hf : AlikeHandles fw fw') (h : AlikeStates s s') (now : Time) (order : List String) :
    AlikeStates (fix fw now order s) (fix fw' now order s') := by
  rw [fix, fix, h.pq]
  generalize order.filterMap s.pq.queueUnits.lookup = refs
  induction refs generalizing s s' with
  | nil => exact h
  | cons r refs ih =>
    rw [List.foldl_cons, List.foldl_cons]
    exact ih (alike_deleteWithoutLock hf h now (h.infos.unit r))

variable {old old' new new' : QueueUnit}

theorem activationChanged_alike (hf : AlikeHandles fw fw') (ho : Alike old old') (hn : Alike new new') :
    activationChanged fw' old' new' = activationChanged fw old new := by
  rw [activationChanged, activationChanged, hf.active, ho.active, hn.active]

theorem settle_alike (hf : AlikeHandles fw fw') (ho : Alike old old') (hn : Alike new new') (q : PriorityQueue) :
    settle fw' old' new' q = settle fw old new q := by
  simp only [settle, track, activationChanged_alike hf ho hn, hn.reservedAny, hn.satisfied, hn.allRunning, hn.key]

theorem alike_dropDequeued (h : AlikeStates s s') (now : Time) (ho : Alike old old') (hn : Alike new new') :
    AlikeStates (dropDequeued now old new s) (dropDequeued now old' new' s') := by
  have hm := alike_newQueueUnitInfo h.infos now hn
  refine ⟨hm, ?_⟩
  simp only [dropDequeued, h.pq, hn.key, ho.dequeued, removeFound_alike hm _ (alike_fresh h.infos now hn)]

theorem alike_reinsert (h : AlikeStates s s') (now : Time) (ho : Alike old old') (hn : Alike new new') :
    AlikeStates (reinsert now old new s) (reinsert now old' new' s') := by
  have hold := alike_newQueueUnitInfo h.infos now ho
  have hm := alike_newQueueUnitInfo hold now hn
  refine ⟨hm, ?_⟩
  simp only [reinsert, h.pq, hn.key, hold.next, removeFound_alike hm _ (alike_fresh h.infos now ho),
    position_alike hm _ (hm.info _)]

theorem alike_refresh (hf : AlikeHandles fw fw') (h : AlikeStates s s') (ho : Alike old old') (hn : Alike new new') :
    AlikeStates (refresh fw old new s) (refresh fw' old' new' s') := by
  rw [refresh, refresh, h.pq, hn.key]
  cases s.pq.queueUnits.lookup new.key with
  | none => exact h
  | some r =>
    have hm : AlikeInfos
        (if (s.infos.unit r).resourceVersion ≠ new.resourceVersion then s.infos.setUnit r new else s.infos)
        (if (s'.infos.unit r).resourceVersion ≠ new'.resourceVersion then s'.infos.setUnit r new' else s'.infos) := by
      rw [(h.infos.unit r).version, hn.version]
      split
      next => exact alike_setUnit h.infos r hn
      next => exact h.infos
    dsimp only
    rw [ho.released hn, hn.status]
    split
    next => exact ⟨hm, by simp only [sortQueue_alike hm, releaseQuota_alike hf hn]⟩
    next => exact ⟨hm, rfl⟩

/-- The pointers of the priorities decide alike whether there is anything to do, and whether the unit is
filed anew. -/
def SameTurns (fw fw' : Handle) (s s' : State) (old new old' new' : QueueUnit) : Prop :=
  unchanged old' new' = unchanged old new ∧
    (unchanged old new = false → isQueueUnitDequeued new = false →
      needsReinsert fw' old' new' s'.pq = needsReinsert fw old new s.pq)

theorem alike_update (hf : AlikeHandles fw fw') (h : AlikeStates s s') (now : Time) (ho : Alike old old')
    (hn : Alike new new') (ht : SameTurns fw fw' s s' old new old' new') :
    AlikeStates (update fw now old new s) (update fw' now old' new' s') := by
  refine alike_refresh hf ?_ ho hn
  obtain ⟨hu, hr⟩ := ht
  rw [updateBody, updateBody, hu, hn.dequeued]
  split
  next => exact h
  next hc =>
    split
    next => exact alike_dropDequeued h now ho hn
    next hd =>
      rw [hr (Bool.not_eq_true _ ▸ hc) (Bool.not_eq_true _ ▸ hd)]
      split
      next =>
        have hq := alike_reinsert h now ho hn
        exact ⟨hq.infos, by dsimp only; rw [hq.pq, settle_alike hf ho hn]⟩
      next => exact ⟨h.infos, by dsimp only; rw [h.pq, settle_alike hf ho hn]⟩

theorem alike_errorFunc (hf : AlikeHandles fw fw') (h : AlikeStates s s') (now : Time) (r : Ref)
    {answer answer' : Answer} (ha : AlikeAnswer answer answer') (reasons : String) (changed : Bool) :
    AlikeStates (errorFunc fw now r answer reasons changed s) (errorFunc fw' now r answer' reasons changed s') := by
  have hattempt : AlikeStates { s with infos := attempted now r s.infos } { s' with infos := attempted now r s'.infos } :=
    ⟨alike_attempted h.infos now r, h.pq⟩
  have hblock : ∀ {m m' : Infos}, AlikeInfos m m' →
      AlikeStates (addUnschedulable fw r changed ⟨m, s.pq⟩) (addUnschedulable fw' r changed ⟨m', s'.pq⟩) :=
    fun hm => ⟨hm, by simp only [addUnschedulable, h.pq, addUnschedulable_alike hf hm]⟩
  have hgot : ∀ {qu qu' : QueueUnit}, Alike qu qu' →
      AlikeInfos (refreshed now r reasons qu s.infos) (refreshed now r reasons qu' s'.infos) := by
    intro qu qu' hqu
    exact alike_setUnit hattempt.infos r
      (hqu.setStatus (fun status => { status with message := reasons, lastUpdateTime := some now }))
  cases ha with
  | got hqu => exact hblock (hgot hqu)
  | same answer =>
    cases answer with
    | getNotFound => exact alike_delete hf hattempt now (h.infos.unit r)
    | getFailed => exact hblock hattempt.infos
    | updateNotFound => exact hattempt
    | got qu => exact hblock (hgot (Alike.refl qu))

end States

section Runs

def Turns (fw fw' : Handle) (s s' : State) : Action → Action → Prop
  | .update _ old new, .update _ old' new' => SameTurns fw fw' s s' old new old' new'
  | _, _ => True

def Agreeing (fw fw' : Handle) : State → State → List Action → List Action → Prop
  | s, s', a :: as, a' :: as' => Turns fw fw' s s' a a' ∧ Agreeing fw fw' (act fw s a) (act fw' s' a') as as'
  | _, _, _, _ => True

/-- What is seen of a step: the unit that `Next` returns, the answer of `Reserve`, and the marks. -/
structure Observation where
  returned : Option String
  reserved : Option ReserveResult
  assumed : Finset String
  updating : Finset String
deriving DecidableEq

def unitOf (m : Infos) : NextResult → Option String
  | .unit r => some (m.key r)
  | .wait | .closed => none

variable (fw fw' : Handle)

def observe (s : State) (a : Action) : Observation where
  returned := match a with
    | .next now => unitOf s.infos (next fw s.infos now s.pq).2
    | _ => none
  reserved := match a with
    | .reserve now r => some (reserve s.infos now r s.pq).2
    | _ => none
  assumed := (act fw s a).pq.assumed
  updating := (act fw s a).pq.updating

def trace : State → List Action → List Observation
  | _, [] => []
  | s, a :: as => if Enabled s a then observe fw s a :: trace (act fw s a) as else []

variable {fw fw'} {s s' : State} {a a' : Action}

theorem moved_alike (h : AlikeStates s s') {g g' : QueueUnit → String} (hg : ∀ {a b}, Alike a b → g' b = g a) :
    moved g' s' = moved g s := by
  simp only [moved, h.pq, hg (h.infos.unit _)]

theorem enabled_alike (h : AlikeStates s s') (ha : AlikeAction a a') : Enabled s' a' ↔ Enabled s a := by
  cases ha with
  | fix now hg order => simp [Enabled, Truthful, Action.refs, moved_alike h hg]
  | @errorFunc now r answer answer' hanswer =>
    have hunit := h.infos.unit r
    cases hanswer with
    | same =>
      cases answer with
      | getNotFound | getFailed | updateNotFound => simp [Enabled, Truthful, Action.refs, h.infos.allocated]
      | got qu => simp [Enabled, Truthful, Action.refs, h.infos.allocated, hunit.ns, hunit.name]
    | got hqu => simp [Enabled, Truthful, Action.refs, h.infos.allocated, hunit.ns, hunit.name, hqu.ns, hqu.name]
  | newInfo | forgetInfos | add | delete | update | next | reserve | dequeueSuccess | addUnschedulable | fixQueue =>
    simp [Enabled, Truthful, Action.refs, h.infos.allocated]

theorem alike_act (hf : AlikeHandles fw fw') (h : AlikeStates s s') (ha : AlikeAction a a')
    (ht : Turns fw fw' s s' a a') : AlikeStates (act fw s a) (act fw' s' a') := by
  cases ha with
  | newInfo now hqu => exact ⟨alike_newQueueUnitInfo h.infos now hqu, h.pq⟩
  | forgetInfos present => exact ⟨alike_forget h.infos present, h.pq⟩
  | add r => exact ⟨h.infos, by simp only [act, h.pq, add_alike hf h.infos]⟩
  | delete now hqu => exact alike_delete hf h now hqu
  | update now ho hn => exact alike_update hf h now ho hn ht
  | next now => exact ⟨h.infos, by simp only [act, h.pq, next_alike hf h.infos]⟩
  | reserve now r => exact ⟨h.infos, by simp only [act, h.pq, reserve_alike h.infos]⟩
  | dequeueSuccess => exact h
  | addUnschedulable r changed =>
    exact ⟨h.infos, by simp only [act, addUnschedulable, h.pq, addUnschedulable_alike hf h.infos]⟩
  | fix now _ order => exact alike_fix hf h now order
  | fixQueue => exact ⟨h.infos, by simp only [act, h.pq, fixQueue_alike h.infos]⟩
  | errorFunc now r hanswer reasons changed => exact alike_errorFunc hf h now r hanswer reasons changed

theorem observe_alike (hf : AlikeHandles fw fw') (h : AlikeStates s s') (ha : AlikeAction a a')
    (ht : Turns fw fw' s s' a a') : observe fw' s' a' = observe fw s a := by
  have hpq := (alike_act hf h ha ht).pq
  cases ha with
  | next now =>
    have hunit : unitOf s'.infos = unitOf s.infos := by
      funext result
      cases result with
      | unit r => exact congrArg some (h.infos.key r)
      | wait | closed => rfl
    simp only [observe, hpq, h.pq, next_alike hf h.infos, hunit]
  | reserve now r => simp only [observe, hpq, h.pq, reserve_alike h.infos]
  | newInfo | forgetInfos | add | delete | update | dequeueSuccess | addUnschedulable | fix | fixQueue | errorFunc =>
    simp only [observe, hpq]

/-- Two runs that are given the same operations, up to how priorities are given, look the same, as long
as the pointers decide alike in every update. -/
theorem unset_priority_as_zero (hf : AlikeHandles fw fw') (h : AlikeStates s s') {as as' : List Action}
    (has : List.Forall₂ AlikeAction as as') (hg : Agreeing fw fw' s s' as as') : trace fw' s' as' = trace fw s as := by
  induction has generalizing s s' with
  | nil => rfl
  | cons ha _ ih =>
    rw [trace, trace]
    have hiff := enabled_alike h ha
    split
    next he => rw [if_pos (hiff.mp he), observe_alike hf h ha hg.1, ih (alike_act hf h ha hg.1) hg.2]
    next he => rw [if_neg (fun he' => he (hiff.mpr he'))]

end Runs

def session (p : Nat → Option (Ptr Int32)) (admissions : List Admission) : List Action :=
  [.newInfo 0 (jobUnit "a" "1" (p 1) 1 []), .add 0, .next 0, .reserve 0 0,
    .update 0 (jobUnit "a" "1" (p 1) 1 []) (jobUnit "a" "2" (p 2) 1 admissions)]

def unset (_ : Nat) : Option (Ptr Int32) := none

def zero (version : Nat) : Option (Ptr Int32) := some ⟨version, 0⟩

theorem alike_session (admissions : List Admission) :
    List.Forall₂ AlikeAction (session unset admissions) (session zero admissions) := by
  have hversion : ∀ version resourceVersion admissions,
      Alike (jobUnit "a" resourceVersion (unset version) 1 admissions)
        (jobUnit "a" resourceVersion (zero version) 1 admissions) :=
    fun version _ _ => ⟨rfl, zero version, rfl⟩
  exact .cons (.newInfo 0 (hversion 1 "1" [])) (.cons (.add 0) (.cons (.next 0) (.cons (.reserve 0 0)
    (.cons (.update 0 (hversion 1 "1" []) (hversion 2 "2" admissions)) .nil))))

theorem running_observed_alike :
    trace noQuotas emptyQueue (session zero [{ name := "worker", replicas := 1, running := 1 }]) =
      trace noQuotas emptyQueue (session unset [{ name := "worker", replicas := 1, running := 1 }]) := by
  refine unset_priority_as_zero ⟨fun _ => rfl, rfl⟩
    ⟨⟨rfl, fun r => AlikeInfo.refl _, rfl⟩, rfl⟩ (alike_session _) ⟨trivial, trivial, trivial, trivial, ⟨?_, ?_⟩, trivial⟩
  · decide +kernel
  · intro _ hd
    revert hd
    decide +kernel

/-- A version with nothing new in it is observed after the unit was reserved. With the priority unset the
unit stays reserved, with a 0 it is not reserved any more. -/
theorem zero_priority_forgotten :
    List.Forall₂ AlikeAction (session unset []) (session zero []) ∧
      (trace noQuotas emptyQueue (session unset [])).map Observation.assumed = [∅, ∅, ∅, {"ns/a"}, {"ns/a"}] ∧
      (trace noQuotas emptyQueue (session unset [])).map Observation.updating = [∅, ∅, ∅, {"ns/a"}, {"ns/a"}] ∧
      (trace noQuotas emptyQueue (session zero [])).map Observation.assumed = [∅, ∅, ∅, {"ns/a"}, ∅] ∧
      (trace noQuotas emptyQueue (session zero [])).map Observation.updating = [∅, ∅, ∅, {"ns/a"}, ∅] := by
  refine ⟨alike_session [], ?_⟩
  decide +kernel

end KoordQueue.Queue.UnsetPriority
