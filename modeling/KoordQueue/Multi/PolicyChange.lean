import KoordQueue.Multi.Calls

namespace KoordQueue.Multi.PolicyChange

open Api UnitStatus KoordQueue.Queue Memory Policy Object Contents Calls

def errUnsupportedStrategy : String := "unsupported strategy"

def isClosed : Impl → Bool
  | .priority pq => pq.closed
  | .intelligent iq => iq.closed

section Sync

variable (fw : MultiHandle) (now : Time) (m : Infos) (cr : QueueCr) (redistributed listed : List String)

/-- `Queue.sync` with the error that it reports. The old implementation is
closed before the new one is asked for. -/
def syncResult (q : Queue) : Option (Queue × Option String) :=
  q.queueImpl.bind (fun impl =>
    let impl := impl.updateQueueCr m cr redistributed
    if cr.queuePolicy ∈ impl.supportedPolicy then
      some ({ q with queueImpl := some (impl.changePolicy cr.queuePolicy) }, none)
    else
      let items := listed.filterMap impl.units.lookup
      match createSchedulingQueue fw m now cr items with
      | some created =>
        let impl := items.foldl (fun impl r => (impl.addQueueUnitInfo fw.toHandle m r).1) created
        some ({ q with queueImpl := some impl }, none)
      | none => if items = [] then some ({ q with queueImpl := none }, some errUnsupportedStrategy) else none)

theorem sync_eq (q : Queue) :
    q.sync now m fw cr redistributed listed = (syncResult fw now m cr redistributed listed q).map Prod.fst := by
  rw [Queue.sync, syncResult]
  cases q.queueImpl with
  | none => rfl
  | some impl =>
    simp only [Option.bind_some]
    split
    next => rfl
    next =>
      cases createSchedulingQueue fw m now cr
        (listed.filterMap (impl.updateQueueCr m cr redistributed).units.lookup) with
      | some created => rfl
      | none =>
        dsimp only
        split
        next => rfl
        next => rfl

end Sync

def pending (m : Infos) (units : GoMap String Ref) : Finset String :=
  units.keys.filter (fun key => (units.lookup key).any (fun r => !isQueueUnitDequeued (m.unit r)))

theorem mem_pending {m : Infos} {units : GoMap String Ref} {key : String} :
    key ∈ pending m units ↔ ∃ r, units.lookup key = some r ∧ isQueueUnitDequeued (m.unit r) = false := by
  rw [pending, Finset.mem_filter, Finmap.mem_keys, Finmap.mem_iff]
  simp only [Option.any_eq_true, Bool.not_eq_true']
  constructor
  · exact And.right
  · rintro ⟨r, hr, hd⟩
    exact ⟨⟨r, hr⟩, r, hr, hd⟩

/-- A success keeps the pending units, an error leaves the implementation in
place with all of its units, and one of the two happens. -/
def Atomic (m : Infos) (q : Queue) (result : Option (Queue × Option String)) : Prop :=
  ∃ q' err, result = some (q', err) ∧ (err = none → pending m q'.units = pending m q.units) ∧
    (err ≠ none → ∃ impl impl', q.queueImpl = some impl ∧ q'.queueImpl = some impl' ∧
      isClosed impl' = isClosed impl ∧ impl'.units = impl.units)

def implemented : List String := ["Priority", "Block", "Intelligent"]

variable {fw : MultiHandle} {now : Time} {m : Infos} {cr : QueueCr} {redistributed listed : List String} {q q' : Queue}

theorem createSchedulingQueue_isSome (items : List Ref) :
    (∃ created, createSchedulingQueue fw m now cr items = some created) ↔ cr.queuePolicy ∈ implemented := by
  rw [createSchedulingQueue, implemented]
  simp only [List.mem_cons, List.not_mem_nil, or_false]
  by_cases hp : cr.queuePolicy = "Priority" ∨ cr.queuePolicy = "Block"
  · rw [if_pos hp]
    exact iff_of_true ⟨_, rfl⟩ (by tauto)
  · rw [if_neg hp]
    by_cases hi : cr.queuePolicy = "Intelligent"
    · rw [if_pos hi]
      exact iff_of_true ⟨_, rfl⟩ (by tauto)
    · rw [if_neg hi]
      exact iff_of_false (by simp) (by tauto)

theorem implemented_of_supported {impl : Impl} (h : cr.queuePolicy ∈ impl.supportedPolicy) :
    cr.queuePolicy ∈ implemented := by
  cases impl with
  | priority pq =>
    simp only [Impl.supportedPolicy, implemented, List.mem_cons] at h ⊢
    tauto
  | intelligent iq =>
    simp only [Impl.supportedPolicy, implemented, List.mem_cons] at h ⊢
    tauto

theorem syncResult_of_implemented (hq : q.queueImpl ≠ none) (hp : cr.queuePolicy ∈ implemented) :
    ∃ q', syncResult fw now m cr redistributed listed q = some (q', none) := by
  obtain ⟨impl, himpl⟩ := Option.ne_none_iff_exists'.mp hq
  rw [syncResult, himpl]
  simp only [Option.bind_some]
  split
  next => exact ⟨_, rfl⟩
  next =>
    obtain ⟨created, hc⟩ := (createSchedulingQueue_isSome
      (listed.filterMap (impl.updateQueueCr m cr redistributed).units.lookup)).mpr hp
    rw [hc]
    exact ⟨_, rfl⟩

theorem syncResult_of_not_implemented (hp : cr.queuePolicy ∉ implemented) {err : Option String}
    (h : syncResult fw now m cr redistributed listed q = some (q', err)) : err ≠ none ∧ q'.queueImpl = none := by
  obtain ⟨impl, himpl, h⟩ := Option.bind_eq_some_iff.mp h
  dsimp only at h
  split at h
  next hs => exact absurd (implemented_of_supported hs) hp
  next =>
    split at h
    next created hc => exact absurd ((createSchedulingQueue_isSome _).mp ⟨created, hc⟩) hp
    next =>
      split at h
      next =>
        cases h
        exact ⟨by simp, rfl⟩
      next => cases h

theorem pending_sync (hf : Filed m q.units) (hlisted : ∀ key ∈ q.units, key ∈ listed)
    (h : syncResult fw now m cr redistributed listed q = some (q', none)) : pending m q'.units = pending m q.units := by
  have hsync : q.sync now m fw cr redistributed listed = some q' := by rw [sync_eq, h, Option.map_some]
  obtain ⟨hwithin, hkept, _⟩ := queue_sync hf hlisted hsync
  ext key
  rw [mem_pending, mem_pending]
  constructor
  · rintro ⟨r, hr, hd⟩
    exact ⟨r, hwithin key r hr, hd⟩
  · rintro ⟨r, hr, hd⟩
    obtain ⟨r', hr'⟩ := Finmap.mem_iff.mp (hkept key r hr hd)
    have hsame := hwithin key r' hr'
    rw [hr, Option.some.injEq] at hsame
    subst r'
    exact ⟨r, hr', hd⟩

/-- On a queue that files its units under their own keys, a change is atomic
exactly when there is an implementation to start from and one for the policy. -/
theorem sync_atomic_iff (hf : Filed m q.units) (hlisted : ∀ key ∈ q.units, key ∈ listed) :
    Atomic m q (syncResult fw now m cr redistributed listed q) ↔
      q.queueImpl ≠ none ∧ cr.queuePolicy ∈ implemented := by
  constructor
  · rintro ⟨q', err, h, _, herr⟩
    constructor
    · intro hnone
      rw [syncResult, hnone] at h
      cases h
    · by_contra hp
      obtain ⟨hne, hgone⟩ := syncResult_of_not_implemented hp h
      obtain ⟨_, impl', _, himpl', _⟩ := herr hne
      rw [hgone] at himpl'
      cases himpl'
  · rintro ⟨hq, hp⟩
    have hok : ∃ q', syncResult fw now m cr redistributed listed q = some (q', none) :=
      syncResult_of_implemented hq hp
    obtain ⟨q', h⟩ := hok
    exact ⟨q', none, h, fun _ => pending_sync hf hlisted h, fun hne => absurd rfl hne⟩

def offline : MultiHandle where
  getQueueUnitQuotaName _ := none
  queueUnitActive := false

def emptyQueue : Queue := { name := "q", queueImpl := some (.priority { name := "q" }) }

def unitNamed (name : String) (phase : QueueUnitPhase) (admissions : List Admission) : QueueUnit :=
  { ns := "ns", name, uid := name, spec := { podSets := [{ name := "worker", count := 1 }] }
    status := { phase, admissions } }

def severalUnits : Infos :=
  [unitNamed "u" .enqueued [], unitNamed "v" .schedFailed [],
    unitNamed "w" .running [{ name := "worker", replicas := 1, running := 1 }]].foldl
      (fun m qu => m.newQueueUnitInfo 0 qu) {}

/-- Two units wait, and a third is running. -/
def severalQueue : Queue where
  name := "q"
  queueImpl := some (.priority
    { name := "q", queue := [0, 1], queueUnits := GoMap.ofList [("ns/u", 0), ("ns/v", 1), ("ns/w", 2)] })

theorem sync_severalQueue :
    pending severalUnits severalQueue.units = {"ns/u", "ns/v"} ∧
      Atomic severalUnits severalQueue (syncResult offline 0 severalUnits { name := "q", queuePolicy := "Intelligent" }
        [] ["ns/w", "ns/v", "ns/u"] severalQueue) := by
  have hown : ∀ key ∈ severalQueue.units.keys, ∀ r ∈ severalQueue.units.lookup key,
      severalUnits.heap.Allocated r ∧ severalUnits.key r = key := by decide +kernel
  have hfiled : Filed severalUnits severalQueue.units :=
    ⟨fun hr => (hown _ (Finmap.mem_keys.mpr (Finmap.mem_of_lookup_eq_some hr)) _ hr).1,
      fun hr => (hown _ (Finmap.mem_keys.mpr (Finmap.mem_of_lookup_eq_some hr)) _ hr).2⟩
  refine ⟨by decide +kernel, (sync_atomic_iff hfiled ?_).mpr (by decide)⟩
  have hlisted : ∀ key ∈ severalQueue.units.keys, key ∈ ["ns/w", "ns/v", "ns/u"] := by decide +kernel
  exact fun key hkey => hlisted key (Finmap.mem_keys.mpr hkey)

def singleUnit : Infos := ({} : Infos).newQueueUnitInfo 0 { ns := "ns", name := "u", uid := "u" }

def singleQueue : Queue :=
  { name := "q", queueImpl := some (.priority { name := "q", queue := [0], queueUnits := Finmap.singleton "ns/u" 0 }) }

/-- A policy without an implementation leaves an empty queue without one too,
and takes the process down when the queue holds a unit. -/
theorem sync_unknown_policy : syncResult offline 0 {} { name := "q", queuePolicy := "Fair" } [] [] emptyQueue =
        some ({ emptyQueue with queueImpl := none }, some errUnsupportedStrategy) ∧
      syncResult offline 0 singleUnit { name := "q", queuePolicy := "Fair" } [] ["ns/u"] singleQueue = none ∧
      ¬ Atomic {} emptyQueue (syncResult offline 0 {} { name := "q", queuePolicy := "Fair" } [] [] emptyQueue) ∧
      ¬ Atomic singleUnit singleQueue
        (syncResult offline 0 singleUnit { name := "q", queuePolicy := "Fair" } [] ["ns/u"] singleQueue) := by
  have hempty : syncResult offline 0 {} { name := "q", queuePolicy := "Fair" } [] [] emptyQueue =
      some ({ emptyQueue with queueImpl := none }, some errUnsupportedStrategy) := by decide
  have hsingle : syncResult offline 0 singleUnit { name := "q", queuePolicy := "Fair" } [] ["ns/u"] singleQueue =
      none := by decide
  refine ⟨hempty, hsingle, ?_, ?_⟩
  · rintro ⟨q', err, h, _, herr⟩
    rw [hempty, Option.some.injEq, Prod.mk.injEq] at h
    obtain ⟨rfl, rfl⟩ := h
    obtain ⟨_, _, _, himpl, _⟩ := herr (by simp)
    cases himpl
  · rintro ⟨q', err, h, _⟩
    rw [hsingle] at h
    cases h

end KoordQueue.Multi.PolicyChange
