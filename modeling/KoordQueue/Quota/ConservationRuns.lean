import KoordQueue.Quota.Conservation

namespace KoordQueue.Quota.ConservationRuns

open Api UnitInfo Info Cache Chain Holding Conservation Run

theorem conserved_iff_held {c : CacheImpl} : Conserved c ↔ ∀ uid x, x ∈ c.quotas →
    (Held c uid x ↔ ∃ r, c.reserved.lookup uid = some r ∧ OnChain c.quotaParent r x) := by
  constructor
  · intro h uid x hx
    obtain ⟨info, hinfo⟩ := Finmap.mem_iff.mp hx
    rw [← h uid x info hinfo]
    simp [Held, hinfo]
  · intro h uid x info hinfo
    rw [← h uid x (Finmap.mem_iff.mpr ⟨info, hinfo⟩)]
    simp [Held, hinfo]

theorem conserved_tree {c c' : CacheImpl} (hc : Conserved c) (hrec : c'.reserved = c.reserved)
    (hheld : ∀ uid x, x ∈ c'.quotas → (Held c' uid x ↔ Held c uid x)) :
    Conserved c' ↔ KeepsChains c c'.quotaParent (· ∈ c'.quotas) := by
  rw [conserved_iff_held] at hc ⊢
  have hold : ∀ uid r, c.reserved.lookup uid = some r → ∀ x, x ∈ c'.quotas →
      (Held c' uid x ↔ x ∈ c.quotas ∧ OnChain c.quotaParent r x) := by
    intro uid r hr x hx
    rw [hheld uid x hx]
    constructor
    · intro h
      have hxc := exists_of_held h
      obtain ⟨r', hr', hchain⟩ := (hc uid x hxc).mp h
      rw [hr, Option.some.injEq] at hr'
      subst r'
      exact ⟨hxc, hchain⟩
    · rintro ⟨hxc, hchain⟩
      exact (hc uid x hxc).mpr ⟨r, hr, hchain⟩
  constructor
  · intro h uid r hr x hx
    rw [← hold uid r hr x hx, h uid x hx, hrec]
    simp [hr]
  · intro h uid x hx
    rw [hrec]
    cases hr : c.reserved.lookup uid with
    | none =>
      simp only [reduceCtorEq, false_and, exists_false, iff_false, hheld uid x hx]
      intro hh
      obtain ⟨r, hr', _⟩ := (hc uid x (exists_of_held hh)).mp hh
      rw [hr] at hr'
      cases hr'
    | some r => simp [hold uid r hr x hx, h uid r hr x hx]

theorem mem_addOrUpdateQuota (c : CacheImpl) (q : ElasticQuota) (x : QuotaName) :
    x ∈ (addOrUpdateQuota c q).quotas ↔ x = q.name ∨ x ∈ c.quotas := Finmap.mem_insert

theorem mem_deleteQuota (c : CacheImpl) (q : ElasticQuota) (x : QuotaName) :
    x ∈ (deleteQuota c q).quotas ↔ x ≠ q.name ∧ x ∈ c.quotas := Finmap.mem_erase

theorem held_addOrUpdateQuota (c : CacheImpl) (q : ElasticQuota) (uid : UID) (x : QuotaName) :
    Held (addOrUpdateQuota c q) uid x ↔ Held c uid x := by
  simp only [Held, addOrUpdateQuota, GoMap.lookup_insert_eq]
  by_cases hx : x = q.name
  · subst x
    cases hl : c.quotas.lookup q.name with
    | none => simp [newElasticQuotaInfo, Reserved.empty, Finmap.notMem_empty]
    | some info => simp
  · simp [hx]

theorem held_deleteQuota (c : CacheImpl) (q : ElasticQuota) (uid : UID) (x : QuotaName)
    (hx : x ∈ (deleteQuota c q).quotas) : Held (deleteQuota c q) uid x ↔ Held c uid x := by
  have hne := ((mem_deleteQuota c q x).mp hx).1
  simp [Held, deleteQuota, hne]

theorem linked_buildCache : Linked buildCache := fun _ => Iff.rfl

theorem conserved_buildCache : Conserved buildCache := by
  intro uid q info h
  simp [buildCache] at h

section Steps

variable [ResourceHelpers] {c c' : CacheImpl} {op : CacheOp}

variable {err : Option String} {new old : QueueUnitInfo}

theorem sameTree_resize (h : resize c old new = some (c', err)) :
    c'.quotaParent = c.quotaParent ∧ ∀ x, x ∈ c'.quotas ↔ x ∈ c.quotas := by
  rcases resize_cases h with ⟨_, h⟩ | ⟨_, _, h⟩ | ⟨_, mid, hold, hnew⟩
  · exact ⟨(frame_resizeInPlace h).parent, (frame_resizeInPlace h).mem⟩
  · exact ⟨(frame_unreserve h).parent, (frame_unreserve h).mem⟩
  · have hf := frame_unreserve hold
    have hf' := frame_reserve hnew
    exact ⟨hf'.parent.trans hf.parent, fun x => (hf'.mem x).trans (hf.mem x)⟩

theorem linked_step (hc : Linked c) (h : step c op = some c') : Linked c' := by
  cases op with
  | reserve q u =>
    obtain ⟨⟨_, err⟩, hr, rfl⟩ := Option.map_eq_some_iff.mp h
    exact linked_congr hc (frame_reserve hr).parent (frame_reserve hr).mem
  | unreserve q u =>
    obtain ⟨⟨_, err⟩, hr, rfl⟩ := Option.map_eq_some_iff.mp h
    exact linked_congr hc (frame_unreserve hr).parent (frame_unreserve hr).mem
  | resize old new =>
    obtain ⟨⟨_, err⟩, hr, rfl⟩ := Option.map_eq_some_iff.mp h
    exact linked_congr hc (sameTree_resize hr).1 (sameTree_resize hr).2
  | addOrUpdateQuota q =>
    cases h
    intro x
    rw [mem_addOrUpdateQuota, ← hc x]
    exact Finmap.mem_insert
  | deleteQuota q =>
    cases h
    intro x
    rw [mem_deleteQuota, ← hc x]
    exact Finmap.mem_erase

theorem linked_run {ops : List CacheOp} (h : exec step buildCache ops = some c) : Linked c :=
  invariant (fun _ _ _ hl _ hs => linked_step hl hs) linked_buildCache (guarded_true _ ops) h

theorem resize_exact (ha : ∀ uid, Agrees c uid) (h : resize c old new = some (c', err)) :
    (∀ uid, Agrees c' uid) ↔ (getQuotaName old.unit ≠ getQuotaName new.unit →
      ∀ r, c.reserved.lookup old.unit.uid = some r → getQuotaName old.unit ∈ c.quotas → r ∈ c.quotas →
        r ∈ chain c (getQuotaName old.unit) ∨
          new.unit.uid = old.unit.uid ∧ getQuotaName new.unit ∈ c.quotas ∧
            r ∈ chain c (getQuotaName new.unit)) := by
  rcases resize_cases h with ⟨he, h⟩ | ⟨hne, herr, h⟩ | ⟨hne, mid, hold, hnew⟩
  · simp [he, agrees_resizeInPlace_all ha h]
  · rcases unreserve_cases h with ⟨_, _, hnone⟩ | ⟨rfl, _, hq, _⟩ | ⟨_, _, hnone, _⟩
    · exact absurd hnone herr
    · simp [ha, hq]
    · exact absurd hnone herr
  · rw [agrees_move_all ha hold hnew]
    simp [hne]

theorem step_exact (hl : Linked c) (hc : Conserved c) (h : step c op = some c') : Conserved c' ↔ Allowed c op := by
  have hl' := linked_step hl h
  have hon : ∀ q r, r ∈ c.quotas → (OnChain c.quotaParent q r ↔ r ∈ chain c q) :=
    fun _ _ hr => onChain_iff_mem_chain hl hr
  cases op with
  | reserve q u =>
    obtain ⟨⟨_, err⟩, hr, rfl⟩ := Option.map_eq_some_iff.mp h
    rw [conserved_iff_agrees hl'] at *
    rw [conserved_iff_agrees hl] at hc
    simp [Allowed, agrees_reserve_all hc hr]
  | unreserve q u =>
    obtain ⟨⟨_, err⟩, hr, rfl⟩ := Option.map_eq_some_iff.mp h
    rw [conserved_iff_agrees hl', agrees_unreserve_all ((conserved_iff_agrees hl).mp hc) hr, Allowed]
    grind
  | resize old new =>
    obtain ⟨⟨_, err⟩, hr, rfl⟩ := Option.map_eq_some_iff.mp h
    rw [conserved_iff_agrees hl', resize_exact ((conserved_iff_agrees hl).mp hc) hr, Allowed]
    grind
  | addOrUpdateQuota q =>
    obtain rfl : addOrUpdateQuota c q = c' := Option.some.inj h
    have hrec : (addOrUpdateQuota c q).reserved = c.reserved := rfl
    rw [conserved_tree hc hrec (fun uid x _ => held_addOrUpdateQuota c q uid x), Allowed]
    simp only [KeepsChains, mem_addOrUpdateQuota]
    rfl
  | deleteQuota q =>
    obtain rfl : deleteQuota c q = c' := Option.some.inj h
    have hrec : (deleteQuota c q).reserved = c.reserved := rfl
    rw [conserved_tree hc hrec (held_deleteQuota c q), Allowed]
    simp only [KeepsChains, mem_deleteQuota]
    rfl

/-- Along a run of cache calls the charges stay on the recorded chains exactly
when every call is allowed in the state where it is made. -/
theorem conserved_iff_guarded (ops : List CacheOp) :
    (∀ run c, run <+: ops → exec step buildCache run = some c → Conserved c) ↔
      Guarded step Allowed buildCache ops := by
  have hexact : ∀ c op c', Linked c ∧ Conserved c → step c op = some c' →
      (Linked c' ∧ Conserved c' ↔ Allowed c op) := by
    rintro c op c' ⟨hl, hc⟩ hs
    rw [← step_exact hl hc hs]
    exact and_iff_right (linked_step hl hs)
  rw [← always_iff_guarded hexact ⟨linked_buildCache, conserved_buildCache⟩ ops]
  constructor
  · intro h run c hp hrun
    exact ⟨linked_run hrun, h run c hp hrun⟩
  · intro h run c hp hrun
    exact (h run c hp hrun).2

end Steps

def reparentRun : List CacheOp :=
  [.addOrUpdateQuota (cpuQuota "p1" koordRootQuota 10), .addOrUpdateQuota (cpuQuota "p2" koordRootQuota 10),
   .addOrUpdateQuota (cpuQuota "a" "p1" 10), .reserve "a" (cpuUnitInfo "u" "a" 6 .dequeued),
   .addOrUpdateQuota (cpuQuota "a" "p2" 10), .unreserve "a" (cpuUnitInfo "u" "a" 6 .dequeued)]

theorem not_conserved_of_leftover {c : CacheImpl} {uid : UID} {q : QuotaName} (hrec : c.reserved.lookup uid = none)
    (hheld : (c.quotas.lookup q).any (fun info => uid ∈ info.reserved.units) = true) : ¬ Conserved c := by
  intro h
  obtain ⟨info, hinfo, hmem⟩ := Option.any_eq_true _ _ |>.mp hheld
  obtain ⟨r, hr, _⟩ := (h uid q info hinfo).mp (of_decide_eq_true hmem)
  rw [hrec] at hr
  cases hr

/-- Moving `a` below `p2` leaves the charge on `p1`, where no release finds it again. -/
theorem reparentRun_not_conserved : ∃ c, exec (@step noPods) buildCache reparentRun = some c ∧ ¬ Conserved c := by
  have hrun : (exec (@step noPods) buildCache reparentRun).any (fun c => c.reserved.lookup "u" = none ∧
      (c.quotas.lookup "p1").any (fun info => "u" ∈ info.reserved.units) = true) = true := by decide
  obtain ⟨c, hc, hleft⟩ := Option.any_eq_true _ _ |>.mp hrun
  obtain ⟨hrec, hheld⟩ := of_decide_eq_true hleft
  exact ⟨c, hc, not_conserved_of_leftover hrec hheld⟩

end KoordQueue.Quota.ConservationRuns
