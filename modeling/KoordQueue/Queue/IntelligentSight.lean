import KoordQueue.Queue.IntelligentVersions

namespace KoordQueue.Queue.IntelligentSight

open Api UnitStatus SortedSlice Memory Less Intelligent IntelligentSteps IntelligentScan IntelligentFrames Halves
open IntelligentVersions Partition Deliveries
open Filing (extends_newQueueUnitInfo extends_attempted unit_refreshed)
open Queue.Representation Slice
open Policy (Handle second)
open Steps (attempted refreshed)
open Update (activationChanged)
open Consistency (namedObjects)
open Frames (rounds_cases)

/-- The high-priority units in the order of the scan. -/
def versions (s : State) : List QueueUnit := s.iq.highPriorityQueue.map s.infos.unit

/-- None of the units needs anything, or one that does stands at the position or after it. -/
def Seen (fw : Handle) (position : Nat) (units : List QueueUnit) : Prop :=
  (∀ qu ∈ units, needsNothing fw qu = true) ∨ ∃ qu ∈ units.drop position, needsNothing fw qu = false
deriving Decidable

def InSight (fw : Handle) (s : State) : Prop :=
  s.iq.resetNextIdxFlag = true ∨ Seen fw s.iq.highNextIdx (versions s)

variable (fw : Handle)

/-- The update makes the scan start over. -/
def rewinds (q : IntelligentQueue) (old new : QueueUnit) : Bool :=
  q.resetNextIdxFlag || activationChanged fw old new ||
    (!unchanged fw old new && if isQueueUnitDequeued new then decide (new.key ∈ q.assumed)
      else isQueueUnitReservedAnyResource new && decide (new.key ∉ q.updating) && isQueueUnitAllRunning new) ||
    (isResourceReleased old new && decide (new.status.phase ≠ .schedFailed) && !isQueueUnitDequeued new &&
      decide (new.key ∈ q.queueUnits))

/-- The update leaves the unit at its place in the slice and does not change whether it can run. -/
def Unnoticed (old new qu : QueueUnit) : Prop :=
  priorityOf old = priorityOf new ∧ (unchanged fw old new = true ∨ isQueueUnitDequeued new = false) ∧
    needsNothing fw new = needsNothing fw qu
deriving Decidable

/-- What moves a high-priority unit or changes whether it can run starts the scan over. -/
def KeepsSight (s : State) : Action → Prop
  | .update _ old new => rewinds fw s.iq old new = true ∨
      (∀ qu ∈ versions s, qu.key = new.key → Unnoticed fw old new qu) ∧
        (isHighPriority new s.iq = true → needsNothing fw new = true ∨ ∃ qu ∈ versions s, qu.key = new.key)
  | .errorFunc _ _ (.got qu) _ changed => s.iq.resetNextIdxFlag = true ∨ changed = true ∨
      ∀ held ∈ versions s, held.key = qu.key → needsNothing fw qu = needsNothing fw held
  | .fix g _ => s.iq.resetNextIdxFlag = true ∨ ∀ qu ∈ versions s, g qu = s.iq.name
  | .newInfo .. | .forgetInfos .. | .add .. | .delete .. | .next .. | .reserve .. | .dequeueSuccess ..
  | .addUnschedulable .. | .updateQueueCr .. | .errorFunc _ _ .getNotFound _ _ | .errorFunc _ _ .getFailed _ _
  | .errorFunc _ _ .updateNotFound _ _ => True

instance decidableKeepsSight (s : State) (a : Action) : Decidable (KeepsSight fw s a) := by
  delta KeepsSight
  induction a using IntelligentSteps.Action.casesOn with
  | errorFunc _ _ answer => induction answer using Steps.Answer.casesOn <;> infer_instance
  | _ => infer_instance

variable {fw} {obj : Objects} {s t : State} {now : Time}

variable {units units' : List QueueUnit} {position : Nat}

theorem Seen.of_sublist (h : Seen fw position units)
    (hsub : units.Sublist units') (hmore : ∀ qu ∈ units', qu ∈ units ∨ needsNothing fw qu = true) :
    Seen fw position units' := by
  rcases h with hnone | ⟨qu, hqu, hneeds⟩
  · exact Or.inl (fun qu hqu => (hmore qu hqu).elim (hnone qu) id)
  · exact Or.inr ⟨qu, (hsub.drop position).subset hqu, hneeds⟩

theorem Seen.of_eq (h : Seen fw position units)
    (heq : units'.map (needsNothing fw) = units.map (needsNothing fw)) : Seen fw position units' := by
  have hiff : ∀ l : List QueueUnit, Seen fw position l ↔
      (∀ b ∈ l.map (needsNothing fw), b = true) ∨ false ∈ (l.map (needsNothing fw)).drop position := by
    intro l
    rw [Seen, List.forall_mem_map, ← List.map_drop, List.mem_map]
  rwa [hiff, heq, ← hiff]

theorem InSight.of_eq (h : InSight fw s) (hreset : s.iq.resetNextIdxFlag = true → t.iq.resetNextIdxFlag = true)
    (hposition : t.iq.highNextIdx = s.iq.highNextIdx) (hversions : versions t = versions s) : InSight fw t := by
  rw [InSight, hposition, hversions]
  exact h.imp_left hreset

section Next

variable {m : Infos} {q p : IntelligentQueue} {r : Ref}

theorem scanHigh_position {skip blocked : Ref → Bool} {maxDepth : Int} {rs : List Ref} {i j : Nat} {b c : Bool}
    (h : scanHigh skip blocked maxDepth rs i b = (j, c, some r)) : ∃ k, j = i + k ∧ r ∈ rs.drop k := by
  induction rs generalizing i b with
  | nil => cases h
  | cons x rs ih =>
    rw [scanHigh] at h
    split at h
    next => cases h
    next =>
      split at h
      next =>
        obtain ⟨k, rfl, hin⟩ := ih h
        exact ⟨k + 1, by omega, hin⟩
      next =>
        split at h
        next =>
          obtain ⟨k, rfl, hin⟩ := ih h
          exact ⟨k + 1, by omega, hin⟩
        next =>
          cases h
          exact ⟨0, rfl, List.mem_cons_self⟩

/-- The scan stops at the unit it has found, or has seen that no high-priority
unit from its start on can run. -/
theorem findNextQueueUnit_sight (hdepth : q.maxDepth ≤ 0) (h : findNextQueueUnit fw m q = (p, some r)) :
    r ∈ p.highPriorityQueue.drop p.highNextIdx ∨
      ∀ x ∈ q.highPriorityQueue.drop q.highNextIdx, passedOver fw m x = true := by
  rw [findNextQueueUnit] at h
  split at h
  next i _ x hscan =>
    cases h
    obtain ⟨k, rfl, hin⟩ := scanHigh_position hscan
    left
    rw [List.drop_drop] at hin
    exact hin
  next i available hscan =>
    dsimp only at h
    split at h
    next => cases h
    next hno =>
      rw [not_or, Bool.not_eq_true] at hno
      rw [hno.1] at hscan
      exact Or.inr (scanHigh_unavailable hdepth hscan).2

theorem passedOver_of_inSight (h : InSight fw s)
    (hrest : ∀ x ∈ s.iq.highPriorityQueue.drop (scanStart s.iq), passedOver fw s.infos x = true) :
    ∀ x ∈ s.iq.highPriorityQueue, needsNothing fw (s.infos.unit x) = true := by
  rw [scanStart] at hrest
  split at hrest
  next => exact hrest
  next hflag =>
    rcases h with hreset | hnone | ⟨qu, hqu, hneeds⟩
    · exact absurd hreset hflag
    · exact List.forall_mem_map.mp hnone
    · rw [versions, ← List.map_drop] at hqu
      obtain ⟨y, hy, rfl⟩ := List.mem_map.mp hqu
      exact absurd (hrest y hy) (ne_true_of_eq_false hneeds)

theorem inSight_judge (hdepth : q.maxDepth ≤ 0) (h : InSight fw ⟨m, q⟩) : InSight fw ⟨m, (judge fw m now q).1⟩ := by
  rcases hjudge : judge fw m now q with ⟨p, v⟩
  rcases judge_cases hjudge with ⟨_, _, ⟨-, rfl⟩ | ⟨-, rfl⟩ | ⟨x, -, hp, -, hfind⟩⟩
  · exact Or.inl rfl
  · exact Or.inl rfl
  · obtain ⟨l, hrewound⟩ := rewound_eq q
    rcases findNextQueueUnit_sight (by rw [hrewound]; exact hdepth) hfind with hin | hall
    · refine Or.inr (Or.inr ⟨m.unit x, ?_, (findNextQueueUnit_found hfind).1⟩)
      rw [versions, ← List.map_drop]
      exact List.mem_map_of_mem hin
    · rw [hrewound] at hall
      refine Or.inr (Or.inl ?_)
      rw [versions, List.forall_mem_map, hp]
      have hover := passedOver_of_inSight h hall
      exact hover

theorem inSight_next (hdepth : q.maxDepth ≤ 0) (h : InSight fw ⟨m, q⟩) : InSight fw ⟨m, (next fw m now q).1⟩ := by
  rw [next_eq_rounds]
  rcases rounds_cases q.closed (judge fw m now) (handOut m now) q (I := fun p => p.maxDepth ≤ 0 ∧ InSight fw ⟨m, p⟩)
    ⟨hdepth, h⟩ (fun p hp => ⟨le_of_eq_of_le (congrArg Prod.fst (steady_judge fw m now p)) hp.1,
      inSight_judge hp.1 hp.2⟩) with he | ⟨p, hp, he⟩ | ⟨p, r, hp, he⟩
  · rw [he]
    exact h
  · rw [he]
    exact hp.2
  · rw [he]
    exact hp.2

end Next

section Rewinding

variable {old new : QueueUnit}

theorem reset_dropDequeued : (dropDequeued now old new s).iq.resetNextIdxFlag =
    (s.iq.resetNextIdxFlag || decide (new.key ∈ s.iq.assumed)) := by
  simp only [dropDequeued]
  split
  next hin =>
    obtain ⟨_, _, he⟩ := removeFromQueue_eq (s.infos.newQueueUnitInfo now old) { s.iq with
      assumed := s.iq.assumed.erase new.key
      resetNextIdxFlag := true
      blockedQuota := if (!isQueueUnitDequeued old && s.iq.waitPodsRunning) = true then ∅ else s.iq.blockedQuota }
      (s.infos.fresh now old)
    rw [he, decide_eq_true hin, Bool.or_true]
  next hout =>
    obtain ⟨_, _, he⟩ := removeFromQueue_eq (s.infos.newQueueUnitInfo now old) s.iq (s.infos.fresh now old)
    rw [he, decide_eq_false hout, Bool.or_false]

theorem reset_track (q : IntelligentQueue) : (track new q).resetNextIdxFlag = (q.resetNextIdxFlag ||
    (isQueueUnitReservedAnyResource new && decide (new.key ∉ q.updating) && isQueueUnitAllRunning new)) := by
  rw [track]
  cases hreserved : isQueueUnitReservedAnyResource new with
  | false => simp
  | true =>
    cases hrunning : isQueueUnitAllRunning new with
    | false => simp
    | true =>
      by_cases hupdating : new.key ∈ q.updating
      · simp [hupdating]
      · simp [hupdating]

theorem reset_updateBody : (updateBody fw now old new s).iq.resetNextIdxFlag =
    (s.iq.resetNextIdxFlag || activationChanged fw old new ||
      (!unchanged fw old new && if isQueueUnitDequeued new then decide (new.key ∈ s.iq.assumed)
        else isQueueUnitReservedAnyResource new && decide (new.key ∉ s.iq.updating) && isQueueUnitAllRunning new)) := by
  obtain ⟨s₁, hs₁, hreset, hassumed, hupdating⟩ : ∃ s₁, (if activationChanged fw old new = true then
      { s with iq := { s.iq with resetNextIdxFlag := true } } else s) = s₁ ∧
      s₁.iq.resetNextIdxFlag = (s.iq.resetNextIdxFlag || activationChanged fw old new) ∧
      s₁.iq.assumed = s.iq.assumed ∧ s₁.iq.updating = s.iq.updating := by
    refine ⟨_, rfl, ?_⟩
    cases activationChanged fw old new with
    | true => exact ⟨(Bool.or_true _).symm, rfl, rfl⟩
    | false => exact ⟨(Bool.or_false _).symm, rfl, rfl⟩
  simp only [updateBody]
  rw [hs₁, ← hreset, ← hassumed, ← hupdating]
  cases unchanged fw old new with
  | true => exact (Bool.or_false _).symm
  | false =>
    cases isQueueUnitDequeued new with
    | true => exact reset_dropDequeued
    | false =>
      obtain ⟨_, _, he⟩ := reinsert_eq now old new s₁
      have htrack := @reset_track new (reinsert now old new s₁).iq
      rw [he] at htrack
      simp only [Bool.false_eq_true, if_false, Bool.not_false, Bool.true_and]
      rw [he]
      exact htrack

theorem reset_refresh : (refresh fw old new s).iq.resetNextIdxFlag = (s.iq.resetNextIdxFlag ||
    (decide (new.key ∈ s.iq.queueUnits) && isResourceReleased old new && decide (new.status.phase ≠ .schedFailed))) := by
  rw [refresh]
  split
  next hnone =>
    rw [decide_eq_false (Finmap.lookup_eq_none.mp hnone), Bool.false_and, Bool.false_and, Bool.or_false]
  next r hr =>
    rw [decide_eq_true (Finmap.mem_of_lookup_eq_some hr), Bool.true_and]
    dsimp only
    cases isResourceReleased old new with
    | false => simp
    | true =>
      rw [if_pos rfl, Bool.true_and]
      by_cases hphase : new.status.phase = .schedFailed
      · obtain ⟨_, he⟩ := releaseQuota_eq fw s.iq new
        simp [hphase, he]
      · obtain ⟨_, he⟩ := releaseQuota_eq fw { s.iq with resetNextIdxFlag := true } new
        simp [hphase, he]

theorem mem_updateBody (hkept : unchanged fw old new = true ∨ isQueueUnitDequeued new = false)
    (h : new.key ∈ s.iq.queueUnits) : new.key ∈ (updateBody fw now old new s).iq.queueUnits := by
  obtain ⟨_, _, _, _, _, hbody⟩ := updateBody_eq fw now old new s
  rw [hbody]
  dsimp only
  split
  next => exact h
  next hu => simp [hkept.resolve_left hu]

theorem reset_update (h : rewinds fw s.iq old new = true) : (update fw now old new s).iq.resetNextIdxFlag = true := by
  rw [update, reset_refresh, reset_updateBody]
  rw [rewinds, Bool.or_eq_true] at h
  rcases h with h | h
  · rw [h, Bool.true_or]
  · simp only [Bool.and_eq_true, Bool.not_eq_true', decide_eq_true_eq] at h
    obtain ⟨⟨⟨hreleased, hphase⟩, hdequeued⟩, hin⟩ := h
    rw [decide_eq_true (mem_updateBody (Or.inr hdequeued) hin), hreleased, decide_eq_true hphase]
    exact Bool.or_true _

end Rewinding

section Versions

variable {old new : QueueUnit}

theorem rankOf_congr {m m' : Infos} (hb : Built obj m) (hb' : Built obj m') {r r' : Ref} (hr : m.heap.Allocated r)
    (hr' : m'.heap.Allocated r') (huid : (m'.unit r').uid = (m.unit r).uid)
    (hprio : priorityOf (m'.unit r') = priorityOf (m.unit r)) : rankOf m' r' = rankOf m r := by
  refine (rank_eq_iff _ _).mpr ⟨hprio, ?_, ?_⟩
  · rw [hb.initial hr, hb'.initial hr', huid]
  · rw [hb.name hr, hb'.name hr', hb.key hr, hb'.key hr', huid]

theorem mem_high (h : HalvedAt obj s) {r : Ref} : r ∈ s.iq.highPriorityQueue ↔
    s.iq.queueUnits.lookup (s.infos.key r) = some r ∧ isHighPriority (s.infos.unit r) s.iq = true :=
  (h.mem_half : r ∈ half true s.iq ↔ _)

theorem update_frame : (update fw now old new s).iq.highNextIdx = s.iq.highNextIdx ∧
    (update fw now old new s).iq.priorityThreshold = s.iq.priorityThreshold ∧
    (update fw now old new s).iq.queueUnits = (updateBody fw now old new s).iq.queueUnits ∧
    ∀ key, key ≠ new.key → (update fw now old new s).iq.queueUnits.lookup key = s.iq.queueUnits.lookup key := by
  obtain ⟨_, _, hrefresh⟩ := refresh_eq fw old new (updateBody fw now old new s)
  obtain ⟨_, _, _, _, _, hbody⟩ := updateBody_eq fw now old new s
  rw [update, hrefresh, hbody]
  refine ⟨rfl, rfl, rfl, fun key hne => ?_⟩
  dsimp only
  split
  next => rfl
  next =>
    split
    next => rw [GoMap.lookup_erase_eq, if_neg hne]
    next => rw [GoMap.lookup_insert_eq, if_neg hne]

variable (h : HalvedAt obj s) (hok : Traced obj s (.update now old new))

include h hok

theorem halved_updated : HalvedAt obj (update fw now old new s) :=
  (halved_update h hok.1 hok.2.1 hok.2.2.1 hok.2.2.2.1 (fun r hr => (hok.2.2.2.2 r hr).1)).1

theorem unit_other {r : Ref} (hr : s.iq.queueUnits.lookup (s.infos.key r) = some r) (hne : s.infos.key r ≠ new.key) :
    (update fw now old new s).iq.queueUnits.lookup (s.infos.key r) = some r ∧
      (update fw now old new s).infos.unit r = s.infos.unit r := by
  have hkept : (update fw now old new s).iq.queueUnits.lookup (s.infos.key r) = some r := by
    rw [update_frame.2.2.2 _ hne]
    exact hr
  rcases unit_update h hok hkept with ⟨hk, -⟩ | ⟨-, -, hunit⟩
  · exact absurd hk hne
  · exact ⟨hkept, hunit⟩

theorem rankOf_other {r : Ref} (hr : s.iq.queueUnits.lookup (s.infos.key r) = some r)
    (hne : s.infos.key r ≠ new.key) : rankOf (update fw now old new s).infos r = rankOf s.infos r := by
  obtain ⟨hlookup, hunit⟩ := @unit_other fw obj s now old new h hok r hr hne
  have ht := @halved_updated fw obj s now old new h hok
  exact rankOf_congr h.built ht.built (h.allocated hr) (ht.allocated hlookup) (by rw [hunit]) (by rw [hunit])

theorem mem_high_other {r : Ref} :
    r ∈ (update fw now old new s).iq.highPriorityQueue ∧ (update fw now old new s).infos.key r ≠ new.key ↔
      r ∈ s.iq.highPriorityQueue ∧ s.infos.key r ≠ new.key := by
  rw [mem_high (halved_updated h hok), mem_high h]
  constructor
  · rintro ⟨⟨hlookup, hhigh⟩, hne⟩
    rcases unit_update h hok hlookup with ⟨hk, -⟩ | ⟨-, hold, hunit⟩
    · exact absurd hk hne
    · have hkey : (update fw now old new s).infos.key r = s.infos.key r := congrArg QueueUnit.key hunit
      rw [hkey] at hold hne
      rw [hunit, isHighPriority_congr rfl update_frame.2.1] at hhigh
      exact ⟨⟨hold, hhigh⟩, hne⟩
  · rintro ⟨⟨hlookup, hhigh⟩, hne⟩
    obtain ⟨hkept, hunit⟩ := unit_other h hok hlookup hne
    have hkey : (update fw now old new s).infos.key r = s.infos.key r := congrArg QueueUnit.key hunit
    rw [hkey, hunit, isHighPriority_congr rfl update_frame.2.1]
    exact ⟨⟨hkept, hhigh⟩, hne⟩

/-- Where the slice did not hold the updated unit, it keeps its units in their order. -/
theorem sublist_update (hnone : ∀ qu ∈ versions s, qu.key ≠ new.key) :
    (versions s).Sublist (versions (update fw now old new s)) ∧
      ∀ qu ∈ versions (update fw now old new s), qu ∈ versions s ∨ qu = new ∧ isHighPriority new s.iq = true := by
  have ht := @halved_updated fw obj s now old new h hok
  have hheld : ∀ r ∈ s.iq.highPriorityQueue, s.iq.queueUnits.lookup (s.infos.key r) = some r ∧ s.infos.key r ≠ new.key :=
    fun r hr => ⟨((mem_high h).mp hr).1, hnone _ (List.mem_map_of_mem hr)⟩
  have hkept : s.iq.highPriorityQueue = (update fw now old new s).iq.highPriorityQueue.filter
      (fun r => (update fw now old new s).infos.key r ≠ new.key) := by
    refine @eq_of_mem_iff _ _ _ (rankOf (update fw now old new s).infos) _ _ ?_ ?_ ?_
    · refine ((h true).sorted : Sorted (rankOf s.infos) s.iq.highPriorityQueue).imp_of_mem ?_
      intro a b ha hb hlt
      rwa [rankOf_other h hok (hheld a ha).1 (hheld a ha).2, rankOf_other h hok (hheld b hb).1 (hheld b hb).2]
    · exact ((ht true).sorted : Sorted _ (update fw now old new s).iq.highPriorityQueue).filter _
    · intro r
      rw [List.mem_filter, decide_eq_true_iff, mem_high_other h hok]
      exact ⟨fun hr => ⟨hr, (hheld r hr).2⟩, And.left⟩
  constructor
  · have hmap : versions s = s.iq.highPriorityQueue.map (update fw now old new s).infos.unit :=
      List.map_congr_left (fun r hr => (unit_other h hok (hheld r hr).1 (hheld r hr).2).2.symm)
    rw [hmap, hkept]
    exact List.filter_sublist.map _
  · rw [versions, List.forall_mem_map]
    intro r hr
    obtain ⟨hlookup, hhigh⟩ := (mem_high ht).mp hr
    rcases unit_update h hok hlookup with ⟨-, hunit⟩ | ⟨hne, -, hunit⟩
    · rw [hunit, isHighPriority_congr rfl update_frame.2.1] at hhigh
      exact Or.inr ⟨hunit, hhigh⟩
    · rw [hunit]
      exact Or.inl (List.mem_map_of_mem ((mem_high_other h hok).mp ⟨hr, hne⟩).1)

theorem filed_update (hin : new.key ∈ s.iq.queueUnits)
    (hkept : unchanged fw old new = true ∨ isQueueUnitDequeued new = false) :
    ∃ y, (update fw now old new s).iq.queueUnits.lookup new.key = some y ∧ (update fw now old new s).infos.unit y = new := by
  have hfiled : new.key ∈ (update fw now old new s).iq.queueUnits := by
    rw [update_frame.2.2.1]
    exact mem_updateBody hkept hin
  obtain ⟨y, hy⟩ := Finmap.mem_iff.mp hfiled
  exact ⟨y, hy, (unit_update h hok hy).elim And.right (fun hne => absurd rfl hne.1)⟩

/-- Where the update leaves its unit at its place, the slice has the new version there. -/
theorem versions_update {x : Ref} (hx : s.iq.queueUnits.lookup new.key = some x)
    (hhigh : isHighPriority (s.infos.unit x) s.iq = true) (hprio : priorityOf old = priorityOf new)
    (hkept : unchanged fw old new = true ∨ isQueueUnitDequeued new = false) :
    versions (update fw now old new s) = (versions s).map (fun qu => if qu.key = new.key then new else qu) := by
  have ht := @halved_updated fw obj s now old new h hok
  obtain ⟨y, hy, hunit⟩ := filed_update h hok (Finmap.mem_of_lookup_eq_some hx) hkept
  obtain ⟨huid, hsame⟩ := (hok.2.2.2.2 x hx).1
  have hxin : x ∈ s.iq.highPriorityQueue := (mem_high h).mpr ⟨by rw [h.own hx]; exact hx, hhigh⟩
  have hown : ∀ r ∈ s.iq.highPriorityQueue, s.infos.key r = new.key → r = x := by
    intro r hr hk
    have hlookup := ((mem_high h).mp hr).1
    rw [hk, hx] at hlookup
    exact (Option.some.inj hlookup).symm
  have hrank : ∀ r ∈ s.iq.highPriorityQueue, rankOf (update fw now old new s).infos
      (if s.infos.key r = new.key then y else r) = rankOf s.infos r := by
    intro r hr
    split
    next hk =>
      rw [hown r hr hk]
      apply rankOf_congr h.built ht.built (h.allocated hx) (ht.allocated hy)
      · rw [hunit, ← hok.2.2.2.1, huid]
      · rw [hunit, ← hprio, hsame]
    next hk => exact rankOf_other h hok ((mem_high h).mp hr).1 hk
  have hslice : (update fw now old new s).iq.highPriorityQueue =
      s.iq.highPriorityQueue.map (fun r => if s.infos.key r = new.key then y else r) := by
    refine @eq_of_mem_iff _ _ _ (rankOf (update fw now old new s).infos) _ _ (ht true).sorted ?_ ?_
    · refine List.pairwise_map.mpr (((h true).sorted : Sorted (rankOf s.infos) s.iq.highPriorityQueue).imp_of_mem ?_)
      intro a b ha hb hlt
      rwa [hrank a ha, hrank b hb]
    · intro r
      rw [List.mem_map]
      constructor
      · intro hr
        by_cases hk : (update fw now old new s).infos.key r = new.key
        · have hlookup := ((mem_high ht).mp hr).1
          rw [hk, hy] at hlookup
          exact ⟨x, hxin, by rw [if_pos (h.own hx), Option.some.inj hlookup]⟩
        · obtain ⟨hr', hne⟩ := (mem_high_other h hok).mp ⟨hr, hk⟩
          exact ⟨r, hr', if_neg hne⟩
      · rintro ⟨a, ha, rfl⟩
        split
        next hk =>
          have hkey : (update fw now old new s).infos.key y = new.key := congrArg QueueUnit.key hunit
          rw [mem_high ht, hkey, hunit]
          refine ⟨hy, ?_⟩
          rw [← hhigh]
          exact isHighPriority_congr (hprio.symm.trans hsame.symm) update_frame.2.1
        next hk => exact ((mem_high_other h hok).mpr ⟨ha, hk⟩).1
  rw [versions, versions, hslice, List.map_map, List.map_map]
  apply List.map_congr_left
  intro r hr
  have hkey : s.infos.key r = (s.infos.unit r).key := rfl
  simp only [Function.comp, ← hkey]
  split
  next => exact hunit
  next hk => exact (unit_other h hok ((mem_high h).mp hr).1 hk).2

theorem inSight_update (hsight : InSight fw s) (hkeeps : KeepsSight fw s (.update now old new)) :
    InSight fw (update fw now old new s) := by
  rcases hkeeps with hrewinds | ⟨hplace, hnew⟩
  · exact Or.inl (reset_update hrewinds)
  · by_cases hflag : s.iq.resetNextIdxFlag = true
    · exact Or.inl (reset_update (by rw [rewinds, hflag, Bool.true_or, Bool.true_or, Bool.true_or]))
    · right
      have hseen := hsight.resolve_left hflag
      rw [update_frame.1]
      by_cases hheld : ∃ qu ∈ versions s, qu.key = new.key
      · obtain ⟨_, hqu, hk⟩ := hheld
        obtain ⟨hprio, hkept, -⟩ := hplace _ hqu hk
        obtain ⟨x, hx, rfl⟩ := List.mem_map.mp hqu
        obtain ⟨hlookup, hhigh⟩ := (mem_high h).mp hx
        have hkey : s.infos.key x = new.key := hk
        rw [hkey] at hlookup
        rw [versions_update h hok hlookup hhigh hprio hkept]
        apply hseen.of_eq
        rw [List.map_map]
        apply List.map_congr_left
        intro qu hqu
        rw [Function.comp_apply]
        split
        next hk => exact (hplace qu hqu hk).2.2
        next => rfl
      · obtain ⟨hsub, hmore⟩ := sublist_update h hok (fun qu hqu hk => hheld ⟨qu, hqu, hk⟩)
        refine hseen.of_sublist hsub (fun qu hqu => (hmore qu hqu).imp_right ?_)
        rintro ⟨rfl, hhigh⟩
        exact (hnew hhigh).resolve_right hheld

end Versions

section Steps

theorem inSight_addUnschedulable {m : Infos} (h : InSight fw ⟨m, s.iq⟩) (r : Ref) (changed : Bool) :
    InSight fw (addUnschedulable fw r changed ⟨m, s.iq⟩) := by
  obtain ⟨reset, j, blocked, he⟩ := addUnschedulableIfNotPresent_eq fw m s.iq r changed
  have hreset : s.iq.resetNextIdxFlag = true →
      (addUnschedulableIfNotPresent fw m r changed s.iq).resetNextIdxFlag = true := by
    intro hflag
    rw [addUnschedulableIfNotPresent]
    cases changed with
    | true => rfl
    | false =>
      simp only [Bool.false_eq_true, if_false, blockQuota]
      split
      next =>
        split
        next => exact hflag
        next => exact hflag
      next =>
        split
        next => exact hflag
        next => exact hflag
  apply h.of_eq hreset
  · rw [addUnschedulable, he]
  · rw [addUnschedulable, he]
    rfl

theorem inSight_add (h : InSight fw s) (r : Ref) : InSight fw { s with iq := (addQueueUnitInfo s.infos r s.iq).1 } := by
  rw [addQueueUnitInfo]
  dsimp only
  split
  next => exact h
  next =>
    obtain ⟨q, hq, hsame⟩ : ∃ q, (if isQueueUnitReservedNotRun (s.infos.unit r) = true then
        { s.iq with assumed := insert (s.infos.unit r).key s.iq.assumed } else s.iq) = q ∧ InSight fw ⟨s.infos, q⟩ := by
      refine ⟨_, rfl, ?_⟩
      split
      next => exact h.of_eq id rfl rfl
      next => exact h
    rw [hq]
    split
    next => exact hsame
    next =>
      dsimp only
      split
      next => exact Or.inl rfl
      next hnone =>
        -- Without a reset the high-priority slice is empty.
        rw [not_or, gt_iff_lt, Nat.not_lt, Nat.le_zero] at hnone
        refine Or.inr (Or.inl ?_)
        rw [versions, List.length_eq_zero_iff.mp hnone.1]
        exact fun qu hqu => absurd hqu List.not_mem_nil

theorem high_fix (m : Infos) (refs : List Ref) (q : IntelligentQueue)
    (h : ∀ r ∈ refs, isHighPriority (m.unit r) q = false) :
    (refs.foldl (fun q r => { removeFromQueue m (m.get r) q with
      queueUnits := (removeFromQueue m (m.get r) q).queueUnits.erase (m.key r) }) q).highPriorityQueue =
      q.highPriorityQueue := by
  induction refs generalizing q with
  | nil => rfl
  | cons r refs ih =>
    rw [List.foldl_cons, ih]
    · have hhalf := @half_removeFromQueue m q true (m.get r)
      have hlow : isHighPriority (m.get r).unit q = false := h r List.mem_cons_self
      rw [hlow, if_neg Bool.false_ne_true] at hhalf
      exact hhalf
    · intro x hx
      rw [← h x (List.mem_cons_of_mem _ hx)]
      exact isHighPriority_congr rfl (threshold_removeFromQueue _)

theorem inSight_fix (h : HalvedAt obj s) (hsight : InSight fw s) {g : QueueUnit → String}
    {order : List String} (htruth : order.toFinset = moved g s) (hkeeps : KeepsSight fw s (.fix g order)) :
    InSight fw { s with iq := fix s.infos order s.iq } := by
  obtain ⟨_, _, he⟩ := fix_eq s.infos order s.iq
  rcases hkeeps with hflag | hstay
  · left
    rw [he]
    exact hflag
  · have hhigh : (fix s.infos order s.iq).highPriorityQueue = s.iq.highPriorityQueue := by
      apply high_fix
      intro r hr
      obtain ⟨key, hkey, hlookup⟩ := List.mem_filterMap.mp hr
      rw [← List.mem_toFinset, htruth, moved, Finset.mem_filter, hlookup] at hkey
      by_contra hnot
      rw [Bool.not_eq_false] at hnot
      have hin : r ∈ s.iq.highPriorityQueue := (mem_high h).mpr ⟨by rw [h.own hlookup]; exact hlookup, hnot⟩
      exact of_decide_eq_true hkey.2 (hstay _ (List.mem_map_of_mem hin))
    apply hsight.of_eq
    · intro hflag
      rw [he]
      exact hflag
    · rw [he]
    · rw [versions, hhigh, versions]

theorem inSight_got (h : HalvedAt obj s) (hsight : InSight fw s) {r : Ref}
    (hr : s.infos.heap.Allocated r) {qu : QueueUnit} {reasons : String} {changed : Bool} (hkey : qu.key = s.infos.key r)
    (hkeeps : KeepsSight fw s (.errorFunc now r (.got qu) reasons changed)) :
    InSight fw (errorFunc fw now r (.got qu) reasons changed s) := by
  rcases hkeeps with hflag | rfl | hsame
  · exact inSight_addUnschedulable (m := refreshed now r reasons qu s.infos) (Or.inl hflag) r changed
  · exact Or.inl rfl
  · apply inSight_addUnschedulable
    refine hsight.imp_right (fun hseen => hseen.of_eq ?_)
    rw [versions, versions, List.map_map, List.map_map]
    apply List.map_congr_left
    intro x hx
    have hlookup := ((mem_high h).mp hx).1
    rw [Function.comp_apply, Function.comp_apply, unit_refreshed now hr reasons qu (h.allocated hlookup)]
    split
    next he =>
      subst he
      exact hsame _ (List.mem_map_of_mem hx) hkey.symm
    next => rfl

theorem inSight_step {a : Action} (h : HalvedAt obj s) (hdepth : s.iq.maxDepth ≤ 0)
    (hsight : InSight fw s) (hok : Traced obj s a) (hkeeps : KeepsSight fw s a) (hstep : step fw s a = some t) :
    InSight fw t := by
  obtain ⟨henabled, rfl⟩ := (step_eq_some fw).mp hstep
  have hold : ∀ r ∈ s.iq.highPriorityQueue, s.infos.heap.Allocated r :=
    fun r hr => h.allocated ((mem_high h).mp hr).1
  cases a with
  | newInfo now qu =>
    exact hsight.of_eq id rfl
      (List.map_congr_left (fun r hr => (extends_newQueueUnitInfo s.infos now qu).unit (hold r hr)))
  | forgetInfos present => exact hsight.of_eq id rfl rfl
  | add r => exact inSight_add hsight r
  | delete now qu =>
    obtain ⟨_, he⟩ := delete_eq fw now qu s
    left
    rw [act, he]
  | update now old new => exact inSight_update h hok hsight hkeeps
  | next now => exact inSight_next hdepth hsight
  | reserve r =>
    simp only [act, reserve]
    split
    next => exact hsight
    next => exact hsight.of_eq id rfl rfl
  | dequeueSuccess qu => exact hsight.of_eq id rfl rfl
  | addUnschedulable r changed => exact inSight_addUnschedulable hsight r changed
  | fix g order => exact inSight_fix h hsight henabled.2.2 hkeeps
  | updateQueueCr threshold wait order =>
    simp only [act, updateQueueCr]
    split
    next => exact Or.inl rfl
    next => exact hsight.of_eq id rfl rfl
  | errorFunc now r answer reasons changed =>
    have hr := henabled.1 r List.mem_cons_self
    have hattempted : InSight fw ⟨attempted now r s.infos, s.iq⟩ :=
      hsight.of_eq id rfl (List.map_congr_left (fun x hx => (extends_attempted now hr).unit (hold x hx)))
    cases answer with
    | getNotFound =>
      obtain ⟨_, he⟩ := delete_eq fw now (s.infos.unit r) ⟨attempted now r s.infos, s.iq⟩
      left
      rw [act, errorFunc, he]
    | getFailed => exact inSight_addUnschedulable hattempted r changed
    | updateNotFound => exact hattempted
    | got qu =>
      obtain ⟨hns, hname⟩ := henabled.2
      have hkey : qu.key = s.infos.key r := by rw [QueueUnit.key, hns, hname]; rfl
      exact inSight_got h hsight hr hkey hkeeps

end Steps

/-- In a run without a depth limit in which whatever moves a high-priority unit or changes whether it can run
starts the scan over, `Next` hands out a unit below the threshold only when no unit at or above it can run. -/
theorem high_priority_served_first {name : String} {threshold maxDepth : Int} {wait : Bool} (hdepth : maxDepth ≤ 0)
    {as : List Action} (hg : Run.Guarded (step fw) (fun s a => Traced obj s a ∧ KeepsSight fw s a)
      { iq := newIntelligentQueue {} name threshold maxDepth wait [] } as)
    (hrun : Run.exec (step fw) { iq := newIntelligentQueue {} name threshold maxDepth wait [] } as = some s) {r : Ref}
    (hnext : (next fw s.infos now s.iq).2 = .unit r) (hlow : isHighPriority (s.infos.unit r) s.iq = false)
    {key : String} {x : Ref} (hheld : s.iq.queueUnits.lookup key = some x)
    (hhigh : isHighPriority (s.infos.unit x) s.iq = true) :
    ¬ (isQueueUnitActive (s.infos.unit x) = true ∧ isQueueUnitSatisfied (s.infos.unit x) = false) := by
  have hkeeps : ∀ s a t, (HalvedAt obj s ∧ s.iq.maxDepth ≤ 0 ∧ InSight fw s) →
      (Traced obj s a ∧ KeepsSight fw s a) → step fw s a = some t →
      HalvedAt obj t ∧ t.iq.maxDepth ≤ 0 ∧ InSight fw t :=
    fun s a t hs hok hstep => ⟨halved_step hs.1 hok.1 hstep, (maxDepth_step hstep).le.trans hs.2.1,
      inSight_step hs.1 hs.2.1 hs.2.2 hok.1 hok.2 hstep⟩
  have hstart : Halved obj {} ∅ (newIntelligentQueue {} name threshold maxDepth wait []) ∧
      (newIntelligentQueue {} name threshold maxDepth wait []).maxDepth ≤ 0 ∧
      InSight fw { iq := newIntelligentQueue {} name threshold maxDepth wait [] } :=
    ⟨(current_newIntelligentQueue obj name threshold maxDepth wait).halved, hdepth, Or.inr (Or.inl (fun qu hqu => absurd hqu List.not_mem_nil))⟩
  obtain ⟨hhalved, hnone, hsight⟩ := Run.invariant hkeeps hstart hg hrun
  obtain ⟨_, _, hplace⟩ := next_unit hnext
  rcases hplace with hin | ⟨_, hrest⟩
  · rw [((mem_high hhalved).mp hin).2] at hlow
    cases hlow
  · have hover := passedOver_of_inSight hsight (hrest hnone) x
      ((mem_high hhalved).mpr ⟨by rw [hhalved.own hheld]; exact hheld, hhigh⟩)
    rintro ⟨hactive, hneeds⟩
    simp [needsNothing, hactive, hneeds] at hover

def inPhase (phase : QueueUnitPhase) (qu : QueueUnit) : QueueUnit := { qu with status := { qu.status with phase } }

/-- The scan passes a unit that has what it asks for, and the unit before it leaves when it has run. -/
def passedSatisfied : List Action :=
  [.newInfo 0 (workers "a" "1" "x" 9 1 0), .newInfo 0 (workers "b" "1" "y" 8 1 1),
    .newInfo 0 (workers "c" "1" "z" 1 1 0), .add 0, .add 1, .add 2, .next 0, .reserve 0,
    .dequeueSuccess (workers "a" "2" "x" 9 1 1),
    .update second (workers "b" "1" "y" 8 1 1) (inPhase .dequeued (workers "b" "2" "y" 8 1 1)),
    .update second (workers "a" "1" "x" 9 1 0) (inPhase .succeed (workers "a" "3" "x" 9 1 1)), .next second]

theorem high_priority_served_first_satisfied :
    ∃ s, Run.exec (step labelQuota) emptyIntelligent passedSatisfied = some s ∧
      (next labelQuota s.infos (10 * second) s.iq).2 = .unit 2 ∧ s.infos.key 2 = "ns/c" ∧
      s.iq.queueUnits.lookup "ns/b" = some 4 ∧ isHighPriority (s.infos.unit 4) s.iq = true ∧
      ¬ (isQueueUnitActive (s.infos.unit 4) = true ∧ isQueueUnitSatisfied (s.infos.unit 4) = false) := by
  obtain ⟨s, hrun, hnext, hlow, hkey, hheld, hhigh⟩ : ∃ s,
      Run.exec (step labelQuota) emptyIntelligent passedSatisfied = some s ∧
      (next labelQuota s.infos (10 * second) s.iq).2 = .unit 2 ∧ isHighPriority (s.infos.unit 2) s.iq = false ∧
      s.infos.key 2 = "ns/c" ∧ s.iq.queueUnits.lookup "ns/b" = some 4 ∧ isHighPriority (s.infos.unit 4) s.iq = true :=
      by decide +kernel
  have hg : Run.Guarded (step labelQuota) (fun s a => Traced namedObjects s a ∧ KeepsSight labelQuota s a)
      emptyIntelligent passedSatisfied := by decide +kernel
  exact ⟨s, hrun, hnext, hkey, hheld, hhigh,
    high_priority_served_first (by decide) hg hrun hnext hlow hheld hhigh⟩

/-- The scan has passed a unit whose quota is blocked, and the unit behind it
gets the last worker it asked for. -/
def passedBlocked : List Action :=
  [.newInfo 0 (workers "a" "1" "x" 9 1 0), .newInfo 0 (workers "b" "1" "y" 8 2 1),
    .newInfo 0 (workers "c" "1" "z" 1 1 0), .add 0, .add 1, .add 2, .next 0, .addUnschedulable 0 false,
    .next (10 * second), .reserve 1, .dequeueSuccess (workers "b" "2" "y" 8 2 2),
    .update (10 * second) (workers "b" "1" "y" 8 2 1) (workers "b" "2" "y" 8 2 2)]

theorem low_priority_overtakes_blocked :
    ∃ s, Run.exec (step labelQuota) emptyIntelligent passedBlocked = some s ∧
      (next labelQuota s.infos (20 * second) s.iq).2 = .unit 2 ∧
      isHighPriority (s.infos.unit 2) s.iq = false ∧ s.iq.queueUnits.lookup "ns/a" = some 0 ∧
      isHighPriority (s.infos.unit 0) s.iq = true ∧ isQueueUnitActive (s.infos.unit 0) = true ∧
      isQueueUnitSatisfied (s.infos.unit 0) = false := by
  decide +kernel

end KoordQueue.Queue.IntelligentSight
