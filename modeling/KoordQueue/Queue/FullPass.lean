import KoordQueue.Queue.Consistency
import KoordQueue.Queue.Scan
import KoordQueue.Scheduler.Cycle

namespace KoordQueue.Queue.FullPass

open Api UnitInfo Memory Less Policy Update Steps Frames Filing
open Queue.Representation Slice Consistency
open Scheduler.Cycle (copiedUnit)

/-- How a scheduling cycle ends for the queue, with the quotas as they were at its start. When the
plugins refuse to reserve, what comes back is the info of a copy. -/
inductive Outcome
  | reserved
  | failed (answer : Answer) (reasons : String)
  | refused (answer : Answer) (reasons : String)

/-- The unit was reserved, or came back to the queue. -/
def Outcome.Returns : Outcome → Prop
  | .reserved | .failed .getFailed _ | .failed (.got _) _ | .refused .getFailed _ | .refused (.got _) _ => True
  | .failed .getNotFound _ | .failed .updateNotFound _ | .refused .getNotFound _ | .refused .updateNotFound _ => False

def finish (fw : Handle) (now : Time) (r : Ref) (s : State) : Outcome → Option State
  | .reserved => if (reserve s.infos now r s.pq).2 = .ok then step fw s (.reserve now r) else none
  | .failed answer reasons => step fw s (.errorFunc now r answer reasons false)
  | .refused answer reasons => (step fw s (.newInfo now (copiedUnit (s.infos.unit r)))).bind (fun t =>
    step fw t (.errorFunc now s.infos.heap.next answer reasons false))

/-- A call of `Next`, and the cycle of the unit that it returns. -/
def attempt (fw : Handle) (now : Time) (outcome : Ref → Outcome) (s : State) : Option (State × Option Ref) :=
  match next fw s.infos now s.pq with
  | (pq, .unit r) => (finish fw now r ⟨s.infos, pq⟩ (outcome r)).map (fun s => (s, some r))
  | (pq, _) => some (⟨s.infos, pq⟩, none)

def limited (maxDepth : Int) (i : Nat) (rest : List Ref) : List Ref :=
  if maxDepth > 0 then rest.take (maxDepth.toNat - i) else rest

def ahead (skip : Ref → Bool) (maxDepth : Int) (rest : List Ref) (i : Nat) : List Ref :=
  (limited maxDepth i rest).filter (fun r => !skip r)

def offers (fw : Handle) (s : State) : List Ref :=
  ahead (skips fw s.infos s.pq) s.pq.maxDepth (s.pq.queue.drop s.pq.nextIdx) s.pq.nextIdx

section Scan

variable {skip : Ref → Bool} {maxDepth : Int} {i : Nat} {r : Ref} {rest : List Ref}

theorem limited_nil : limited maxDepth i [] = [] := by
  rw [limited, List.take_nil]
  split <;> rfl

theorem limited_sublist (maxDepth : Int) (i : Nat) (rest : List Ref) : (limited maxDepth i rest).Sublist rest := by
  rw [limited]
  split
  next => exact List.take_sublist _ _
  next => exact List.Sublist.refl _

theorem limited_cons_stop (h : maxDepth > 0 ∧ (i : Int) ≥ maxDepth) : limited maxDepth i (r :: rest) = [] := by
  rw [limited, if_pos h.1, show maxDepth.toNat - i = 0 by omega, List.take_zero]

theorem limited_cons (h : ¬ (maxDepth > 0 ∧ (i : Int) ≥ maxDepth)) :
    limited maxDepth i (r :: rest) = r :: limited maxDepth (i + 1) rest := by
  rw [limited, limited]
  split
  next hd => rw [show maxDepth.toNat - i = (maxDepth.toNat - (i + 1)) + 1 by omega, List.take_succ_cons]
  next => rfl

theorem ahead_cons (h : ¬ (maxDepth > 0 ∧ (i : Int) ≥ maxDepth)) :
    ahead skip maxDepth (r :: rest) i =
      if skip r then ahead skip maxDepth rest (i + 1) else r :: ahead skip maxDepth rest (i + 1) := by
  rw [ahead, limited_cons h, List.filter_cons, ahead]
  cases skip r <;> rfl

theorem ahead_of_scan_none {j : Nat} (h : scan skip maxDepth rest i = (j, none)) : ahead skip maxDepth rest i = [] := by
  induction rest generalizing i with
  | nil => rw [ahead, limited_nil, List.filter_nil]
  | cons x rest ih =>
    rw [scan] at h
    split at h
    next hstop => rw [ahead, limited_cons_stop hstop, List.filter_nil]
    next hgo =>
      rw [ahead_cons hgo]
      split at h
      next hskip =>
        rw [if_pos hskip]
        exact ih h
      next => cases h

theorem ahead_of_scan_some {j : Nat} (h : scan skip maxDepth rest i = (j, some r)) :
    ∃ k post, j = i + k ∧ rest.drop k = r :: post ∧
      ahead skip maxDepth rest i = r :: ahead skip maxDepth post (j + 1) := by
  induction rest generalizing i with
  | nil => cases h
  | cons x rest ih =>
    rw [scan] at h
    split at h
    next => cases h
    next hgo =>
      rw [ahead_cons hgo]
      split at h
      next hskip =>
        obtain ⟨k, post, hj, hdrop, hahead⟩ := ih h
        exact ⟨k + 1, post, by omega, hdrop, by rw [if_pos hskip, hahead]⟩
      next hskip =>
        cases h
        exact ⟨0, rest, rfl, rfl, by rw [if_neg hskip]⟩

end Scan

structure Passing (q : PriorityQueue) : Prop where
  flag : q.resetNextIdxFlag = false
  blocked : q.blocked = false
  blockedQuota : q.blockedQuota = ∅
  closed : q.closed = false

structure Kept (p q : PriorityQueue) : Prop where
  queue : q.queue = p.queue
  maxDepth : q.maxDepth = p.maxDepth
  queueUnits : q.queueUnits = p.queueUnits
  lastResetTime : q.lastResetTime = p.lastResetTime
  passing : Passing q

section Attempt

variable {fw : Handle} {now : Time} {s t : State} {r : Ref}

variable {answer : Answer} {m : Infos} {obj : Objects} {p q : PriorityQueue} {reasons : String} {start : Time}

theorem rewindDue_kept (h : Kept p q) (hp : Passing p) (now : Time) : rewindDue now q = rewindDue now p := by
  rw [rewindDue, rewindDue, getQueueMaxResetDuration, getQueueMaxResetDuration, h.queueUnits, h.maxDepth,
    h.lastResetTime, h.passing.flag, hp.flag]

theorem next_offers (fw : Handle) (hp : Passing s.pq) (hdue : rewindDue now s.pq = false) :
    (offers fw s = [] ∧ ∃ i, next fw s.infos now s.pq = ({ s.pq with nextIdx := i, resetNextIdxFlag := true }, .wait)) ∨
    ∃ r post j, next fw s.infos now s.pq = (handOut s.infos now r { s.pq with nextIdx := j }, .unit r) ∧
      s.pq.queue.drop j = r :: post ∧
      offers fw s = r :: ahead (skips fw s.infos s.pq) s.pq.maxDepth post (j + 1) := by
  have hfind : findNextQueueUnit fw s.infos now s.pq =
      ({ s.pq with nextIdx := (scan (skips fw s.infos s.pq) s.pq.maxDepth (s.pq.queue.drop s.pq.nextIdx) s.pq.nextIdx).1 },
        (scan (skips fw s.infos s.pq) s.pq.maxDepth (s.pq.queue.drop s.pq.nextIdx) s.pq.nextIdx).2) := by
    rw [findNextQueueUnit, rewind, hdue]
    rfl
  cases hscan : scan (skips fw s.infos s.pq) s.pq.maxDepth (s.pq.queue.drop s.pq.nextIdx) s.pq.nextIdx with
  | mk j found =>
    rw [hscan] at hfind
    cases found with
    | none =>
      refine Or.inl ⟨ahead_of_scan_none hscan, j, ?_⟩
      simp only [next, hp.closed, judge, hfind, hp.blockedQuota]
      simp
    | some r =>
      obtain ⟨k, post, hj, hdrop, hahead⟩ := ahead_of_scan_some hscan
      refine Or.inr ⟨r, post, j, ?_, ?_, hahead⟩
      · simp only [next, hp.closed, judge, hfind, hp.blocked]
        simp
      · rw [hj, ← List.drop_drop, hdrop]

structure Sliced (s : State) : Prop where
  allocated : ∀ x ∈ s.pq.queue, s.infos.heap.Allocated x
  keys : s.pq.queue.Pairwise (fun a b => s.infos.key a ≠ s.infos.key b)

structure Finished (fw : Handle) (s t : State) (r : Ref) : Prop where
  kept : Kept s.pq t.pq
  nextIdx : t.pq.nextIdx = s.pq.nextIdx + 1
  allocated : ∀ x ∈ s.pq.queue, t.infos.heap.Allocated x
  key : ∀ x ∈ s.pq.queue, t.infos.key x = s.infos.key x
  unit : ∀ x ∈ s.pq.queue, s.infos.key x ≠ s.infos.key r → t.infos.unit x = s.infos.unit x
  skips : ∀ x ∈ s.pq.queue, s.infos.key x ≠ s.infos.key r → skips fw t.infos t.pq x = skips fw s.infos s.pq x

theorem skips_congr {m' : Infos} {x : Ref} (hunit : m'.unit x = m.unit x)
    (hup : m.key x ∈ q.updating ↔ m.key x ∈ p.updating) (hquota : q.blockedQuota = p.blockedQuota) :
    skips fw m' q x = skips fw m p x := by
  have hkey : m'.key x = m.key x := congrArg QueueUnit.key hunit
  simp only [skips, hkey, hunit, hquota, hup]

theorem finished_reserved (hp : Passing s.pq) (hs : Sliced s) (h : finish fw now r s .reserved = some t) :
    Finished fw s t r := by
  rw [finish] at h
  split at h
  next hok =>
    obtain ⟨_, rfl⟩ := (step_eq_some fw).mp h
    obtain ⟨_, _, hres⟩ | ⟨hno, _⟩ := reserve_cases s.infos now s.pq r
    · rw [hp.blocked, hp.flag] at hres
      rw [act, hres]
      refine ⟨⟨rfl, rfl, rfl, rfl, ⟨rfl, rfl, hp.blockedQuota, hp.closed⟩⟩, rfl, hs.allocated,
        fun _ _ => rfl, fun _ _ _ => rfl, fun x _ hne => skips_congr rfl ?_ rfl⟩
      exact ⟨fun hin => (Finset.mem_insert.mp hin).resolve_left hne, Finset.mem_insert_of_mem⟩
    · exact absurd hok hno
  next => cases h

theorem finished_unschedulable (hp : Passing s.pq) (hm : ∀ x ∈ s.pq.queue, m.heap.Allocated x)
    (hkey : ∀ x ∈ s.pq.queue, m.key x = s.infos.key x) (hr : m.key r = s.infos.key r)
    (hunit : ∀ x ∈ s.pq.queue, s.infos.key x ≠ s.infos.key r → m.unit x = s.infos.unit x) :
    Finished fw s (addUnschedulable fw r false { s with infos := m }) r := by
  have hq : addUnschedulableIfNotPresent fw m r false s.pq = { s.pq with
      nextIdx := s.pq.nextIdx + 1
      assumed := s.pq.assumed.erase (s.infos.key r)
      updating := s.pq.updating.erase (s.infos.key r) } := by
    simp [addUnschedulableIfNotPresent, hp.blocked, hr]
  rw [addUnschedulable, hq]
  refine ⟨⟨rfl, rfl, rfl, rfl, ⟨hp.flag, hp.blocked, hp.blockedQuota, hp.closed⟩⟩, rfl, hm, hkey, hunit,
    fun x hx hne => skips_congr (hunit x hx hne) ?_ rfl⟩
  exact ⟨Finset.mem_of_mem_erase, fun hin => Finset.mem_erase.mpr ⟨hne, hin⟩⟩

theorem finished_failed (hp : Passing s.pq) (hs : Sliced s)
    (hret : (Outcome.failed answer reasons).Returns) (h : finish fw now r s (.failed answer reasons) = some t) :
    Finished fw s t r := by
  obtain ⟨he, rfl⟩ := (step_eq_some fw).mp h
  have hr := allocated_of_enabled now he
  have hext := extends_attempted now hr
  cases answer with
  | getNotFound | updateNotFound => cases hret
  | getFailed =>
    refine finished_unschedulable hp (fun x hx => (hext x (hs.allocated x hx)).1) (fun x hx => ?_) ?_ (fun x hx _ => ?_)
    · rw [Infos.key, hext.unit (hs.allocated x hx), Infos.key]
    · rw [Infos.key, hext.unit hr, Infos.key]
    · exact hext.unit (hs.allocated x hx)
  | got qu =>
    have hkey {x : Ref} (hx : s.infos.heap.Allocated x) :
        (refreshed now r reasons qu s.infos).key x = s.infos.key x := by
      rw [Infos.key, unit_refreshed now hr reasons qu hx]
      split
      next hxr => rw [key_of_enabled now he, hxr]
      next => rfl
    refine finished_unschedulable hp (fun x hx => ?_) (fun x hx => hkey (hs.allocated x hx)) (hkey hr) (fun x hx hne => ?_)
    · exact (Heap.allocated_set _ _ _ _).mpr (hext x (hs.allocated x hx)).1
    · rw [unit_refreshed now hr reasons qu (hs.allocated x hx), if_neg]
      rintro rfl
      exact hne rfl

/-- The copy has the key of the unit, and the infos in the queue do not change when it is made. -/
theorem finished_refused (hp : Passing s.pq) (hs : Sliced s)
    (hret : (Outcome.refused answer reasons).Returns) (h : finish fw now r s (.refused answer reasons) = some t) :
    Finished fw s t r := by
  rw [finish] at h
  obtain ⟨u, hu, ht⟩ := Option.bind_eq_some_iff.mp h
  obtain ⟨-, rfl⟩ := (step_eq_some fw).mp hu
  have hunit : ∀ x ∈ s.pq.queue,
      (s.infos.newQueueUnitInfo now (copiedUnit (s.infos.unit r))).unit x = s.infos.unit x := fun x hx =>
    congrArg QueueUnitInfo.unit (Infos.get_newQueueUnitInfo (hs.allocated x hx) _ _)
  have hkey : ∀ x ∈ s.pq.queue, (s.infos.newQueueUnitInfo now (copiedUnit (s.infos.unit r))).key x = s.infos.key x :=
    fun x hx => congrArg QueueUnit.key (hunit x hx)
  have hcopy : (s.infos.newQueueUnitInfo now (copiedUnit (s.infos.unit r))).key s.infos.heap.next = s.infos.key r := by
    rw [Infos.key, Infos.unit_newQueueUnitInfo]
    rfl
  have hs' : Sliced (act fw s (.newInfo now (copiedUnit (s.infos.unit r)))) := by
    refine ⟨fun x hx => (Heap.allocated_alloc _ _ _).mpr (.inl (hs.allocated x hx)), hs.keys.imp_of_mem ?_⟩
    intro a b ha hb hne
    rwa [act, hkey a ha, hkey b hb]
  have hret' : (Outcome.failed answer reasons).Returns := by
    cases answer with
    | getFailed | got qu => trivial
    | getNotFound | updateNotFound => cases hret
  have hf := finished_failed (s := act fw s (.newInfo now (copiedUnit (s.infos.unit r)))) hp hs' hret' ht
  refine ⟨hf.kept, hf.nextIdx, hf.allocated, fun x hx => (hf.key x hx).trans (hkey x hx), fun x hx hne => ?_,
    fun x hx hne => ?_⟩
  · refine (hf.unit x hx ?_).trans (hunit x hx)
    rwa [act, hkey x hx, hcopy]
  · refine (hf.skips x hx ?_).trans (skips_congr (hunit x hx) Iff.rfl rfl)
    rwa [act, hkey x hx, hcopy]

theorem finished (hp : Passing s.pq) (hs : Sliced s) {outcome : Outcome} (hret : outcome.Returns)
    (h : finish fw now r s outcome = some t) : Finished fw s t r := by
  cases outcome with
  | reserved => exact finished_reserved hp hs h
  | failed answer reasons => exact finished_failed hp hs hret h
  | refused answer reasons => exact finished_refused hp hs hret h

theorem sliced_finished (hs : Sliced s) (h : Finished fw s t r) : Sliced t where
  allocated x hx := h.allocated x (h.kept.queue ▸ hx)
  keys := by
    rw [h.kept.queue]
    refine hs.keys.imp_of_mem (fun ha hb hne => ?_)
    rwa [h.key _ ha, h.key _ hb]

theorem attempt_offers (hp : Passing s.pq) (hs : Sliced s) (hdue : rewindDue now s.pq = false)
    {outcome : Ref → Outcome} (hret : ∀ r, (outcome r).Returns) {l : List Ref} (hl : offers fw s = r :: l)
    {found : Option Ref} (h : attempt fw now outcome s = some (t, found)) :
    found = some r ∧ offers fw t = l ∧ (∀ x ∈ l, t.infos.unit x = s.infos.unit x) ∧ Kept s.pq t.pq ∧ Sliced t := by
  obtain ⟨hnil, _⟩ | ⟨r', post, j, hnext, hdrop, hoffers⟩ := next_offers fw hp hdue
  · rw [hnil] at hl
    cases hl
  · rw [hoffers, List.cons.injEq] at hl
    obtain ⟨rfl, hl⟩ := hl
    rw [attempt, hnext] at h
    obtain ⟨u, hu, he⟩ := Option.map_eq_some_iff.mp h
    cases he
    have hs' : Sliced ⟨s.infos, handOut s.infos now r' { s.pq with nextIdx := j }⟩ := ⟨hs.allocated, hs.keys⟩
    have hf := finished (s := ⟨s.infos, handOut s.infos now r' { s.pq with nextIdx := j }⟩)
      ⟨hp.flag, hp.blocked, hp.blockedQuota, hp.closed⟩ hs' (hret r') hu
    have hkept : Kept s.pq t.pq :=
      ⟨hf.kept.queue, hf.kept.maxDepth, hf.kept.queueUnits, hf.kept.lastResetTime, hf.kept.passing⟩
    have hpost : t.pq.queue.drop (j + 1) = post := by
      rw [hkept.queue, ← List.drop_drop, hdrop]
      rfl
    have hidx : t.pq.nextIdx = j + 1 := hf.nextIdx
    have hsub : (r' :: post).Sublist s.pq.queue := hdrop ▸ List.drop_sublist j s.pq.queue
    have hbehind (x : Ref) (hx : x ∈ limited s.pq.maxDepth (j + 1) post) :
        x ∈ s.pq.queue ∧ s.infos.key x ≠ s.infos.key r' := by
      have hx : x ∈ post := (limited_sublist _ _ _).subset hx
      exact ⟨hsub.subset (List.mem_cons_of_mem r' hx), (List.rel_of_pairwise_cons (hs.keys.sublist hsub) hx).symm⟩
    refine ⟨rfl, ?_, fun x hx => ?_, hkept, sliced_finished hs' hf⟩
    · rw [offers, hidx, hpost, hkept.maxDepth, ← hl, ahead, ahead]
      refine List.filter_congr (fun x hx => ?_)
      rw [hf.skips x (hbehind x hx).1 (hbehind x hx).2]
      rfl
    · rw [← hl] at hx
      obtain ⟨hin, hne⟩ := hbehind x (List.mem_of_mem_filter hx)
      exact hf.unit x hin hne

def attempts (fw : Handle) : List (Time × (Ref → Outcome)) → State → Option (State × List Ref)
  | [], s => some (s, [])
  | (now, outcome) :: rest, s => (attempt fw now outcome s).bind (fun (s, found) =>
    (attempts fw rest s).map (fun (s, refs) => (s, found.toList ++ refs)))

theorem attempts_offers {as : List (Time × (Ref → Outcome))} (hp : Passing s.pq) (hs : Sliced s)
    (hdue : ∀ a ∈ as, rewindDue a.1 s.pq = false) (hret : ∀ a ∈ as, ∀ r, (a.2 r).Returns)
    {refs : List Ref} (h : attempts fw as s = some (t, refs)) (hlen : as.length ≤ (offers fw s).length) :
    refs = (offers fw s).take as.length ∧ offers fw t = (offers fw s).drop as.length ∧
      Passing t.pq ∧ ∀ now, rewindDue now t.pq = rewindDue now s.pq := by
  induction as generalizing s refs with
  | nil =>
    cases h
    exact ⟨rfl, rfl, hp, fun _ => rfl⟩
  | cons a as ih =>
    cases hl : offers fw s with
    | nil =>
      rw [hl] at hlen
      cases hlen
    | cons r l =>
      obtain ⟨⟨u, found⟩, hu, h⟩ := Option.bind_eq_some_iff.mp h
      obtain ⟨⟨v, refs'⟩, hv, he⟩ := Option.map_eq_some_iff.mp h
      cases he
      obtain ⟨rfl, hu', _, hkept, hsu⟩ := attempt_offers hp hs (hdue a List.mem_cons_self) (hret a List.mem_cons_self) hl hu
      have hdue' : ∀ b ∈ as, rewindDue b.1 u.pq = false := by
        intro b hb
        rw [rewindDue_kept hkept hp]
        exact hdue b (List.mem_cons_of_mem a hb)
      have hlen' : as.length ≤ (offers fw u).length := by
        rw [hl] at hlen
        rw [hu']
        exact Nat.le_of_succ_le_succ hlen
      obtain ⟨hrefs, hrest, hpass, hsame⟩ :=
        ih hkept.passing hsu hdue' (fun b hb => hret b (List.mem_cons_of_mem a hb)) hv hlen'
      rw [hu'] at hrefs hrest
      refine ⟨by rw [hrefs]; rfl, hrest, hpass, fun now => ?_⟩
      rw [hsame, rewindDue_kept hkept hp]

def eligible (fw : Handle) (s : State) : List Ref := ahead (skips fw s.infos s.pq) s.pq.maxDepth s.pq.queue 0

theorem sliced_of_represented (h : Represented obj s) : Sliced s where
  allocated := h.filed.slice
  keys := List.pairwise_map.mp (consistent_of_represented h).keys

theorem getQueueMaxResetDuration_pos (q : PriorityQueue) : 0 < getQueueMaxResetDuration q := by
  simp only [getQueueMaxResetDuration]
  split <;> split <;> decide

theorem rewindDue_rewind (now : Time) (q : PriorityQueue) : rewindDue now (rewind now q) = false := by
  rw [rewind]
  split
  next =>
    simp only [rewindDue, Bool.false_or, decide_eq_false_iff_not, sub_self]
    exact not_lt.mpr (getQueueMaxResetDuration_pos _).le
  next h => exact Bool.eq_false_iff.mpr h

theorem next_rewind (fw : Handle) (m : Infos) (now : Time) (hopen : q.closed = false) :
    next fw m now (rewind now q) = next fw m now q := by
  have hsame : rewind now (rewind now q) = rewind now q := by
    rw [rewind, rewindDue_rewind]
    rfl
  have hjudge : judge fw m now (rewind now q) = judge fw m now q := by
    rw [judge, findNextQueueUnit, hsame, judge, findNextQueueUnit]
  have hclosed : (rewind now q).closed = q.closed := by
    rw [rewind]
    split <;> rfl
  rw [next, next, hclosed, hjudge, hopen]
  rfl

theorem attempt_rewind (fw : Handle) (now : Time) (outcome : Ref → Outcome) (hopen : s.pq.closed = false) :
    attempt fw now outcome ⟨s.infos, rewind now s.pq⟩ = attempt fw now outcome s := by
  rw [attempt, next_rewind fw s.infos now hopen, attempt]

/-- The pass that a rewind at `start` begins. -/
structure Begun (fw : Handle) (start : Time) (s : State) : Prop where
  passing : Passing (rewind start s.pq)
  sliced : Sliced ⟨s.infos, rewind start s.pq⟩
  offers : offers fw ⟨s.infos, rewind start s.pq⟩ = eligible fw s
  window : ∀ now, now - start ≤ getQueueMaxResetDuration s.pq → rewindDue now (rewind start s.pq) = false

theorem begun (fw : Handle) (hrep : Represented obj s) (hblocked : s.pq.blocked = false)
    (hquota : s.pq.blockedQuota = ∅) (hopen : s.pq.closed = false) (hdue : rewindDue start s.pq = true) :
    Begun fw start s := by
  have hrewind : rewind start s.pq = { s.pq with nextIdx := 0, resetNextIdxFlag := false, lastResetTime := start } := by
    rw [rewind, if_pos hdue]
  have hs := sliced_of_represented hrep
  refine ⟨?_, ?_, ?_, fun now hnow => ?_⟩
  · rw [hrewind]
    exact ⟨rfl, hblocked, hquota, hopen⟩
  · rw [hrewind]
    exact ⟨hs.allocated, hs.keys⟩
  · rw [hrewind]
    rfl
  · rw [hrewind, rewindDue, Bool.false_or, decide_eq_false_iff_not]
    exact not_lt.mpr hnow

theorem Begun.all_window (h : Begun fw start s) (times : List Time)
    (hwindow : ∀ now ∈ times, now - start ≤ getQueueMaxResetDuration s.pq) :
    ∀ now ∈ start :: times, rewindDue now (rewind start s.pq) = false := by
  intro now hnow
  obtain rfl | hnow := List.mem_cons.mp hnow
  · exact rewindDue_rewind now s.pq
  · exact h.window now (hwindow now hnow)

theorem eligible_sublist (fw : Handle) (s : State) : (eligible fw s).Sublist s.pq.queue :=
  List.filter_sublist.trans (limited_sublist s.pq.maxDepth 0 s.pq.queue)

/-- Under the Priority policy a pass that starts with a rewind and is not disturbed hands out each
eligible unit once, in the order of the queue, whatever becomes of them. After that `Next` waits. -/
theorem pass_offers_each_once {obj : Objects} {a : Time × (Ref → Outcome)} {as : List (Time × (Ref → Outcome))}
    {refs : List Ref} (hrep : Represented obj s) (hblocked : s.pq.blocked = false)
    (hquota : s.pq.blockedQuota = ∅) (hopen : s.pq.closed = false) (hdue : rewindDue a.1 s.pq = true)
    (hwindow : ∀ b ∈ as, b.1 - a.1 ≤ getQueueMaxResetDuration s.pq)
    (hret : ∀ b ∈ a :: as, ∀ r, (b.2 r).Returns) (hlen : (a :: as).length = (eligible fw s).length)
    (h : attempts fw (a :: as) s = some (t, refs)) :
    refs = eligible fw s ∧ refs.Nodup ∧ refs.Pairwise (fun x y => less (s.infos.get x) (s.infos.get y) ≤ 0) ∧
      ∀ now, now - a.1 ≤ getQueueMaxResetDuration s.pq → (next fw t.infos now t.pq).2 = .wait := by
  have hb := begun fw hrep hblocked hquota hopen hdue
  have hall : ∀ b ∈ a :: as, rewindDue b.1 (rewind a.1 s.pq) = false := by
    intro b hin
    refine hb.all_window (as.map Prod.fst) ?_ b.1 (List.mem_map_of_mem (f := Prod.fst) hin)
    exact List.forall_mem_map.mpr hwindow
  rw [attempts, ← attempt_rewind fw a.1 a.2 hopen] at h
  obtain ⟨hrefs, hrest, hpass, hsame⟩ := attempts_offers hb.passing hb.sliced hall hret h (by rw [hb.offers, hlen])
  rw [hb.offers, hlen, List.take_length] at hrefs
  rw [hb.offers, hlen, List.drop_length] at hrest
  have hsub : refs.Sublist s.pq.queue := hrefs ▸ eligible_sublist fw s
  refine ⟨hrefs, hrep.nodup.sublist hsub, (consistent_of_represented hrep).sorted.sublist hsub, fun now hnow => ?_⟩
  obtain ⟨_, i, hnext⟩ | ⟨r, post, j, _, _, hcons⟩ :=
    next_offers fw hpass ((hsame now).trans (hb.window now hnow))
  · rw [hnext]
  · rw [hrest] at hcons
    cases hcons

end Attempt

def bothOutcomes : List (Time × (Ref → Outcome)) := [(1, fun _ => .reserved), (2, fun _ => .refused .getFailed "no quota")]

theorem pass_offers_each_once_two :
    ∃ s t, Run.exec (step noQuotas) emptyQueue [.newInfo 0 high, .newInfo 0 low, .add 1, .add 0] = some s ∧
      attempts noQuotas bothOutcomes s = some (t, [0, 1]) ∧ (next noQuotas t.infos 3 t.pq).2 = .wait := by
  obtain ⟨s, hrun, hblocked, hquota, hopen, hdue, hsecond, hthird, hel, hsome⟩ : ∃ s,
      Run.exec (step noQuotas) emptyQueue [.newInfo 0 high, .newInfo 0 low, .add 1, .add 0] = some s ∧ s.pq.blocked =
      false ∧ s.pq.blockedQuota = ∅ ∧ s.pq.closed = false ∧ rewindDue 1 s.pq = true ∧
      2 - 1 ≤ getQueueMaxResetDuration s.pq ∧ 3 - 1 ≤ getQueueMaxResetDuration s.pq ∧ eligible noQuotas s = [0, 1] ∧
      (attempts noQuotas bothOutcomes s).isSome = true := by decide +kernel
  obtain ⟨⟨t, refs⟩, hpass⟩ := Option.isSome_iff_exists.mp hsome
  have hrep : Represented namedObjects s := by
    refine Run.invariant (fun _ _ _ h hc hs => represented_step noQuotas h hc hs)
      (represented_newPriorityQueue namedObjects "q" "Priority" (-1) false 0 0) ?_ hrun
    exact fun _ _ => ⟨⟨rfl, rfl⟩, fun _ _ => ⟨⟨rfl, rfl⟩, fun _ _ => ⟨trivial, fun _ _ => ⟨trivial, trivial⟩⟩⟩⟩
  have hall := pass_offers_each_once (a := (1, fun _ => .reserved)) hrep hblocked hquota hopen hdue
    (List.forall_mem_singleton.mpr hsecond) (by simp [Outcome.Returns]) (by rw [hel]; rfl) hpass
  rw [hel] at hall
  exact ⟨s, t, hrun, hall.1 ▸ hpass, hall.2.2.2 3 hthird⟩

end KoordQueue.Queue.FullPass
