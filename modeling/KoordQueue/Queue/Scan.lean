import KoordQueue.Lib.Cursor
import KoordQueue.Queue.Slice

namespace KoordQueue.Queue.Scan

open Api UnitStatus Cursor Memory Less Policy Update Frames Queue.Representation Slice

def wants (fw : Handle) (qu : QueueUnit) : Bool :=
  (!fw.queueUnitActive || isQueueUnitActive qu) && !isQueueUnitSatisfied qu && !isQueueUnitDequeued qu

def Eligible (fw : Handle) (s : State) (r : Ref) : Prop :=
  s.infos.key r ∉ s.pq.updating ∧ wants fw (s.infos.unit r) = true
deriving Decidable

def Waiting (fw : Handle) (handed : Finset String) (s : State) (r : Ref) : Prop :=
  Eligible fw s r ∧ s.infos.key r ∉ handed
deriving Decidable

/-- The scan is about to start over, or it has passed no waiting unit. -/
def Scanned (fw : Handle) (handed : Finset String) (s : State) : Prop :=
  s.pq.resetNextIdxFlag = true ∨ Swept (Waiting fw handed s) s.pq.queue s.pq.nextIdx

/-- This call of `Next` moves the scan back to the start. -/
def rewinds (fw : Handle) (now : Time) (s : State) : Bool :=
  rewindDue now s.pq || decide ((judge fw s.infos now s.pq).2 = .rejudge)

/-- The units handed out between the last rewind and the moment when this call
of `Next` picks one. -/
def handedBefore (fw : Handle) (now : Time) (handed : Finset String) (s : State) : Finset String :=
  if rewinds fw now s then ∅ else handed

def handedAfter (fw : Handle) (now : Time) (handed : Finset String) (s : State) : Finset String :=
  match (next fw s.infos now s.pq).2 with
  | .unit r => insert (s.infos.key r) (handedBefore fw now handed s)
  | .wait => handedBefore fw now handed s
  | .closed => handed

variable {fw : Handle} {handed : Finset String} {s : State} {m : Infos} {q : PriorityQueue} {now : Time}

variable {p : PriorityQueue} {r : Ref}

theorem waiting_of_same (hunit : m.unit r = s.infos.unit r)
    (hup : s.infos.key r ∈ s.pq.updating → s.infos.key r ∈ q.updating)
    (h : Waiting fw handed ⟨m, q⟩ r) : Waiting fw handed s r := by
  obtain ⟨⟨hnot, hwants⟩, hhanded⟩ := h
  change m.key r ∉ q.updating at hnot
  rw [Infos.key, hunit] at hnot hhanded
  rw [hunit] at hwants
  exact ⟨⟨fun hin => hnot (hup hin), hwants⟩, hhanded⟩

theorem Scanned.same (h : Scanned fw handed s) (hm : ∀ r ∈ s.pq.queue, m.unit r = s.infos.unit r)
    (hqueue : q.queue = s.pq.queue) (hidx : q.nextIdx = s.pq.nextIdx)
    (hflag : s.pq.resetNextIdxFlag = true → q.resetNextIdxFlag = true)
    (hup : s.pq.updating ⊆ q.updating) : Scanned fw handed ⟨m, q⟩ := by
  rcases h with h | h
  · exact Or.inl (hflag h)
  · right
    change Swept _ q.queue q.nextIdx
    rw [hqueue, hidx]
    apply h.imp
    intro r hr hw
    exact waiting_of_same (hm r (List.mem_of_mem_take hr)) (fun hin => hup hin) hw

theorem skips_of_eligible (hq : s.pq.blockedQuota = ∅) (h : Eligible fw s r) : skips fw s.infos s.pq r = false := by
  obtain ⟨hnot, hwants⟩ := h
  simp only [wants, Bool.and_eq_true, Bool.or_eq_true, Bool.not_eq_true'] at hwants
  obtain ⟨⟨hactive, hsatisfied⟩, _⟩ := hwants
  rw [skips, decide_eq_false hnot, hq, hsatisfied]
  rcases hactive with ha | ha
  · simp [ha]
  · simp [ha]

theorem scan_found {skip : Ref → Bool} {maxDepth : Int} {rest : List Ref} {i j : Nat}
    (h : scan skip maxDepth rest i = (j, some r)) :
    skip r = false ∧ ∃ pre post, rest = pre ++ r :: post ∧ j = i + pre.length ∧ ∀ x ∈ pre, skip x = true := by
  induction rest generalizing i with
  | nil => cases h
  | cons x rest ih =>
    rw [scan] at h
    split at h
    next => cases h
    next =>
      split at h
      next hskip =>
        obtain ⟨hr, pre, post, hrest, hj, hpre⟩ := ih h
        refine ⟨hr, x :: pre, post, by rw [hrest, List.cons_append], ?_, List.forall_mem_cons.mpr ⟨hskip, hpre⟩⟩
        rw [hj, List.length_cons]
        omega
      next hskip =>
        cases h
        exact ⟨Bool.eq_false_iff.mpr hskip, [], rest, rfl, rfl, fun x hx => absurd hx List.not_mem_nil⟩

/-- A unit that the scan picks: everything between the scan position and the
unit is passed over. -/
structure Picked (fw : Handle) (m : Infos) (now : Time) (q : PriorityQueue) (r : Ref) (p : PriorityQueue) : Prop where
  split : ∃ pre post, q.queue.drop (rewind now q).nextIdx = pre ++ r :: post ∧
    p.nextIdx = (rewind now q).nextIdx + pre.length ∧ ∀ x ∈ pre, skips fw m q x = true
  unskipped : skips fw m q r = false
  queue : p.queue = q.queue
  updating : p.updating = q.updating

theorem findNextQueueUnit_picked (h : findNextQueueUnit fw m now q = (p, some r)) : Picked fw m now q r p := by
  obtain ⟨i, f, t, hrewind⟩ := rewind_eq now q
  rw [findNextQueueUnit] at h
  dsimp only at h
  obtain ⟨hp, hfound⟩ := Prod.mk.inj h
  have hscan := scan_found (Prod.ext rfl hfound)
  rw [hrewind] at hp hscan
  obtain ⟨hfree, hsplit⟩ := hscan
  rw [← hp]
  refine ⟨?_, ?_, rfl, rfl⟩
  · rw [hrewind]
    exact hsplit
  · exact hfree

theorem Picked.mem (h : Picked fw m now q r p) : r ∈ q.queue := by
  obtain ⟨pre, post, hsplit, -⟩ := h.split
  exact List.mem_of_mem_drop (hsplit ▸ List.mem_append_right pre List.mem_cons_self)

theorem Picked.free (h : Picked fw m now q r p) : m.key r ∉ q.updating := by
  intro hin
  have hfree := h.unskipped
  rw [skips, decide_eq_true hin, Bool.true_or, Bool.true_or, Bool.true_or] at hfree
  cases hfree

theorem judge_found (h : judge fw m now q = (p, .found r)) : Picked fw m now q r p := by
  rw [judge] at h
  split at h
  next => split at h <;> cases h
  next q' x hfind =>
    split at h
    next => cases h
    next =>
      cases h
      exact findNextQueueUnit_picked hfind

theorem judge_ne_rejudge (hq : q.blockedQuota = ∅) : (judge fw m now q).2 ≠ .rejudge := by
  obtain ⟨i, f, t, heq⟩ := findNextQueueUnit_eq fw m now q
  rw [judge]
  split
  next q' hfind =>
    rw [hfind] at heq
    have hempty : q'.blockedQuota = ∅ := (congrArg PriorityQueue.blockedQuota heq).trans hq
    split
    next hne => exact absurd hempty hne.1
    next => simp
  next => split <;> simp

theorem judge_wait (h : judge fw m now q = (p, .wait)) : p.resetNextIdxFlag = true := by
  rw [judge] at h
  split at h
  next =>
    split at h
    next => cases h
    next =>
      cases h
      rfl
  next =>
    split at h
    next =>
      cases h
      rfl
    next => cases h

theorem judge_rejudge (h : judge fw m now q = (p, .rejudge)) :
    p.resetNextIdxFlag = true ∧ p.queue = q.queue ∧ p.updating = q.updating := by
  obtain ⟨i, f, t, heq⟩ := findNextQueueUnit_eq fw m now q
  rw [judge] at h
  split at h
  next q' hfind =>
    rw [hfind] at heq
    subst heq
    split at h
    next =>
      cases h
      exact ⟨rfl, rfl, rfl⟩
    next => cases h
  next => split at h <;> cases h

theorem next_unit (h : (next fw m now q).2 = .unit r) : ∃ q' p, Picked fw m now q' r p ∧
    q'.queue = q.queue ∧ q'.updating = q.updating ∧ (q' = q ∨ q'.resetNextIdxFlag = true) := by
  rw [next_eq_rounds] at h
  obtain ⟨q', p, hp, rfl | hrejudge⟩ := rounds_unit h
  · exact ⟨q', p, judge_found hp, rfl, rfl, Or.inl rfl⟩
  · obtain ⟨hflag, hqueue, hup⟩ := judge_rejudge hrejudge
    exact ⟨q', p, judge_found hp, hqueue, hup, Or.inr hflag⟩

theorem next_cases (hq : q.blockedQuota = ∅) {result : NextResult} (h : next fw m now q = (p, result)) :
    (result = .closed ∧ p = q) ∨ (result = .wait ∧ p.resetNextIdxFlag = true) ∨
      ∃ r, result = .unit r ∧ Picked fw m now q r p := by
  rw [next] at h
  split at h
  next =>
    cases h
    exact Or.inl ⟨rfl, rfl⟩
  next =>
    right
    split at h
    next q' r hj =>
      cases h
      obtain ⟨hsplit, hfree, hqueue, hup⟩ := judge_found hj
      exact Or.inr ⟨r, rfl, hsplit, hfree, hqueue, hup⟩
    next q' hj =>
      cases h
      exact Or.inl ⟨rfl, judge_wait hj⟩
    next q' hj =>
      have hno : (judge fw m now q).2 ≠ .rejudge := judge_ne_rejudge hq
      rw [hj] at hno
      exact absurd rfl hno

theorem handedBefore_eq (hq : s.pq.blockedQuota = ∅) :
    handedBefore fw now handed s = if rewindDue now s.pq then ∅ else handed := by
  rw [handedBefore, rewinds, decide_eq_false (judge_ne_rejudge hq), Bool.or_false]

theorem swept_of_picked (h : Scanned fw handed s) (hq : s.pq.blockedQuota = ∅) (hp : Picked fw s.infos now s.pq r q) :
    Swept (Waiting fw (handedBefore fw now handed s) s) s.pq.queue q.nextIdx := by
  obtain ⟨pre, post, hdrop, hidx, hskip⟩ := hp.split
  have hstart : Swept (Waiting fw (handedBefore fw now handed s) s) s.pq.queue (rewind now s.pq).nextIdx := by
    rw [handedBefore_eq hq, rewind]
    split
    next => exact swept_zero _ _
    next hdue =>
      rw [rewindDue, Bool.or_eq_true, not_or] at hdue
      exact h.resolve_left hdue.1
  have hpre : ∀ x ∈ pre, ¬ Waiting fw (handedBefore fw now handed s) s x := by
    intro x hx hw
    have hno := skips_of_eligible hq hw.1
    rw [hskip x hx] at hno
    cases hno
  rw [hidx]
  exact hstart.add hdrop hpre

theorem scanned_next (h : Scanned fw handed s) (hq : s.pq.blockedQuota = ∅) (now : Time) :
    Scanned fw (handedAfter fw now handed s) ⟨s.infos, (next fw s.infos now s.pq).1⟩ := by
  obtain ⟨p, result, hnext⟩ : ∃ p result, next fw s.infos now s.pq = (p, result) := ⟨_, _, rfl⟩
  rw [handedAfter, hnext]
  rcases next_cases hq hnext with ⟨rfl, rfl⟩ | ⟨rfl, hflag⟩ | ⟨r, rfl, hp⟩
  · exact h
  · exact Or.inl hflag
  · right
    change Swept _ p.queue p.nextIdx
    rw [hp.queue]
    apply (swept_of_picked h hq hp).imp
    rintro x _ ⟨⟨hnot, hwants⟩, hhanded⟩
    change s.infos.key x ∉ p.updating at hnot
    rw [hp.updating] at hnot
    exact ⟨⟨hnot, hwants⟩, fun hin => hhanded (Finset.mem_insert_of_mem hin)⟩

/-- Every eligible unit that ranks before the one handed out was handed out
already. -/
theorem handed_of_ahead {obj : Objects} (hrep : Represented obj s) (h : Scanned fw handed s)
    (hq : s.pq.blockedQuota = ∅) {x : Ref} (hnext : (next fw s.infos now s.pq).2 = .unit r)
    (hx : x ∈ s.pq.queue) (hless : less (s.infos.get x) (s.infos.get r) < 0) (he : Eligible fw s x) :
    s.infos.key x ∈ handedBefore fw now handed s := by
  obtain ⟨p, result, hcall⟩ : ∃ p result, next fw s.infos now s.pq = (p, result) := ⟨_, _, rfl⟩
  rw [hcall] at hnext
  rcases next_cases hq hcall with ⟨rfl, _⟩ | ⟨rfl, _⟩ | ⟨y, rfl, hp⟩
  · cases hnext
  · cases hnext
  · cases hnext
    have hswept := swept_of_picked h hq hp
    obtain ⟨pre, post, hdrop, hidx, _⟩ := hp.split
    have hrank : rankOf s.infos x < rankOf s.infos r := by
      by_cases hu : (s.infos.unit x).uid = (s.infos.unit r).uid
      · exact absurd hless (by rw [less_of_eq hu]; exact lt_irrefl 0)
      · exact (less_of_ne hu).1.mp hless
    have hqueue : s.pq.queue.take p.nextIdx ++ r :: post = s.pq.queue := by
      rw [hidx, List.take_add, hdrop, List.take_left, List.append_assoc, ← hdrop, List.take_append_drop]
    have hsorted := hrep.sorted
    rw [← hqueue] at hx hsorted
    have hlater := (List.pairwise_cons.mp (List.pairwise_append.mp hsorted).2.1).1
    rcases List.mem_append.mp hx with hx | hx
    · by_contra hnot
      exact hswept x hx ⟨he, hnot⟩
    · rcases List.mem_cons.mp hx with rfl | hx
      · exact absurd hrank (lt_irrefl _)
      · exact absurd hrank (hlater x hx).asymm

end KoordQueue.Queue.Scan
