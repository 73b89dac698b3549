import KoordQueue.Queue.IntelligentSteps
import KoordQueue.Queue.Scan

namespace KoordQueue.Queue.IntelligentScan

open Api Memory Intelligent
open Policy (Handle second minute)
open Scan (scan_found)
open Frames (rounds rounds_unit)

def Throttled (m : Infos) (now : Time) (q : IntelligentQueue) (r : Ref) : Prop :=
  now - q.lastScheduledTime < 5 * second ∧ (m.unit r).ns ++ "/" ++ (m.get r).name = q.lastScheduledQueueUnit
deriving Decidable

def scanStart (q : IntelligentQueue) : Nat := if q.resetNextIdxFlag then 0 else q.highNextIdx

variable {fw : Handle} {m : Infos} {now : Time} {q p : IntelligentQueue} {r : Ref}

variable {b : Bool} {maxDepth : Int} {q' : IntelligentQueue} {rs : List Ref} {i j : Nat} {blocked skip : Ref → Bool}

theorem scanHigh_found {c : Bool}
    (h : scanHigh skip blocked maxDepth rs i b = (j, c, some r)) : r ∈ rs ∧ skip r = false := by
  induction rs generalizing i b with
  | nil => cases h
  | cons x rs ih =>
    rw [scanHigh] at h
    split at h
    next => cases h
    next =>
      split at h
      next =>
        obtain ⟨hin, hskip⟩ := ih h
        exact ⟨List.mem_cons_of_mem x hin, hskip⟩
      next hskip =>
        split at h
        next =>
          obtain ⟨hin, hskip⟩ := ih h
          exact ⟨List.mem_cons_of_mem x hin, hskip⟩
        next =>
          cases h
          exact ⟨List.mem_cons_self, Bool.eq_false_iff.mpr hskip⟩

/-- A scan without a depth limit that saw no unit that could run saw only units
that are passed over. -/
theorem scanHigh_unavailable (hdepth : maxDepth ≤ 0) (h : scanHigh skip blocked maxDepth rs i b = (j, false, none)) :
    b = false ∧ ∀ x ∈ rs, skip x = true := by
  induction rs generalizing i b with
  | nil =>
    cases h
    exact ⟨rfl, by simp⟩
  | cons x rs ih =>
    rw [scanHigh, if_neg (fun hd => absurd hd.1 (not_lt.mpr hdepth))] at h
    split at h
    next hskip =>
      obtain ⟨hb, hall⟩ := ih h
      exact ⟨hb, List.forall_mem_cons.mpr ⟨hskip, hall⟩⟩
    next =>
      split at h
      next => cases (ih h).1
      next => cases h

theorem findNextQueueUnit_eq (fw : Handle) (m : Infos) (q : IntelligentQueue) :
    ∃ i j, (findNextQueueUnit fw m q).1 = { q with highNextIdx := i, lowNextIdx := j } := by
  rw [findNextQueueUnit]
  split
  next i _ r _ => exact ⟨i, q.lowNextIdx, rfl⟩
  next i available _ =>
    dsimp only
    split
    next => exact ⟨i, q.lowNextIdx, rfl⟩
    next => exact ⟨i, _, rfl⟩

theorem findNextQueueUnit_found (h : findNextQueueUnit fw m q = (p, some r)) :
    passedOver fw m r = false ∧ (r ∈ q.highPriorityQueue ∨ r ∈ q.lowPriorityQueue ∧
      (q.maxDepth ≤ 0 → ∀ x ∈ q.highPriorityQueue.drop q.highNextIdx, passedOver fw m x = true)) := by
  rw [findNextQueueUnit] at h
  split at h
  next i _ x hscan =>
    cases h
    obtain ⟨hin, hskip⟩ := scanHigh_found hscan
    exact ⟨hskip, Or.inl (List.mem_of_mem_drop hin)⟩
  next i available hscan =>
    dsimp only at h
    split at h
    next => cases h
    next hno =>
      rw [not_or, Bool.not_eq_true] at hno
      obtain ⟨_, hfound⟩ := Prod.mk.inj h
      obtain ⟨hfree, before, after, hdrop, _⟩ := scan_found (Prod.ext rfl hfound)
      have hin : r ∈ q.lowPriorityQueue.drop q.lowNextIdx := by
        rw [hdrop]
        exact List.mem_append_right before List.mem_cons_self
      refine ⟨hfree, Or.inr ⟨List.mem_of_mem_drop hin, fun hdepth => ?_⟩⟩
      rw [hno.1] at hscan
      exact (scanHigh_unavailable hdepth hscan).2

/-- The queue at the start of a round of `Next`. -/
def rewound (q : IntelligentQueue) : IntelligentQueue :=
  if q.resetNextIdxFlag then { q with highNextIdx := 0, lowNextIdx := 0, resetNextIdxFlag := false } else q

theorem rewound_eq (q : IntelligentQueue) : ∃ j, rewound q =
    { q with highNextIdx := scanStart q, lowNextIdx := j, resetNextIdxFlag := false } := by
  rw [rewound, scanStart]
  split
  next => exact ⟨0, rfl⟩
  next hflag =>
    rw [Bool.not_eq_true] at hflag
    exact ⟨q.lowNextIdx, by rw [← hflag]⟩

theorem judge_cases {v : Policy.Verdict} (h : judge fw m now q = (p, v)) : ∃ i j,
    (v = .rejudge ∧ p = { q with highNextIdx := i, lowNextIdx := j, resetNextIdxFlag := true, blockedQuota := ∅ }) ∨
    (v = .wait ∧ p = { q with highNextIdx := i, lowNextIdx := j, resetNextIdxFlag := true }) ∨
    ∃ x, v = .found x ∧ p = { q with highNextIdx := i, lowNextIdx := j, resetNextIdxFlag := false } ∧
      ¬ Throttled m now q x ∧ findNextQueueUnit fw m (rewound q) = (p, some x) := by
  obtain ⟨l, hrewound⟩ := rewound_eq q
  obtain ⟨i, j, heq⟩ := findNextQueueUnit_eq fw m (rewound q)
  rcases hfind : findNextQueueUnit fw m (rewound q) with ⟨q', found⟩
  rw [hfind, hrewound] at heq
  subst heq
  have hround := hfind
  rw [rewound] at hround
  simp only [judge, hround] at h
  refine ⟨i, j, ?_⟩
  cases found with
  | none =>
    dsimp only at h
    split at h
    next =>
      cases h
      exact Or.inl ⟨rfl, rfl⟩
    next =>
      cases h
      exact Or.inr (Or.inl ⟨rfl, rfl⟩)
  | some x =>
    dsimp only at h
    split at h
    next =>
      cases h
      exact Or.inr (Or.inl ⟨rfl, rfl⟩)
    next hfast =>
      cases h
      exact Or.inr (Or.inr ⟨x, rfl, rfl, hfast, rfl⟩)

theorem judge_found (h : judge fw m now q = (p, .found r)) :
    passedOver fw m r = false ∧ ¬ Throttled m now q r ∧ (r ∈ q.highPriorityQueue ∨ r ∈ q.lowPriorityQueue ∧
      (q.maxDepth ≤ 0 → ∀ x ∈ q.highPriorityQueue.drop (scanStart q), passedOver fw m x = true)) := by
  rcases judge_cases h with ⟨_, _, ⟨hv, -⟩ | ⟨hv, -⟩ | ⟨_, hv, -, hfast, hfind⟩⟩
  · cases hv
  · cases hv
  · cases hv
    obtain ⟨l, hrewound⟩ := rewound_eq q
    have hfound := findNextQueueUnit_found hfind
    rw [hrewound] at hfound
    exact ⟨hfound.1, hfast, hfound.2⟩

theorem judge_rejudge (h : judge fw m now q = (p, .rejudge)) :
    ∃ i j b, p = { q with highNextIdx := i, lowNextIdx := j, resetNextIdxFlag := true, blockedQuota := b } := by
  rcases judge_cases h with ⟨_, _, ⟨-, hp⟩ | ⟨hv, -⟩ | ⟨_, hv, -⟩⟩
  · exact ⟨_, _, _, hp⟩
  · cases hv
  · cases hv

theorem next_eq_rounds (fw : Handle) (m : Infos) (now : Time) (q : IntelligentQueue) :
    next fw m now q = rounds q.closed (judge fw m now) (handOut m now) q := by
  rw [next, rounds]
  rcases judge fw m now q with ⟨p, v⟩
  cases v with
  | found r => rfl
  | wait => rfl
  | rejudge =>
    dsimp only
    rcases judge fw m now p with ⟨p', v⟩
    cases v <;> rfl

/-- What `Next` hands out can run and was not handed out just before. It is a
low-priority unit only when no unit of the rest of the high-priority scan could
run. -/
theorem next_unit (h : (next fw m now q).2 = .unit r) :
    passedOver fw m r = false ∧ ¬ Throttled m now q r ∧ (r ∈ q.highPriorityQueue ∨ r ∈ q.lowPriorityQueue ∧
      (q.maxDepth ≤ 0 → ∀ x ∈ q.highPriorityQueue.drop (scanStart q), passedOver fw m x = true)) := by
  rw [next_eq_rounds] at h
  obtain ⟨q', p, hp, rfl | hrejudge⟩ := rounds_unit h
  · exact judge_found hp
  · obtain ⟨i, j, b, rfl⟩ := judge_rejudge hrejudge
    obtain ⟨hfree, hfast, hplace⟩ := judge_found hp
    refine ⟨hfree, hfast, hplace.imp_right (fun hlow => ⟨hlow.1, fun hdepth x hx => ?_⟩)⟩
    exact hlow.2 hdepth x (List.mem_of_mem_drop hx)

end KoordQueue.Queue.IntelligentScan
