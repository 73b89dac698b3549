import KoordQueue.Multi.Object
import KoordQueue.Queue.IntelligentFrames

namespace KoordQueue.Multi.Idle

open Api KoordQueue.Queue Memory Policy Object

variable (fw : Handle) (m : Infos) (now : Time)

/-- The infos that `Next` looks at. -/
def slots : Impl → List Ref
  | .priority pq => pq.queue
  | .intelligent iq => iq.highPriorityQueue ++ iq.lowPriorityQueue

def waiting (q : Queue) : List Ref := (q.queueImpl.map slots).getD []

variable {iq : Intelligent.IntelligentQueue} {result : NextResult} {pq : PriorityQueue} {q q' : Queue}

theorem next_idle (h : pq.queue = []) : (Policy.next fw m now pq).1.queue = [] ∧
    ∀ r, (Policy.next fw m now pq).2 ≠ .unit r := by
  obtain ⟨_, _, _, _, _, _, _, heq⟩ := Frames.next_eq fw m now pq
  refine ⟨by rw [heq]; exact h, fun r hr => ?_⟩
  obtain ⟨q', p, hp, hqueue, -⟩ := Scan.next_unit hr
  have hin := hp.mem
  rw [hqueue, h] at hin
  cases hin

theorem next_idleIntelligent (hh : iq.highPriorityQueue = [])
    (hl : iq.lowPriorityQueue = []) : (∀ r, (Intelligent.next fw m now iq).2 ≠ .unit r) ∧
      (Intelligent.next fw m now iq).1.highPriorityQueue = [] ∧
      (Intelligent.next fw m now iq).1.lowPriorityQueue = [] := by
  obtain ⟨_, _, _, _, _, _, heq⟩ := IntelligentFrames.next_eq fw m now iq
  refine ⟨fun r hr => ?_, by rw [heq]; exact hh, by rw [heq]; exact hl⟩
  rcases (IntelligentScan.next_unit hr).2.2 with hin | ⟨hin, -⟩
  · rw [hh] at hin
    cases hin
  · rw [hl] at hin
    cases hin

theorem queue_next_idle (h : waiting q = [])
    (hnext : q.next fw now m = some (q', result)) : waiting q' = [] ∧ ∀ r, result ≠ .unit r := by
  obtain ⟨impl, hi, heq⟩ := Option.map_eq_some_iff.mp hnext
  cases heq
  have hslots : slots impl = [] := by
    rw [waiting, hi] at h
    exact h
  cases impl with
  | priority pq => exact next_idle fw m now hslots
  | intelligent iq =>
    obtain ⟨hh, hl⟩ := List.append_eq_nil_iff.mp hslots
    obtain ⟨hfound, hh', hl'⟩ := next_idleIntelligent fw m now hh hl
    exact ⟨List.append_eq_nil_iff.mpr ⟨hh', hl'⟩, hfound⟩

theorem name_next (hnext : q.next fw now m = some (q', result)) : q'.name = q.name := by
  obtain ⟨impl, _, heq⟩ := Option.map_eq_some_iff.mp hnext
  cases heq
  rfl

end KoordQueue.Multi.Idle
