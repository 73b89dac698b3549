import KoordQueue.Queue.Frames
import KoordQueue.Queue.Steps

namespace KoordQueue.Queue.Settings

open Api Policy Update Steps Frames

variable {s : State} (fw : Handle) (now : Time)

def settings (q : PriorityQueue) : String × Int × Bool × Bool := (q.name, q.maxDepth, q.blocked, q.waitPodsRunning)

/-- The settings stay, and only under the Block policy a quota becomes blocked. -/
def Framed (q p : PriorityQueue) : Prop :=
  settings p = settings q ∧ (q.blocked = false → p.blockedQuota ⊆ q.blockedQuota)

theorem framed_of_subset {q p : PriorityQueue} (h : settings p = settings q) (hsub : p.blockedQuota ⊆ q.blockedQuota) :
    Framed q p := ⟨h, fun _ => hsub⟩

theorem Framed.trans {q p o : PriorityQueue} (h : Framed q p) (h' : Framed p o) : Framed q o := by
  refine ⟨h'.1.trans h.1, fun hb => (h'.2 ?_).trans (h.2 hb)⟩
  have hset := h.1
  simp only [settings, Prod.mk.injEq] at hset
  exact hset.2.2.1.trans hb

theorem framed_deleteWithoutLock (qu : QueueUnit) (s : State) : Framed s.pq (deleteWithoutLock fw now qu s).pq := by
  obtain ⟨b, hsub, heq⟩ := deleteWithoutLock_eq fw now qu s
  rw [heq]
  exact framed_of_subset rfl hsub

theorem framed_addUnschedulable (r : Ref) (changed : Bool) (s : State) :
    Framed s.pq (addUnschedulable fw r changed s).pq := by
  obtain ⟨b, hsame, heq⟩ := addUnschedulableIfNotPresent_eq fw s.infos s.pq r changed
  rw [addUnschedulable, heq]
  exact ⟨rfl, fun hb => (hsame hb).subset⟩

variable {a : Action} {t : State}

theorem framed_step (hstep : step fw s a = some t) : Framed s.pq t.pq := by
  have hrefl : Framed s.pq s.pq := framed_of_subset rfl (Finset.Subset.refl _)
  obtain ⟨_, rfl⟩ := (step_eq_some fw).mp hstep
  cases a with
  | newInfo now qu => exact hrefl
  | forgetInfos present => exact hrefl
  | add r =>
    obtain ⟨_, _, _, _, _, b, hsub, heq⟩ := addQueueUnitInfo_eq fw s.infos s.pq r
    rw [act, heq]
    exact framed_of_subset rfl hsub
  | delete now qu => exact framed_deleteWithoutLock fw now qu _
  | update now old new =>
    obtain ⟨_, _, _, _, _, _, _, b, hsub, heq⟩ := update_eq fw now old new s
    rw [act, heq]
    exact framed_of_subset rfl hsub
  | next now =>
    obtain ⟨i, f, t, b, hsub, l, n, heq⟩ := next_eq fw s.infos now s.pq
    rw [act, heq]
    exact framed_of_subset rfl hsub
  | reserve now r =>
    rcases reserve_cases s.infos now s.pq r with ⟨_, _, heq⟩ | ⟨_, a, _, heq⟩
    · rw [act, heq]
      exact hrefl
    · rw [act, heq]
      exact hrefl
  | dequeueSuccess qu => exact hrefl
  | addUnschedulable r changed => exact framed_addUnschedulable fw r changed s
  | fix now g order =>
    exact fix_rule (P := fun t => Framed s.pq t.pq) fw now hrefl
      (fun t qu h => h.trans (framed_deleteWithoutLock fw now qu t)) order
  | fixQueue =>
    rw [act, fixQueue]
    split <;> exact hrefl
  | errorFunc now r answer reasons changed =>
    cases answer with
    | getNotFound => exact framed_deleteWithoutLock fw now _ _
    | getFailed => exact framed_addUnschedulable fw r changed _
    | updateNotFound => exact hrefl
    | got qu => exact framed_addUnschedulable fw r changed _

end KoordQueue.Queue.Settings
