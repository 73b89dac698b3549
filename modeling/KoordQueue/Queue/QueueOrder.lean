import KoordQueue.Lib.SortFunc
import KoordQueue.Queue.Intelligent
import Mathlib.Data.Set.Pairwise.Basic

namespace KoordQueue.Queue.QueueOrder

open UnitInfo SortedSlice SortFunc Memory Less
open Policy (PriorityQueue)
open Intelligent (priorityLess)

/-- The higher priority first, then the older unit, then the smaller name. -/
def Precedes (a b : QueueUnitInfo) : Prop :=
  priorityOf b.unit < priorityOf a.unit ∨
    priorityOf a.unit = priorityOf b.unit ∧ (a.initialAttemptTimestamp < b.initialAttemptTimestamp ∨
      a.initialAttemptTimestamp = b.initialAttemptTimestamp ∧ a.name < b.name)

def Apart (a b : QueueUnitInfo) : Prop := a.unit.uid ≠ b.unit.uid ∧ a.name ≠ b.name

theorem less_sign (a b : QueueUnitInfo) : less a b = -1 ∨ less a b = 0 ∨ less a b = 1 := by
  simp only [less]
  grind

theorem less_eq_one_iff (a b : QueueUnitInfo) : less a b = 1 ↔ 0 < less a b := by
  rcases less_sign a b with h | h | h <;> rw [h] <;> decide

theorem less_pos_iff (a b : QueueUnitInfo) : 0 < less a b ↔ less b a < 0 := by
  constructor
  · intro h
    by_cases hu : a.unit.uid = b.unit.uid
    · rw [less_of_eq hu] at h
      exact absurd h (lt_irrefl 0)
    · obtain ⟨hlt, heq⟩ := less_of_ne hu
      rw [(less_of_ne (Ne.symm hu)).1]
      rcases lt_trichotomy (rank a) (rank b) with hab | hab | hab
      · exact absurd (hlt.mpr hab) h.asymm
      · exact absurd (heq.mpr hab) h.ne'
      · exact hab
  · exact less_pos_of_neg

theorem less_antisymm (a b : QueueUnitInfo) : less a b = -less b a := by
  have hab := less_pos_iff a b
  have hba := less_pos_iff b a
  rcases less_sign a b with h | h | h <;> rcases less_sign b a with h' | h' | h' <;> rw [h, h'] at hab hba ⊢ <;>
    revert hab hba <;> decide

theorem rank_ne_of_apart {a b : QueueUnitInfo} (h : Apart a b) : rank a ≠ rank b :=
  fun he => h.2 ((rank_eq_iff a b).mp he).2.2

theorem less_ranked {S : Set QueueUnitInfo} (hS : S.Pairwise Apart) {a b : QueueUnitInfo} (ha : a ∈ S) (hb : b ∈ S) :
    (less a b < 0 ↔ rank a < rank b) ∧ (less a b = 0 ↔ a = b) := by
  by_cases hab : a = b
  · subst hab
    rw [less_of_eq rfl]
    exact ⟨iff_of_false (lt_irrefl 0) (lt_irrefl _), iff_of_true rfl rfl⟩
  · have hapart := hS ha hb hab
    obtain ⟨hlt, heq⟩ := less_of_ne hapart.1
    exact ⟨hlt, heq.trans (iff_of_false (rank_ne_of_apart hapart) hab)⟩

section

variable (sort : (Ref → Ref → Int) → List Ref → List Ref) (m : Infos)

def lessFunc (a b : Ref) : Int := less (m.get a) (m.get b)

def fixQueueBy (q : PriorityQueue) : PriorityQueue :=
  if (q.queue.zip q.queue.tail).any (fun p => lessFunc m p.1 p.2 = 1) then
    { q with queue := sort (lessFunc m) q.queue }
  else q

theorem fixQueueBy_mergeSort (q : PriorityQueue) : fixQueueBy mergeSortFunc m q = Policy.fixQueue m q := rfl

end

section

variable {sort : (Ref → Ref → Int) → List Ref → List Ref} {m : Infos} {queue : List Ref} {q : PriorityQueue}

theorem ranked_of_apart (h : queue.Pairwise (fun a b => Apart (m.get a) (m.get b))) :
    Ranked (fun r => rank (m.get r)) (lessFunc m) queue := by
  have hS : {info | ∃ r ∈ queue, m.get r = info}.Pairwise Apart := by
    rintro _ ⟨a, ha, rfl⟩ _ ⟨b, hb, rfl⟩ hne
    have : Std.Symm (fun a b => Apart (m.get a) (m.get b)) := ⟨fun _ _ hab => ⟨hab.1.symm, hab.2.symm⟩⟩
    exact h.forall ha hb (fun he => hne (congrArg m.get he))
  intro a ha b hb
  refine ⟨(less_ranked hS ⟨a, ha, rfl⟩ ⟨b, hb, rfl⟩).1, ?_⟩
  rw [lessFunc, less_pos_iff]
  exact (less_ranked hS ⟨b, hb, rfl⟩ ⟨a, ha, rfl⟩).1

theorem sorted_iff_neighbours (h : queue.Pairwise (fun a b => Apart (m.get a) (m.get b))) :
    Sorted (fun r => rank (m.get r)) queue ↔
      (queue.zip queue.tail).any (fun p => lessFunc m p.1 p.2 = 1) = false := by
  induction queue with
  | nil => simp [Sorted]
  | cons a queue ih =>
    cases queue with
    | nil => simp [Sorted]
    | cons b queue =>
      obtain ⟨hlt, hgt⟩ := ranked_of_apart h a List.mem_cons_self b (List.mem_cons_of_mem a List.mem_cons_self)
      obtain ⟨ha, hrest⟩ := List.pairwise_cons.mp h
      have hab := rank_ne_of_apart (ha b List.mem_cons_self)
      have hpair : rank (m.get a) < rank (m.get b) ↔ ¬ lessFunc m a b = 1 := by
        rw [lessFunc, less_eq_one_iff, ← lessFunc, hgt, not_lt, le_iff_lt_or_eq, or_iff_left hab]
      have hsorted : Sorted (fun r => rank (m.get r)) (a :: b :: queue) ↔
          rank (m.get a) < rank (m.get b) ∧ Sorted (fun r => rank (m.get r)) (b :: queue) := by
        rw [Sorted, List.pairwise_cons]
        constructor
        · exact fun hs => ⟨hs.1 b List.mem_cons_self, hs.2⟩
        · rintro ⟨hltab, hs⟩
          refine ⟨?_, hs⟩
          intro c hc
          rcases List.mem_cons.mp hc with rfl | hc
          · exact hltab
          · exact hltab.trans ((List.pairwise_cons.mp hs).1 c hc)
      rw [hsorted, ih hrest, hpair, List.tail_cons, List.tail_cons, List.zip_cons_cons, List.any_cons,
        Bool.or_eq_false_iff, decide_eq_false_iff_not]

theorem fixQueueBy_eq (hs : Sorts sort) (h : q.queue.Pairwise (fun a b => Apart (m.get a) (m.get b))) :
    fixQueueBy sort m q = Policy.fixQueue m q := by
  have hn := h.imp (fun hab => rank_ne_of_apart hab)
  rw [← fixQueueBy_mergeSort, fixQueueBy, fixQueueBy, eq_of_sorts hs sorts_mergeSort (ranked_of_apart h) hn]

theorem sorted_fixQueueBy (hs : Sorts sort) (h : q.queue.Pairwise (fun a b => Apart (m.get a) (m.get b))) :
    (fixQueueBy sort m q).queue.Perm q.queue ∧ Sorted (fun r => rank (m.get r)) (fixQueueBy sort m q).queue := by
  have hranked := ranked_of_apart h
  rw [fixQueueBy]
  split
  next =>
    refine ⟨hs.perm (strictWeak_of_ranked hranked), ?_⟩
    exact sorted_of_sorts hs hranked (h.imp (fun hab => rank_ne_of_apart hab))
  next hany => exact ⟨List.Perm.refl _, (sorted_iff_neighbours h).mpr (Bool.not_eq_true _ ▸ hany)⟩

end

/-- On infos of different units the two comparisons agree and are the strict total order by priority,
age and name; and the repair makes any slice of such infos a sorted one with the same members, and
leaves a sorted one alone. -/
theorem queue_order_total_and_restored :
    (∀ S : Set QueueUnitInfo, S.Pairwise Apart → ∀ a ∈ S, ∀ b ∈ S,
      priorityLess a b = less a b ∧ (less a b < 0 ↔ Precedes a b) ∧ less a b = -less b a ∧
        (less a b = 0 ↔ a = b) ∧ ∀ c ∈ S, less a b < 0 → less b c < 0 → less a c < 0) ∧
    ∀ sort : (Ref → Ref → Int) → List Ref → List Ref, Sorts sort → ∀ (m : Infos) (q : PriorityQueue),
      q.queue.Pairwise (fun a b => Apart (m.get a) (m.get b)) →
        (fixQueueBy sort m q).queue.Perm q.queue ∧
        (fixQueueBy sort m q).queue.Pairwise (fun a b => Precedes (m.get a) (m.get b)) ∧
        (q.queue.Pairwise (fun a b => Precedes (m.get a) (m.get b)) → fixQueueBy sort m q = q) ∧
        fixQueueBy sort m q = Policy.fixQueue m q := by
  have hprecedes : ∀ a b, Precedes a b ↔ rank a < rank b := fun a b => (rank_lt_iff a b).symm
  constructor
  · intro S hS a ha b hb
    obtain ⟨hlt, heq⟩ := less_ranked hS ha hb
    refine ⟨Intelligent.priorityLess_eq a b, hlt.trans (hprecedes a b).symm, less_antisymm a b, heq, ?_⟩
    intro c hc hab hbc
    rw [(less_ranked hS ha hc).1]
    exact (hlt.mp hab).trans ((less_ranked hS hb hc).1.mp hbc)
  · intro sort hs m q h
    simp only [hprecedes]
    obtain ⟨hperm, hsorted⟩ := sorted_fixQueueBy hs h
    refine ⟨hperm, hsorted, ?_, fixQueueBy_eq hs h⟩
    intro hq
    rw [fixQueueBy, (sorted_iff_neighbours h).mp hq]
    rfl

def younger : QueueUnitInfo :=
  { name := "ns/a", unit := { ns := "ns", name := "a", uid := "1" }, initialAttemptTimestamp := 7 }

def older : QueueUnitInfo :=
  { name := "ns/b", unit := { ns := "ns", name := "b", uid := "2", spec := { priority := some ⟨0, 0⟩ } } }

def twoInfos : Infos := { heap := ⟨[younger, older]⟩ }

theorem older_before_younger :
    less older younger < 0 ∧ Precedes older younger ∧
      (fixQueueBy mergeSortFunc twoInfos { queue := [0, 1] }).queue.Perm [0, 1] ∧
      (fixQueueBy mergeSortFunc twoInfos { queue := [0, 1] }).queue.Pairwise
        (fun a b => Precedes (twoInfos.get a) (twoInfos.get b)) := by
  have happart : Apart older younger := ⟨by decide, by decide⟩
  have hS : ({older, younger} : Set QueueUnitInfo).Pairwise Apart :=
    Set.pairwise_pair.mpr (fun _ => ⟨happart, happart.1.symm, happart.2.symm⟩)
  have hqueue : [0, 1].Pairwise (fun a b => Apart (twoInfos.get a) (twoInfos.get b)) :=
    List.pairwise_pair.mpr ⟨happart.1.symm, happart.2.symm⟩
  have hless : less older younger < 0 := by decide
  have horder := queue_order_total_and_restored.1 _ hS older (.inl rfl) younger (.inr rfl)
  have hrepair := queue_order_total_and_restored.2 mergeSortFunc sorts_mergeSort twoInfos { queue := [0, 1] } hqueue
  exact ⟨hless, horder.2.1.mp hless, hrepair.1, hrepair.2.1⟩

end KoordQueue.Queue.QueueOrder
