import KoordQueue.Queue.Memory
import Mathlib.Data.Prod.Lex
import Mathlib.Data.String.Basic

namespace KoordQueue.Queue.Less

open Api UnitInfo

def priorityOf (qu : QueueUnit) : Int :=
  match qu.spec.priority with
  | some p => p.val.toInt
  | none => 0

/-- Higher priority first, then the older unit, then the smaller name. Two
infos of one unit compare equal, whatever their priorities. -/
def less (a b : QueueUnitInfo) : Int :=
  let prioA := priorityOf a.unit
  let prioB := priorityOf b.unit
  if a.unit.uid = b.unit.uid then 0
  else if prioA < prioB then 1
  else if prioA > prioB then -1
  else if a.initialAttemptTimestamp > b.initialAttemptTimestamp then 1
  else if a.initialAttemptTimestamp < b.initialAttemptTimestamp then -1
  else if a.name < b.name then -1
  else if a.name > b.name then 1
  else 0

abbrev Rank := Int ×ₗ Time ×ₗ String

/-- The place of an info in the order that `less` compares by. -/
def rank (a : QueueUnitInfo) : Rank :=
  toLex (-priorityOf a.unit, toLex (a.initialAttemptTimestamp, a.name))

theorem rank_lt_iff (a b : QueueUnitInfo) :
    rank a < rank b ↔ priorityOf b.unit < priorityOf a.unit ∨
      priorityOf a.unit = priorityOf b.unit ∧ (a.initialAttemptTimestamp < b.initialAttemptTimestamp ∨
        a.initialAttemptTimestamp = b.initialAttemptTimestamp ∧ a.name < b.name) := by
  simp only [rank, Prod.Lex.toLex_lt_toLex, Int.neg_lt_neg_iff, neg_inj]

theorem rank_eq_iff (a b : QueueUnitInfo) :
    rank a = rank b ↔ priorityOf a.unit = priorityOf b.unit ∧
      a.initialAttemptTimestamp = b.initialAttemptTimestamp ∧ a.name = b.name := by
  simp only [rank, toLex_inj, Prod.mk.injEq, neg_inj]

variable {a b : QueueUnitInfo}

theorem less_of_ne (h : a.unit.uid ≠ b.unit.uid) :
    (less a b < 0 ↔ rank a < rank b) ∧ (less a b = 0 ↔ rank a = rank b) := by
  rw [rank_lt_iff, rank_eq_iff, less, if_neg h]
  rcases lt_trichotomy (priorityOf a.unit) (priorityOf b.unit) with hp | hp | hp
  · simp [hp, hp.ne, hp.not_gt]
  · rcases lt_trichotomy a.initialAttemptTimestamp b.initialAttemptTimestamp with ht | ht | ht
    · simp [hp, ht, ht.ne, ht.not_gt]
    · rcases lt_trichotomy a.name b.name with hn | hn | hn
      · simp [hp, ht, hn, hn.ne]
      · simp [hp, ht, hn]
      · simp [hp, ht, hn, hn.ne', hn.not_gt]
    · simp [hp, ht, ht.ne', ht.not_gt]
  · simp [hp, hp.ne', hp.not_gt]

theorem less_of_eq (h : a.unit.uid = b.unit.uid) : less a b = 0 := if_pos h

theorem less_nonpos_of_rank_lt (h : rank a < rank b) : less a b ≤ 0 := by
  by_cases hu : a.unit.uid = b.unit.uid
  · exact (less_of_eq hu).le
  · exact ((less_of_ne hu).1.mpr h).le

theorem less_pos_of_neg (h : less a b < 0) : 0 < less b a := by
  by_cases hu : a.unit.uid = b.unit.uid
  · rw [less_of_eq hu] at h
    exact absurd h (lt_irrefl 0)
  · have hlt := (less_of_ne hu).1.mp h
    have hba := less_of_ne (Ne.symm hu)
    rcases lt_trichotomy (less b a) 0 with hneg | hzero | hpos
    · exact absurd (hba.1.mp hneg) hlt.asymm
    · exact absurd (hba.2.mp hzero) hlt.ne'
    · exact hpos

end KoordQueue.Queue.Less
