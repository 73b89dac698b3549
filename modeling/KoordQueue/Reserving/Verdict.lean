import KoordQueue.Lib.Decimal
import KoordQueue.Reserving.Records
import Mathlib.Data.List.Basic

namespace KoordQueue.Reserving.Verdict

open Records

inductive Status
  | succeed
  | failed
  | pending
deriving DecidableEq

def revision (reason : String) : Option Int64 :=
  match reason.toList.splitOn '/' with
  | [_, rev] => Decimal.atoi rev
  | _ => none

def counts (attempts : Int64) (cond : ReservationCondition) : Bool :=
  decide (cond.type = .scheduled ∧ (revision cond.reason).all (fun rev => decide (rev = attempts)) = true)

structure Flags where
  scheduled : Bool := false
  preempted : Bool := false
  hasFalse : Bool := false
  message : Option String := none
deriving DecidableEq

def look (attempts : Int64) (acc : Flags) (cond : ReservationCondition) : Flags :=
  let acc := if cond.type = .preempted ∧ cond.status = .conditionTrue then { acc with preempted := true } else acc
  if counts attempts cond then
    if cond.status = .conditionFalse then
      { acc with scheduled := true, hasFalse := true, message := some cond.message }
    else { acc with scheduled := true }
  else acc

def flags (attempts : Int64) (r : Reservation) : Flags := r.conditions.foldl (look attempts) {}

structure Summary where
  allScheduled : Bool := true
  allSucceed : Bool := true
  msg : GoMap String String := ∅

def summarize (attempts : Int64) (acc : Summary) (r : Reservation) : Summary :=
  let fl := flags attempts r
  let msg := match fl.message with
    | none => acc.msg
    | some m => acc.msg.insert r.name m
  if fl.scheduled = false ∨ (fl.hasFalse ∧ fl.preempted) then { acc with allScheduled := false, msg }
  else if fl.hasFalse then { acc with allSucceed := false, msg }
  else { acc with msg }

def firstMessage (order : List String) (msg : GoMap String String) : String :=
  match order with
  | [] => ""
  | k :: _ => "\x7b" ++ k ++ ":" ++ valueAt msg k ++ "\x7d,..."

/-- `order` is the order in which the messages are visited. -/
def reservationStatus (order : List String) (attempts : Int64) (resvs : List Reservation) : Status × String :=
  let sum := resvs.foldl (summarize attempts) {}
  let retMsg := firstMessage order sum.msg
  if sum.allScheduled ∧ sum.allSucceed then (.succeed, "")
  else if sum.allScheduled then (.failed, retMsg)
  else (.pending, retMsg)

/-- There is an answer of the scheduler for this attempt. -/
def Answered (attempts : Int64) (r : Reservation) : Prop := ∃ c ∈ r.conditions, counts attempts c = true

/-- There is a refusal of the scheduler for this attempt. -/
def Refused (attempts : Int64) (r : Reservation) : Prop :=
  ∃ c ∈ r.conditions, counts attempts c = true ∧ c.status = .conditionFalse

def Preempted (r : Reservation) : Prop := ∃ c ∈ r.conditions, c.type = .preempted ∧ c.status = .conditionTrue

variable {attempts : Int64} {r : Reservation}

private theorem foldl_look (attempts : Int64) (conds : List ReservationCondition) (acc : Flags) :
    ((conds.foldl (look attempts) acc).scheduled = true ↔
        acc.scheduled = true ∨ ∃ c ∈ conds, counts attempts c = true) ∧
      ((conds.foldl (look attempts) acc).hasFalse = true ↔
        acc.hasFalse = true ∨ ∃ c ∈ conds, counts attempts c = true ∧ c.status = .conditionFalse) ∧
      ((conds.foldl (look attempts) acc).preempted = true ↔
        acc.preempted = true ∨ ∃ c ∈ conds, c.type = .preempted ∧ c.status = .conditionTrue) := by
  induction conds generalizing acc with
  | nil => simp
  | cons c conds ih =>
    obtain ⟨hs, hf, hp⟩ := ih (look attempts acc c)
    rw [List.foldl_cons, hs, hf, hp]
    simp only [List.exists_mem_cons_iff, ← or_assoc]
    refine ⟨or_congr_left ?_, or_congr_left ?_, or_congr_left ?_⟩
    all_goals
      simp only [look]
      split <;> split <;> (try split) <;> simp_all

theorem flags_scheduled : (flags attempts r).scheduled = true ↔ Answered attempts r := by
  simpa [flags, Answered] using (foldl_look attempts r.conditions {}).1

theorem flags_hasFalse : (flags attempts r).hasFalse = true ↔ Refused attempts r := by
  simpa [flags, Refused] using (foldl_look attempts r.conditions {}).2.1

theorem flags_preempted : (flags attempts r).preempted = true ↔ Preempted r := by
  simpa [flags, Preempted] using (foldl_look attempts r.conditions {}).2.2

/-- A reservation that the scheduler still has to answer for: a refusal is
taken back when the reservation is preempted. -/
def Unsettled (attempts : Int64) (r : Reservation) : Prop :=
  ¬Answered attempts r ∨ (Refused attempts r ∧ Preempted r)

private theorem foldl_summarize (attempts : Int64) (resvs : List Reservation) (acc : Summary) :
    ((resvs.foldl (summarize attempts) acc).allScheduled = true ↔
        acc.allScheduled = true ∧ ∀ r ∈ resvs, ¬Unsettled attempts r) ∧
      ((resvs.foldl (summarize attempts) acc).allSucceed = true ↔
        acc.allSucceed = true ∧ ∀ r ∈ resvs, Refused attempts r → Unsettled attempts r) := by
  induction resvs generalizing acc with
  | nil => simp
  | cons r resvs ih =>
    obtain ⟨hs, hf⟩ := ih (summarize attempts acc r)
    rw [List.foldl_cons, hs, hf]
    simp only [List.forall_mem_cons, ← and_assoc]
    have hun : (flags attempts r).scheduled = false ∨
        ((flags attempts r).hasFalse = true ∧ (flags attempts r).preempted = true) ↔ Unsettled attempts r := by
      rw [Unsettled, ← flags_scheduled, flags_hasFalse, flags_preempted, Bool.not_eq_true]
    constructor
    · refine and_congr_left (fun _ => ?_)
      rw [summarize]
      split
      next h => simp [hun.mp h]
      next h => split <;> simp [mt hun.mpr h]
    · refine and_congr_left (fun _ => ?_)
      rw [summarize]
      split
      next h => simp [hun.mp h]
      next h => split <;> simp_all [← flags_hasFalse, mt hun.mpr h]

variable (order : List String) (attempts : Int64) (resvs : List Reservation)

theorem reservationStatus_pending :
    (reservationStatus order attempts resvs).1 = .pending ↔ ∃ r ∈ resvs, Unsettled attempts r := by
  have hs := (foldl_summarize attempts resvs {}).1
  rw [reservationStatus]
  split
  next h => simpa using hs.mp h.1
  split
  next _ h => simpa using hs.mp h
  next _ h =>
    rw [hs] at h
    simpa using h

theorem reservationStatus_succeed :
    (reservationStatus order attempts resvs).1 = .succeed ↔
      ∀ r ∈ resvs, Answered attempts r ∧ ¬Refused attempts r := by
  obtain ⟨hs, hf⟩ := foldl_summarize attempts resvs {}
  have hiff : (∀ r ∈ resvs, Answered attempts r ∧ ¬Refused attempts r) ↔
      (resvs.foldl (summarize attempts) {}).allScheduled = true ∧
        (resvs.foldl (summarize attempts) {}).allSucceed = true := by
    rw [hs, hf]
    simp only [Unsettled, true_and, ← forall₂_and]
    exact forall₂_congr (fun r _ => by tauto)
  rw [hiff, reservationStatus]
  split
  next h => simpa using h
  next h => split <;> simpa using h

theorem reservationStatus_failed :
    (reservationStatus order attempts resvs).1 = .failed ↔
      (∀ r ∈ resvs, ¬Unsettled attempts r) ∧ ∃ r ∈ resvs, Refused attempts r := by
  have hp := reservationStatus_pending order attempts resvs
  have hs := reservationStatus_succeed order attempts resvs
  constructor
  · intro h
    rw [h] at hp hs
    simp only [reduceCtorEq, false_iff, not_exists, not_and, not_forall] at hp hs
    refine ⟨hp, ?_⟩
    obtain ⟨r, hr, hnot⟩ := hs
    refine ⟨r, hr, ?_⟩
    by_contra hrefused
    exact hp r hr (.inl (fun ha => hnot ha hrefused))
  · rintro ⟨hall, r, hr, hrefused⟩
    cases hst : (reservationStatus order attempts resvs).1 with
    | failed => rfl
    | pending =>
      obtain ⟨r', hr', hun⟩ := hp.mp hst
      exact absurd hun (hall r' hr')
    | succeed => exact absurd hrefused (hs.mp hst r hr).2

end KoordQueue.Reserving.Verdict
