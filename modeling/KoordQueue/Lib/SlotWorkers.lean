import KoordQueue.Lib.Run
import Mathlib.Algebra.Order.Ring.Int
import Mathlib.Data.List.Perm.Basic

namespace KoordQueue.SlotWorkers

variable {α : Type}

inductive Piece (α : Type)
  | skip
  | put (x : α)
  | panics
deriving DecidableEq

/-- A worker that has not looked at its piece, that has a number for its entry, or
that has returned. -/
inductive Worker (α : Type)
  | ready (piece : Piece α)
  | holding (newIdx : Int32) (x : α)
  | done
deriving DecidableEq

/-- The shared counter and the shared slice, in which `none` is a zero value. -/
structure State (α : Type) where
  counter : Int32 := 0
  slots : List (Option α)
  workers : List (Worker α)
deriving DecidableEq

def start (pieces : List (Piece α)) : State α :=
  { slots := List.replicate pieces.length none, workers := pieces.map .ready }

/-- The next step of a worker: it returns, or takes a number from the counter, or
writes its entry. A panic ends the process. -/
def step (s : State α) (i : Nat) : Option (State α) :=
  match s.workers[i]? with
  | some (.ready .skip) => some { s with workers := s.workers.set i .done }
  | some (.ready (.put x)) => some { s with
      counter := s.counter + 1
      workers := s.workers.set i (.holding (s.counter + 1) x) }
  | some (.holding newIdx x) =>
    if 0 ≤ (newIdx - 1).toInt ∧ (newIdx - 1).toInt < s.slots.length then some { s with
      slots := s.slots.set (newIdx - 1).toInt.toNat (some x)
      workers := s.workers.set i .done }
    else none
  | some (.ready .panics) | some .done | none => none

def Complete (s : State α) : Prop := ∀ w ∈ s.workers, w = .done

def Piece.entry : Piece α → Option α
  | .put x => some x
  | .skip | .panics => none

def Worker.pending : Worker α → Option α
  | .ready piece => piece.entry
  | .holding .. | .done => none

def wanted (pieces : List (Piece α)) : List α := pieces.filterMap Piece.entry

/-- The entries in the order of their numbers tell what the slots contain and what the workers are about
to write. -/
structure Inv (pieces : List (Piece α)) (claims : List α) (s : State α) : Prop where
  slots : s.slots.length = pieces.length
  bound : claims.length ≤ 2147483648
  counter : s.counter = Int32.ofNat claims.length
  perm : (claims ++ s.workers.filterMap Worker.pending).Perm (wanted pieces)
  ready : ∀ piece, .ready piece ∈ s.workers → piece ∈ pieces
  panics : .panics ∈ pieces → .ready .panics ∈ s.workers
  written : ∀ (n : Nat) x, s.slots[n]? = some (some x) → claims[n]? = some x
  covered : ∀ (n : Nat) x, claims[n]? = some x →
    s.slots[n]? = some (some x) ∨ .holding (Int32.ofNat (n + 1)) x ∈ s.workers
  held : ∀ newIdx x, .holding newIdx x ∈ s.workers →
    ∃ n : Nat, newIdx = Int32.ofNat (n + 1) ∧ claims[n]? = some x

def Stuck (s : State α) : Prop := ∃ x, Worker.holding (Int32.ofNat 2147483649) x ∈ s.workers

theorem inv_start (pieces : List (Piece α)) : Inv pieces [] (start pieces) where
  slots := List.length_replicate
  bound := Nat.zero_le _
  counter := rfl
  perm := by
    rw [List.nil_append, start, List.filterMap_map]
    exact List.Perm.refl _
  ready piece h := by
    obtain ⟨p, hp, he⟩ := List.mem_map.mp h
    cases he
    exact hp
  panics h := List.mem_map_of_mem h
  written n x h := by
    rw [start, List.getElem?_replicate] at h
    split at h <;> cases h
  covered n x h := by cases h
  held newIdx x h := by
    obtain ⟨p, -, he⟩ := List.mem_map.mp h
    cases he

theorem length_wanted (pieces : List (Piece α)) : (wanted pieces).length ≤ pieces.length :=
  List.length_filterMap_le _ _

theorem mem_set_of_ne {l : List α} {i : Nat} {a b w : α} (h : l[i]? = some a) (hw : w ∈ l) (hne : w ≠ a) :
    w ∈ l.set i b := by
  obtain ⟨j, hj⟩ := List.mem_iff_getElem?.mp hw
  have hij : i ≠ j := by
    rintro rfl
    exact hne (Option.some.inj (hj.symm.trans h))
  exact List.mem_iff_getElem?.mpr ⟨j, by rw [List.getElem?_set_ne hij, hj]⟩

theorem ready_of_set {l : List (Worker α)} {i : Nat} {w : Worker α} {piece : Piece α}
    (h : .ready piece ∈ l.set i w) (hw : .ready piece ≠ w) : .ready piece ∈ l :=
  (List.mem_or_eq_of_mem_set h).resolve_right hw

theorem holding_of_set {l : List (Worker α)} {i : Nat} {newIdx : Int32} {x : α}
    (h : .holding newIdx x ∈ l.set i .done) : .holding newIdx x ∈ l :=
  (List.mem_or_eq_of_mem_set h).resolve_right nofun

theorem perm_filterMap_set {β : Type} (f : α → Option β) {l : List α} {i : Nat} {a b : α} (h : l[i]? = some a) :
    ((f a).toList ++ (l.set i b).filterMap f).Perm ((f b).toList ++ l.filterMap f) := by
  induction l generalizing i with
  | nil => cases h
  | cons c l ih =>
    cases i with
    | zero =>
      cases h
      rw [List.set_cons_zero, List.filterMap_cons, List.filterMap_cons]
      cases f a <;> cases f b <;> simp [List.Perm.swap]
    | succ i =>
      have hl := ih h
      rw [List.set_cons_succ, List.filterMap_cons, List.filterMap_cons]
      cases f c with
      | none => exact hl
      | some d =>
        exact List.perm_middle.trans ((hl.cons d).trans List.perm_middle.symm)

theorem ofNat_succ_sub_one (n : Nat) : Int32.ofNat (n + 1) - 1 = Int32.ofNat n := by
  rw [Int32.ofNat_add]
  exact Int32.add_sub_cancel _ _

section

variable {pieces : List (Piece α)} {claims : List α} {s t : State α} {i : Nat}

theorem step_cases (h : step s i = some t) :
    (s.workers[i]? = some (.ready .skip) ∧ t = { s with workers := s.workers.set i .done }) ∨
    (∃ x, s.workers[i]? = some (.ready (.put x)) ∧
      t = { s with counter := s.counter + 1, workers := s.workers.set i (.holding (s.counter + 1) x) }) ∨
    ∃ newIdx x, s.workers[i]? = some (.holding newIdx x) ∧ 0 ≤ (newIdx - 1).toInt ∧
      (newIdx - 1).toInt < s.slots.length ∧
      t = { s with
        slots := s.slots.set (newIdx - 1).toInt.toNat (some x), workers := s.workers.set i .done } := by
  rw [step] at h
  split at h
  next hw => exact .inl ⟨hw, (Option.some.inj h).symm⟩
  next x hw => exact .inr (.inl ⟨x, hw, (Option.some.inj h).symm⟩)
  next newIdx x hw =>
    split at h
    next hidx => exact .inr (.inr ⟨newIdx, x, hw, hidx.1, hidx.2, (Option.some.inj h).symm⟩)
    next => cases h
  all_goals cases h

theorem inv_skip (h : Inv pieces claims s) (hw : s.workers[i]? = some (.ready .skip)) :
    Inv pieces claims { s with workers := s.workers.set i .done } where
  slots := h.slots
  bound := h.bound
  counter := h.counter
  perm := by
    have hset := perm_filterMap_set Worker.pending (b := .done) hw
    exact (hset.append_left claims).trans h.perm
  ready piece hp := h.ready piece (ready_of_set hp nofun)
  panics hp := mem_set_of_ne hw (h.panics hp) nofun
  written := h.written
  covered n x hn := by
    rcases h.covered n x hn with hs | hh
    · exact .inl hs
    · exact .inr (mem_set_of_ne hw hh nofun)
  held newIdx x hh := h.held newIdx x (holding_of_set hh)

theorem inv_put {x : α} (h : Inv pieces claims s) (hw : s.workers[i]? = some (.ready (.put x)))
    (hlen : claims.length < 2147483648) :
    Inv pieces (claims ++ [x]) { s with
      counter := s.counter + 1, workers := s.workers.set i (.holding (s.counter + 1) x) } := by
  have hcounter : s.counter + 1 = Int32.ofNat (claims.length + 1) := by
    rw [h.counter, Int32.ofNat_add]
    rfl
  refine ⟨h.slots, ?_, ?_, ?_, ?_, ?_, ?_, ?_, ?_⟩
  · rw [List.length_append]
    exact hlen
  · rw [List.length_append]
    exact hcounter
  · rw [List.append_assoc]
    exact ((perm_filterMap_set Worker.pending hw).append_left claims).trans h.perm
  · exact fun piece hp => h.ready piece (ready_of_set hp nofun)
  · exact fun hp => mem_set_of_ne hw (h.panics hp) nofun
  · intro n y hn
    have hc := h.written n y hn
    rwa [List.getElem?_append_left (List.getElem?_eq_some_iff.mp hc).1]
  · intro n y hn
    rcases Nat.lt_trichotomy n claims.length with hlt | rfl | hgt
    · rw [List.getElem?_append_left hlt] at hn
      exact (h.covered n y hn).imp_right (fun hh => mem_set_of_ne hw hh nofun)
    · rw [List.getElem?_concat_length] at hn
      cases hn
      rw [← hcounter]
      exact .inr (List.mem_set (List.getElem?_eq_some_iff.mp hw).1 _)
    · have hnone : (claims ++ [x])[n]? = none := List.getElem?_eq_none (by simp; omega)
      cases hnone.symm.trans hn
  · intro newIdx y hh
    rcases List.mem_or_eq_of_mem_set hh with hh | he
    · obtain ⟨n, hn, hc⟩ := h.held newIdx y hh
      exact ⟨n, hn, by rwa [List.getElem?_append_left (List.getElem?_eq_some_iff.mp hc).1]⟩
    · cases he
      exact ⟨claims.length, hcounter, List.getElem?_concat_length⟩

theorem slot_of_held {newIdx : Int32} {x : α} (h : Inv pieces claims s) (hh : .holding newIdx x ∈ s.workers) :
    ∃ n : Nat, newIdx = Int32.ofNat (n + 1) ∧ (newIdx - 1).toInt = n ∧ claims[n]? = some x ∧
      n < s.slots.length := by
  obtain ⟨n, hn, hc⟩ := h.held newIdx x hh
  have hlt : n < claims.length := (List.getElem?_eq_some_iff.mp hc).1
  have hle : claims.length ≤ pieces.length := by
    have hlen := h.perm.length_eq
    rw [List.length_append] at hlen
    have := length_wanted pieces
    omega
  refine ⟨n, hn, ?_, hc, ?_⟩
  · rw [hn, ofNat_succ_sub_one]
    exact Int32.toInt_ofNat_of_lt (by have := h.bound; omega)
  · rw [h.slots]
    omega

theorem inv_write {newIdx : Int32} {x : α} (h : Inv pieces claims s)
    (hw : s.workers[i]? = some (.holding newIdx x)) :
    Inv pieces claims { s with
      slots := s.slots.set (newIdx - 1).toInt.toNat (some x), workers := s.workers.set i .done } := by
  obtain ⟨n, hn, hidx, hc, hlt⟩ := slot_of_held h (List.mem_of_getElem? hw)
  rw [hidx, Int.toNat_natCast]
  refine ⟨?_, h.bound, h.counter, ?_, ?_, ?_, ?_, ?_, ?_⟩
  · rw [List.length_set]
    exact h.slots
  · exact ((perm_filterMap_set Worker.pending (b := .done) hw).append_left claims).trans h.perm
  · exact fun piece hp => h.ready piece (ready_of_set hp nofun)
  · exact fun hp => mem_set_of_ne hw (h.panics hp) nofun
  · intro m y hm
    by_cases hmn : n = m
    · subst hmn
      rw [List.getElem?_set_self hlt] at hm
      cases hm
      exact hc
    · rw [List.getElem?_set_ne hmn] at hm
      exact h.written m y hm
  · intro m y hm
    by_cases hmn : n = m
    · subst hmn
      cases hc.symm.trans hm
      exact .inl (List.getElem?_set_self hlt)
    · rw [List.getElem?_set_ne hmn]
      refine (h.covered m y hm).imp_right (fun hh => mem_set_of_ne hw hh ?_)
      intro he
      obtain ⟨hnum, -⟩ := Worker.holding.inj he
      have hm' : (Int32.ofNat m).toInt = m :=
        Int32.toInt_ofNat_of_lt (by have := h.bound; have := (List.getElem?_eq_some_iff.mp hm).1; omega)
      rw [← ofNat_succ_sub_one, hnum, hidx] at hm'
      omega
  · exact fun newIdx' y hh => h.held newIdx' y (holding_of_set hh)

theorem stuck_step (h : Stuck s) (ht : step s i = some t) : Stuck t := by
  obtain ⟨x, hx⟩ := h
  refine ⟨x, ?_⟩
  obtain ⟨hw, rfl⟩ | ⟨y, hw, rfl⟩ | ⟨newIdx, y, hw, hpos, -, rfl⟩ := step_cases ht
  · exact mem_set_of_ne hw hx nofun
  · exact mem_set_of_ne hw hx nofun
  · refine mem_set_of_ne hw hx ?_
    intro he
    rw [← (Worker.holding.inj he).1] at hpos
    exact absurd hpos (by decide)

def Safe (pieces : List (Piece α)) (s : State α) : Prop :=
  (∃ claims, Inv pieces claims s) ∨ Stuck s ∧ 2147483648 < (wanted pieces).length

theorem inv_step (h : Inv pieces claims s) (ht : step s i = some t) : Safe pieces t := by
  obtain ⟨hw, rfl⟩ | ⟨x, hw, rfl⟩ | ⟨newIdx, x, hw, -, -, rfl⟩ := step_cases ht
  · exact .inl ⟨claims, inv_skip h hw⟩
  · rcases Nat.lt_or_eq_of_le h.bound with hlt | heq
    · exact .inl ⟨claims ++ [x], inv_put h hw hlt⟩
    · have hset := perm_filterMap_set Worker.pending (b := .done) hw
      have hlen := ((hset.append_left claims).trans h.perm).length_eq
      have hnext : s.counter + 1 = Int32.ofNat 2147483649 := by rw [h.counter, heq]; rfl
      refine .inr ⟨⟨x, hnext ▸ List.mem_set (List.getElem?_eq_some_iff.mp hw).1 _⟩, ?_⟩
      simp only [Worker.pending, Piece.entry, Option.toList_some, List.length_append, List.length_cons] at hlen
      omega
  · exact .inl ⟨claims, inv_write h hw⟩

theorem safe_step (h : Safe pieces s) (ht : step s i = some t) : Safe pieces t := by
  rcases h with ⟨claims, h⟩ | ⟨h, hlen⟩
  · exact inv_step h ht
  · exact .inr ⟨stuck_step h ht, hlen⟩

theorem slots_of_complete (h : Inv pieces claims s) (hs : Complete s) :
    s.slots = claims.map some ++ List.replicate (pieces.length - claims.length) none := by
  apply List.ext_getElem?
  intro n
  cases hc : claims[n]? with
  | some x =>
    have hlt : n < (claims.map some).length := by
      rw [List.length_map]
      exact (List.getElem?_eq_some_iff.mp hc).1
    rw [List.getElem?_append_left hlt, List.getElem?_map, hc]
    exact (h.covered n x hc).resolve_right (fun hh => by cases hs _ hh)
  | none =>
    have hle := List.getElem?_eq_none_iff.mp hc
    rw [List.getElem?_append_right (by rwa [List.length_map]), List.length_map, List.getElem?_replicate]
    split
    next hlt =>
      have hslot : n < s.slots.length := by
        rw [h.slots]
        omega
      cases hx : s.slots[n] with
      | none => rw [List.getElem?_eq_getElem hslot, hx]
      | some x =>
        have hwritten := h.written n x (by rw [List.getElem?_eq_getElem hslot, hx])
        cases hc.symm.trans hwritten
    next hge =>
      apply List.getElem?_eq_none
      rw [h.slots]
      omega

theorem claims_of_complete (h : Inv pieces claims s) (hs : Complete s) : claims.Perm (wanted pieces) := by
  have hpending : s.workers.filterMap Worker.pending = [] := by
    rw [List.filterMap_eq_nil_iff]
    intro w hw
    rw [hs w hw]
    rfl
  simpa [hpending] using h.perm

theorem progress (h : Inv pieces claims s) (hcalm : .panics ∉ pieces) (hs : ¬ Complete s) :
    ∃ i t, step s i = some t := by
  obtain ⟨w, hw, hdone⟩ : ∃ w ∈ s.workers, w ≠ .done := by
    simpa [Complete] using hs
  obtain ⟨i, hi⟩ := List.mem_iff_getElem?.mp hw
  refine ⟨i, ?_⟩
  rw [step, hi]
  match w with
  | .ready .skip => exact ⟨_, rfl⟩
  | .ready (.put x) => exact ⟨_, rfl⟩
  | .ready .panics => exact absurd (h.ready .panics hw) hcalm
  | .holding newIdx x =>
    obtain ⟨n, -, hidx, -, hlt⟩ := slot_of_held h hw
    have hin : 0 ≤ (newIdx - 1).toInt ∧ (newIdx - 1).toInt < s.slots.length := by omega
    exact ⟨_, if_pos hin⟩
  | .done => exact absurd rfl hdone

end

def Worker.remaining : Worker α → Nat
  | .ready _ => 2
  | .holding .. => 1
  | .done => 0

def remaining (s : State α) : Nat := (s.workers.map Worker.remaining).sum

theorem sum_map_set {l : List α} {i : Nat} {a b : α} (f : α → Nat) (h : l[i]? = some a) (hlt : f b < f a) :
    ((l.set i b).map f).sum < (l.map f).sum := by
  induction l generalizing i with
  | nil => cases h
  | cons c l ih =>
    cases i with
    | zero =>
      cases h
      simpa using hlt
    | succ i =>
      have hl := ih h
      simpa using hl

theorem remaining_step {s t : State α} {i : Nat} (h : step s i = some t) : remaining t < remaining s := by
  obtain ⟨hw, rfl⟩ | ⟨x, hw, rfl⟩ | ⟨newIdx, x, hw, -, -, rfl⟩ := step_cases h
  all_goals exact sum_map_set Worker.remaining hw (by simp [Worker.remaining])

theorem remaining_exec {s t : State α} {schedule : List Nat} (h : Run.exec step s schedule = some t) :
    schedule.length + remaining t ≤ remaining s := by
  induction schedule generalizing s with
  | nil =>
    cases h
    exact (Nat.zero_add _).le
  | cons i schedule ih =>
    obtain ⟨u, hu, hr⟩ := (Run.exec_cons step s i schedule t).mp h
    have := ih hr
    have := remaining_step hu
    rw [List.length_cons]
    omega

theorem remaining_start (pieces : List (Piece α)) : remaining (start pieces) = 2 * pieces.length := by
  rw [remaining, start, List.map_map]
  induction pieces with
  | nil => rfl
  | cons piece pieces ih =>
    rw [List.map_cons, List.sum_cons, ih, List.length_cons, Function.comp_apply, Worker.remaining]
    omega

theorem completes {pieces : List (Piece α)} {claims : List α} {s : State α} (h : Inv pieces claims s)
    (hcalm : .panics ∉ pieces) (hfit : (wanted pieces).length ≤ 2147483648) :
    ∃ schedule t, Run.exec step s schedule = some t ∧ Complete t := by
  generalize hn : remaining s = n
  induction n using Nat.strong_induction_on generalizing s claims with
  | _ n ih =>
    by_cases hs : Complete s
    · exact ⟨[], s, rfl, hs⟩
    · obtain ⟨i, t, ht⟩ := progress h hcalm hs
      obtain ⟨claims', h'⟩ : ∃ claims', Inv pieces claims' t :=
        (inv_step h ht).resolve_right (fun hbad => absurd hbad.2 (Nat.not_lt.mpr hfit))
      obtain ⟨schedule, u, hu, hc⟩ := ih (remaining t) (hn ▸ remaining_step ht) h' rfl
      exact ⟨i :: schedule, u, (Run.exec_cons step s i schedule u).mpr ⟨t, ht, hu⟩, hc⟩

theorem safe_run {pieces : List (Piece α)} {schedule : List Nat} {t : State α}
    (h : Run.exec step (start pieces) schedule = some t) : Safe pieces t :=
  Run.invariant (fun _ _ _ hs _ ht => safe_step hs ht) (.inl ⟨[], inv_start pieces⟩)
    (Run.guarded_true _ _) h

theorem completes_after {pieces : List (Piece α)} {schedule : List Nat} {s : State α}
    (h : Run.exec step (start pieces) schedule = some s) (hcalm : .panics ∉ pieces)
    (hfit : (wanted pieces).length ≤ 2147483648) :
    ∃ more t, Run.exec step (start pieces) (schedule ++ more) = some t ∧ Complete t := by
  rcases safe_run h with ⟨claims, hinv⟩ | ⟨-, hlen⟩
  · obtain ⟨more, t, ht, hc⟩ := completes hinv hcalm hfit
    refine ⟨more, t, ?_, hc⟩
    rw [Run.exec_append, h]
    exact ht
  · omega

theorem slots_of_run {pieces : List (Piece α)} {schedule : List Nat} {t : State α}
    (h : Run.exec step (start pieces) schedule = some t) (ht : Complete t) :
    .panics ∉ pieces ∧ ∃ claims : List α, claims.Perm (wanted pieces) ∧ claims.length ≤ 2147483648 ∧
      t.counter = Int32.ofNat claims.length ∧
      t.slots = claims.map some ++ List.replicate (pieces.length - claims.length) none := by
  rcases safe_run h with ⟨claims, hinv⟩ | ⟨⟨x, hx⟩, -⟩
  · refine ⟨fun hp => ?_, claims, claims_of_complete hinv ht, hinv.bound, hinv.counter, slots_of_complete hinv ht⟩
    cases ht _ (hinv.panics hp)
  · cases ht _ hx

end KoordQueue.SlotWorkers
