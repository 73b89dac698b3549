import KoordQueue.Lib.SlotWorkers
import Mathlib.Algebra.Order.BigOperators.Group.List

namespace KoordQueue.CondSemaphore

/-- Where a thread is. It has the mutex in `looking`, `parking`, `roused`, `admitted`,
`releasing` and `released`. It is on the list of the condition variable in `parking`
and `asleep`; a signal takes it to `roused` and `woken`. -/
inductive Stage
  | entering
  | looking
  | parking
  | asleep
  | roused
  | woken
  | admitted
  | working
  | leaving
  | releasing
  | released
  | signalling
  | done
deriving DecidableEq

namespace Stage

def locked : Stage → Bool
  | looking | parking | roused | admitted | releasing | released => true
  | _ => false

def listed : Stage → Bool
  | parking | asleep => true
  | _ => false

def counted : Stage → Bool
  | admitted | working | leaving | releasing => true
  | _ => false

def alert : Stage → Bool
  | looking | roused | woken | released | signalling => true
  | _ => false

def pending : Stage → Bool
  | entering | looking | parking | asleep | roused | woken | admitted | working => true
  | _ => false

def rouse : Stage → Stage
  | parking => roused
  | asleep => woken
  | stage => stage

/-- A signal gives the thread that it wakes fewer steps than it takes from the thread
that sends it. -/
def rank : Stage → Nat
  | roused => 14
  | entering | woken => 13
  | looking => 12
  | admitted => 11
  | working => 10
  | leaving | parking => 9
  | releasing | asleep => 8
  | released => 7
  | signalling => 6
  | done => 0

theorem locked_rouse (stage : Stage) : stage.rouse.locked = stage.locked := by cases stage <;> rfl

theorem counted_rouse (stage : Stage) : stage.rouse.counted = stage.counted := by cases stage <;> rfl

theorem listed_rouse (stage : Stage) : stage.rouse.listed = false := by cases stage <;> rfl

theorem pending_rouse (stage : Stage) : stage.rouse.pending = stage.pending := by cases stage <;> rfl

theorem alert_rouse {stage : Stage} (h : stage.listed = true) : stage.alert = false ∧ stage.rouse.alert = true := by
  cases stage <;> first | exact ⟨rfl, rfl⟩ | cases h

theorem rank_rouse (stage : Stage) : stage.rouse.rank ≤ stage.rank + 5 := by
  cases stage <;> decide

end Stage

variable {α : Type}

structure Thread (α : Type) where
  job : α
  stage : Stage
deriving DecidableEq

def Thread.goTo (thread : Thread α) (stage : Stage) : Thread α := { thread with stage }

/-- The counter, the holder of the mutex, the list of the condition variable with the
longest waiter first, and the threads. -/
structure State (α : Type) where
  count : Int := 0
  mutex : Option Nat := none
  waiters : List Nat := []
  threads : List (Thread α) := []
deriving DecidableEq

namespace State

def spawn (s : State α) (job : α) : State α := { s with threads := s.threads ++ [⟨job, .entering⟩] }

def put (s : State α) (i : Nat) (thread : Thread α) : State α := { s with threads := s.threads.set i thread }

def lock (s : State α) (i : Nat) (thread : Thread α) : Option (State α) :=
  if s.mutex = none then some { s.put i thread with mutex := some i } else none

def unlock (s : State α) (i : Nat) (thread : Thread α) : State α := { s.put i thread with mutex := none }

def signal (s : State α) : State α :=
  match s.waiters with
  | [] => s
  | j :: waiters => { s with
      waiters
      threads := s.threads.modify j (fun thread => thread.goTo thread.stage.rouse) }

end State

/-- The next step of a thread. A wait puts the thread on the list before it gives up the
mutex, and the thread that has been woken takes the mutex and looks again. -/
def move (capacity : Int) (s : State α) (i : Nat) : Option (State α) :=
  match s.threads[i]? with
  | none => none
  | some thread =>
    match thread.stage with
    | .entering | .woken => s.lock i (thread.goTo .looking)
    | .looking =>
      if capacity ≤ s.count then
        some { s.put i (thread.goTo .parking) with waiters := s.waiters ++ [i] }
      else some { s.put i (thread.goTo .admitted) with count := s.count + 1 }
    | .parking => some (s.unlock i (thread.goTo .asleep))
    | .roused => some (s.unlock i (thread.goTo .woken))
    | .admitted => some (s.unlock i (thread.goTo .working))
    | .working => some (s.put i (thread.goTo .leaving))
    | .leaving => s.lock i (thread.goTo .releasing)
    | .releasing => some { s.put i (thread.goTo .released) with count := s.count - 1 }
    | .released => some (s.unlock i (thread.goTo .signalling))
    | .signalling => some (s.put i (thread.goTo .done)).signal
    | .asleep | .done => none

inductive Moved (capacity : Int) (s : State α) (i : Nat) (thread : Thread α) : State α → Prop
  | enter (hs : thread.stage = .entering ∨ thread.stage = .woken) (hm : s.mutex = none) :
      Moved capacity s i thread { s.put i (thread.goTo .looking) with mutex := some i }
  | park (hs : thread.stage = .looking) (hc : capacity ≤ s.count) :
      Moved capacity s i thread { s.put i (thread.goTo .parking) with waiters := s.waiters ++ [i] }
  | pass (hs : thread.stage = .looking) (hc : s.count < capacity) :
      Moved capacity s i thread { s.put i (thread.goTo .admitted) with count := s.count + 1 }
  | sleep (hs : thread.stage = .parking) : Moved capacity s i thread (s.unlock i (thread.goTo .asleep))
  | wake (hs : thread.stage = .roused) : Moved capacity s i thread (s.unlock i (thread.goTo .woken))
  | work (hs : thread.stage = .admitted) : Moved capacity s i thread (s.unlock i (thread.goTo .working))
  | leave (hs : thread.stage = .working) : Moved capacity s i thread (s.put i (thread.goTo .leaving))
  | exit (hs : thread.stage = .leaving) (hm : s.mutex = none) :
      Moved capacity s i thread { s.put i (thread.goTo .releasing) with mutex := some i }
  | release (hs : thread.stage = .releasing) :
      Moved capacity s i thread { s.put i (thread.goTo .released) with count := s.count - 1 }
  | unlock (hs : thread.stage = .released) : Moved capacity s i thread (s.unlock i (thread.goTo .signalling))
  | signal (hs : thread.stage = .signalling) : Moved capacity s i thread (s.put i (thread.goTo .done)).signal

variable {capacity : Int} {s t : State α} {i : Nat}

theorem lock_eq_some {thread : Thread α} :
    s.lock i thread = some t ↔ s.mutex = none ∧ t = { s.put i thread with mutex := some i } := by
  rw [State.lock]
  split
  next h => exact ⟨fun he => ⟨h, (Option.some.inj he).symm⟩, fun he => congrArg some he.2.symm⟩
  next h => exact ⟨nofun, fun he => absurd he.1 h⟩

theorem moved_of_move (h : move capacity s i = some t) :
    ∃ thread, s.threads[i]? = some thread ∧ Moved capacity s i thread t := by
  rw [move] at h
  split at h
  next => cases h
  next thread hi =>
    refine ⟨thread, hi, ?_⟩
    split at h
    next hs =>
      obtain ⟨hm, rfl⟩ := lock_eq_some.mp h
      exact .enter (Or.inl hs) hm
    next hs =>
      obtain ⟨hm, rfl⟩ := lock_eq_some.mp h
      exact .enter (Or.inr hs) hm
    next hs =>
      split at h
      next hc =>
        cases h
        exact .park hs hc
      next hc =>
        cases h
        exact .pass hs (not_le.mp hc)
    next hs =>
      cases h
      exact .sleep hs
    next hs =>
      cases h
      exact .wake hs
    next hs =>
      cases h
      exact .work hs
    next hs =>
      cases h
      exact .leave hs
    next hs =>
      obtain ⟨hm, rfl⟩ := lock_eq_some.mp h
      exact .exit hs hm
    next hs =>
      cases h
      exact .release hs
    next hs =>
      cases h
      exact .unlock hs
    next hs =>
      cases h
      exact .signal hs
    next => cases h
    next => cases h

/-- The thread of this number is at a stage that `p` marks. -/
def has (p : Stage → Bool) (threads : List (Thread α)) (i : Nat) : Bool :=
  threads[i]?.any (fun thread => p thread.stage)

def total (weight : Stage → Nat) (threads : List (Thread α)) : Nat :=
  (threads.map (fun thread => weight thread.stage)).sum

/-- How many threads are at a stage that `p` marks. -/
def number (p : Stage → Bool) (threads : List (Thread α)) : Nat := total (fun stage => (p stage).toNat) threads

def rank (threads : List (Thread α)) : Nat := total Stage.rank threads

/-- The jobs of the threads at the stages that `p` marks. -/
def jobs (p : Stage → Bool) (threads : List (Thread α)) : List α :=
  threads.filterMap (fun thread => if p thread.stage then some thread.job else none)

section Update

variable {p : Stage → Bool} {weight : Stage → Nat} {threads : List (Thread α)} {a b : Thread α} {x y : Stage}

theorem has_iff : has p threads i = true ↔ ∃ thread, threads[i]? = some thread ∧ p thread.stage = true :=
  Option.any_eq_true _ _

theorem has_of_getElem? (h : threads[i]? = some a) : has p threads i = p a.stage := by
  rw [has, h, Option.any_some]

theorem has_set (h : threads[i]? = some a) (j : Nat) :
    has p (threads.set i b) j = if j = i then p b.stage else has p threads j := by
  have hi : i < threads.length := (List.getElem?_eq_some_iff.mp h).1
  rw [has, List.getElem?_set]
  by_cases hj : i = j
  · rw [if_pos hj, if_pos hi, if_pos hj.symm, Option.any_some]
  · rw [if_neg hj, if_neg (Ne.symm hj), has]

theorem has_goTo (h : threads[i]? = some a) (hs : a.stage = x) (hp : p y = p x) (j : Nat) :
    has p (threads.set i (a.goTo y)) j = has p threads j := by
  rw [has_set h]
  split
  next hj =>
    rw [hj, has_of_getElem? h, hs]
    exact hp
  next => rfl

theorem has_append (hp : p b.stage = false) (j : Nat) : has p (threads ++ [b]) j = has p threads j := by
  rw [has, has, List.getElem?_append]
  split
  next => rfl
  next hj =>
    rw [List.getElem?_eq_none (not_lt.mp hj), Option.any_none]
    cases j - threads.length with
    | zero => exact hp
    | succ n => rfl

theorem total_set (h : threads[i]? = some a) :
    total weight (threads.set i b) + weight a.stage = total weight threads + weight b.stage := by
  induction threads generalizing i with
  | nil => cases h
  | cons c threads ih =>
    cases i with
    | zero =>
      cases h
      simp only [total, List.set_cons_zero, List.map_cons, List.sum_cons]
      omega
    | succ i =>
      have := ih h
      simp only [total, List.set_cons_succ, List.map_cons, List.sum_cons] at this ⊢
      omega

theorem total_append : total weight (threads ++ [b]) = total weight threads + weight b.stage := by
  simp [total]

theorem number_goTo (h : threads[i]? = some a) (hs : a.stage = x) :
    number p (threads.set i (a.goTo y)) + (p x).toNat = number p threads + (p y).toNat :=
  hs ▸ total_set h

theorem number_le {q : Stage → Bool} (h : ∀ stage, p stage = true → q stage = true) (threads : List (Thread α)) :
    number p threads ≤ number q threads := by
  induction threads with
  | nil => exact le_refl _
  | cons thread threads ih =>
    simp only [number, total, List.map_cons, List.sum_cons] at ih ⊢
    have hle : (p thread.stage).toNat ≤ (q thread.stage).toNat := by
      cases hp : p thread.stage with
      | false => exact Nat.zero_le _
      | true => rw [h _ hp]
    omega

theorem number_eq_zero (h : ∀ thread ∈ threads, p thread.stage = false) : number p threads = 0 := by
  refine List.sum_eq_zero (fun n hn => ?_)
  obtain ⟨thread, ht, rfl⟩ := List.mem_map.mp hn
  exact congrArg Bool.toNat (h thread ht)

theorem jobs_goTo (h : threads[i]? = some a) (hs : a.stage = x) (hp : p y = p x) :
    (jobs p (threads.set i (a.goTo y))).Perm (jobs p threads) := by
  have := SlotWorkers.perm_filterMap_set
    (fun thread => if p thread.stage then some thread.job else none) (b := a.goTo y) h
  rw [← hs] at hp
  simp only [Thread.goTo, hp] at this
  exact (List.perm_append_left_iff _).mp this

theorem jobs_goTo_out (h : threads[i]? = some a) (hs : a.stage = x) (hx : p x = true) (hy : p y = false) :
    (a.job :: jobs p (threads.set i (a.goTo y))).Perm (jobs p threads) := by
  have := SlotWorkers.perm_filterMap_set
    (fun thread => if p thread.stage then some thread.job else none) (b := a.goTo y) h
  simpa [jobs, Thread.goTo, hs, hx, hy] using this

theorem jobs_append (hp : p b.stage = true) : jobs p (threads ++ [b]) = jobs p threads ++ [b.job] := by
  simp [jobs, hp]

end Update

/-- The counter counts the threads between their admission and their release, and while
a thread waits for a signal the free places are spoken for by threads that will look at
the counter or signal. -/
structure Inv (capacity : Int) (s : State α) : Prop where
  holder : ∀ j, s.mutex = some j ↔ has Stage.locked s.threads j = true
  listed : ∀ j, j ∈ s.waiters ↔ has Stage.listed s.threads j = true
  nodup : s.waiters.Nodup
  count : s.count = number Stage.counted s.threads
  bound : s.count ≤ capacity
  alert : s.waiters ≠ [] → capacity ≤ s.count + number Stage.alert s.threads

theorem inv_start (h : 0 ≤ capacity) : Inv capacity ({} : State α) where
  holder j := by simp [has]
  listed j := by simp [has]
  nodup := List.nodup_nil
  count := rfl
  bound := h
  alert hw := absurd rfl hw

theorem inv_spawn (h : Inv capacity s) (job : α) : Inv capacity (s.spawn job) where
  holder j := by rw [State.spawn, has_append rfl, ← h.holder]
  listed j := by rw [State.spawn, has_append rfl, ← h.listed]
  nodup := h.nodup
  count := by
    rw [State.spawn, number, total_append]
    exact h.count
  bound := h.bound
  alert hw := by
    have := h.alert hw
    rwa [State.spawn, number, total_append]

inductive Mutex (i : Nat) (x y : Stage) : Option Nat → Option Nat → Prop
  | keep {m : Option Nat} (h : y.locked = x.locked) : Mutex i x y m m
  | lock (h : y.locked = true) : Mutex i x y none (some i)
  | unlock {m : Option Nat} (hx : x.locked = true) (hy : y.locked = false) : Mutex i x y m none

section Step

variable {thread : Thread α} {x y : Stage}

theorem holder_goTo (h : Inv capacity s) (hi : s.threads[i]? = some thread) (hs : thread.stage = x)
    {m : Option Nat} (hm : Mutex i x y s.mutex m) (j : Nat) :
    m = some j ↔ has Stage.locked (s.threads.set i (thread.goTo y)) j = true := by
  have hj := h.holder j
  have hi' := h.holder i
  rw [has_of_getElem? hi, hs] at hi'
  generalize s.mutex = m' at hm hj hi'
  cases hm with
  | keep he => rw [has_goTo hi hs he, hj]
  | lock hy =>
    rw [has_set hi, Option.some.injEq]
    split
    next he => exact ⟨fun _ => hy, fun _ => he.symm⟩
    next he => exact ⟨fun e => absurd e.symm he, fun hl => absurd (hj.mpr hl) nofun⟩
  | unlock hx hy =>
    rw [hi'.mpr hx, Option.some.injEq] at hj
    rw [has_set hi]
    refine ⟨nofun, fun hl => ?_⟩
    split at hl
    next => exact absurd (hy.symm.trans hl) nofun
    next he => exact absurd (hj.mpr hl).symm he

/-- A step that does not touch the list of the condition variable keeps the invariant
when the counter follows the stages and no free place is forgotten. -/
theorem inv_goTo (h : Inv capacity s) (hi : s.threads[i]? = some thread) (hs : thread.stage = x)
    {count : Int} {m : Option Nat} (hm : Mutex i x y s.mutex m) (hl : y.listed = x.listed)
    (hc : count + x.counted.toNat = s.count + y.counted.toNat) (hb : count ≤ capacity)
    (ha : s.count + x.alert.toNat ≤ count + y.alert.toNat) :
    Inv capacity { s with count, mutex := m, threads := s.threads.set i (thread.goTo y) } where
  holder := holder_goTo h hi hs hm
  listed j := by rw [has_goTo hi hs hl, ← h.listed]
  nodup := h.nodup
  count := by
    have hn := @number_goTo _ i Stage.counted _ _ x y hi hs
    have := h.count
    simp only
    omega
  bound := hb
  alert hw := by
    have hn := @number_goTo _ i Stage.alert _ _ x y hi hs
    have := h.alert hw
    simp only
    omega

end Step

variable {thread : Thread α}

theorem signal_cases (h : Inv capacity s) (hi : s.threads[i]? = some thread) (hs : thread.stage = .signalling) :
    s.waiters = [] ∧ (s.put i (thread.goTo .done)).signal = s.put i (thread.goTo .done) ∨
    ∃ j waiters other, s.waiters = j :: waiters ∧ j ≠ i ∧ s.threads[j]? = some other ∧
      other.stage.listed = true ∧ (s.put i (thread.goTo .done)).signal =
        { s with waiters, threads := (s.threads.set i (thread.goTo .done)).set j (other.goTo other.stage.rouse) } := by
  cases hw : s.waiters with
  | nil =>
    refine Or.inl ⟨rfl, ?_⟩
    simp only [State.signal, State.put, hw]
  | cons j waiters =>
    obtain ⟨other, hj, hl⟩ := has_iff.mp ((h.listed j).mp (hw ▸ List.mem_cons_self))
    have hne : j ≠ i := by
      rintro rfl
      rw [hi, Option.some.injEq] at hj
      rw [← hj, hs] at hl
      cases hl
    refine Or.inr ⟨j, waiters, other, rfl, hne, hj, hl, ?_⟩
    have hj' : (s.threads.set i (thread.goTo .done))[j]? = some other := by
      rw [List.getElem?_set_ne hne.symm, hj]
    simp only [State.signal, State.put, hw, List.modify_eq_set_getElem?, hj']
    rfl

theorem inv_signal (h : Inv capacity s) (hi : s.threads[i]? = some thread)
    (hs : thread.stage = .signalling) : Inv capacity (s.put i (thread.goTo .done)).signal := by
  have hcount : number Stage.counted (s.threads.set i (thread.goTo .done)) + 0 = _ + 0 := number_goTo hi hs
  have halert : number Stage.alert (s.threads.set i (thread.goTo .done)) + 1 = _ + 0 := number_goTo hi hs
  have hlisted : ∀ k, has Stage.listed (s.threads.set i (thread.goTo .done)) k = has Stage.listed s.threads k :=
    has_goTo hi hs rfl
  obtain ⟨hw, he⟩ | ⟨j, waiters, other, hw, hne, hj, hl, he⟩ := signal_cases h hi hs
  · rw [he]
    refine ⟨holder_goTo h hi hs (.keep rfl), fun j => ?_, h.nodup, ?_, h.bound, fun hn => absurd hw hn⟩
    · rw [State.put, hlisted, ← h.listed]
    · rw [State.put, h.count, Nat.add_right_cancel hcount]
  · rw [he]
    have hj' : (s.threads.set i (thread.goTo .done))[j]? = some other := by
      rw [List.getElem?_set_ne hne.symm, hj]
    have hnd : (j :: waiters).Nodup := hw ▸ h.nodup
    refine ⟨fun k => ?_, fun k => ?_, (List.nodup_cons.mp hnd).2, ?_, h.bound, fun _ => ?_⟩
    · rw [has_goTo hj' rfl (Stage.locked_rouse _)]
      exact holder_goTo (y := .done) h hi hs (.keep rfl) k
    · rw [has_set hj']
      have hk := h.listed k
      rw [hw, List.mem_cons] at hk
      split
      next he =>
        have hr : (other.goTo other.stage.rouse).stage.listed = false := Stage.listed_rouse _
        rw [he, hr]
        exact ⟨fun hm => absurd hm (List.nodup_cons.mp hnd).1, nofun⟩
      next he =>
        rw [hlisted, ← hk]
        exact (or_iff_right he).symm
    · have hn := @number_goTo _ j Stage.counted _ _ _ other.stage.rouse hj' rfl
      rw [Stage.counted_rouse] at hn
      rw [h.count, Nat.add_right_cancel hn, Nat.add_right_cancel hcount]
    · have hn := @number_goTo _ j Stage.alert _ _ _ other.stage.rouse hj' rfl
      rw [(Stage.alert_rouse hl).1, (Stage.alert_rouse hl).2, Bool.toNat_true, Bool.toNat_false] at hn
      have := h.alert (by rw [hw]; nofun)
      simp only
      omega

theorem inv_park (h : Inv capacity s) (hi : s.threads[i]? = some thread)
    (hs : thread.stage = .looking) (hc : capacity ≤ s.count) :
    Inv capacity { s.put i (thread.goTo .parking) with waiters := s.waiters ++ [i] } where
  holder := holder_goTo h hi hs (.keep rfl)
  listed j := by
    rw [List.mem_append, h.listed, List.mem_singleton, State.put, has_set hi]
    split
    next hj => exact ⟨fun _ => rfl, fun _ => Or.inr hj⟩
    next hj => exact or_iff_left hj
  nodup := by
    have hn : i ∉ s.waiters := by
      rw [h.listed, has_of_getElem? hi, hs]
      nofun
    exact List.nodup_append.mpr ⟨h.nodup, List.nodup_cons.mpr ⟨List.not_mem_nil, List.nodup_nil⟩,
      fun a ha b hb he => hn (List.mem_singleton.mp hb ▸ he ▸ ha)⟩
  count := by
    have hn : number Stage.counted (s.threads.set i (thread.goTo .parking)) + 0 = _ + 0 := number_goTo hi hs
    rw [State.put, h.count, Nat.add_right_cancel hn]
  bound := h.bound
  alert _ := by
    simp only [State.put]
    omega

theorem inv_moved (h : Inv capacity s) (hi : s.threads[i]? = some thread)
    (hm : Moved capacity s i thread t) : Inv capacity t := by
  have hb := h.bound
  cases hm with
  | enter hs hm =>
    obtain hs | hs := hs
    · exact inv_goTo h hi hs (hm ▸ .lock rfl) rfl rfl hb (by simp [State.put, Stage.alert])
    · exact inv_goTo h hi hs (hm ▸ .lock rfl) rfl rfl hb (le_refl _)
  | park hs hc => exact inv_park h hi hs hc
  | pass hs hc => exact inv_goTo h hi hs (.keep rfl) rfl (by simp [Stage.counted]) hc (by simp [Stage.alert])
  | sleep hs => exact inv_goTo h hi hs (.unlock rfl rfl) rfl rfl hb (le_refl _)
  | wake hs => exact inv_goTo h hi hs (.unlock rfl rfl) rfl rfl hb (le_refl _)
  | work hs => exact inv_goTo h hi hs (.unlock rfl rfl) rfl rfl hb (le_refl _)
  | leave hs => exact inv_goTo h hi hs (.keep rfl) rfl rfl hb (le_refl _)
  | exit hs hm => exact inv_goTo h hi hs (hm ▸ .lock rfl) rfl rfl hb (le_refl _)
  | release hs => exact inv_goTo h hi hs (.keep rfl) rfl (by simp [Stage.counted]) (by omega) (by simp [Stage.alert])
  | unlock hs => exact inv_goTo h hi hs (.unlock rfl rfl) rfl rfl hb (le_refl _)
  | signal hs => exact inv_signal h hi hs

theorem inv_move (h : Inv capacity s) (hm : move capacity s i = some t) : Inv capacity t := by
  obtain ⟨thread, hi, hm⟩ := moved_of_move hm
  exact inv_moved h hi hm

theorem rank_goTo {threads : List (Thread α)} {x y : Stage} (hi : threads[i]? = some thread)
    (hs : thread.stage = x) (hr : y.rank < x.rank) : rank (threads.set i (thread.goTo y)) < rank threads := by
  have := @total_set _ i Stage.rank _ _ (thread.goTo y) hi
  rw [hs] at this
  have hy : (thread.goTo y).stage.rank = y.rank := rfl
  simp only [rank]
  omega

theorem rank_modify (threads : List (Thread α)) (j : Nat) :
    rank (threads.modify j (fun thread => thread.goTo thread.stage.rouse)) ≤ rank threads + 5 := by
  cases hj : threads[j]? with
  | none =>
    rw [List.modify_eq_set_getElem?, hj]
    exact Nat.le_add_right _ _
  | some other =>
    have := @total_set _ j Stage.rank _ _ (other.goTo other.stage.rouse) hj
    have hr : (other.goTo other.stage.rouse).stage.rank ≤ other.stage.rank + 5 := Stage.rank_rouse _
    rw [List.modify_eq_set_getElem?, hj]
    simp only [rank, Option.map_eq_map, Option.map_some, Option.getD_some]
    omega

theorem rank_signal (s : State α) : rank s.signal.threads ≤ rank s.threads + 5 := by
  rw [State.signal]
  split
  next => exact Nat.le_add_right _ _
  next => exact rank_modify _ _

theorem rank_move (hm : move capacity s i = some t) : rank t.threads < rank s.threads := by
  obtain ⟨thread, hi, hm⟩ := moved_of_move hm
  cases hm with
  | enter hs hm =>
    obtain hs | hs := hs
    · exact rank_goTo hi hs (by decide)
    · exact rank_goTo hi hs (by decide)
  | signal hs =>
    have h := rank_signal (s.put i (thread.goTo .done))
    have hd := @total_set _ i Stage.rank _ _ (thread.goTo .done) hi
    rw [hs] at hd
    have hy : (thread.goTo .done).stage.rank + 6 = Stage.signalling.rank := rfl
    simp only [rank, State.put] at h ⊢
    omega
  | park hs | pass hs | sleep hs | wake hs | work hs | leave hs | exit hs | release hs | unlock hs =>
    exact rank_goTo hi hs (by decide)

/-- The thread with the mutex, and any thread that neither waits nor has ended when the
mutex is free, can go on. -/
theorem move_isSome (hi : s.threads[i]? = some thread)
    (hs : thread.stage.locked = true ∨ s.mutex = none ∧ thread.stage ≠ .asleep ∧ thread.stage ≠ .done) :
    (move capacity s i).isSome := by
  have hfree : thread.stage.locked = false → s.mutex = none := fun hl => (hs.resolve_left (by rw [hl]; nofun)).1
  rw [move, hi]
  simp only
  cases hst : thread.stage with
  | parking | roused | admitted | working | releasing | released | signalling => rfl
  | looking =>
    simp only
    split <;> rfl
  | entering | woken | leaving =>
    simp only [State.lock, hfree (by rw [hst]; rfl), if_true]
    rfl
  | asleep | done => simp [hst, Stage.locked] at hs

theorem progress (h : Inv capacity s) (hc : 0 < capacity) (ht : thread ∈ s.threads)
    (hd : thread.stage ≠ .done) : ∃ i, (move capacity s i).isSome := by
  cases hm : s.mutex with
  | some j =>
    obtain ⟨other, hj, hl⟩ := has_iff.mp ((h.holder j).mp hm)
    exact ⟨j, move_isSome hj (Or.inl hl)⟩
  | none =>
    by_contra hno
    have hall : ∀ other ∈ s.threads, other.stage = .asleep ∨ other.stage = .done := by
      intro other ho
      obtain ⟨i, hi⟩ := List.mem_iff_getElem?.mp ho
      by_contra hs
      rw [not_or] at hs
      exact hno ⟨i, move_isSome hi (Or.inr ⟨hm, hs⟩)⟩
    have hzero (p : Stage → Bool) (ha : p .asleep = false) (hp : p .done = false) : number p s.threads = 0 := by
      refine number_eq_zero (fun other ho => ?_)
      obtain hs | hs := hall other ho
      · rw [hs, ha]
      · rw [hs, hp]
    have hw : s.waiters ≠ [] := by
      obtain ⟨i, hi⟩ := List.mem_iff_getElem?.mp ht
      refine List.ne_nil_of_mem (a := i) ((h.listed i).mpr ?_)
      rw [has_of_getElem? hi, (hall thread ht).resolve_right hd]
      rfl
    have := h.alert hw
    rw [h.count, hzero _ rfl rfl, hzero _ rfl rfl] at this
    exact absurd this (not_le.mpr hc)

theorem pending_signal (s : State α) : (jobs Stage.pending s.signal.threads).Perm (jobs Stage.pending s.threads) := by
  rw [State.signal]
  split
  next => exact List.Perm.refl _
  next j waiters hw =>
    simp only [List.modify_eq_set_getElem?]
    cases hj : s.threads[j]? with
    | none => exact List.Perm.refl _
    | some other => exact jobs_goTo hj rfl (Stage.pending_rouse _)

theorem pending_move (hi : s.threads[i]? = some thread) (hm : move capacity s i = some t) :
    (if thread.stage = .working then (thread.job :: jobs Stage.pending t.threads).Perm (jobs Stage.pending s.threads)
      else (jobs Stage.pending t.threads).Perm (jobs Stage.pending s.threads)) := by
  obtain ⟨other, ho, hm⟩ := moved_of_move hm
  rw [hi, Option.some.injEq] at ho
  subst other
  cases hm with
  | enter hs hm =>
    obtain hs | hs := hs
    · rw [if_neg (by rw [hs]; nofun)]
      exact jobs_goTo hi hs rfl
    · rw [if_neg (by rw [hs]; nofun)]
      exact jobs_goTo hi hs rfl
  | leave hs =>
    rw [if_pos hs]
    exact jobs_goTo_out hi hs rfl rfl
  | signal hs =>
    rw [if_neg (by rw [hs]; nofun)]
    exact (pending_signal _).trans (jobs_goTo hi hs rfl)
  | park hs | pass hs | sleep hs | wake hs | work hs | exit hs | release hs | unlock hs =>
    rw [if_neg (by rw [hs]; nofun)]
    exact jobs_goTo hi hs rfl

end KoordQueue.CondSemaphore
