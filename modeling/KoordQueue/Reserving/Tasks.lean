import KoordQueue.Reserving.Controller

namespace KoordQueue.Reserving.Tasks

open Records Controller

def object : Task → Reservation
  | .create r | .update r => r

variable {n : String} {env : Env} {s t u : Reservations} {want held : List Reservation}

theorem mem_schedule {ts : List Task} {t : Task} : t ∈ env.schedule ts ↔ t ∈ ts := (env.schedule_perm ts).mem_iff

/-- A task creates a wanted reservation that is not listed, or updates one that
is listed from the version that was read. -/
theorem mem_tasks {t : Task} (ht : t ∈ tasks want held) :
    ∃ r ∈ want, (t = .create r ∧ held.find? (fun e => e.name = r.name) = none) ∨
      ∃ e ∈ held, e.name = r.name ∧ t = .update { r with resourceVersion := e.resourceVersion } := by
  obtain ⟨r, hr, htask⟩ := List.mem_filterMap.mp ht
  rw [task] at htask
  split at htask
  next hnone =>
    cases htask
    exact ⟨r, hr, .inl ⟨rfl, hnone⟩⟩
  next e hfind =>
    split at htask
    next =>
      cases htask
      exact ⟨r, hr, .inr ⟨e, List.mem_of_find?_eq_some hfind, by simpa using List.find?_some hfind, rfl⟩⟩
    next => cases htask

theorem forall_run {P : Reservation → Prop} (faults : Faults) (ts : List Task) (hcreate : ∀ r, .create r ∈ ts → P r)
    (hupdate : ∀ r, .update r ∈ ts → ∀ old, old.name = r.name → P old → P (replace r old))
    (st : Reservations × List ApiError) (h : ∀ e ∈ st.1.items, P e) :
    ∀ e ∈ (ts.foldl (Task.run faults) st).1.items, P e := by
  induction ts generalizing st with
  | nil => exact h
  | cons t ts ih =>
    rw [List.foldl_cons]
    refine ih (fun r hr => hcreate r (List.mem_cons_of_mem _ hr)) (fun r hr => hupdate r (List.mem_cons_of_mem _ hr))
      (t.run faults st) ?_
    cases t with
    | create r =>
      simp only [Task.run]
      split
      next => exact h
      next =>
        intro e he
        rw [ObjectStore.mem_iff_get, ObjectStore.get_create, Option.or_eq_some_iff] at he
        obtain hold | ⟨-, hnew⟩ := he
        · exact h e (ObjectStore.mem_iff_get.mpr hold)
        · split at hnew
          next => exact Option.some.inj hnew ▸ hcreate r List.mem_cons_self
          next => cases hnew
    | update r =>
      simp only [Task.run]
      split
      next => exact h
      split
      next => exact h
      split
      next =>
        intro e he
        obtain ⟨old, hold, rfl⟩ := List.mem_map.mp he
        by_cases hname : old.name = r.name
        · exact hupdate r List.mem_cons_self old hname (h old hold)
        · rw [replace, if_neg hname]
          exact h old hold
      next => exact h

theorem get_foldl_run_of_creates (faults : Faults) (ts : List Task) (st : Reservations × List ApiError)
    (h : ∀ t ∈ ts, (object t).name = n → t = .create (object t)) {e : Reservation} (he : st.1.get n = some e) :
    (ts.foldl (Task.run faults) st).1.get n = some e := by
  induction ts generalizing st with
  | nil => exact he
  | cons t ts ih =>
    rw [List.foldl_cons]
    refine ih (t.run faults st) (fun t ht => h t (List.mem_cons_of_mem _ ht)) ?_
    cases ht : t with
    | create r =>
      simp only [Task.run]
      split
      next => exact he
      next => rw [ObjectStore.get_create, he, Option.some_or]
    | update r =>
      have hn : r.name ≠ n := by
        intro hn
        have hcreate := h t List.mem_cons_self (by rw [ht]; exact hn)
        rw [ht] at hcreate
        cases hcreate
      simp only [Task.run]
      split
      next => exact he
      split
      next => exact he
      next old hold =>
        split
        next =>
          have hname := ObjectStore.key_of_get he
          rw [ObjectStore.get_modify, he, Option.map_some, replace, if_neg (by rw [hname]; exact Ne.symm hn)]
        next => exact he

section Good

variable (Good : Reservation → Prop)

/-- Under each name stands what stood there before, or something good. -/
def Replaced (s t : Reservations) : Prop := ∀ n, t.get n = s.get n ∨ ∃ e, t.get n = some e ∧ Good e

/-- The object that a task writes is good, whatever it replaces. -/
def Writes : Task → Prop
  | .create r => Good r
  | .update r => ∀ old, old.name = r.name → Good (replace r old)

/-- The task was found by looking at the store. -/
def Fits (s : Reservations) : Task → Prop
  | .create r => s.get r.name = none
  | .update r => ∃ e, s.get r.name = some e ∧ e.resourceVersion = r.resourceVersion

variable {Good}

theorem Replaced.trans (h : Replaced Good s t) (h' : Replaced Good t u) : Replaced Good s u := by
  intro n
  obtain he | hgood := h' n
  · rw [he]
    exact h n
  · exact .inr hgood

theorem replaced_run {t : Task} (ht : Writes Good t) (st : Reservations × List ApiError) :
    Replaced Good st.1 (t.run {} st).1 := by
  intro n
  cases t with
  | create r =>
    simp only [Task.run, Bool.false_eq_true, if_false, ObjectStore.get_create]
    cases hget : st.1.get n with
    | some e => exact .inl rfl
    | none =>
      rw [Option.none_or]
      split
      next => exact .inr ⟨r, rfl, ht⟩
      next => exact .inl rfl
  | update r =>
    simp only [Task.run, Bool.false_eq_true, if_false]
    split
    next => exact .inl rfl
    split
    next =>
      rw [ObjectStore.get_modify]
      cases hget : st.1.get n with
      | none => exact .inl rfl
      | some e =>
        by_cases hname : e.name = r.name
        · exact .inr ⟨_, rfl, ht e hname⟩
        · rw [Option.map_some, replace, if_neg hname]
          exact .inl rfl
    next => exact .inl rfl

/-- A task that fits the store does not fail to write: where it finds its name
changed, something good stands there already. -/
theorem done_run {t : Task} (ht : Writes Good t) (hfits : Fits s t) {st : Reservations × List ApiError}
    (h : Replaced Good s st.1) : ∃ e, (t.run {} st).1.get (object t).name = some e ∧ Good e := by
  obtain hsame | hgood := replaced_run ht st (object t).name
  · obtain hstill | ⟨e, he, hgood⟩ := h (object t).name
    · exfalso
      cases t with
      | create r =>
        have hnone : st.1.get r.name = none := hstill.trans hfits
        simp [Task.run, object, ObjectStore.get_create, hnone] at hsame
      | update r =>
        obtain ⟨e, he, hrv⟩ := hfits
        have hget : st.1.get r.name = some e := hstill.trans he
        have hname := ObjectStore.key_of_get he
        simp only [Task.run, Bool.false_eq_true, if_false, hget, hrv, if_true, object, ObjectStore.get_modify,
          Option.map_some, replace, hname, Option.some.injEq] at hsame
        have hnext : r.resourceVersion + 1 = e.resourceVersion := congrArg Reservation.resourceVersion hsame
        omega
    · exact ⟨e, hsame.trans he, hgood⟩
  · exact hgood

theorem replaced_foldl_run {ts : List Task} (hts : ∀ t ∈ ts, Writes Good t) (st : Reservations × List ApiError) :
    Replaced Good st.1 (ts.foldl (Task.run {}) st).1 := by
  induction ts generalizing st with
  | nil => exact fun n => .inl rfl
  | cons t ts ih =>
    obtain ⟨ht, hrest⟩ := List.forall_mem_cons.mp hts
    exact (replaced_run ht st).trans (ih hrest _)

/-- However the tasks of a round are ordered, in the end something good stands
under the name of each. -/
theorem done_foldl_run {ts : List Task} (hts : ∀ t ∈ ts, Writes Good t ∧ Fits s t)
    (st : Reservations × List ApiError) (h : Replaced Good s st.1) :
    ∀ t ∈ ts, ∃ e, (ts.foldl (Task.run {}) st).1.get (object t).name = some e ∧ Good e := by
  induction ts generalizing st with
  | nil => simp
  | cons t ts ih =>
    obtain ⟨⟨hwrites, hfits⟩, hrest⟩ := List.forall_mem_cons.mp hts
    rw [List.forall_mem_cons]
    refine ⟨?_, ih hrest _ (h.trans (replaced_run hwrites st))⟩
    obtain hsame | hgood := replaced_foldl_run (fun t ht => (hrest t ht).1) (t.run {} st) (object t).name
    · obtain ⟨e, he, hgood⟩ := done_run hwrites hfits h
      exact ⟨e, hsame.trans he, hgood⟩
    · exact hgood

end Good

end KoordQueue.Reserving.Tasks
