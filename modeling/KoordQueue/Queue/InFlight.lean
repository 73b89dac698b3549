import KoordQueue.Queue.Consistency
import KoordQueue.Queue.Scan

namespace KoordQueue.Queue.InFlight

open Api UnitStatus Memory Policy Update Steps Frames Filing Scan Consistency

/-- A call on the queue, or the `Update` that shows it the status which the
dequeue of the unit wrote. -/
inductive Event
  | call (a : Action)
  | observed (now : Time) (old new : QueueUnit)

def Event.action : Event → Action
  | .call a => a
  | .observed now old new => .update now old new

/-- A queue together with the units whose dequeue is in progress. -/
structure Watched where
  state : State
  inFlight : Finset String

/-- The dequeue of a unit begins when it is reserved. It ends when the unit
fails, is deleted, or its new status is observed. -/
def inFlightAfter (inFlight : Finset String) (s : State) : Event → Finset String
  | .call (.reserve now r) =>
    if (reserve s.infos now r s.pq).2 = .ok then insert (s.infos.key r) inFlight else inFlight
  | .call (.addUnschedulable r _) => inFlight.erase (s.infos.key r)
  | .call (.delete _ qu) => inFlight.erase qu.key
  | .call (.errorFunc _ _ .updateNotFound _ _) => inFlight
  | .call (.errorFunc _ r _ _ _) => inFlight.erase (s.infos.key r)
  | .observed _ _ new => inFlight.erase new.key
  | _ => inFlight

def watched (fw : Handle) (w : Watched) (e : Event) : Option Watched :=
  (step fw w.state e.action).map (fun s => ⟨s, inFlightAfter w.inFlight w.state e⟩)

def keepsUpdating (old new : QueueUnit) : Bool :=
  unchanged old new ||
    !isQueueUnitDequeued new && (isQueueUnitReservedAnyResource new || isQueueUnitSatisfied new)

/-- No update frees a unit whose new status was not observed, and no such unit
is moved to another queue. -/
def Undisturbed (w : Watched) : Event → Prop
  | .call (.update _ old new) => new.key ∈ w.inFlight → keepsUpdating old new = true
  | .call (.fix _ g _) => ∀ key ∈ moved g w.state, key ∉ w.inFlight
  | _ => True

instance (w : Watched) (e : Event) : Decidable (Undisturbed w e) := by
  delta Undisturbed
  split <;> infer_instance

variable {fw : Handle} {m : Infos} {q : PriorityQueue} {now : Time} {s : State} {k : String}

variable {e : Event} {new old : QueueUnit} {r : Ref} {w : Watched}

theorem not_updating_of_next (h : (next fw m now q).2 = .unit r) : m.key r ∉ q.updating := by
  obtain ⟨q', p, hp, -, hup, -⟩ := next_unit h
  exact hup ▸ hp.free

theorem mem_updating_update (hk : k ∈ s.pq.updating)
    (hok : k = new.key → keepsUpdating old new = true) : k ∈ (update fw now old new s).pq.updating := by
  rw [update, (marks_refresh fw old new _).1]
  rcases updateBody_cases fw now rfl with ⟨_, heq⟩ | ⟨hu, hd, heq⟩ | ⟨hu, hd, _, heq⟩ | ⟨hu, hd, _, heq⟩
  · rw [heq]
    exact hk
  · obtain ⟨b, _, hdrop⟩ := dropDequeued_eq now old new s
    rw [heq, hdrop]
    refine Finset.mem_erase.mpr ⟨fun he => ?_, hk⟩
    simpa [keepsUpdating, hu, hd] using hok he
  · rw [heq]
    apply mem_updating_settle fw (reinsert now old new s).pq hk
    exact fun he => by simpa [keepsUpdating, hu, hd] using hok he
  · rw [heq]
    apply mem_updating_settle fw s.pq hk
    exact fun he => by simpa [keepsUpdating, hu, hd] using hok he

theorem mem_updating_foldl {refs : List Ref} (hrefs : ∀ r ∈ refs, s.infos.heap.Allocated r)
    (hk : k ∈ s.pq.updating) (hok : ∀ r ∈ refs, s.infos.key r ≠ k) :
    k ∈ (refs.foldl (fun t r => deleteWithoutLock fw now (t.infos.unit r) t) s).pq.updating := by
  induction refs generalizing s with
  | nil => exact hk
  | cons r refs ih =>
    obtain ⟨b, _, heq⟩ := deleteWithoutLock_eq fw now (s.infos.unit r) s
    have hext := extends_filedInfo now (s.infos.unit r) s
    rw [List.foldl_cons, heq]
    apply ih
    · exact fun x hx => (hext x (hrefs x (List.mem_cons_of_mem r hx))).1
    · exact Finset.mem_erase.mpr ⟨(hok r List.mem_cons_self).symm, hk⟩
    · intro x hx
      have hx' := List.mem_cons_of_mem r hx
      rw [Infos.key, hext.unit (hrefs x hx')]
      exact hok x hx'

theorem mem_updating_fix (hfiled : Filed s) {g : QueueUnit → String} {order : List String}
    (horder : order.toFinset = moved g s) (hk : k ∈ s.pq.updating) (hok : k ∉ moved g s) :
    k ∈ (fix fw now order s).pq.updating := by
  rw [fix]
  apply mem_updating_foldl _ hk
  · intro r hr he
    obtain ⟨key, hin, hl⟩ := List.mem_filterMap.mp hr
    apply hok
    rw [← horder, List.mem_toFinset, ← he, hfiled.own hl]
    exact hin
  · exact GoMap.forall_mem_lookups (fun _ _ => hfiled.allocated) order

theorem updating_addUnschedulable (r : Ref) (changed : Bool) (s : State) :
    (addUnschedulable fw r changed s).pq.updating = s.pq.updating.erase (s.infos.key r) := by
  obtain ⟨b, _, heq⟩ := addUnschedulableIfNotPresent_eq fw s.infos s.pq r changed
  rw [addUnschedulable, heq]

theorem updating_delete (qu : QueueUnit) (s : State) :
    (delete fw now qu s).pq.updating = s.pq.updating.erase qu.key := by
  obtain ⟨b, _, heq⟩ := deleteWithoutLock_eq fw now qu { s with pq := { s.pq with resetNextIdxFlag := true } }
  rw [delete, heq]

structure Marked (w : Watched) : Prop where
  filed : Filed w.state
  updating : w.inFlight ⊆ w.state.pq.updating

theorem updating_errorFunc (h : Marked w) {answer : Answer} {reasons : String}
    {changed : Bool} (he : Enabled w.state (.errorFunc now r answer reasons changed)) :
    inFlightAfter w.inFlight w.state (.call (.errorFunc now r answer reasons changed)) ⊆
      (errorFunc fw now r answer reasons changed w.state).pq.updating := by
  have hr := allocated_of_enabled now he
  cases answer with
  | getNotFound =>
    rw [errorFunc, updating_delete]
    exact Finset.erase_subset_erase _ h.updating
  | getFailed =>
    rw [errorFunc, updating_addUnschedulable]
    dsimp only
    rw [Infos.key, (extends_attempted now hr).unit hr]
    exact Finset.erase_subset_erase _ h.updating
  | updateNotFound => exact h.updating
  | got qu =>
    rw [errorFunc, updating_addUnschedulable]
    dsimp only
    rw [Infos.key, unit_refreshed now hr reasons qu hr, if_pos rfl, key_of_enabled now he]
    exact Finset.erase_subset_erase _ h.updating

theorem updating_update (h : Marked w) (now : Time) (hok : new.key ∈ w.inFlight → keepsUpdating old new = true) :
    w.inFlight ⊆ (update fw now old new w.state).pq.updating :=
  fun _ hk => mem_updating_update (h.updating hk) (fun he => hok (he ▸ hk))

theorem updating_step (h : Marked w) (hok : Undisturbed w e) (he : Enabled w.state e.action) :
    inFlightAfter w.inFlight w.state e ⊆ (act fw w.state e.action).pq.updating := by
  cases e with
  | observed now old new =>
    intro k hk
    obtain ⟨hne, hk⟩ := Finset.mem_erase.mp hk
    exact mem_updating_update (h.updating hk) (fun he => absurd he hne)
  | call a =>
    cases a with
    | newInfo now qu => exact h.updating
    | forgetInfos present => exact h.updating
    | add r =>
      obtain ⟨_, _, _, _, _, _, _, heq⟩ := addQueueUnitInfo_eq fw w.state.infos w.state.pq r
      rw [Event.action, act, heq]
      exact h.updating
    | delete now qu =>
      rw [Event.action, act, updating_delete]
      exact Finset.erase_subset_erase _ h.updating
    | update now old new => exact updating_update h now hok
    | next now =>
      obtain ⟨i, f, t, b, _, l, n, heq⟩ := next_eq fw w.state.infos now w.state.pq
      rw [Event.action, act, heq]
      exact h.updating
    | reserve now r =>
      rw [inFlightAfter, Event.action, act]
      rcases reserve_cases w.state.infos now w.state.pq r with ⟨hr, _, heq⟩ | ⟨hr, a, _, heq⟩
      · rw [if_pos hr, heq]
        exact Finset.insert_subset_insert _ h.updating
      · rw [if_neg hr, heq]
        exact h.updating
    | dequeueSuccess qu => exact h.updating
    | addUnschedulable r changed =>
      rw [Event.action, act, updating_addUnschedulable]
      exact Finset.erase_subset_erase _ h.updating
    | fix now g order =>
      exact fun k hk => mem_updating_fix h.filed he.2.2 (h.updating hk) (fun hm => hok k hm hk)
    | fixQueue =>
      rw [Event.action, act, fixQueue]
      split <;> exact h.updating
    | errorFunc now r answer reasons changed => exact updating_errorFunc h he

theorem marked_step {v : Watched} (h : Marked w) (hok : Undisturbed w e)
    (hstep : watched fw w e = some v) : Marked v := by
  obtain ⟨s, hs, rfl⟩ := Option.map_eq_some_iff.mp hstep
  obtain ⟨he, hact⟩ := (step_eq_some fw).mp hs
  refine ⟨filed_step fw h.filed hs, ?_⟩
  rw [← hact]
  exact updating_step h hok he

/-- In a run that leaves the units in flight undisturbed, `Next` hands out none
of them. -/
theorem next_not_in_flight {name queuePolicy : String} {maxDepth : Int} {waitPodsRunning : Bool}
    {reclaimProtectTime : Int} {start now : Time} {es : List Event} {w : Watched}
    (hg : Run.Guarded (watched fw) Undisturbed
      ⟨⟨{}, newPriorityQueue name queuePolicy maxDepth waitPodsRunning reclaimProtectTime start⟩, ∅⟩ es)
    (hrun : Run.exec (watched fw)
      ⟨⟨{}, newPriorityQueue name queuePolicy maxDepth waitPodsRunning reclaimProtectTime start⟩, ∅⟩ es = some w)
    {r : Ref} (hnext : (next fw w.state.infos now w.state.pq).2 = .unit r) : w.state.infos.key r ∉ w.inFlight := by
  have hw : Marked w := by
    apply Run.invariant (fun _ _ _ h hc hs => marked_step h hc hs) _ hg hrun
    exact ⟨filed_newPriorityQueue {} name queuePolicy maxDepth waitPodsRunning reclaimProtectTime start,
      Finset.empty_subset _⟩
  exact fun hin => not_updating_of_next hnext (hw.updating hin)

/-- A unit is reserved, and an update of it comes that changes nothing that
counts. -/
def untouchedWhileDequeued : List Event :=
  [.call (.newInfo 0 high), .call (.newInfo 0 low), .call (.add 0), .call (.add 1), .call (.next 0),
    .call (.reserve 0 0), .call (.update 0 high (jobUnit "a" "2" (some ⟨1, 10⟩) 1 []))]

theorem next_not_in_flight_beside_dequeue :
    ∃ w, Run.exec (watched noQuotas) ⟨emptyQueue, ∅⟩ untouchedWhileDequeued = some w ∧
      w.inFlight = {"ns/a"} ∧ (next noQuotas w.state.infos 0 w.state.pq).2 = .unit 1 ∧
      w.state.infos.key 1 ∉ w.inFlight := by
  obtain ⟨w, hrun, hin, hnext⟩ : ∃ w, Run.exec (watched noQuotas) ⟨emptyQueue, ∅⟩ untouchedWhileDequeued = some w ∧
      w.inFlight = {"ns/a"} ∧ (next noQuotas w.state.infos 0 w.state.pq).2 = .unit 1 := by decide +kernel
  have hg : Run.Guarded (watched noQuotas) Undisturbed ⟨emptyQueue, ∅⟩ untouchedWhileDequeued := by
    decide +kernel
  exact ⟨w, hrun, hin, hnext, next_not_in_flight hg hrun hnext⟩

/-- A unit is reserved, and the count of its podset changes before the status
with its admissions is written. -/
def resizedWhileDequeued : List Event :=
  [.call (.newInfo 0 high), .call (.add 0), .call (.next 0), .call (.reserve 0 0),
    .call (.update 0 high (jobUnit "a" "2" (some ⟨1, 10⟩) 2 [])), .call (.next 0)]

theorem resized_unit_handed_out_in_flight :
    ∃ w, Run.exec (watched noQuotas) ⟨emptyQueue, ∅⟩ resizedWhileDequeued = some w ∧
      (next noQuotas w.state.infos 0 w.state.pq).2 = .unit 0 ∧ w.state.infos.key 0 ∈ w.inFlight := by
  decide +kernel

end KoordQueue.Queue.InFlight
