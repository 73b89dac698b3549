import KoordQueue.Lib.Run
import KoordQueue.Multi.Reshelving

namespace KoordQueue.Multi.Lossless

open Api UnitStatus KoordQueue.Queue Memory Frames Filing Object Calls Handlers Places Board
  Coverage Reshelving Run

/-- Some registered queue holds a unit of the key. -/
def Held (s : State) (key : String) : Prop := ∃ n, key ∈ contents s n

/-- A unit that exists and is not dequeued is held by a registered queue or is
on the list of units without a queue. -/
def NoneLost (s : State) : Prop :=
  ∀ key v, s.lister.lookup key = some v → isQueueUnitDequeued v = false →
    Held s key ∨ key ∈ s.queueUnitFindNoQueue.map s.infos.key

structure Safe (s : State) : Prop where
  wired : Wired s
  keyed : Keyed s.lister
  covered : Covered s.lister (fun _ => True) s.infos (contents s) s.queueUnitFindNoQueue

theorem Safe.noneLost {s : State} (h : Safe s) : NoneLost s := by
  intro key v hv hw
  rcases h.covered.kept trivial hv hw with hheld | ⟨r, hr, hkey, _⟩
  · exact Or.inl hheld
  · exact Or.inr (List.mem_map.mpr ⟨r, hr, hkey⟩)

variable {fw : MultiHandle} {now : Time} {g : Mapping} {s t : State}

theorem safe_fixQueues {orders : List (String × List String)} (h : Safe s) (hn : ∀ e ∈ orders, e.2.Nodup)
    (hrun : s.fixQueues fw now g orders = some t) : Safe t := by
  rw [State.fixQueues] at hrun
  split at hrun
  next u units hcollect =>
    obtain ⟨hwu, hlu, hlist, hcu⟩ := covered_collect (s := { s with queueUnitFindNoQueue := [] })
      (h.wired.congr rfl rfl) hn h.covered hcollect
    have hcovered : Covered u.lister (fun _ => True) u.infos (contents u) (units ++ u.queueUnitFindNoQueue) := by
      rw [hlu, hlist, List.append_nil]
      exact hcu
    obtain ⟨hwt, hlt, hct⟩ := covered_requeue hwu hcovered hrun
    rw [← hlt] at hct
    exact ⟨hwt, (hlt.trans hlu) ▸ h.keyed, hct⟩

theorem safe_flush (h : Safe s) (hg : Answered s g none s.queueUnitFindNoQueue)
    (hrun : s.flushUnitsFindNoQueue fw now g = some t) : Safe t := by
  have hcovered : Covered s.lister (fun _ => True) s.infos (shelves none s) (s.queueUnitFindNoQueue ++ []) := by
    rw [shelves_none, List.append_nil]
    exact h.covered
  obtain ⟨hwt, hlt, hct⟩ := covered_flushUnits h.wired h.keyed hcovered hg hrun
  rw [shelves_none, ← hlt] at hct
  exact ⟨hwt, hlt ▸ h.keyed, hct⟩

theorem safe_deleteQueue {n : String} {order : List String} (h : Safe s) (hr : Ranges order (contents s n).keys)
    (hg : n ∈ s.queueMap → Answered s g (some n) (s.queueUnitFindNoQueue ++ order.filterMap (contents s n).lookup))
    (hrun : s.deleteQueue fw now g n order = some t) : Safe t := by
  rw [State.deleteQueue] at hrun
  split at hrun
  next =>
    cases hrun
    exact h
  next o ho =>
    obtain ⟨u, hflush, rfl⟩ := Option.map_eq_some_iff.mp hrun
    rw [← contents_of_lookup ho] at hflush
    have hcovered := covered_takeOut h.covered hr.1 (without_all hr)
    rw [← shelves_hide, ← List.append_nil (s.queueUnitFindNoQueue ++ _)] at hcovered
    rw [State.flushUnitsFindNoQueue] at hflush
    dsimp only at hflush
    generalize hlist : s.queueUnitFindNoQueue ++ order.filterMap (contents s n).lookup = list at hcovered hflush hg
    obtain ⟨hwu, hlu, hcu⟩ := @covered_flushUnits fw now g { s with queueUnitFindNoQueue := list } u (some n) list []
      (h.wired.congr rfl rfl) h.keyed hcovered (hg (Finmap.mem_iff.mpr ⟨o, ho⟩)) hflush
    refine ⟨wired_erase hwu n, hlu ▸ h.keyed, ?_⟩
    rw [contents_erase]
    exact hlu ▸ hcu

section Units

variable {qu old new : QueueUnit} {n : String} {o : Ref}

structure Pending (key : String) (s : State) : Prop where
  wired : Wired s
  keyed : Keyed s.lister
  covered : Covered s.lister (· ≠ key) s.infos (contents s) s.queueUnitFindNoQueue

theorem pending_event (h : Safe s) (qu : QueueUnit) :
    Pending qu.key { s with lister := s.lister.insert qu.key qu } where
  wired := h.wired.congr rfl rfl
  keyed := keyed_insert h.keyed qu
  covered := covered_lister h.covered (fun _ hne => ⟨trivial, Finmap.lookup_insert_of_ne _ hne⟩)

theorem pending_of_safe (h : Safe s) (key : String) : Pending key s where
  wired := h.wired
  keyed := h.keyed
  covered := covered_lister h.covered (fun _ _ => ⟨trivial, rfl⟩)

theorem pending_deleteIfFound (h : Pending qu.key s) (hrun : s.deleteIfFound fw now n qu = some t) :
    Pending qu.key t ∧ t.lister = s.lister ∧ t.queueMap = s.queueMap := by
  obtain ⟨htouched, hext⟩ := touched_deleteIfFound h.wired hrun
  refine ⟨⟨htouched.wired, htouched.lister ▸ h.keyed, ?_⟩, htouched.lister, htouched.queueMap⟩
  rw [htouched.lister, htouched.list, contents_touched htouched]
  exact covered_extends (covered_erase h.covered (not_not.mpr rfl)) hext

theorem covered_new {lister : GoMap String QueueUnit} {m : Infos} {held : Shelves} {list : List Ref}
    (h : Covered lister (· ≠ qu.key) m held list) (hv : lister.lookup qu.key = some qu) (now : Time) :
    Covered lister (fun _ => True) (m.newQueueUnitInfo now qu) held (m.heap.next :: list) := by
  have hkey : (m.newQueueUnitInfo now qu).key m.heap.next = qu.key := congrArg QueueUnit.key (Infos.unit_newQueueUnitInfo m now qu)
  refine covered_enlist h (extends_newQueueUnitInfo m now qu) (allocated_new m now qu) (Nat.lt_irrefl _) ?_ ?_
  · rw [hkey, Infos.unit_newQueueUnitInfo, hv]
  · intro key _
    rw [hkey]
    exact (em (key = qu.key)).symm

theorem safe_addUnitsFindNoQueue (h : Pending qu.key s) (hv : s.lister.lookup qu.key = some qu) :
    Safe (s.addUnitsFindNoQueue now qu) where
  wired := h.wired.congr rfl rfl
  keyed := h.keyed
  covered := covered_perm (covered_new h.covered hv now) (List.perm_append_singleton _ _)

variable {result : Except String Bool}

theorem safe_addNew {name : String} (h : Pending qu.key s)
    (hv : s.lister.lookup qu.key = some qu) (hn : s.queueMap.lookup n = some o)
    (hrun : { s.setQueueForQueueUnit qu name with infos := s.infos.newQueueUnitInfo now qu
      }.addQueueUnitInfo fw now o s.infos.heap.next = some (t, result)) : Safe t ∧ t.lister = s.lister := by
  have hwired : Wired { s.setQueueForQueueUnit qu name with infos := s.infos.newQueueUnitInfo now qu } :=
    h.wired.congr rfl rfl
  obtain ⟨htouched, hext, _⟩ := touched_add hwired hn (allocated_new s.infos now qu) hrun
  have hlister : t.lister = s.lister := htouched.lister
  refine ⟨⟨htouched.wired, hlister ▸ h.keyed, ?_⟩, hlister⟩
  rw [hlister, htouched.list, contents_touched htouched]
  exact covered_extends (covered_place (covered_new h.covered hv now) n) hext

theorem safe_addQueueUnit (h : Pending qu.key s) (hv : s.lister.lookup qu.key = some qu)
    (hrun : s.addQueueUnit fw now g qu = some t) : Safe t := by
  rw [State.addQueueUnit] at hrun
  split at hrun
  next =>
    cases hrun
    exact safe_addUnitsFindNoQueue h hv
  next n o hfound =>
    obtain ⟨_, ho⟩ := found_target hfound
    obtain ⟨⟨u, result⟩, hadd, rfl⟩ := Option.map_eq_some_iff.mp hrun
    exact (safe_addNew h hv ho hadd).1

theorem safe_listFailed (h : Safe s) (hv : s.lister.lookup qu.key = some qu) :
    Safe (State.listFailed now qu (s, result)) := by
  cases result with
  | ok _ => exact h
  | error _ => exact safe_addUnitsFindNoQueue (pending_of_safe h qu.key) hv

/-- Where the queue returns early from the update, it does not hold a unit that no
longer waits, and holds one that waits again. -/
def Noticed (fw : MultiHandle) (s : State) (g : Mapping) (old new : QueueUnit) : Prop :=
  ∀ o ∈ stays s g old new, skips fw.toHandle old new (s.objects.get o) = true →
    (isQueueUnitDequeued new = true → new.key ∉ (s.objects.get o).units) ∧
      (isQueueUnitDequeued old = true → isQueueUnitDequeued new = false → new.key ∈ (s.objects.get o).units)
deriving Decidable

theorem safe_updateQueueUnit (h : Safe s) (hold : s.lister.lookup new.key = some old) (hg : Noticed fw s g old new)
    (hrun : { s with lister := s.lister.insert new.key new }.updateQueueUnit fw now g old new = some t) : Safe t := by
  have hpending := pending_event h new
  have hnew : (s.lister.insert new.key new).lookup new.key = some new := Finmap.lookup_insert _
  rw [State.updateQueueUnit] at hrun
  dsimp only at hrun
  split at hrun
  next =>
    obtain ⟨u, hdelete, rfl⟩ := Option.map_eq_some_iff.mp hrun
    obtain ⟨hu, hlister, _⟩ := pending_deleteIfFound hpending hdelete
    exact safe_addUnitsFindNoQueue hu (hlister ▸ hnew)
  next n o hfound =>
    obtain ⟨htarget, ho⟩ := found_target hfound
    split at hrun
    next hsame =>
      obtain ⟨units, m, htouched, hext, hupdated⟩ := touched_update hpending.wired ho (h.covered.filed n) hrun
      have hstays : o ∈ stays s g old new := by
        rw [stays, htarget]
        exact (if_pos hsame).trans ho
      have hunits : contents s n = (s.objects.get o).units := contents_of_lookup ho
      refine ⟨htouched.wired, htouched.lister ▸ hpending.keyed, ?_⟩
      rw [htouched.lister, htouched.list, contents_touched htouched]
      refine covered_updated (covered_extends hpending.covered hext) hnew hupdated ?_ ?_
      · intro hs hd
        have hfree := (hg o hstays hs).1 hd
        rwa [← hunits] at hfree
      · intro hs hd
        cases hwas : isQueueUnitDequeued old with
        | false => exact (covered_extends h.covered hext).kept trivial hold hwas
        | true =>
          have hheld := (hg o hstays hs).2 hwas hd
          rw [← hunits] at hheld
          exact Or.inl ⟨n, hheld⟩
    next =>
      obtain ⟨u, hdelete, hrest⟩ := Option.bind_eq_some_iff.mp hrun
      obtain ⟨hu, hlister, hmap⟩ := pending_deleteIfFound hpending hdelete
      obtain ⟨⟨w, result⟩, hadd, rfl⟩ := Option.map_eq_some_iff.mp hrest
      have ho' : u.queueMap.lookup n = some o := hmap ▸ ho
      have hnew' : u.lister.lookup new.key = some new := hlister ▸ hnew
      obtain ⟨hw, hlw⟩ := safe_addNew hu hnew' ho' hadd
      exact safe_listFailed hw (hlw ▸ hnew')

theorem safe_deleteQueueUnit (h : Pending qu.key s) (hv : s.lister.lookup qu.key = none)
    (hrun : s.deleteQueueUnit fw now qu = some t) : Safe t := by
  obtain ⟨u, hdelete, rfl⟩ := Option.map_eq_some_iff.mp hrun
  obtain ⟨hu, hlister, _⟩ := pending_deleteIfFound h hdelete
  refine ⟨hu.wired.congr rfl rfl, hu.keyed, ?_⟩
  refine ⟨hu.covered.toSound, hu.covered.waiting, ?_⟩
  intro key v _ hv' hw
  refine hu.covered.kept ?_ hv' hw
  rintro rfl
  have hv'' : s.lister.lookup qu.key = some v := hlister ▸ hv'
  rw [hv] at hv''
  cases hv''

end Units

theorem safe_addQueue (h : Safe s) (cr : QueueCr) : Safe (s.addQueue fw now cr) := by
  obtain ⟨hw, hcontents, hinfos, _, hlist, hlister⟩ := @addQueue_spec s fw now h.wired cr
  refine ⟨hw, hlister ▸ h.keyed, ?_⟩
  rw [hlister, hinfos, hlist, funext hcontents]
  exact h.covered

theorem safe_updateQueue {old new : QueueCr} {redistributed listed : List String} (h : Safe s)
    (hl : Ranges listed (contents s new.name).keys)
    (hrun : s.updateQueue fw now old new redistributed listed = some t) : Safe t := by
  rw [State.updateQueue] at hrun
  split at hrun
  next =>
    cases hrun
    exact safe_addQueue h new
  next o ho =>
    split at hrun
    next =>
      cases hrun
      exact h
    next =>
      obtain ⟨units, htouched, hinfos, hwithin, hkeep⟩ :=
        touched_sync h.wired ho (h.covered.filed new.name) (fun key => (mem_ranges hl key).mpr) hrun
      refine ⟨htouched.wired, htouched.lister ▸ h.keyed, ?_⟩
      rw [htouched.lister, htouched.list, contents_touched htouched, hinfos]
      refine covered_shrink h.covered hwithin ?_
      intro key hkey _
      obtain ⟨r, hr⟩ := Finmap.mem_iff.mp hkey
      exact hkeep key r hr (h.covered.waiting hr)

/-- The mapping answers for the units that are moved, and an early return does
not hide that a unit waits again. -/
def Careful (fw : MultiHandle) (s : State) : Action → Prop
  | .deleteQueue _ g n order => n ∈ s.queueMap →
      Answered s g (some n) (s.queueUnitFindNoQueue ++ order.filterMap (contents s n).lookup)
  | .updateUnit _ g oldQu newQu => Noticed fw s g oldQu newQu
  | .flush _ g => Answered s g none s.queueUnitFindNoQueue
  | _ => True

theorem safe_step {a : Action} (h : Safe s) (hg : Careful fw s a) (hstep : step fw s a = some t) : Safe t := by
  rw [step] at hstep
  split at hstep
  next htrue =>
    cases a with
    | addQueue now cr =>
      cases hstep
      exact safe_addQueue h cr
    | updateQueue now old new redistributed listed => exact safe_updateQueue h htrue.2.2 hstep
    | deleteQueue now g n order => exact safe_deleteQueue h htrue hg hstep
    | addUnit now g qu => exact safe_addQueueUnit (pending_event h qu) (Finmap.lookup_insert _) hstep
    | updateUnit now g oldQu newQu => exact safe_updateQueueUnit h htrue.1 hg hstep
    | deleteUnit now qu =>
      have hpending : Pending qu.key { s with lister := s.lister.erase qu.key } :=
        { wired := h.wired.congr rfl rfl
          keyed := keyed_erase h.keyed qu.key
          covered := covered_lister h.covered (fun _ hne => ⟨trivial, Finmap.lookup_erase_ne hne⟩) }
      exact safe_deleteQueueUnit hpending (Finmap.lookup_erase _ _) hstep
    | flush now g => exact safe_flush h hg hstep
    | fixQueues now g orders => exact safe_fixQueues h (fun e he => (htrue.2 e he).1) hstep
  next => cases hstep

theorem safe_init : Safe {} where
  wired := ⟨fun h => absurd h (by simp), fun h => absurd h (by simp), fun h => absurd h (by simp)⟩
  keyed key v h := absurd h (by simp)
  covered := by
    have hempty : ∀ n, contents {} n = ∅ := fun n => contents_of_none (Finmap.lookup_empty n)
    refine ⟨⟨fun n => ⟨?_, ?_⟩, ?_, List.nodup_nil, ?_, ?_⟩, ?_, ?_⟩ <;> simp [hempty]

/-- Events of queues and units, flushes and `FixQueues` calls in any order lose no
unit, as long as the mapping answers for what is moved. -/
theorem none_lost {run : List Action} (hg : Guarded (step fw) (Careful fw) {} run)
    (hrun : exec (step fw) {} run = some s) : NoneLost s :=
  (invariant (fun _ _ _ h hok hstep => safe_step h hok hstep) safe_init hg hrun).noneLost

section Runs

instance (s : State) (key : String) : Decidable (Held s key) :=
  decidable_of_iff (∃ n ∈ s.queueMap.keys, key ∈ contents s n) (by
    constructor
    · rintro ⟨n, _, hn⟩
      exact ⟨n, hn⟩
    · rintro ⟨n, hn⟩
      refine ⟨n, ?_, hn⟩
      rw [Finmap.mem_keys]
      by_contra hnone
      rw [contents_of_none (Finmap.lookup_eq_none.mpr hnone)] at hn
      exact Finmap.notMem_empty hn)

deriving instance Decidable for Answered

instance (fw : MultiHandle) (s : State) (a : Action) : Decidable (Careful fw s a) := by
  delta Careful
  induction a using Handlers.Action.casesOn <;> infer_instance

theorem none_lost_moved : ∃ s, exec (step plainHandle) {} (oneHeld ++ [.deleteQueue 0 (allTo "b") "a" ["ns/u"]]) =
    some s ∧ Held s "ns/u" ∧ NoneLost s := by
  obtain ⟨s, hrun, hs⟩ : ∃ s, exec (step plainHandle) {} (oneHeld ++ [.deleteQueue 0 (allTo "b") "a" ["ns/u"]]) =
      some s ∧ Held s "ns/u" := by decide +kernel
  exact ⟨s, hrun, hs, none_lost (by decide +kernel) hrun⟩

/-- The unit still maps to the queue that is deleted. It is flushed back into that
queue, which is then taken off the map. -/
theorem unit_lost_deleted : ∃ s,
    exec (step plainHandle) {} (oneHeld ++ [.deleteQueue 0 (allTo "a") "a" ["ns/u"]]) = some s ∧ ¬ NoneLost s := by
  obtain ⟨s, hrun, hexists, hnot, hlist⟩ : ∃ s, exec (step plainHandle) {}
      (oneHeld ++ [.deleteQueue 0 (allTo "a") "a" ["ns/u"]]) = some s ∧ s.lister.lookup "ns/u" = some waiter ∧
      ¬ Held s "ns/u" ∧ s.queueUnitFindNoQueue = [] := by decide +kernel
  refine ⟨s, hrun, fun h => ?_⟩
  rcases h "ns/u" waiter hexists (by decide +kernel) with hheld | hlisted
  · exact hnot hheld
  · rw [hlist] at hlisted
    cases hlisted

end Runs

end KoordQueue.Multi.Lossless
