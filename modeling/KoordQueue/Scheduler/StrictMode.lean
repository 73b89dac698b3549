import KoordQueue.Queue.FullPass

namespace KoordQueue.Scheduler.StrictMode

open Api KoordQueue.Queue Memory Less Policy Update Steps Queue.Representation Slice Consistency FullPass

structure Config where
  enableStrictDequeueMode : Bool := false
  queueList : Finset String := ∅
  queueListNotIn : Finset String := ∅

def quotaListEnabled (c : Config) (queue : String) : Bool :=
  if c.queueListNotIn ≠ ∅ ∧ queue ∈ c.queueListNotIn then false
  else if c.queueList ≠ ∅ ∧ queue ∉ c.queueList then false
  else true

/-- The unit goes on to the filters. The priority is compared with that of the last
unit that came here, whatever became of it. -/
def letsThrough (c : Config) (queue : String) (priority lastScheduledPriority : Int)
    (waitingForSchedulingLen : Nat) : Bool :=
  !c.enableStrictDequeueMode ||
    c.enableStrictDequeueMode && (!quotaListEnabled c queue || decide (priority ≥ lastScheduledPriority) ||
      decide (waitingForSchedulingLen = 0))

structure World where
  state : State
  lastScheduledPriority : Int := 0

/-- What a call of `schedule` meets: how many units of the queue wait for their pods, how the
cycle of a unit that is let through ends, and what the API server answers for one that is not. -/
structure Call where
  now : Time
  waitingForSchedulingLen : Nat
  outcome : Ref → Outcome
  answer : Answer

def blockedMessage : String := "job is block by others with high priority"

def passes (c : Config) (queue : String) (call : Call) (w : World) (r : Ref) : Bool :=
  letsThrough c queue (priorityOf (w.state.infos.unit r)) w.lastScheduledPriority call.waitingForSchedulingLen

/-- A call of `schedule` for a queue, with the unit it got and whether it was let through. -/
def schedule (fw : Handle) (c : Config) (queue : String) (call : Call) (w : World) :
    Option (World × Option (Ref × Bool)) :=
  (attempt fw call.now (fun r => if passes c queue call w r then call.outcome r
    else .failed call.answer blockedMessage) w.state).map (fun (s, found) =>
      (⟨s, (found.map (fun r => priorityOf (w.state.infos.unit r))).getD w.lastScheduledPriority⟩,
        found.map (fun r => (r, passes c queue call w r))))

def schedules (fw : Handle) (c : Config) (queue : String) : List Call → World → Option (World × List (Ref × Bool))
  | [], w => some (w, [])
  | call :: calls, w => (schedule fw c queue call w).bind (fun (w, found) =>
    (schedules fw c queue calls w).map (fun (w, rest) => (w, found.toList ++ rest)))

def descents (m : Infos) : Int → List Ref → List (Ref × Bool)
  | _, [] => []
  | last, r :: refs => (r, decide (last ≤ priorityOf (m.unit r))) :: descents m (priorityOf (m.unit r)) refs

theorem map_fst_descents (m : Infos) (last : Int) (refs : List Ref) : (descents m last refs).map Prod.fst = refs := by
  induction refs generalizing last with
  | nil => rfl
  | cons r refs ih => rw [descents, List.map_cons, ih]

theorem descents_congr {m m' : Infos} {refs : List Ref} (h : ∀ r ∈ refs, m'.unit r = m.unit r) (last : Int) :
    descents m' last refs = descents m last refs := by
  induction refs generalizing last with
  | nil => rfl
  | cons r refs ih =>
    rw [descents, descents, h r List.mem_cons_self, ih (fun x hx => h x (List.mem_cons_of_mem r hx))]

/-- Along units of falling priority a unit is at least as high as the one before it when
their priorities are the same. -/
theorem descents_iff {m : Infos} {refs : List Ref}
    (hsorted : refs.Pairwise (fun x y => priorityOf (m.unit y) ≤ priorityOf (m.unit x))) (last : Int) (i : Nat)
    (x y : Ref × Bool) (hx : (descents m last refs)[i]? = some x) (hy : (descents m last refs)[i + 1]? = some y) :
    y.2 = true ↔ priorityOf (m.unit y.1) = priorityOf (m.unit x.1) := by
  induction refs generalizing last i with
  | nil => cases hx
  | cons r refs ih =>
    cases i with
    | succ i => exact ih hsorted.of_cons _ i hx hy
    | zero =>
      cases refs with
      | nil => cases hy
      | cons r' refs =>
        cases hx
        cases hy
        have hle := List.rel_of_pairwise_cons hsorted List.mem_cons_self
        rw [decide_eq_true_iff]
        exact ⟨fun h => le_antisymm hle h, fun h => h.ge⟩

/-- What a call may meet in a pass in which some unit waits for its pods all the time. -/
structure Call.Held (call : Call) : Prop where
  waiting : call.waitingForSchedulingLen ≠ 0
  outcome : ∀ r, (call.outcome r).Returns
  answer : ∀ reasons, (Outcome.failed call.answer reasons).Returns

section Pass

variable {fw : Handle} {c : Config} {queue : String} {w w' : World}

variable {call : Call} {calls : List Call}

theorem passes_held (hstrict : c.enableStrictDequeueMode = true) (hlisted : quotaListEnabled c queue = true)
    (hcall : call.Held) (r : Ref) :
    passes c queue call w r = decide (w.lastScheduledPriority ≤ priorityOf (w.state.infos.unit r)) := by
  simp [passes, letsThrough, hstrict, hlisted, hcall.waiting]

theorem schedule_offers (hstrict : c.enableStrictDequeueMode = true) (hlisted : quotaListEnabled c queue = true)
    (hp : Passing w.state.pq) (hs : Sliced w.state) (hdue : rewindDue call.now w.state.pq = false)
    (hcall : call.Held) {r : Ref} {l : List Ref} (hl : offers fw w.state = r :: l) {found : Option (Ref × Bool)}
    (h : schedule fw c queue call w = some (w', found)) :
    found = some (r, decide (w.lastScheduledPriority ≤ priorityOf (w.state.infos.unit r))) ∧
      w'.lastScheduledPriority = priorityOf (w.state.infos.unit r) ∧ offers fw w'.state = l ∧
      (∀ x ∈ l, w'.state.infos.unit x = w.state.infos.unit x) ∧ Kept w.state.pq w'.state.pq ∧ Sliced w'.state := by
  obtain ⟨⟨s, found'⟩, ha, he⟩ := Option.map_eq_some_iff.mp h
  cases he
  have hret : ∀ r, (if passes c queue call w r then call.outcome r
      else Outcome.failed call.answer blockedMessage).Returns := by
    intro r
    split
    next => exact hcall.outcome r
    next => exact hcall.answer _
  obtain ⟨rfl, hoffers, hunit, hkept, hsliced⟩ := attempt_offers hp hs hdue hret hl ha
  refine ⟨?_, rfl, hoffers, hunit, hkept, hsliced⟩
  rw [Option.map_some, passes_held hstrict hlisted hcall]

theorem schedules_offers (hstrict : c.enableStrictDequeueMode = true) (hlisted : quotaListEnabled c queue = true)
    (hp : Passing w.state.pq) (hs : Sliced w.state)
    (hdue : ∀ call ∈ calls, rewindDue call.now w.state.pq = false) (hcalls : ∀ call ∈ calls, call.Held)
    {out : List (Ref × Bool)} (h : schedules fw c queue calls w = some (w', out))
    (hlen : calls.length = (offers fw w.state).length) :
    out = descents w.state.infos w.lastScheduledPriority (offers fw w.state) := by
  induction calls generalizing w out with
  | nil =>
    cases h
    rw [List.length_eq_zero_iff.mp hlen.symm]
    rfl
  | cons call calls ih =>
    cases hl : offers fw w.state with
    | nil =>
      rw [hl] at hlen
      cases hlen
    | cons r l =>
      obtain ⟨⟨u, found⟩, hu, h⟩ := Option.bind_eq_some_iff.mp h
      obtain ⟨⟨v, rest⟩, hv, he⟩ := Option.map_eq_some_iff.mp h
      cases he
      obtain ⟨rfl, hlast, hoffers, hunit, hkept, hsliced⟩ := schedule_offers hstrict hlisted hp hs
        (hdue call List.mem_cons_self) (hcalls call List.mem_cons_self) hl hu
      have hdue' : ∀ b ∈ calls, rewindDue b.now u.state.pq = false := by
        intro b hb
        rw [rewindDue_kept hkept hp]
        exact hdue b (List.mem_cons_of_mem call hb)
      rw [hl] at hlen
      have hrest := ih hkept.passing hsliced hdue' (fun b hb => hcalls b (List.mem_cons_of_mem call hb)) hv
        (by rw [hoffers]; exact Nat.succ.inj hlen)
      rw [hrest, hoffers, hlast, descents, descents_congr hunit]
      rfl

theorem schedules_rewind (hopen : w.state.pq.closed = false) :
    schedules fw c queue (call :: calls) { w with state := ⟨w.state.infos, rewind call.now w.state.pq⟩ } =
      schedules fw c queue (call :: calls) w := by
  rw [schedules, schedules, schedule, attempt_rewind fw call.now _ hopen, schedule]
  rfl

theorem priority_antitone {obj : Objects} {s : State} (hrep : Represented obj s) :
    s.pq.queue.Pairwise (fun x y => priorityOf (s.infos.unit y) ≤ priorityOf (s.infos.unit x)) := by
  refine hrep.sorted.imp (fun {x y} hlt => ?_)
  obtain hp | hp := (rank_lt_iff _ _).mp hlt
  · exact hp.le
  · exact hp.1.ge

/-- While units of the queue wait for their pods, an undisturbed pass in strict mode turns away the
units with a lower priority than the unit before them and no others: a unit goes on to the filters
if and only if its priority is that of the unit before it. -/
theorem strict_pass {obj : Objects} {call : Call} {calls : List Call} {out : List (Ref × Bool)}
    (hstrict : c.enableStrictDequeueMode = true) (hlisted : quotaListEnabled c queue = true)
    (hrep : Represented obj w.state) (hblocked : w.state.pq.blocked = false) (hquota : w.state.pq.blockedQuota = ∅)
    (hopen : w.state.pq.closed = false) (hdue : rewindDue call.now w.state.pq = true)
    (hwindow : ∀ b ∈ calls, b.now - call.now ≤ getQueueMaxResetDuration w.state.pq)
    (hcalls : ∀ b ∈ call :: calls, b.Held) (hlen : (call :: calls).length = (eligible fw w.state).length)
    (h : schedules fw c queue (call :: calls) w = some (w', out)) :
    out.map Prod.fst = eligible fw w.state ∧
      ∀ (i : Nat) (x y : Ref × Bool), out[i]? = some x → out[i + 1]? = some y →
        (y.2 = true ↔ priorityOf (w.state.infos.unit y.1) = priorityOf (w.state.infos.unit x.1)) := by
  have hb := begun fw hrep hblocked hquota hopen hdue
  have hall : ∀ b ∈ call :: calls, rewindDue b.now (rewind call.now w.state.pq) = false := by
    intro b hin
    refine hb.all_window (calls.map Call.now) ?_ b.now (List.mem_map_of_mem (f := Call.now) hin)
    exact List.forall_mem_map.mpr hwindow
  rw [← schedules_rewind hopen] at h
  have hout := schedules_offers hstrict hlisted hb.passing hb.sliced hall hcalls h (by rw [hb.offers, hlen])
  rw [hb.offers] at hout
  subst hout
  refine ⟨map_fst_descents _ _ _, ?_⟩
  exact descents_iff ((priority_antitone hrep).sublist (eligible_sublist fw w.state)) _

end Pass

def strictAll : Config := { enableStrictDequeueMode := true }

def failsAt (now : Time) : Call := ⟨now, 1, fun _ => .failed .getFailed "no quota", .getFailed⟩

def threeUnits : List Action :=
  [.newInfo 0 high, .newInfo 0 low, .newInfo 0 (jobUnit "c" "1" (some ⟨3, 5⟩) 1 []), .add 0, .add 1, .add 2]

theorem strict_pass_three :
    ∃ s w', Run.exec (step noQuotas) emptyQueue threeUnits = some s ∧
      schedules noQuotas strictAll "q" [failsAt 1, failsAt 2, failsAt 3] ⟨s, 0⟩ =
        some (w', [(0, true), (1, false), (2, true)]) ∧
      priorityOf (s.infos.unit 2) = priorityOf (s.infos.unit 1) := by
  obtain ⟨s, hrun, hblocked, hquota, hopen, hdue, hsecond, hthird, hel, hpass⟩ : ∃ s,
      Run.exec (step noQuotas) emptyQueue threeUnits = some s ∧ s.pq.blocked = false ∧ s.pq.blockedQuota = ∅ ∧
      s.pq.closed = false ∧ rewindDue 1 s.pq = true ∧ 2 - 1 ≤ getQueueMaxResetDuration s.pq ∧
      3 - 1 ≤ getQueueMaxResetDuration s.pq ∧ eligible noQuotas s = [0, 1, 2] ∧
      (schedules noQuotas strictAll "q" [failsAt 1, failsAt 2, failsAt 3] ⟨s, 0⟩).any
      (fun e => e.2 = [(0, true), (1, false), (2, true)]) := by decide +kernel
  obtain ⟨⟨w', out⟩, hpass, hout⟩ := (Option.any_eq_true _ _).mp hpass
  obtain rfl : out = [(0, true), (1, false), (2, true)] := of_decide_eq_true hout
  have hrep : Represented namedObjects s := by
    refine Run.invariant (fun _ _ _ h hc hs => represented_step noQuotas h hc hs)
      (represented_newPriorityQueue namedObjects "q" "Priority" (-1) false 0 0) ?_ hrun
    exact fun _ _ => ⟨⟨rfl, rfl⟩, fun _ _ => ⟨⟨rfl, rfl⟩, fun _ _ => ⟨⟨rfl, rfl⟩, fun _ _ => ⟨trivial,
      fun _ _ => ⟨trivial, fun _ _ => ⟨trivial, trivial⟩⟩⟩⟩⟩⟩
  have hheld (now : Time) : (failsAt now).Held := ⟨Nat.one_ne_zero, fun _ => trivial, fun _ => trivial⟩
  have hdue : rewindDue (failsAt 1).now s.pq = true := hdue
  have hstrict := strict_pass (w := ⟨s, 0⟩) rfl (by decide) hrep
    hblocked hquota hopen hdue (List.forall_mem_cons.mpr ⟨hsecond, List.forall_mem_singleton.mpr hthird⟩)
    (by simp [hheld]) (by rw [hel]; rfl) hpass
  exact ⟨s, w', hrun, hpass, (hstrict.2 1 (1, false) (2, true) rfl rfl).mp rfl⟩

end KoordQueue.Scheduler.StrictMode
