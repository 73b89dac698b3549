import KoordQueue.Lib.Run
import KoordQueue.Queue.Scan
import KoordQueue.Queue.Settings

namespace KoordQueue.Queue.HeadOfLine

open Api UnitStatus Memory Less Policy Update Steps Frames Settings Scan

def FromStart (q : PriorityQueue) : Prop := q.resetNextIdxFlag = true ∨ q.nextIdx = 0

/-- What lets the scan pass over a unit whose quota is not blocked. -/
def SetAside (fw : Handle) (m : Infos) (q : PriorityQueue) (r : Ref) : Prop :=
  m.key r ∈ q.updating ∨ (fw.queueUnitActive = true ∧ isQueueUnitActive (m.unit r) = false) ∨
    isQueueUnitSatisfied (m.unit r) = true
deriving Decidable

def baseQuota (fw : Handle) (m : Infos) (r : Ref) : Option String := firstQuota fw (m.unit r)

variable {fw : Handle} {m : Infos} {now : Time} {q p : PriorityQueue} {r x : Ref}

/-- A unit that is passed over while another one of its quota is not has a
reason of its own. -/
theorem setAside_of_skips (hx : skips fw m q x = true) (hr : skips fw m q r = false)
    (hquota : baseQuota fw m x = baseQuota fw m r) : SetAside fw m q x := by
  have hfree : (firstQuota fw (m.unit r)).any (fun quota => quota ∈ q.blockedQuota) = false := by
    rw [skips, Bool.or_eq_false_iff] at hr
    exact hr.2
  rw [baseQuota, baseQuota] at hquota
  rw [skips, hquota, hfree, Bool.or_false, Bool.or_eq_true, Bool.or_eq_true] at hx
  rcases hx with (hup | hinactive) | hsatisfied
  · exact Or.inl (of_decide_eq_true hup)
  · rw [Bool.and_eq_true, Bool.not_eq_true'] at hinactive
    exact Or.inr (Or.inl hinactive)
  · exact Or.inr (Or.inr hsatisfied)

def First (fw : Handle) (m : Infos) (q : PriorityQueue) (r : Ref) : Prop :=
  ∃ before after, q.queue = before ++ r :: after ∧ skips fw m q r = false ∧ ∀ x ∈ before, skips fw m q x = true

theorem first_of_picked (hstart : FromStart q) (h : Picked fw m now q r p) : First fw m q r := by
  have hzero : (rewind now q).nextIdx = 0 := by
    rw [rewind]
    split
    next => rfl
    next hdue =>
      rw [rewindDue, Bool.or_eq_true, not_or] at hdue
      exact hstart.resolve_left hdue.1
  obtain ⟨before, after, hdrop, -, hskip⟩ := h.split
  rw [hzero, List.drop_zero] at hdrop
  exact ⟨before, after, hdrop, h.unskipped, hskip⟩

theorem next_wait (h : next fw m now q = (p, .wait)) : p.resetNextIdxFlag = true := by
  rw [next] at h
  split at h
  next => cases h
  next =>
    split at h
    next => cases h
    next hjudge =>
      cases h
      exact judge_wait hjudge
    next p' hjudge =>
      split at h
      next => cases h
      next p'' v hfound hagain =>
        cases h
        cases v with
        | found y => exact absurd rfl (hfound y)
        | rejudge => exact (judge_rejudge hagain).1
        | wait => exact judge_wait hagain

theorem next_closed (h : next fw m now q = (p, .closed)) : p = q := by
  rw [next] at h
  split at h
  next =>
    cases h
    rfl
  next =>
    split at h
    next => cases h
    next => cases h
    next => split at h <;> cases h

/-- When a scan from the start hands out a unit, the units of its quota before
it are set aside. -/
theorem setAside_of_next (hstart : FromStart q) (h : (next fw m now q).2 = .unit r) :
    ∃ before after, q.queue = before ++ r :: after ∧ r ∉ before ∧
      ∀ x ∈ before, baseQuota fw m x = baseQuota fw m r → SetAside fw m q x := by
  obtain ⟨q', p, hp, hqueue, hup, hq'⟩ := next_unit h
  have hstart' : FromStart q' := hq'.elim (fun he => he ▸ hstart) Or.inl
  obtain ⟨before, after, hsplit, hfree, hskip⟩ := first_of_picked hstart' hp
  refine ⟨before, after, hqueue ▸ hsplit, ?_, ?_⟩
  · intro hr
    rw [hskip r hr] at hfree
    cases hfree
  · intro x hx hquota
    have haside := setAside_of_skips (hskip x hx) hfree hquota
    rwa [SetAside, hup] at haside

/-- A queue together with the unit that was handed out and neither reserved
nor reported back yet. -/
structure Answering where
  state : State
  outstanding : Option String

/-- A unit is answered by a `Reserve` that succeeds or by the report that it
cannot be scheduled. -/
def outstandingAfter (fw : Handle) (outstanding : Option String) (s : State) : Action → Option String
  | .next now =>
    match (next fw s.infos now s.pq).2 with
    | .unit r => some (s.infos.key r)
    | _ => outstanding
  | .reserve now r =>
    if (reserve s.infos now r s.pq).2 = .ok ∧ outstanding = some (s.infos.key r) then none else outstanding
  | .addUnschedulable r _ | .errorFunc _ r .getFailed _ _ | .errorFunc _ r (.got _) _ _ =>
    if outstanding = some (s.infos.key r) then none else outstanding
  | _ => outstanding

def answering (fw : Handle) (t : Answering) (a : Action) : Option Answering :=
  (step fw t.state a).map (fun s => ⟨s, outstandingAfter fw t.outstanding t.state a⟩)

/-- `Next` is not called again before its last unit is answered. -/
def Prompt (t : Answering) : Action → Prop
  | .next _ => t.outstanding = none
  | _ => True

instance (t : Answering) (a : Action) : Decidable (Prompt t a) := by
  delta Prompt
  split <;> infer_instance

variable {s : State}

theorem FromStart.mono (h : FromStart q) (hflag : q.resetNextIdxFlag = true → p.resetNextIdxFlag = true)
    (hidx : p.nextIdx = q.nextIdx) : FromStart p := Or.imp hflag hidx.trans h

theorem fromStart_deleteWithoutLock (fw : Handle) (now : Time) (qu : QueueUnit) (h : FromStart s.pq) :
    FromStart (deleteWithoutLock fw now qu s).pq := by
  obtain ⟨b, _, heq⟩ := deleteWithoutLock_eq fw now qu s
  rw [heq]
  exact h

theorem fromStart_update (fw : Handle) (now : Time) (old new : QueueUnit) (h : FromStart s.pq) :
    FromStart (update fw now old new s).pq := by
  obtain ⟨_, _, _, _, _, f, hflag, _, _, heq⟩ := update_eq fw now old new s
  rw [heq]
  exact h.mono hflag rfl

theorem fromStart_add (fw : Handle) (r : Ref) (h : FromStart s.pq) :
    FromStart (addQueueUnitInfo fw s.infos r s.pq).1 := by
  obtain ⟨_, _, _, f, hflag, _, _, heq⟩ := addQueueUnitInfo_eq fw s.infos s.pq r
  rw [heq]
  exact h.mono hflag rfl

theorem fromStart_addUnschedulable (fw : Handle) (hb : s.pq.blocked = true) (r : Ref) (changed : Bool) :
    FromStart (addUnschedulable fw r changed s).pq := by
  obtain ⟨b, _, heq⟩ := addUnschedulableIfNotPresent_eq fw s.infos s.pq r changed
  rw [addUnschedulable, heq, hb]
  exact Or.inl (by simp)

theorem fromStart_fixQueue (h : FromStart s.pq) : FromStart (fixQueue s.infos s.pq) := by
  rw [fixQueue]
  split
  next => exact h
  next => exact h

structure Rewound (t : Answering) : Prop where
  blocked : t.state.pq.blocked = true
  start : t.outstanding = none → FromStart t.state.pq

theorem start_act {outstanding : Option String} {a : Action} (hb : s.pq.blocked = true)
    (h : outstanding = none → FromStart s.pq) (hnone : outstandingAfter fw outstanding s a = none) :
    FromStart (act fw s a).pq := by
  cases a with
  | newInfo now qu => exact h hnone
  | forgetInfos present => exact h hnone
  | add r => exact fromStart_add fw r (h hnone)
  | delete now qu => exact fromStart_deleteWithoutLock fw now qu (Or.inl rfl)
  | update now old new => exact fromStart_update fw now old new (h hnone)
  | next now =>
    obtain ⟨p, result, hcall⟩ : ∃ p result, next fw s.infos now s.pq = (p, result) := ⟨_, _, rfl⟩
    rw [act, hcall]
    rw [outstandingAfter, hcall] at hnone
    cases result with
    | unit r => cases hnone
    | wait => exact Or.inl (next_wait hcall)
    | closed =>
      rw [next_closed hcall]
      exact h hnone
  | reserve now r =>
    rcases reserve_cases s.infos now s.pq r with ⟨_, _, heq⟩ | ⟨hfail, _, _, heq⟩
    · rw [act, heq, hb]
      exact Or.inl (by simp)
    · rw [outstandingAfter, if_neg (fun hok => hfail hok.1)] at hnone
      rw [act, heq]
      exact h hnone
  | dequeueSuccess qu => exact h hnone
  | addUnschedulable r changed => exact fromStart_addUnschedulable fw hb r changed
  | fix now g order =>
    exact fix_rule (P := fun t => FromStart t.pq) fw now (h hnone)
      (fun _ qu h => fromStart_deleteWithoutLock fw now qu h) order
  | fixQueue => exact fromStart_fixQueue (h hnone)
  | errorFunc now r answer reasons changed =>
    cases answer with
    | getNotFound => exact fromStart_deleteWithoutLock fw now _ (Or.inl rfl)
    | getFailed =>
      have hb' : (State.mk (attempted now r s.infos) s.pq).pq.blocked = true := hb
      exact fromStart_addUnschedulable fw hb' r changed
    | updateNotFound => exact h hnone
    | got qu =>
      have hb' : (State.mk (refreshed now r reasons qu s.infos) s.pq).pq.blocked = true := hb
      exact fromStart_addUnschedulable fw hb' r changed

theorem rewound_step {t u : Answering} {a : Action} (h : Rewound t) (hstep : answering fw t a = some u) :
    Rewound u := by
  obtain ⟨s, hs, rfl⟩ := Option.map_eq_some_iff.mp hstep
  obtain ⟨_, hact⟩ := (step_eq_some fw).mp hs
  constructor
  · have hset := (framed_step fw hs).1
    simp only [settings, Prod.mk.injEq] at hset
    exact hset.2.2.1.trans h.blocked
  · intro hnone
    rw [← hact]
    exact start_act h.blocked h.start hnone

theorem rewound_newPriorityQueue (infos : Infos) (name : String) (maxDepth : Int) (waitPodsRunning : Bool)
    (reclaimProtectTime : Int) (now : Time) :
    Rewound ⟨⟨infos, newPriorityQueue name "Block" maxDepth waitPodsRunning reclaimProtectTime now⟩, none⟩ where
  blocked := by simp [newPriorityQueue]
  start := fun _ => Or.inr rfl

/-- In a run under the Block policy in which every unit is answered before the
next call, when `Next` hands out a unit, the units of its base quota before it
are updating, inactive or satisfied; in a sorted slice these are all the units
of that quota that rank before it. -/
theorem next_heads_its_quota {infos : Infos} {name : String} {maxDepth : Int} {waitPodsRunning : Bool}
    {reclaimProtectTime : Int} {start now : Time} {as : List Action} {t : Answering}
    (hg : Run.Guarded (answering fw) Prompt
      ⟨⟨infos, newPriorityQueue name "Block" maxDepth waitPodsRunning reclaimProtectTime start⟩, none⟩
        (as ++ [.next now])) (hrun : Run.exec (answering fw)
      ⟨⟨infos, newPriorityQueue name "Block" maxDepth waitPodsRunning reclaimProtectTime start⟩, none⟩ as = some t)
    {r : Ref} (hnext : (next fw t.state.infos now t.state.pq).2 = .unit r) :
    (∃ before after, t.state.pq.queue = before ++ r :: after ∧ r ∉ before ∧
      ∀ x ∈ before, baseQuota fw t.state.infos x = baseQuota fw t.state.infos r →
        SetAside fw t.state.infos t.state.pq x) ∧
    (t.state.pq.queue.Pairwise (fun a b => less (t.state.infos.get a) (t.state.infos.get b) ≤ 0) →
      ∀ x ∈ t.state.pq.queue, less (t.state.infos.get x) (t.state.infos.get r) < 0 →
        baseQuota fw t.state.infos x = baseQuota fw t.state.infos r → SetAside fw t.state.infos t.state.pq x) := by
  have hstart := rewound_newPriorityQueue infos name maxDepth waitPodsRunning reclaimProtectTime start
  have ht : Rewound t := Run.invariant (fun _ _ _ h _ hs => rewound_step h hs) hstart (Run.guarded_left hg) hrun
  have hstep : ∃ u, answering fw t (.next now) = some u := by
    have hen : Enabled t.state (.next now) := ⟨fun r hr => absurd hr List.not_mem_nil, trivial⟩
    exact ⟨_, Option.map_eq_some_iff.mpr ⟨_, (step_eq_some fw).mpr ⟨hen, rfl⟩, rfl⟩⟩
  obtain ⟨u, hu⟩ := hstep
  have hnone : t.outstanding = none := (Run.guarded_append hg hrun u hu).1
  obtain ⟨before, after, hsplit, hnot, haside⟩ := setAside_of_next (ht.start hnone) hnext
  refine ⟨⟨before, after, hsplit, hnot, haside⟩, ?_⟩
  intro hsorted x hx hless hquota
  rw [hsplit] at hx hsorted
  rcases List.mem_append.mp hx with hx | hx
  · exact haside x hx hquota
  · rcases List.mem_cons.mp hx with rfl | hx
    · exact absurd hless (by rw [less_of_eq rfl]; exact lt_irrefl 0)
    · have hle := (List.pairwise_cons.mp (List.pairwise_append.mp hsorted).2.1).1 x hx
      exact absurd hle (not_le.mpr (less_pos_of_neg hless))

def oneQuota : Handle := ⟨fun _ => some ["a"], false⟩

def emptyBlockQueue : State := { pq := newPriorityQueue "q" "Block" (-1) false 0 0 }

def reservesOnce : List Action :=
  [.newInfo 0 (jobUnit "a" "1" (some ⟨1, 10⟩) 1 []), .newInfo 0 (jobUnit "b" "1" (some ⟨2, 5⟩) 1 []),
    .add 0, .add 1, .next 0, .reserve 0 0]

theorem next_heads_its_quota_after_reserve :
    ∃ t, Run.exec (answering oneQuota) ⟨emptyBlockQueue, none⟩ reservesOnce = some t ∧
      (next oneQuota t.state.infos 0 t.state.pq).2 = .unit 1 ∧ SetAside oneQuota t.state.infos t.state.pq 0 := by
  obtain ⟨t, hrun, hnext, hmem, hsorted, hless⟩ : ∃ t,
      Run.exec (answering oneQuota) ⟨emptyBlockQueue, none⟩ reservesOnce = some t ∧
      (next oneQuota t.state.infos 0 t.state.pq).2 = .unit 1 ∧ 0 ∈ t.state.pq.queue ∧
      t.state.pq.queue.Pairwise (fun a b => less (t.state.infos.get a) (t.state.infos.get b) ≤ 0) ∧
      less (t.state.infos.get 0) (t.state.infos.get 1) < 0 := by decide +kernel
  have hg : Run.Guarded (answering oneQuota) Prompt ⟨emptyBlockQueue, none⟩ (reservesOnce ++ [.next 0]) := by
    decide +kernel
  exact ⟨t, hrun, hnext, (next_heads_its_quota hg hrun hnext).2 hsorted 0 hmem hless rfl⟩

end KoordQueue.Queue.HeadOfLine
