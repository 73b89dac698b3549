import KoordQueue.Queue.Reinsertion
import KoordQueue.Queue.Settings

namespace KoordQueue.Queue.NextOrder

open Api Cursor Memory Less Policy Update Steps Frames Filing Settings Queue.Representation
open Slice Consistency Scan Passing UpdatePassing Reinsertion

/-- A queue together with the units handed out since the scan last started over. -/
structure Traced where
  state : State
  handed : Finset String

/-- Only `Next` hands out units and lets the scan start over. -/
def handedOn (fw : Handle) (handed : Finset String) (s : State) : Action → Finset String
  | .next now => handedAfter fw now handed s
  | _ => handed

def traced (fw : Handle) (t : Traced) (a : Action) : Option Traced :=
  (step fw t.state a).map (fun s => ⟨s, handedOn fw t.handed t.state a⟩)

def InTurn (fw : Handle) (handed : Finset String) (s : State) : Action → Prop
  | .update now old new => UpdatesInTurn fw handed now old new s
  | .reserve _ r => (s.pq.waitPodsRunning = true → s.pq.assumed = ∅) → EdgeClear fw handed s (s.infos.key r)
  | .addUnschedulable r changed | .errorFunc _ r .getFailed _ changed =>
    changed = true ∨ FailsInTurn fw handed s r
  | .errorFunc now r (.got qu) reasons changed =>
    changed = true ∨ FailsInTurn fw handed ⟨refreshed now r reasons qu s.infos, s.pq⟩ r
  | .fix _ g _ => FixesInTurn fw handed s g
  | _ => True

instance (fw : Handle) (handed : Finset String) (s : State) (a : Action) : Decidable (InTurn fw handed s a) := by
  delta InTurn
  induction a using Steps.Action.casesOn with
  | errorFunc _ _ answer => induction answer using Steps.Answer.casesOn <;> infer_instance
  | _ => infer_instance

/-- The step keeps the slice sorted, and it comes while the scan is about to
start over or it leaves no waiting unit behind. -/
def Orderly (obj : Objects) (fw : Handle) (t : Traced) (a : Action) : Prop :=
  Settled fw obj t.state a ∧ (t.state.pq.resetNextIdxFlag = true ∨ InTurn fw t.handed t.state a)
deriving Decidable

/-- What every orderly run keeps. -/
structure Steady (obj : Objects) (fw : Handle) (t : Traced) : Prop where
  represented : Represented obj t.state
  blocked : t.state.pq.blocked = false
  blockedQuota : t.state.pq.blockedQuota = ∅
  scanned : Scanned fw t.handed t.state

variable {obj : Objects} {fw : Handle} {handed : Finset String} {s : State}

variable {a : Action} {m : Infos} {r : Ref}

theorem scanned_extend (h : Scanned fw handed s) (hfiled : Filed s) (hm : Extends s.infos m) :
    Scanned fw handed ⟨m, s.pq⟩ :=
  h.same (fun r hr => hm.unit (hfiled.slice r hr)) rfl rfl id (Finset.Subset.refl _)

theorem scanned_add (h : Scanned fw handed s) (r : Ref) :
    Scanned fw handed ⟨s.infos, (addQueueUnitInfo fw s.infos r s.pq).1⟩ := by
  rcases addQueueUnitInfo_cases fw rfl with ⟨_, heq⟩ | ⟨_, heq⟩ | ⟨_, _, heq⟩ | ⟨_, _, b, _, heq⟩
  · rw [heq]
    exact h
  · rw [heq]
    exact h.same (fun _ _ => rfl) rfl rfl id (Finset.Subset.refl _)
  · rw [heq]
    exact h.same (fun _ _ => rfl) rfl rfl id (Finset.Subset.refl _)
  · rw [heq]
    exact Or.inl rfl

theorem scanned_delete (fw : Handle) (handed : Finset String) (now : Time) (qu : QueueUnit) (s : State) :
    Scanned fw handed (delete fw now qu s) := by
  obtain ⟨b, _, heq⟩ := deleteWithoutLock_eq fw now qu { s with pq := { s.pq with resetNextIdxFlag := true } }
  rw [delete, heq]
  exact Or.inl rfl

theorem scanned_fixQueue (hrep : Represented obj s) (h : Scanned fw handed s) :
    Scanned fw handed ⟨s.infos, fixQueue s.infos s.pq⟩ := by
  have hsort : sortQueue s.infos s.pq.queue = s.pq.queue := by
    apply List.mergeSort_of_pairwise
    exact (consistent_of_represented hrep).sorted.imp (fun hle => decide_eq_true hle)
  rw [fixQueue, hsort]
  split
  next => exact h
  next => exact h

theorem failsInTurn_extend (h : FailsInTurn fw handed s r) (hfiled : Filed s)
    (hm : Extends s.infos m) (hr : s.infos.heap.Allocated r) : FailsInTurn fw handed ⟨m, s.pq⟩ r := by
  have hunit : ∀ x ∈ s.pq.queue, m.unit x = s.infos.unit x := fun x hx => hm.unit (hfiled.slice x hx)
  have hkey : m.key r = s.infos.key r := congrArg QueueUnit.key (hm.unit hr)
  obtain ⟨hhanded, hclear⟩ := h
  constructor
  · intro x hx hk hwants
    dsimp only at hk hwants ⊢
    rw [hkey]
    rw [hunit x (List.mem_of_mem_take hx)] at hwants
    apply hhanded x hx _ hwants
    rw [← hkey, ← hk, Infos.key, Infos.key, hunit x (List.mem_of_mem_take hx)]
  · intro x hx hne hw
    have hmem := hunit x (List.mem_of_getElem? hx)
    apply hclear x hx
    · intro he
      apply hne
      dsimp only
      rw [hkey, ← he, Infos.key, Infos.key, hmem]
    · exact waiting_of_same hmem id hw

theorem scanned_errorFunc (hrep : Represented obj s) (h : Scanned fw handed s) {now : Time}
    {answer : Answer} {reasons : String} {changed : Bool} (he : Enabled s (.errorFunc now r answer reasons changed))
    (hok : s.pq.resetNextIdxFlag = true ∨ InTurn fw handed s (.errorFunc now r answer reasons changed)) :
    Scanned fw handed (errorFunc fw now r answer reasons changed s) := by
  have hr := allocated_of_enabled now he
  have hext := extends_attempted now hr
  have hmore := scanned_extend h hrep.filed hext
  cases answer with
  | getNotFound => exact scanned_delete fw handed now _ _
  | updateNotFound => exact hmore
  | getFailed =>
    apply scanned_addUnschedulable
    · exact hmore.imp id (fun hswept => hswept.imp (fun _ _ hw => hw.1))
    · rcases hok with hflag | hchanged | hfails
      · exact Or.inl hflag
      · exact Or.inr (Or.inl hchanged)
      · exact Or.inr (Or.inr (failsInTurn_extend hfails hrep.filed hext hr))
  | got qu =>
    apply scanned_addUnschedulable _ hok
    apply h.imp id
    intro hswept
    apply hswept.imp
    rintro x hx ⟨hw, hne⟩
    have hmem := hrep.filed.slice x (List.mem_of_mem_take hx)
    apply waiting_of_same _ id hw
    rw [unit_refreshed now hr reasons qu hmem, if_neg]
    intro he
    exact hne (by rw [he])

theorem scanned_step (hrep : Represented obj s) (hq : s.pq.blockedQuota = ∅)
    (h : Scanned fw handed s) (hsettled : Settled fw obj s a)
    (hok : s.pq.resetNextIdxFlag = true ∨ InTurn fw handed s a) (he : Enabled s a) :
    Scanned fw (handedOn fw handed s a) (act fw s a) := by
  cases a with
  | newInfo now qu => exact scanned_extend h hrep.filed (extends_newQueueUnitInfo s.infos now qu)
  | forgetInfos present => exact scanned_extend h hrep.filed (Extends.refl s.infos)
  | add r => exact scanned_add h r
  | delete now qu => exact scanned_delete fw handed now qu s
  | update now old new => exact scanned_update hrep h now hsettled hok
  | next now => exact scanned_next h hq now
  | reserve now r => exact scanned_reserve h now r hok
  | dequeueSuccess qu => exact h
  | addUnschedulable r changed =>
    exact scanned_addUnschedulable (h.imp id (fun hswept => hswept.imp (fun _ _ hw => hw.1))) hok
  | fix now g order => exact scanned_fix hrep h he.2.2 now hok
  | fixQueue => exact scanned_fixQueue hrep h
  | errorFunc now r answer reasons changed => exact scanned_errorFunc hrep h he hok

theorem steady_step {t u : Traced} (h : Steady obj fw t) (hok : Orderly obj fw t a)
    (hstep : traced fw t a = some u) : Steady obj fw u := by
  obtain ⟨s, hs, rfl⟩ := Option.map_eq_some_iff.mp hstep
  obtain ⟨he, hact⟩ := (step_eq_some fw).mp hs
  refine ⟨represented_step fw h.represented hok.1 hs, ?_, ?_, ?_⟩
  · have hset := (framed_step fw hs).1
    simp only [settings, Prod.mk.injEq] at hset
    exact hset.2.2.1.trans h.blocked
  · have hsub := (framed_step fw hs).2 h.blocked
    rw [h.blockedQuota] at hsub
    exact Finset.subset_empty.mp hsub
  · rw [← hact]
    exact scanned_step h.represented h.blockedQuota h.scanned hok.1 hok.2 he

theorem steady_newPriorityQueue (obj : Objects) (fw : Handle) (name : String) (maxDepth : Int)
    (waitPodsRunning : Bool) (reclaimProtectTime : Int) (now : Time) :
    Steady obj fw ⟨⟨{}, newPriorityQueue name "Priority" maxDepth waitPodsRunning reclaimProtectTime now⟩, ∅⟩ where
  represented := represented_newPriorityQueue obj name "Priority" maxDepth waitPodsRunning reclaimProtectTime now
  blocked := by simp [newPriorityQueue]
  blockedQuota := rfl
  scanned := Or.inr (swept_zero _ _)

/-- In an orderly run under the Priority policy, when `Next` hands out a unit,
every eligible unit that ranks before it was handed out since the scan last
started over. -/
theorem next_passes_no_waiting_unit {name : String} {maxDepth : Int} {waitPodsRunning : Bool}
    {reclaimProtectTime : Int} {start now : Time} {as : List Action} {t : Traced}
    (hg : Run.Guarded (traced fw) (Orderly obj fw)
      ⟨⟨{}, newPriorityQueue name "Priority" maxDepth waitPodsRunning reclaimProtectTime start⟩, ∅⟩ as)
    (hrun : Run.exec (traced fw)
      ⟨⟨{}, newPriorityQueue name "Priority" maxDepth waitPodsRunning reclaimProtectTime start⟩, ∅⟩ as = some t)
    {r x : Ref} (hnext : (next fw t.state.infos now t.state.pq).2 = .unit r) (hx : x ∈ t.state.pq.queue)
    (hless : less (t.state.infos.get x) (t.state.infos.get r) < 0) (heligible : Eligible fw t.state x) :
    t.state.infos.key x ∈ handedBefore fw now t.handed t.state := by
  have hstart := steady_newPriorityQueue obj fw name maxDepth waitPodsRunning reclaimProtectTime start
  have ht : Steady obj fw t := Run.invariant (fun _ _ _ h hc hs => steady_step h hc hs) hstart hg hrun
  exact handed_of_ahead ht.represented ht.scanned ht.blockedQuota hnext hx hless heligible

def failsOnce : List Action :=
  [.newInfo 0 high, .newInfo 0 low, .add 0, .add 1, .next 0, .addUnschedulable 0 false]

theorem next_passes_no_waiting_unit_after_failure :
    ∃ t, Run.exec (traced noQuotas) ⟨emptyQueue, ∅⟩ failsOnce = some t ∧
      (next noQuotas t.state.infos 0 t.state.pq).2 = .unit 1 ∧
      t.state.infos.key 0 ∈ handedBefore noQuotas 0 t.handed t.state := by
  obtain ⟨t, hrun, hnext, hmem, hless, heligible⟩ : ∃ t, Run.exec (traced noQuotas) ⟨emptyQueue, ∅⟩ failsOnce =
      some t ∧ (next noQuotas t.state.infos 0 t.state.pq).2 = .unit 1 ∧ 0 ∈ t.state.pq.queue ∧
      less (t.state.infos.get 0) (t.state.infos.get 1) < 0 ∧ Eligible noQuotas t.state 0 := by decide +kernel
  have hg : Run.Guarded (traced noQuotas) (Orderly namedObjects noQuotas) ⟨emptyQueue, ∅⟩ failsOnce := by
    decide +kernel
  exact ⟨t, hrun, hnext, next_passes_no_waiting_unit hg hrun hnext hmem hless heligible⟩

def lowest : QueueUnit := jobUnit "c" "1" (some ⟨3, 1⟩) 1 []

/-- The first of three units is handed out and reserved, then the priority of
the last one is raised above all. -/
def raisedWhileScheduled : List Action :=
  [.newInfo 0 high, .newInfo 0 low, .newInfo 0 lowest, .add 0, .add 1, .add 2, .next 0, .reserve 0 0,
    .update 0 lowest (jobUnit "c" "2" (some ⟨4, 20⟩) 1 [])]

theorem raised_unit_passed_over :
    ∃ t, Run.exec (traced noQuotas) ⟨emptyQueue, ∅⟩ raisedWhileScheduled = some t ∧
      (next noQuotas t.state.infos 0 t.state.pq).2 = .unit 1 ∧
      ∃ x ∈ t.state.pq.queue, less (t.state.infos.get x) (t.state.infos.get 1) < 0 ∧ Eligible noQuotas t.state x ∧
        t.state.infos.key x ∉ handedBefore noQuotas 0 t.handed t.state := by
  decide +kernel

end KoordQueue.Queue.NextOrder
