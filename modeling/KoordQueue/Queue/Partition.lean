import KoordQueue.Queue.Consistency
import KoordQueue.Queue.Halves

namespace KoordQueue.Queue.Partition

open Api UnitInfo Memory Less Intelligent IntelligentSteps IntelligentFrames Halves
open Filing (Extends extends_newQueueUnitInfo)
open Queue.Representation Slice
open SliceOps (rankOf_eq_fresh insert_erase)
open Policy (Handle)
open Consistency (namedObjects)

variable {obj : Objects} {s : State} {fw : Handle} {now : Time}

def Matches (m : Infos) (r : Ref) (qu : QueueUnit) : Prop :=
  (m.unit r).uid = qu.uid ∧ priorityOf (m.unit r) = priorityOf qu
deriving Decidable

section Updates

variable {old new : QueueUnit}

theorem halved_drop_fresh (h : HalvedAt obj s) {m : Infos} (hm : Extends s.infos m)
    (hb : Built obj m) (hold : obj.Has old)
    (hmatch : ∀ r, s.iq.queueUnits.lookup old.key = some r → Matches s.infos r old) :
    Halved obj m (s.iq.queueUnits.erase old.key) (removeFromQueue m (s.infos.fresh now old) s.iq) := by
  refine halved_drop (h.extend hm hb) ?_ (Infos.fresh_name _ now old) (fun r hr => ?_)
  · rw [Infos.fresh_unit, hold.1]
  · have halloc := h.allocated hr
    have hrank : rankOf s.infos r = rank (s.infos.fresh now old) :=
      @rankOf_eq_fresh obj ⟨s.infos, {}⟩ now h.built old hold r halloc (hmatch r hr).1 (hmatch r hr).2
    rw [← hrank]
    exact rank_congr (hm r halloc).2

theorem halved_dropDequeued (h : HalvedAt obj s) (hold : obj.Has old)
    (hkey : old.key = new.key) (hmatch : ∀ r, s.iq.queueUnits.lookup new.key = some r → Matches s.infos r old) :
    HalvedAt obj (dropDequeued now old new s) := by
  obtain ⟨reset, blocked, he⟩ := dropDequeued_eq now old new s
  have hinfos : (dropDequeued now old new s).infos = s.infos.newQueueUnitInfo now old := rfl
  rw [← hkey] at hmatch
  have hdrop := @halved_drop_fresh obj s now old h _ (extends_newQueueUnitInfo s.infos now old)
    (built_newQueueUnitInfo h.built hold now) hold hmatch
  rw [HalvedAt, hinfos, he, ← hkey]
  exact hdrop.congr rfl rfl rfl

theorem unit_reinserted : (reinsert now old new s).infos.unit (s.infos.newQueueUnitInfo now old).heap.next = new :=
  Infos.unit_newQueueUnitInfo _ now new

theorem halved_reinsert (h : HalvedAt obj s) (hold : obj.Has old) (hnew : obj.Has new)
    (hkey : old.key = new.key) (hmatch : ∀ r, s.iq.queueUnits.lookup new.key = some r → Matches s.infos r old) :
    HalvedAt obj (reinsert now old new s) := by
  have hm : Extends s.infos (reinsert now old new s).infos :=
    (extends_newQueueUnitInfo s.infos now old).trans (extends_newQueueUnitInfo _ now new)
  have hb : Built obj (reinsert now old new s).infos :=
    built_newQueueUnitInfo (built_newQueueUnitInfo h.built hold now) hnew now
  have hown : (reinsert now old new s).infos.key (s.infos.newQueueUnitInfo now old).heap.next = new.key :=
    congrArg QueueUnit.key unit_reinserted
  rw [← hkey] at hmatch
  have hdrop := @halved_drop_fresh obj s now old h _ hm hb hold hmatch
  have hfile := halved_file hdrop ((Heap.allocated_alloc _ _ _).mpr (Or.inr rfl)) (r := (s.infos.newQueueUnitInfo now old).heap.next)
    (by rw [hown, hkey, GoMap.lookup_erase_eq, if_pos rfl])
  obtain ⟨high, low, he⟩ := reinsert_eq now old new s
  have hunits : (reinsert now old new s).iq.queueUnits =
      s.iq.queueUnits.insert new.key (s.infos.newQueueUnitInfo now old).heap.next := by rw [he]
  rw [hown, hkey, insert_erase] at hfile
  rw [HalvedAt, hunits]
  exact hfile.congr rfl rfl rfl

theorem halved_refresh (h : HalvedAt obj s) (hnew : obj.Has new)
    (hmatch : ∀ r, s.iq.queueUnits.lookup new.key = some r → Matches s.infos r new) :
    HalvedAt obj (refresh fw old new s) := by
  obtain ⟨reset, blocked, he⟩ := refresh_eq fw old new s
  have hinfos : Halved obj (refresh fw old new s).infos s.iq.queueUnits s.iq := by
    rw [refresh]
    split
    next => exact h
    next r hr =>
      have hset : Halved obj (if (s.infos.unit r).resourceVersion ≠ new.resourceVersion then s.infos.setUnit r new
          else s.infos) s.iq.queueUnits s.iq := by
        split
        next => exact h.setUnit (h.allocated hr) hnew (hmatch r hr).1.symm (hmatch r hr).2.symm
        next => exact h
      dsimp only
      split
      next => exact hset
      next => exact hset
  rw [HalvedAt, he]
  exact hinfos.congr rfl rfl rfl

theorem priorityOf_of_unchanged (h : unchanged fw old new = true) : priorityOf old = priorityOf new := by
  simp only [unchanged, Bool.and_eq_true, decide_eq_true_eq] at h
  rw [priorityOf, priorityOf, h.1.1.1.2]

/-- What the queue holds after an update: the new version under its key, and the
others as before. -/
def HeldAfter (new : QueueUnit) (s t : State) : Prop :=
  ∀ key r, t.iq.queueUnits.lookup key = some r →
    (key = new.key ∧ Matches t.infos r new) ∨
      (key ≠ new.key ∧ s.iq.queueUnits.lookup key = some r ∧ t.infos.unit r = s.infos.unit r)

theorem heldAfter_dropDequeued (h : HalvedAt obj s) : HeldAfter new s (dropDequeued now old new s) := by
  intro key r hr
  obtain ⟨_, _, he⟩ := dropDequeued_eq now old new s
  rw [he] at hr
  have hne : key ≠ new.key := by
    rintro rfl
    rw [GoMap.lookup_erase_eq, if_pos rfl] at hr
    cases hr
  have hlookup := GoMap.lookup_of_erase hr
  exact Or.inr ⟨hne, hlookup, (extends_newQueueUnitInfo s.infos now old).unit (h.allocated hlookup)⟩

theorem heldAfter_reinsert (h : HalvedAt obj s) : HeldAfter new s (reinsert now old new s) := by
  intro key r hr
  obtain ⟨_, _, he⟩ := reinsert_eq now old new s
  rw [he, GoMap.lookup_insert_eq] at hr
  split at hr
  next hk =>
    cases hr
    have hunit := @unit_reinserted s now old new
    exact Or.inl ⟨hk, congrArg QueueUnit.uid hunit, congrArg priorityOf hunit⟩
  next hk =>
    have hm := (extends_newQueueUnitInfo s.infos now old).trans (extends_newQueueUnitInfo _ now new)
    exact Or.inr ⟨hk, hr, hm.unit (h.allocated hr)⟩

theorem halved_updateBody (h : HalvedAt obj s) (hold : obj.Has old) (hnew : obj.Has new)
    (hkey : old.key = new.key) (huid : old.uid = new.uid)
    (hmatch : ∀ r, s.iq.queueUnits.lookup new.key = some r → Matches s.infos r old) :
    HalvedAt obj (updateBody fw now old new s) ∧ HeldAfter new s (updateBody fw now old new s) := by
  obtain ⟨reset, hcases⟩ := updateBody_cases fw now old new s
  have hreset : HalvedAt obj (withReset reset s) := h.congr rfl rfl rfl
  rcases hcases with ⟨hsame, hbody⟩ | ⟨_, _, hbody⟩ | ⟨_, _, hbody⟩
  · rw [hbody]
    refine ⟨h.congr rfl rfl rfl, fun key r hr => ?_⟩
    by_cases hk : key = new.key
    · subst hk
      obtain ⟨hu, hp⟩ := hmatch r hr
      exact Or.inl ⟨rfl, hu.trans huid, hp.trans (priorityOf_of_unchanged hsame)⟩
    · exact Or.inr ⟨hk, hr, rfl⟩
  · have hdrop := @halved_dropDequeued obj (withReset reset s) now old new hreset hold hkey hmatch
    rw [hbody]
    exact ⟨hdrop, heldAfter_dropDequeued hreset⟩
  · have hin := @halved_reinsert obj (withReset reset s) now old new hreset hold hnew hkey hmatch
    have hheld := @heldAfter_reinsert obj (withReset reset s) now old new hreset
    obtain ⟨_, _, htrack, _⟩ := track_eq new (reinsert now old new (withReset reset s)).iq
    rw [hbody]
    constructor
    · rw [htrack]
      exact hin.congr rfl rfl rfl
    · intro key r hr
      rw [htrack] at hr
      exact hheld key r hr

theorem unit_refresh (h : HalvedAt obj s) {key : String} {r : Ref} (hr : s.iq.queueUnits.lookup key = some r) :
    (refresh fw old new s).infos.unit r = s.infos.unit r ∨ key = new.key ∧ (refresh fw old new s).infos.unit r = new := by
  have hset : ∀ x, s.iq.queueUnits.lookup new.key = some x →
      (if (s.infos.unit x).resourceVersion ≠ new.resourceVersion then s.infos.setUnit x new else s.infos).unit r =
        s.infos.unit r ∨ key = new.key ∧ (if (s.infos.unit x).resourceVersion ≠ new.resourceVersion then
          s.infos.setUnit x new else s.infos).unit r = new := by
    intro x hx
    split
    next =>
      rw [Infos.unit_setUnit (h.allocated hx)]
      split
      next he =>
        subst he
        exact Or.inr ⟨(h.own hr).symm.trans (h.own hx), rfl⟩
      next => exact Or.inl rfl
    next => exact Or.inl rfl
  rw [refresh]
  split
  next => exact Or.inl rfl
  next x hx =>
    dsimp only
    split
    next => exact hset x hx
    next => exact hset x hx

theorem halved_update (h : HalvedAt obj s) (hold : obj.Has old) (hnew : obj.Has new)
    (hkey : old.key = new.key) (huid : old.uid = new.uid)
    (hmatch : ∀ r, s.iq.queueUnits.lookup new.key = some r → Matches s.infos r old) :
    HalvedAt obj (update fw now old new s) ∧
      HeldAfter new s (update fw now old new s) := by
  obtain ⟨hbody, hheld⟩ := @halved_updateBody obj s fw now old new h hold hnew hkey huid hmatch
  have hfiled : ∀ r, (updateBody fw now old new s).iq.queueUnits.lookup new.key = some r →
      Matches (updateBody fw now old new s).infos r new := by
    intro r hr
    rcases hheld new.key r hr with ⟨_, hm⟩ | ⟨hne, _⟩
    · exact hm
    · exact absurd rfl hne
  refine ⟨halved_refresh hbody hnew hfiled, fun key r hr => ?_⟩
  obtain ⟨_, _, he⟩ := refresh_eq fw old new (updateBody fw now old new s)
  rw [update, he] at hr
  rcases hheld key r hr with ⟨hk, hm⟩ | ⟨hne, hlookup, hunit⟩
  · left
    rcases @unit_refresh obj _ fw old new hbody key r hr with hu | ⟨_, hu⟩
    · exact ⟨hk, by rw [Matches, update, hu]; exact hm⟩
    · exact ⟨hk, by rw [Matches, update, hu]; exact ⟨rfl, rfl⟩⟩
  · right
    rcases @unit_refresh obj _ fw old new hbody key r hr with hu | ⟨hk, _⟩
    · exact ⟨hne, hlookup, hu.trans hunit⟩
    · exact absurd hk hne

end Updates

def Before (m : Infos) (a b : Ref) : Prop :=
  priorityOf (m.unit b) < priorityOf (m.unit a) ∨ priorityOf (m.unit a) = priorityOf (m.unit b) ∧
    ((m.unit a).creationTimestamp < (m.unit b).creationTimestamp ∨
      (m.unit a).creationTimestamp = (m.unit b).creationTimestamp ∧ m.key a < m.key b)

/-- Each info of the map is in the sub-queue that its priority selects and not in
the other, the sub-queues hold nothing else, and both are sorted. -/
structure Divided (s : State) : Prop where
  high : ∀ key r, s.iq.queueUnits.lookup key = some r →
    (r ∈ s.iq.highPriorityQueue ↔ s.iq.priorityThreshold ≤ priorityOf (s.infos.unit r))
  low : ∀ key r, s.iq.queueUnits.lookup key = some r →
    (r ∈ s.iq.lowPriorityQueue ↔ priorityOf (s.infos.unit r) < s.iq.priorityThreshold)
  held : ∀ r ∈ s.iq.highPriorityQueue ++ s.iq.lowPriorityQueue, s.iq.queueUnits.lookup (s.infos.key r) = some r
  nodup : (s.iq.highPriorityQueue ++ s.iq.lowPriorityQueue).Nodup
  highSorted : s.iq.highPriorityQueue.Pairwise (Before s.infos)
  lowSorted : s.iq.lowPriorityQueue.Pairwise (Before s.infos)

theorem before_half (h : HalvedAt obj s) (high : Bool) : (half high s.iq).Pairwise (Before s.infos) := by
  apply (h high).sorted.imp_of_mem
  intro a b ha hb hlt
  have hla := h.allocated (h.mem_half.mp ha).1
  have hlb := h.allocated (h.mem_half.mp hb).1
  have hcreated : ∀ {r}, s.infos.heap.Allocated r →
      (s.infos.get r).initialAttemptTimestamp = (s.infos.unit r).creationTimestamp :=
    fun hr => (h.built.initial hr).trans (h.built.has hr).2.symm
  have hbefore := (rank_lt_iff (s.infos.get a) (s.infos.get b)).mp hlt
  rw [hcreated hla, hcreated hlb, h.built.name hla, h.built.name hlb] at hbefore
  exact hbefore

theorem divided_of_halved (h : HalvedAt obj s) : Divided s := by
  have hhigh : ∀ r, r ∈ s.iq.highPriorityQueue ↔ s.iq.queueUnits.lookup (s.infos.key r) = some r ∧
      isHighPriority (s.infos.unit r) s.iq = true := fun r => (h.mem_half : r ∈ half true s.iq ↔ _)
  have hlow : ∀ r, r ∈ s.iq.lowPriorityQueue ↔ s.iq.queueUnits.lookup (s.infos.key r) = some r ∧
      isHighPriority (s.infos.unit r) s.iq = false := fun r => (h.mem_half : r ∈ half false s.iq ↔ _)
  refine ⟨?_, ?_, ?_, ?_, before_half h true, before_half h false⟩
  · intro key r hr
    rw [hhigh, h.own hr, isHighPriority, decide_eq_true_eq]
    exact and_iff_right hr
  · intro key r hr
    rw [hlow, h.own hr, isHighPriority, decide_eq_false_iff_not, ge_iff_le, not_le]
    exact and_iff_right hr
  · intro r hr
    rcases List.mem_append.mp hr with hin | hin
    · exact ((hhigh r).mp hin).1
    · exact ((hlow r).mp hin).1
  · rw [List.nodup_append]
    refine ⟨(h true).nodup, (h false).nodup, fun a ha b hb he => ?_⟩
    subst he
    have htrue := ((hhigh a).mp ha).2
    rw [((hlow a).mp hb).2] at htrue
    cases htrue

section Runs

/-- A queue with the version of each unit that was delivered to it last. -/
structure World where
  state : State
  delivered : GoMap String QueueUnit := ∅

def deliver (w : World) : Action → GoMap String QueueUnit
  | .add r => w.delivered.insert (w.state.infos.key r) (w.state.infos.unit r)
  | .update _ _ new => w.delivered.insert new.key new
  | .delete _ qu => w.delivered.erase qu.key
  | .newInfo .. | .forgetInfos .. | .next .. | .reserve .. | .dequeueSuccess .. | .addUnschedulable .. | .fix ..
  | .updateQueueCr .. | .errorFunc .. => w.delivered

/-- Units keep their UID and creation time, and an update starts from the version
that was delivered last. -/
def Sanctioned (obj : Objects) (w : World) : Action → Prop
  | .newInfo _ qu | .delete _ qu => obj.Has qu
  | .update _ old new => obj.Has old ∧ obj.Has new ∧ old.key = new.key ∧ old.uid = new.uid ∧
      ∀ v ∈ w.delivered.lookup new.key, old = v
  | .errorFunc .. => False
  | .forgetInfos .. | .add .. | .next .. | .reserve .. | .dequeueSuccess .. | .addUnschedulable .. | .fix ..
  | .updateQueueCr .. => True

instance decidableSanctioned (obj : Objects) (w : World) (a : Action) : Decidable (Sanctioned obj w a) := by
  delta Sanctioned
  induction a using IntelligentSteps.Action.casesOn <;> infer_instance

def delivering (fw : Handle) (obj : Objects) (w : World) (a : Action) : Option World :=
  if Sanctioned obj w a then (step fw w.state a).map (fun s => ⟨s, deliver w a⟩) else none

/-- An addition of a unit that the queue has brings the object and the priority
that the queue has. -/
def Faithful (w : World) : Action → Prop
  | .add r => ∀ x ∈ w.state.iq.queueUnits.lookup (w.state.infos.key r),
      Matches w.state.infos x (w.state.infos.unit r)
  | .newInfo .. | .forgetInfos .. | .delete .. | .update .. | .next .. | .reserve .. | .dequeueSuccess ..
  | .addUnschedulable .. | .fix .. | .updateQueueCr .. | .errorFunc .. => True

instance decidableFaithful (w : World) (a : Action) : Decidable (Faithful w a) := by
  delta Faithful
  induction a using IntelligentSteps.Action.casesOn <;> infer_instance

structure Current (obj : Objects) (w : World) : Prop where
  halved : Halved obj w.state.infos w.state.iq.queueUnits w.state.iq
  delivered : ∀ key r, w.state.iq.queueUnits.lookup key = some r →
    ∃ v, w.delivered.lookup key = some v ∧ Matches w.state.infos r v

variable {w : World}

theorem Current.same (h : Current obj w) {q : IntelligentQueue} (hunits : q.queueUnits = w.state.iq.queueUnits)
    (hhigh : q.highPriorityQueue = w.state.iq.highPriorityQueue)
    (hlow : q.lowPriorityQueue = w.state.iq.lowPriorityQueue)
    (hthreshold : q.priorityThreshold = w.state.iq.priorityThreshold) :
    Current obj ⟨{ w.state with iq := q }, w.delivered⟩ where
  halved := by
    rw [hunits]
    exact h.halved.congr hhigh hlow hthreshold
  delivered := by
    rw [hunits]
    exact h.delivered

theorem Current.shrink (h : Current obj w) (s : State) (hhalved : HalvedAt obj s)
    (hm : Extends w.state.infos s.infos)
    (hunits : ∀ key r, s.iq.queueUnits.lookup key = some r → w.state.iq.queueUnits.lookup key = some r)
    {delivered : GoMap String QueueUnit}
    (hdelivered : ∀ key r, s.iq.queueUnits.lookup key = some r →
      delivered.lookup key = w.delivered.lookup key) : Current obj ⟨s, delivered⟩ where
  halved := hhalved
  delivered key r hr := by
    have hold := hunits key r hr
    obtain ⟨v, hv, hmatch⟩ := h.delivered key r hold
    refine ⟨v, (hdelivered key r hr).trans hv, ?_⟩
    show Matches s.infos r v
    rw [Matches, hm.unit (h.halved.allocated hold)]
    exact hmatch

theorem current_add (h : Current obj w) {r : Ref} (hr : w.state.infos.heap.Allocated r) (hfaithful : Faithful w (.add r)) :
    Current obj ⟨{ w.state with iq := (addQueueUnitInfo w.state.infos r w.state.iq).1 }, deliver w (.add r)⟩ where
  halved := halved_add h.halved hr
  delivered key x hx := by
    have hheld := lookup_of_add w.state.infos hx
    show ∃ v, (w.delivered.insert (w.state.infos.key r) (w.state.infos.unit r)).lookup key = some v ∧
      Matches w.state.infos x v
    rw [GoMap.lookup_insert_eq]
    split
    next hk =>
      refine ⟨_, rfl, ?_⟩
      rcases hheld with hold | ⟨rfl, -⟩
      · exact hfaithful x (hk ▸ hold)
      · exact ⟨rfl, rfl⟩
    next hk =>
      rcases hheld with hold | ⟨-, hkey, -⟩
      · exact h.delivered key x hold
      · exact absurd hkey.symm hk

theorem current_delete (h : Current obj w) {qu : QueueUnit} (hqu : obj.Has qu) :
    Current obj ⟨delete fw now qu w.state, w.delivered.erase qu.key⟩ := by
  obtain ⟨blocked, he⟩ := delete_eq fw now qu w.state
  have hm : Extends w.state.infos (delete fw now qu w.state).infos := by
    show Extends w.state.infos (filedInfo now qu w.state).1
    rw [filedInfo]
    split
    next => exact Extends.refl _
    next => exact extends_newQueueUnitInfo _ now qu
  refine h.shrink _ (halved_delete fw now h.halved hqu) hm (fun key r hr => ?_) (fun key r hr => ?_)
  · rw [he] at hr
    exact GoMap.lookup_of_erase hr
  · rw [he, GoMap.lookup_erase_eq] at hr
    rw [GoMap.lookup_erase_eq]
    split
    next hk =>
      rw [if_pos hk] at hr
      cases hr
    next => rfl

theorem current_update (h : Current obj w) {old new : QueueUnit} (hok : Sanctioned obj w (.update now old new)) :
    Current obj ⟨update fw now old new w.state, w.delivered.insert new.key new⟩ := by
  obtain ⟨hold, hnew, hkey, huid, hlast⟩ := hok
  have hmatch : ∀ r, w.state.iq.queueUnits.lookup new.key = some r → Matches w.state.infos r old := by
    intro r hr
    obtain ⟨v, hv, hm⟩ := h.delivered new.key r hr
    rw [hlast v hv]
    exact hm
  obtain ⟨hhalved, hheld⟩ := @halved_update obj w.state fw now old new h.halved hold hnew hkey huid hmatch
  refine ⟨hhalved, fun key r hr => ?_⟩
  show ∃ v, (w.delivered.insert new.key new).lookup key = some v ∧ Matches (update fw now old new w.state).infos r v
  rw [GoMap.lookup_insert_eq]
  rcases hheld key r hr with ⟨hk, hm⟩ | ⟨hne, hlookup, hunit⟩
  · rw [if_pos hk]
    exact ⟨new, rfl, hm⟩
  · obtain ⟨v, hv, hm⟩ := h.delivered key r hlookup
    rw [if_neg hne]
    refine ⟨v, hv, ?_⟩
    rw [Matches, hunit]
    exact hm

theorem current_step {a : Action} {t : World} (h : Current obj w) (hfaithful : Faithful w a)
    (hstep : delivering fw obj w a = some t) : Current obj t := by
  rw [delivering, Option.ite_none_right_eq_some] at hstep
  obtain ⟨hok, hstep⟩ := hstep
  obtain ⟨s, hs, rfl⟩ := Option.map_eq_some_iff.mp hstep
  obtain ⟨henabled, rfl⟩ := (step_eq_some fw).mp hs
  cases a with
  | newInfo now qu =>
    have hm := extends_newQueueUnitInfo w.state.infos now qu
    exact h.shrink ⟨w.state.infos.newQueueUnitInfo now qu, w.state.iq⟩
      (h.halved.extend hm (built_newQueueUnitInfo h.halved.built hok now)) hm (fun _ _ hr => hr) (fun _ _ _ => rfl)
  | forgetInfos present =>
    have hm : Extends w.state.infos (w.state.infos.forgetQueueUnitInfo present) := Extends.refl w.state.infos
    exact h.shrink ⟨w.state.infos.forgetQueueUnitInfo present, w.state.iq⟩
      (h.halved.extend hm (built_forgetQueueUnitInfo h.halved.built present)) hm (fun _ _ hr => hr) (fun _ _ _ => rfl)
  | add r => exact current_add h (henabled.1 r List.mem_cons_self) hfaithful
  | delete now qu => exact current_delete h hok
  | update now old new => exact current_update h hok
  | next now =>
    obtain ⟨i, j, reset, blocked, unit, time, he⟩ := next_eq fw w.state.infos now w.state.iq
    rw [act, he]
    exact h.same rfl rfl rfl rfl
  | reserve r =>
    simp only [act, reserve]
    split
    next => exact h
    next => exact h.same rfl rfl rfl rfl
  | dequeueSuccess qu => exact h.same rfl rfl rfl rfl
  | addUnschedulable r changed =>
    obtain ⟨reset, j, blocked, he⟩ := addUnschedulableIfNotPresent_eq fw w.state.infos w.state.iq r changed
    rw [act, addUnschedulable, he]
    exact h.same rfl rfl rfl rfl
  | fix g order =>
    refine h.shrink ⟨w.state.infos, fix w.state.infos order w.state.iq⟩ (halved_fix h.halved order) (Extends.refl _)
      (fun key r hr => ?_) (fun _ _ _ => rfl)
    obtain ⟨_, _, he⟩ := fix_eq w.state.infos order w.state.iq
    rw [he] at hr
    exact GoMap.lookup_of_foldl_erase hr
  | updateQueueCr threshold wait order =>
    obtain ⟨_, _, _, he⟩ := updateQueueCr_eq w.state.infos w.state.iq threshold wait order
    have hunits : (updateQueueCr w.state.infos threshold wait order w.state.iq).queueUnits = w.state.iq.queueUnits := by
      rw [he]
    have hhalved := halved_updateQueueCr h.halved threshold wait henabled.2.1 henabled.2.2
    rw [← hunits] at hhalved
    exact h.shrink ⟨w.state.infos, updateQueueCr w.state.infos threshold wait order w.state.iq⟩ hhalved (Extends.refl _)
      (fun key r hr => hunits ▸ hr) (fun _ _ _ => rfl)
  | errorFunc => exact hok.elim

theorem current_newIntelligentQueue (obj : Objects) (name : String) (threshold maxDepth : Int) (waitPodsRunning : Bool) :
    Current obj ⟨{ iq := newIntelligentQueue {} name threshold maxDepth waitPodsRunning [] }, ∅⟩ where
  halved := by
    apply halved_empty _ rfl rfl
    refine ⟨?_, ?_, ?_, ?_⟩
    · exact fun hr => absurd hr (Nat.not_lt_zero _)
    · exact fun hr => absurd hr (Nat.not_lt_zero _)
    · exact fun hr => absurd hr (Nat.not_lt_zero _)
    · intro uid r hr
      cases hr
  delivered key r hr := by cases hr

/-- The sub-queues of a queue divide its units in every run in which additions
are faithful. -/
theorem subqueues_divide {name : String} {threshold maxDepth : Int} {waitPodsRunning : Bool} {as : List Action}
    (hfaithful : Run.Guarded (delivering fw obj) Faithful
      ⟨{ iq := newIntelligentQueue {} name threshold maxDepth waitPodsRunning [] }, ∅⟩ as)
    (hrun : Run.exec (delivering fw obj)
      ⟨{ iq := newIntelligentQueue {} name threshold maxDepth waitPodsRunning [] }, ∅⟩ as = some w) :
    Divided w.state := by
  have hw : Current obj w := Run.invariant (fun _ _ _ h hf hs => current_step h hf hs)
    (current_newIntelligentQueue obj name threshold maxDepth waitPodsRunning) hfaithful hrun
  exact divided_of_halved hw.halved

def newQueue : World := ⟨{ iq := newIntelligentQueue {} "q" 4 (-1) false [] }, ∅⟩

def crossing : List Action :=
  [.newInfo 0 (workers "a" "1" "x" 1 2 0), .newInfo 0 (workers "b" "1" "x" 2 2 0), .add 0, .add 1,
    .update 0 (workers "a" "1" "x" 1 2 0) (workers "a" "2" "x" 9 2 0), .updateQueueCr 2 false ["ns/b", "ns/a"]]

theorem crossing_divided :
    ∃ w, Run.exec (delivering labelQuota namedObjects) newQueue crossing = some w ∧
      w.state.iq.highPriorityQueue = [3, 1] ∧ w.state.iq.lowPriorityQueue = [] ∧ Divided w.state := by
  obtain ⟨w, hrun, hhigh, hlow⟩ : ∃ w, Run.exec (delivering labelQuota namedObjects) newQueue crossing = some w ∧
      w.state.iq.highPriorityQueue = [3, 1] ∧ w.state.iq.lowPriorityQueue = [] := by decide +kernel
  have hfaithful : Run.Guarded (delivering labelQuota namedObjects) Faithful newQueue crossing := by decide +kernel
  exact ⟨w, hrun, hhigh, hlow, subqueues_divide hfaithful hrun⟩

/-- A second addition of a unit brings a priority beyond the threshold and is
refused. The next update starts from that version. -/
def addedTwice : List Action :=
  [.newInfo 0 (workers "a" "1" "x" 1 2 0), .add 0, .newInfo 0 (workers "a" "2" "x" 9 2 0), .add 1,
    .update 0 (workers "a" "2" "x" 9 2 0) (workers "a" "3" "x" 9 2 1)]

theorem addedTwice_in_both :
    ∃ w, Run.exec (delivering labelQuota namedObjects) newQueue addedTwice = some w ∧
      w.state.iq.highPriorityQueue = [3] ∧ w.state.iq.lowPriorityQueue = [0] ∧ w.state.infos.key 0 = "ns/a" ∧
      w.state.infos.key 3 = "ns/a" ∧ w.state.iq.queueUnits.lookup "ns/a" = some 3 ∧ ¬ Divided w.state := by
  obtain ⟨w, hrun, hhigh, hlow, hstale, hkey, hlookup⟩ : ∃ w,
      Run.exec (delivering labelQuota namedObjects) newQueue addedTwice = some w ∧ w.state.iq.highPriorityQueue =
      [3] ∧ w.state.iq.lowPriorityQueue = [0] ∧ w.state.infos.key 0 = "ns/a" ∧ w.state.infos.key 3 = "ns/a" ∧
      w.state.iq.queueUnits.lookup "ns/a" = some 3 := by decide +kernel
  refine ⟨w, hrun, hhigh, hlow, hstale, hkey, hlookup, fun hdivided => ?_⟩
  have hheld := hdivided.held 0 (by rw [hhigh, hlow]; decide)
  rw [hstale, hlookup] at hheld
  cases hheld

end Runs

end KoordQueue.Queue.Partition
