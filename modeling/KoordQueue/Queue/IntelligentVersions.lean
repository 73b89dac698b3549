import KoordQueue.Queue.Deliveries
import KoordQueue.Queue.Partition

namespace KoordQueue.Queue.IntelligentVersions

open Api Memory Intelligent IntelligentSteps IntelligentFrames Halves Partition Deliveries
open Filing (Extends extends_newQueueUnitInfo extends_attempted unit_refreshed)
open Queue.Representation
open Policy (Handle)
open Steps (attempted failedVersion)

/-- Units keep their UID and creation time. An update starts from the object and the priority that
the queue holds, a refresh keeps them, and a resource version names one version. -/
def Traced (obj : Objects) (s : State) : Action → Prop
  | .newInfo _ qu | .delete _ qu => obj.Has qu
  | .update _ old new => obj.Has old ∧ obj.Has new ∧ old.key = new.key ∧ old.uid = new.uid ∧
      ∀ r ∈ s.iq.queueUnits.lookup new.key, Matches s.infos r old ∧
        ((s.infos.unit r).resourceVersion = new.resourceVersion → s.infos.unit r = new)
  | .errorFunc _ r (.got qu) _ _ => obj.Has qu ∧ Matches s.infos r qu
  | .forgetInfos .. | .add .. | .next .. | .reserve .. | .dequeueSuccess .. | .addUnschedulable .. | .fix ..
  | .updateQueueCr .. | .errorFunc _ _ .getNotFound _ _ | .errorFunc _ _ .getFailed _ _
  | .errorFunc _ _ .updateNotFound _ _ => True

instance decidableTraced (obj : Objects) (s : State) (a : Action) : Decidable (Traced obj s a) := by
  delta Traced
  induction a using IntelligentSteps.Action.casesOn with
  | errorFunc _ _ answer => induction answer using Steps.Answer.casesOn <;> infer_instance
  | _ => infer_instance

variable {obj : Objects} {s t : State} {fw : Handle} {now : Time}

variable {new old : QueueUnit} {r : Ref}

theorem lookup_of_slot (h : HalvedAt obj s)
    (hr : r ∈ s.iq.highPriorityQueue ++ s.iq.lowPriorityQueue) : s.iq.queueUnits.lookup (s.infos.key r) = some r := by
  rcases List.mem_append.mp hr with hhigh | hlow
  · exact (@Halved.mem_half obj s.infos s.iq.queueUnits s.iq true h r).mp hhigh |>.1
  · exact (@Halved.mem_half obj s.infos s.iq.queueUnits s.iq false h r).mp hlow |>.1

theorem halved_attempted (h : HalvedAt obj s) {r : Ref} (hr : s.infos.heap.Allocated r) :
    Halved obj (attempted now r s.infos) s.iq.queueUnits s.iq :=
  h.extend (extends_attempted now hr) (built_set h.built hr (h.built.has hr) rfl rfl rfl)

theorem halved_addUnschedulable {m : Infos} (h : Halved obj m s.iq.queueUnits s.iq) (r : Ref) (changed : Bool) :
    HalvedAt obj (addUnschedulable fw r changed ⟨m, s.iq⟩) := by
  obtain ⟨reset, j, blocked, he⟩ := addUnschedulableIfNotPresent_eq fw m s.iq r changed
  rw [addUnschedulable, he]
  exact h.congr rfl rfl rfl

theorem halved_errorFunc (h : HalvedAt obj s) (hr : s.infos.heap.Allocated r)
    {answer : Steps.Answer} {reasons : String} {changed : Bool}
    (hok : Traced obj s (.errorFunc now r answer reasons changed)) :
    HalvedAt obj (errorFunc fw now r answer reasons changed s) := by
  have hmore := @halved_attempted obj s now h r hr
  cases answer with
  | getNotFound =>
    exact halved_delete fw now (s := ⟨attempted now r s.infos, s.iq⟩) hmore (h.built.has hr)
  | getFailed => exact halved_addUnschedulable hmore r changed
  | updateNotFound => exact hmore
  | got qu =>
    obtain ⟨hqu, huid, hprio⟩ := hok
    have hsame := (extends_attempted now hr).unit hr
    refine halved_addUnschedulable (s := s) (hmore.setUnit (extends_attempted now hr r hr).1 ?_ ?_ ?_) r changed
    · exact hqu
    · rw [hsame]
      exact huid.symm
    · rw [hsame]
      exact hprio.symm

theorem halved_step {a : Action} (h : HalvedAt obj s) (hok : Traced obj s a)
    (hstep : step fw s a = some t) : HalvedAt obj t := by
  obtain ⟨henabled, rfl⟩ := (step_eq_some fw).mp hstep
  cases a with
  | newInfo now qu => exact h.extend (extends_newQueueUnitInfo s.infos now qu) (built_newQueueUnitInfo h.built hok now)
  | forgetInfos present =>
    have hm : Extends s.infos (s.infos.forgetQueueUnitInfo present) := Extends.refl s.infos
    exact h.extend hm (built_forgetQueueUnitInfo h.built present)
  | add r => exact halved_add h (henabled.1 r List.mem_cons_self)
  | delete now qu => exact halved_delete fw now h hok
  | update now old new =>
    obtain ⟨hold, hnew, hkey, huid, hheld⟩ := hok
    exact (halved_update h hold hnew hkey huid (fun r hr => (hheld r hr).1)).1
  | next now =>
    obtain ⟨i, j, reset, blocked, unit, time, he⟩ := next_eq fw s.infos now s.iq
    rw [act, he]
    exact h.congr rfl rfl rfl
  | reserve r =>
    simp only [act, reserve]
    split
    next => exact h
    next => exact h.congr rfl rfl rfl
  | dequeueSuccess qu => exact h.congr rfl rfl rfl
  | addUnschedulable r changed => exact halved_addUnschedulable h r changed
  | fix g order => exact halved_fix h order
  | updateQueueCr threshold wait order =>
    obtain ⟨_, _, _, he⟩ := updateQueueCr_eq s.infos s.iq threshold wait order
    have hunits : (updateQueueCr s.infos threshold wait order s.iq).queueUnits = s.iq.queueUnits := by rw [he]
    rw [HalvedAt, act, hunits]
    exact halved_updateQueueCr h threshold wait henabled.2.1 henabled.2.2
  | errorFunc now r answer reasons changed => exact halved_errorFunc h (henabled.1 r List.mem_cons_self) hok

theorem unit_refresh_own (h : HalvedAt obj s) (hr : s.iq.queueUnits.lookup new.key = some r) :
    (refresh fw old new s).infos.unit r =
      if (s.infos.unit r).resourceVersion ≠ new.resourceVersion then new else s.infos.unit r := by
  have hset : (if (s.infos.unit r).resourceVersion ≠ new.resourceVersion then s.infos.setUnit r new else s.infos).unit r =
      if (s.infos.unit r).resourceVersion ≠ new.resourceVersion then new else s.infos.unit r := by
    split
    next => rw [Infos.unit_setUnit (h.allocated hr), if_pos rfl]
    next => rfl
  rw [refresh, hr]
  dsimp only
  split
  next => exact hset
  next => exact hset

/-- After an update the queue holds the new version under its key, if any, and
under the other keys what it held before. -/
theorem unit_update (h : HalvedAt obj s) (hok : Traced obj s (.update now old new)) {key : String}
    (hr : (update fw now old new s).iq.queueUnits.lookup key = some r) :
    (key = new.key ∧ (update fw now old new s).infos.unit r = new) ∨
      (key ≠ new.key ∧ s.iq.queueUnits.lookup key = some r ∧
        (update fw now old new s).infos.unit r = s.infos.unit r) := by
  obtain ⟨hold, hnew, hkey, huid, hheld⟩ := hok
  have hmatch := fun r hr => (hheld r hr).1
  obtain ⟨hbody, -⟩ := @halved_updateBody obj s fw now old new h hold hnew hkey huid hmatch
  rcases (@halved_update obj s fw now old new h hold hnew hkey huid hmatch).2 key r hr with ⟨hk, -⟩ | hother
  · refine Or.inl ⟨hk, ?_⟩
    subst hk
    obtain ⟨_, _, hrefresh⟩ := refresh_eq fw old new (updateBody fw now old new s)
    rw [update, hrefresh] at hr
    rw [update, unit_refresh_own hbody hr]
    split
    next => rfl
    next hsame =>
      rw [not_not] at hsame
      obtain ⟨_, _, _, _, _, hunits⟩ := updateBody_eq fw now old new s
      rw [hunits] at hr
      obtain ⟨reset, ⟨hu, he⟩ | ⟨hu, hd, he⟩ | ⟨hu, hd, he⟩⟩ := updateBody_cases fw now old new s
      · rw [hu] at hr
        rw [he] at hsame ⊢
        exact (hheld r hr).2 hsame
      · simp [hu, hd] at hr
      · simp only [hu, hd, Bool.false_eq_true, if_false, Finmap.lookup_insert, Option.some.injEq] at hr
        rw [he, ← hr]
        exact unit_reinserted
  · exact Or.inr hother

section Held

variable {key : String} {r : Ref}

theorem extends_filedInfo (qu : QueueUnit) (s : State) : Extends s.infos (filedInfo now qu s).1 := by
  rw [filedInfo]
  split
  next => exact Extends.refl s.infos
  next => exact extends_newQueueUnitInfo s.infos now qu

theorem lookup_delete {qu : QueueUnit} (hr : (delete fw now qu s).iq.queueUnits.lookup key = some r) :
    s.iq.queueUnits.lookup key = some r := by
  obtain ⟨_, he⟩ := delete_eq fw now qu s
  rw [he] at hr
  exact GoMap.lookup_of_erase hr

variable {changed : Bool} {x : Ref}

theorem lookup_addUnschedulable : (addUnschedulable fw x changed s).iq.queueUnits = s.iq.queueUnits := by
  obtain ⟨_, _, _, he⟩ := addUnschedulableIfNotPresent_eq fw s.infos s.iq x changed
  rw [addUnschedulable, he]

theorem held_errorFunc (h : HalvedAt obj s) (hx : s.infos.heap.Allocated x) {answer : Steps.Answer} {reasons : String}
    (htruth : Truthful s (.errorFunc now x answer reasons changed))
    (hr : (errorFunc fw now x answer reasons changed s).iq.queueUnits.lookup key = some r) :
    Held s.iq.queueUnits s.infos key (deliveredIntelligent s.infos (.errorFunc now x answer reasons changed)) r
      ((errorFunc fw now x answer reasons changed s).infos.unit r) := by
  have hext := extends_attempted now hx
  cases answer with
  | getNotFound =>
    have hold := lookup_delete (s := ⟨attempted now x s.infos, s.iq⟩) hr
    have hmore := @extends_filedInfo now (s.infos.unit x) ⟨attempted now x s.infos, s.iq⟩
    exact .of_eq hold ((hext.trans hmore).unit (h.allocated hold)) not_false
  | getFailed =>
    rw [errorFunc, lookup_addUnschedulable] at hr
    exact .of_eq hr (hext.unit (h.allocated hr)) not_false
  | updateNotFound => exact .of_eq hr (hext.unit (h.allocated hr)) not_false
  | got qu =>
    rw [errorFunc, lookup_addUnschedulable] at hr
    have hunit := unit_refreshed now hx reasons qu (h.allocated hr)
    by_cases he : r = x
    · subst he
      rw [if_pos rfl] at hunit
      have hkey : (failedVersion now reasons qu).key = key := by
        rw [← h.own hr]
        exact congrArg₂ (fun a b => a ++ "/" ++ b) htruth.1 htruth.2
      rw [errorFunc, addUnschedulable, hunit]
      exact .refreshed hr hkey
    · rw [if_neg he] at hunit
      exact .of_eq hr hunit (Ne.symm he)

theorem held_step {a : Action} (h : HalvedAt obj s) (hok : Traced obj s a)
    (hstep : step fw s a = some t) (hr : t.iq.queueUnits.lookup key = some r) :
    Held s.iq.queueUnits s.infos key (deliveredIntelligent s.infos a) r (t.infos.unit r) := by
  obtain ⟨henabled, rfl⟩ := (step_eq_some fw).mp hstep
  cases a with
  | newInfo now qu =>
    exact .of_eq hr ((extends_newQueueUnitInfo s.infos now qu).unit (h.allocated hr)) not_false
  | forgetInfos present => exact .of_eq hr rfl not_false
  | add x =>
    rcases lookup_of_add s.infos hr with hold | ⟨rfl, hkey, hnew⟩
    · exact .of_eq hold rfl not_false
    · exact .added hkey hnew
  | delete now qu =>
    have hold := lookup_delete hr
    exact .of_eq hold ((extends_filedInfo qu s).unit (h.allocated hold)) not_false
  | update now old new =>
    rcases unit_update h hok hr with ⟨hk, hunit⟩ | ⟨hne, hold, hunit⟩
    · rw [act, hunit]
      exact .updated hk
    · exact .of_eq hold hunit hne
  | next now =>
    obtain ⟨_, _, _, _, _, _, he⟩ := next_eq fw s.infos now s.iq
    rw [act, he] at hr
    exact .of_eq hr rfl not_false
  | reserve x =>
    have hold : s.iq.queueUnits.lookup key = some r := by
      simp only [act, reserve] at hr
      split at hr
      next => exact hr
      next => exact hr
    exact .of_eq hold rfl not_false
  | dequeueSuccess qu => exact .of_eq hr rfl not_false
  | addUnschedulable x changed =>
    rw [act, lookup_addUnschedulable] at hr
    exact .of_eq hr rfl not_false
  | fix g order =>
    obtain ⟨_, _, he⟩ := fix_eq s.infos order s.iq
    rw [act, he] at hr
    exact .of_eq (GoMap.lookup_of_foldl_erase hr) rfl not_false
  | updateQueueCr threshold wait order =>
    obtain ⟨_, _, _, he⟩ := updateQueueCr_eq s.infos s.iq threshold wait order
    rw [act, he] at hr
    exact .of_eq hr rfl not_false
  | errorFunc now x answer reasons changed => exact held_errorFunc h (henabled.1 x List.mem_cons_self) henabled.2 hr

end Held

end KoordQueue.Queue.IntelligentVersions
