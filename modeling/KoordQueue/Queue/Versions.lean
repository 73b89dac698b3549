import KoordQueue.Queue.Consistency
import KoordQueue.Queue.Deliveries

namespace KoordQueue.Queue.Versions

open Api Policy Update Steps Frames Filing Queue.Representation Consistency Deliveries

/-- The steps are settled, and a resource version names one version. -/
def Traced (fw : Handle) (obj : Objects) (s : State) (a : Action) : Prop :=
  Settled fw obj s a ∧ match a with
    | .update _ _ new => ∀ r ∈ s.pq.queueUnits.lookup new.key,
        (s.infos.unit r).resourceVersion = new.resourceVersion → s.infos.unit r = new
    | _ => True

instance decidableTraced (fw : Handle) (obj : Objects) (s : State) (a : Action) : Decidable (Traced fw obj s a) := by
  delta Traced
  induction a using Steps.Action.casesOn <;> infer_instance

variable {fw : Handle} {obj : Objects} {s t : State} {now : Time} {key : String} {r : Ref}

theorem unit_updateBody (h : Filed s) {old new : QueueUnit}
    (hr : (updateBody fw now old new s).pq.queueUnits.lookup key = some r) :
    (key = new.key ∧ (updateBody fw now old new s).infos.unit r = new) ∨
      (s.pq.queueUnits.lookup key = some r ∧ (updateBody fw now old new s).infos.unit r = s.infos.unit r) := by
  obtain ⟨_, he⟩ | ⟨_, _, he⟩ | ⟨_, _, _, he⟩ | ⟨_, _, _, he⟩ := updateBody_cases fw now (@rfl _ (updateBody fw now old new s))
  · rw [he] at hr ⊢
    exact Or.inr ⟨hr, rfl⟩
  · obtain ⟨_, _, hdrop⟩ := dropDequeued_eq now old new s
    rw [he, hdrop] at hr
    have hold := GoMap.lookup_of_erase hr
    rw [he, hdrop]
    exact Or.inr ⟨hold, (extends_newQueueUnitInfo s.infos now new).unit (h.allocated hold)⟩
  · rw [he, settle_eq] at hr
    rw [he]
    dsimp only at hr
    rw [lookup_reinsert] at hr
    split at hr
    next hk =>
      cases hr
      exact Or.inl ⟨hk, unit_reinserted now old new s⟩
    next => exact Or.inr ⟨hr, (extends_reinsert now old new s).unit (h.allocated hr)⟩
  · rw [he, settle_eq] at hr
    rw [he]
    exact Or.inr ⟨hr, rfl⟩

/-- After an update the queue holds the new version under its key, if any, and
under the other keys what it held before. -/
theorem unit_update (h : Filed s) {old new : QueueUnit} (hok : Traced fw obj s (.update now old new))
    (hr : (update fw now old new s).pq.queueUnits.lookup key = some r) :
    (key = new.key ∧ (update fw now old new s).infos.unit r = new) ∨
      (key ≠ new.key ∧ s.pq.queueUnits.lookup key = some r ∧ (update fw now old new s).infos.unit r = s.infos.unit r) := by
  have hfiled := filed_updateBody fw now h old new
  cases hx : (updateBody fw now old new s).pq.queueUnits.lookup new.key with
  | none =>
    rw [update, refresh, hx] at hr ⊢
    have hne : key ≠ new.key := by
      rintro rfl
      rw [hx] at hr
      cases hr
    exact Or.inr ⟨hne, (unit_updateBody h hr).resolve_left (fun hk => hne hk.1)⟩
  | some x =>
    obtain ⟨_, _, he⟩ := refresh_eq fw old hx
    rw [update, he] at hr ⊢
    dsimp only at hr ⊢
    rw [unit_kept (hfiled.allocated hx), keptVersion]
    by_cases hk : key = new.key
    · left
      subst hk
      obtain rfl : x = r := Option.some.inj (hx.symm.trans hr)
      refine ⟨rfl, ?_⟩
      rw [if_pos rfl]
      split
      next => rfl
      next hsame =>
        rw [not_not] at hsame
        rcases unit_updateBody h hx with ⟨-, hnew⟩ | ⟨hold, hunit⟩
        · exact hnew
        · rw [hunit] at hsame ⊢
          exact hok.2 x hold hsame
    · have hne : r ≠ x := by
        rintro rfl
        exact hk ((hfiled.own hr).symm.trans (hfiled.own hx))
      rw [if_neg hne]
      exact Or.inr ⟨hk, (unit_updateBody h hr).resolve_left (fun he => hk he.1)⟩

theorem lookup_deleteWithoutLock {qu : QueueUnit}
    (hr : (deleteWithoutLock fw now qu s).pq.queueUnits.lookup key = some r) :
    s.pq.queueUnits.lookup key = some r ∧ Extends s.infos (deleteWithoutLock fw now qu s).infos := by
  obtain ⟨_, _, he⟩ := deleteWithoutLock_eq fw now qu s
  rw [he] at hr ⊢
  exact ⟨GoMap.lookup_of_erase hr, extends_filedInfo now qu s⟩

theorem lookup_fix (order : List String) (hr : (fix fw now order s).pq.queueUnits.lookup key = some r) :
    s.pq.queueUnits.lookup key = some r ∧ Extends s.infos (fix fw now order s).infos := by
  rw [fix] at hr ⊢
  generalize order.filterMap s.pq.queueUnits.lookup = refs at hr ⊢
  induction refs generalizing s with
  | nil => exact ⟨hr, Extends.refl s.infos⟩
  | cons x refs ih =>
    obtain ⟨hold, hext⟩ := ih hr
    obtain ⟨hfirst, hbefore⟩ := lookup_deleteWithoutLock hold
    exact ⟨hfirst, hbefore.trans hext⟩

theorem lookup_addUnschedulable (x : Ref) (changed : Bool) :
    (addUnschedulable fw x changed s).pq.queueUnits = s.pq.queueUnits := by
  obtain ⟨_, _, he⟩ := addUnschedulableIfNotPresent_eq fw s.infos s.pq x changed
  rw [addUnschedulable, he]

theorem held_errorFunc (h : Filed s) {x : Ref} {answer : Answer} {reasons : String} {changed : Bool}
    (he : Enabled s (.errorFunc now x answer reasons changed))
    (hr : (errorFunc fw now x answer reasons changed s).pq.queueUnits.lookup key = some r) :
    Held s.pq.queueUnits s.infos key (delivered s.infos (.errorFunc now x answer reasons changed)) r
      ((errorFunc fw now x answer reasons changed s).infos.unit r) := by
  have hx := allocated_of_enabled now he
  have hext := extends_attempted now hx
  cases answer with
  | getNotFound =>
    obtain ⟨hold, hmore⟩ := lookup_deleteWithoutLock hr
    exact .of_eq hold ((hext.trans hmore).unit (h.allocated hold)) not_false
  | getFailed =>
    rw [errorFunc, lookup_addUnschedulable] at hr
    exact .of_eq hr (hext.unit (h.allocated hr)) not_false
  | updateNotFound => exact .of_eq hr (hext.unit (h.allocated hr)) not_false
  | got qu =>
    rw [errorFunc, lookup_addUnschedulable] at hr
    have hunit := unit_refreshed now hx reasons qu (h.allocated hr)
    rw [errorFunc, addUnschedulable, hunit]
    split
    next hrx =>
      subst hrx
      exact .refreshed hr ((key_of_enabled now he).trans (h.own hr))
    next hne => exact .of_eq hr rfl (Ne.symm hne)

theorem held_step {a : Action} (h : Filed s) (hok : Traced fw obj s a) (hstep : step fw s a = some t)
    (hr : t.pq.queueUnits.lookup key = some r) :
    Held s.pq.queueUnits s.infos key (delivered s.infos a) r (t.infos.unit r) := by
  obtain ⟨he, rfl⟩ := (step_eq_some fw).mp hstep
  cases a with
  | newInfo now qu => exact .of_eq hr ((extends_newQueueUnitInfo s.infos now qu).unit (h.allocated hr)) not_false
  | forgetInfos present => exact .of_eq hr rfl not_false
  | add x =>
    have hfiled : (s.pq.queueUnits.insert (s.infos.key x) x).lookup key = some r → s.infos.key x ∉ s.pq.queueUnits →
        Held s.pq.queueUnits s.infos key (.added x) r (s.infos.unit r) := by
      intro hr hnew
      rw [GoMap.lookup_insert_eq] at hr
      split at hr
      next hk =>
        cases hr
        subst hk
        exact .added rfl hnew
      next => exact .of_eq hr rfl not_false
    obtain ⟨_, heq⟩ | ⟨_, heq⟩ | ⟨hnew, _, heq⟩ | ⟨hnew, _, _, _, heq⟩ :=
      addQueueUnitInfo_cases fw (@rfl _ (addQueueUnitInfo fw s.infos x s.pq).1)
    · rw [act, heq] at hr
      exact .of_eq hr rfl not_false
    · rw [act, heq] at hr
      exact .of_eq hr rfl not_false
    · rw [act, heq] at hr
      exact hfiled hr hnew
    · rw [act, heq] at hr
      exact hfiled hr hnew
  | delete now qu =>
    obtain ⟨hold, hext⟩ := lookup_deleteWithoutLock hr
    exact .of_eq hold (hext.unit (h.allocated hold)) not_false
  | update now old new =>
    rcases unit_update h hok hr with ⟨hk, hunit⟩ | ⟨hne, hold, hunit⟩
    · rw [act, hunit]
      exact .updated hk
    · exact .of_eq hold hunit hne
  | next now =>
    obtain ⟨_, _, _, _, _, _, _, heq⟩ := next_eq fw s.infos now s.pq
    rw [act, heq] at hr
    exact .of_eq hr rfl not_false
  | reserve now x =>
    rcases reserve_cases s.infos now s.pq x with ⟨_, _, heq⟩ | ⟨_, _, _, heq⟩
    · rw [act, heq] at hr
      exact .of_eq hr rfl not_false
    · rw [act, heq] at hr
      exact .of_eq hr rfl not_false
  | dequeueSuccess qu => exact .of_eq hr rfl not_false
  | addUnschedulable x changed =>
    rw [act, lookup_addUnschedulable] at hr
    exact .of_eq hr rfl not_false
  | fix now g order =>
    obtain ⟨hold, hext⟩ := lookup_fix order hr
    exact .of_eq hold (hext.unit (h.allocated hold)) not_false
  | fixQueue =>
    have hold : s.pq.queueUnits.lookup key = some r := by
      rw [act, fixQueue] at hr
      split at hr
      next => exact hr
      next => exact hr
    exact .of_eq hold rfl not_false
  | errorFunc now x answer reasons changed => exact held_errorFunc h he hr

end KoordQueue.Queue.Versions
