import KoordQueue.Queue.Consistency
import KoordQueue.Queue.Scan

namespace KoordQueue.Queue.Passing

open Api Cursor Memory Policy Update Steps Frames Filing Queue.Representation
open Slice SliceOps Scan

def NotPassed (s : State) (key : String) : Prop := ∀ r ∈ s.pq.queue.take s.pq.nextIdx, s.infos.key r ≠ key
deriving Decidable

def EdgeClear (fw : Handle) (handed : Finset String) (s : State) (key : String) : Prop :=
  ∀ r, s.pq.queue[s.pq.nextIdx]? = some r → s.infos.key r ≠ key → ¬ Waiting fw handed s r
deriving Decidable

/-- The failed unit was handed out since the scan started over, or it is still
to come; and the scan stands at it or at a unit that is not waiting. -/
def FailsInTurn (fw : Handle) (handed : Finset String) (s : State) (r : Ref) : Prop :=
  (∀ x ∈ s.pq.queue.take (s.pq.nextIdx + 1), s.infos.key x = s.infos.key r →
    wants fw (s.infos.unit x) = true → s.infos.key r ∈ handed) ∧ EdgeClear fw handed s (s.infos.key r)
deriving Decidable

variable {obj : Objects} {fw : Handle} {handed : Finset String} {s : State} {m : Infos} {q : PriorityQueue}

theorem scanned_reserve (h : Scanned fw handed s) (now : Time) (r : Ref) (hok : s.pq.resetNextIdxFlag = true ∨
      ((s.pq.waitPodsRunning = true → s.pq.assumed = ∅) → EdgeClear fw handed s (s.infos.key r))) :
    Scanned fw handed ⟨s.infos, (reserve s.infos now r s.pq).1⟩ := by
  rcases reserve_cases s.infos now s.pq r with ⟨_, hfree, heq⟩ | ⟨_, a, _, heq⟩
  · rw [heq]
    cases hb : s.pq.blocked with
    | true => exact Or.inl rfl
    | false =>
      rcases hok with hflag | hclear
      · exact Or.inl hflag
      · rcases h with hflag | hswept
        · exact Or.inl hflag
        · right
          have hmore : Swept (fun x => Waiting fw handed s x ∧ s.infos.key x ≠ s.infos.key r)
              s.pq.queue (s.pq.nextIdx + 1) := by
            apply Swept.succ
            · exact hswept.imp (fun _ _ hw => hw.1)
            · exact fun x hx hw => hclear hfree x hx hw.2 hw.1
          apply hmore.imp
          intro x _ hw
          refine ⟨waiting_of_same rfl (fun hin => Finset.mem_insert_of_mem hin) hw, ?_⟩
          intro he
          exact hw.1.1 (Finset.mem_insert.mpr (Or.inl he))
  · rw [heq]
    exact h.same (fun _ _ => rfl) rfl rfl id (Finset.Subset.refl _)

variable {order : List String} {g : QueueUnit → String} {r : Ref} {key : String}

theorem scanned_addUnschedulable {changed : Bool} (h : s.pq.resetNextIdxFlag = true ∨
      Swept (fun x => Waiting fw handed s x ∧ s.infos.key x ≠ s.infos.key r) s.pq.queue s.pq.nextIdx)
    (hok : s.pq.resetNextIdxFlag = true ∨ changed = true ∨ FailsInTurn fw handed s r) :
    Scanned fw handed (addUnschedulable fw r changed s) := by
  obtain ⟨b, _, heq⟩ := addUnschedulableIfNotPresent_eq fw s.infos s.pq r changed
  rw [addUnschedulable, heq]
  rcases h with hflag | hswept
  · exact Or.inl (by simp [hflag])
  rcases hok with hflag | rfl | ⟨hhanded, hclear⟩
  · exact Or.inl (by simp [hflag])
  · exact Or.inl rfl
  cases hrewind : changed || s.pq.blocked with
  | true => exact Or.inl rfl
  | false =>
    right
    have hmore := hswept.succ (fun x hx hw => hclear x hx hw.2 hw.1)
    intro x hx hw
    change x ∈ s.pq.queue.take (s.pq.nextIdx + 1) at hx
    by_cases hk : s.infos.key x = s.infos.key r
    · exact hw.2 (hk ▸ hhanded x hx hk hw.1.2)
    · apply hmore x hx
      exact ⟨waiting_of_same rfl (fun hin => Finset.mem_erase.mpr ⟨hk, hin⟩) hw, hk⟩

theorem pairwise_key (hrep : Listed obj s) (key : String) :
    s.pq.queue.Pairwise (fun a b => decide (s.infos.key a ≠ key) = true ∨ decide (s.infos.key b ≠ key) = true) := by
  apply hrep.nodup.imp_of_mem
  intro a b ha hb hne
  by_contra hboth
  simp only [ne_eq, decide_eq_true_eq, not_or, not_not] at hboth
  exact hne (hrep.eq_of_key ha hb (hboth.1.trans hboth.2.symm))

theorem swept_others (hrep : Listed obj s)
    (h : Swept (fun r => Waiting fw handed s r ∧ s.infos.key r ≠ key) s.pq.queue s.pq.nextIdx)
    (hok : NotPassed s key ∨ EdgeClear fw handed s key) :
    Swept (fun r => Waiting fw handed s r ∧ s.infos.key r ≠ key)
      (s.pq.queue.filter (fun r => s.infos.key r ≠ key)) s.pq.nextIdx := by
  rcases hok with hnot | hclear
  · exact h.filter_of_kept (fun r hr => decide_eq_true (hnot r hr))
  · apply Swept.filter_one (pairwise_key hrep key)
    exact h.succ (fun r hr hw => hclear r hr hw.2 hw.1)

theorem scanned_drop (hrep : Listed obj s) (h : Scanned fw handed s)
    (hm : ∀ r ∈ s.pq.queue, m.unit r = s.infos.unit r)
    (hqueue : q.queue = s.pq.queue.filter (fun r => s.infos.key r ≠ key)) (hidx : q.nextIdx = s.pq.nextIdx)
    (hflag : s.pq.resetNextIdxFlag = true → q.resetNextIdxFlag = true)
    (hup : ∀ k ∈ s.pq.updating, k ≠ key → k ∈ q.updating)
    (hok : NotPassed s key ∨ EdgeClear fw handed s key) : Scanned fw handed ⟨m, q⟩ := by
  rcases h with h | hswept
  · exact Or.inl (hflag h)
  · right
    have hleft := swept_others hrep (hswept.imp (fun _ _ hw => hw.1)) hok
    rw [← hqueue, ← hidx] at hleft
    apply hleft.imp
    intro r hr hw
    have hmem := List.mem_of_mem_take hr
    rw [hqueue, List.mem_filter, decide_eq_true_eq] at hmem
    exact ⟨waiting_of_same (hm r hmem.1) (fun hin => hup _ hin hmem.2) hw, hmem.2⟩

structure Removed (s : State) (keys : List String) (t : State) : Prop where
  extend : Extends s.infos t.infos
  queue : t.pq.queue = s.pq.queue.filter (fun r => s.infos.key r ∉ keys)
  nextIdx : t.pq.nextIdx = s.pq.nextIdx
  resetNextIdxFlag : t.pq.resetNextIdxFlag = s.pq.resetNextIdxFlag
  updating : ∀ k ∈ s.pq.updating, k ∉ keys → k ∈ t.pq.updating

theorem removed_deleteWithoutLock (hrep : Represented obj s) {qu : QueueUnit} (hqu : obj.Has qu) (fw : Handle)
    (now : Time) : Removed s [qu.key] (deleteWithoutLock fw now qu s) := by
  obtain ⟨b, _, heq⟩ := deleteWithoutLock_eq fw now qu s
  have hext := extends_filedInfo now qu s
  rw [heq]
  refine ⟨hext, ?_, rfl, rfl, ?_⟩
  · dsimp only
    rw [removeFound_filedInfo now hrep hqu]
    apply List.filter_congr
    intro r hr
    rw [decide_eq_decide, List.mem_singleton, Infos.key, hext.unit (hrep.filed.slice r hr), Infos.key]
  · intro k hk hne
    exact Finset.mem_erase.mpr ⟨fun he => hne (List.mem_singleton.mpr he), hk⟩

theorem Removed.trans {t u : State} {keys more : List String} (h : Removed s keys t) (h' : Removed t more u)
    (hfiled : Filed s) : Removed s (keys ++ more) u where
  extend := h.extend.trans h'.extend
  queue := by
    rw [h'.queue, h.queue, List.filter_filter]
    apply List.filter_congr
    intro r hr
    rw [Infos.key, h.extend.unit (hfiled.slice r hr), ← Infos.key, ← Bool.decide_and, decide_eq_decide,
      List.mem_append, not_or]
    exact and_comm
  nextIdx := h'.nextIdx.trans h.nextIdx
  resetNextIdxFlag := h'.resetNextIdxFlag.trans h.resetNextIdxFlag
  updating k hk hnot := by
    rw [List.mem_append, not_or] at hnot
    exact h'.updating k (h.updating k hk hnot.1) hnot.2

theorem removed_foldl (fw : Handle) (now : Time) (hrep : Represented obj s) {refs : List Ref}
    (hrefs : ∀ r ∈ refs, s.infos.heap.Allocated r) :
    Removed s (refs.map s.infos.key) (refs.foldl (fun t r => deleteWithoutLock fw now (t.infos.unit r) t) s) := by
  induction refs generalizing s with
  | nil =>
    refine ⟨Extends.refl _, ?_, rfl, rfl, fun _ hk _ => hk⟩
    exact (List.filter_eq_self.mpr (fun r _ => decide_eq_true List.not_mem_nil)).symm
  | cons r refs ih =>
    have hqu := hrep.built.has (hrefs r List.mem_cons_self)
    have hfirst := removed_deleteWithoutLock hrep hqu fw now
    have hlater : ∀ x ∈ refs, s.infos.heap.Allocated x := fun x hx => hrefs x (List.mem_cons_of_mem r hx)
    have hrest := ih (represented_deleteWithoutLock fw now hrep hqu) (fun x hx => (hfirst.extend x (hlater x hx)).1)
    have hkeys : refs.map (deleteWithoutLock fw now (s.infos.unit r) s).infos.key = refs.map s.infos.key := by
      apply List.map_congr_left
      intro x hx
      exact congrArg QueueUnit.key (hfirst.extend.unit (hlater x hx))
    rw [hkeys] at hrest
    exact hfirst.trans hrest hrep.filed

theorem stays_iff (hrep : Represented obj s) (horder : order.toFinset = moved g s) (hr : r ∈ s.pq.queue) :
    s.infos.key r ∉ (order.filterMap s.pq.queueUnits.lookup).map s.infos.key ↔
      g (s.infos.unit r) = s.pq.name := by
  have hl := hrep.listed.mp hr
  have hmoved : s.infos.key r ∈ order ↔ g (s.infos.unit r) ≠ s.pq.name := by
    rw [← List.mem_toFinset, horder, moved, Finset.mem_filter, hl]
    simp only [Option.any_some, decide_eq_true_eq, and_iff_right_iff_imp]
    exact fun _ => Finmap.mem_keys.mpr (Finmap.mem_of_lookup_eq_some hl)
  rw [← not_iff_not, not_not, ← ne_eq, ← hmoved]
  constructor
  · intro hin
    obtain ⟨x, hx, hkey⟩ := List.mem_map.mp hin
    obtain ⟨k, hk, hlx⟩ := List.mem_filterMap.mp hx
    rwa [← hkey, hrep.filed.own hlx]
  · intro hin
    exact List.mem_map.mpr ⟨r, List.mem_filterMap.mpr ⟨_, hin, hl⟩, rfl⟩

/-- No unit that `Fix` moves away was passed, or none that stays is waiting. -/
def FixesInTurn (fw : Handle) (handed : Finset String) (s : State) (g : QueueUnit → String) : Prop :=
  (∀ r ∈ s.pq.queue.take s.pq.nextIdx, g (s.infos.unit r) = s.pq.name) ∨
    ∀ r ∈ s.pq.queue, g (s.infos.unit r) = s.pq.name → ¬ Waiting fw handed s r
deriving Decidable

theorem scanned_fix (hrep : Represented obj s) (h : Scanned fw handed s)
    (horder : order.toFinset = moved g s) (now : Time)
    (hok : s.pq.resetNextIdxFlag = true ∨ FixesInTurn fw handed s g) : Scanned fw handed (fix fw now order s) := by
  have hrefs := GoMap.forall_mem_lookups (fun _ _ => hrep.filed.allocated) order
  have hremoved := removed_foldl fw now hrep hrefs
  rw [← fix] at hremoved
  rcases h with hflag | hswept
  · exact Or.inl (hremoved.resetNextIdxFlag.trans hflag)
  rcases hok with hflag | hok
  · exact Or.inl (hremoved.resetNextIdxFlag.trans hflag)
  right
  have hsame : ∀ r ∈ (fix fw now order s).pq.queue, r ∈ s.pq.queue ∧ g (s.infos.unit r) = s.pq.name ∧
      (Waiting fw handed (fix fw now order s) r → Waiting fw handed s r) := by
    intro r hr
    rw [hremoved.queue, List.mem_filter, decide_eq_true_eq] at hr
    refine ⟨hr.1, (stays_iff hrep horder hr.1).mp hr.2, ?_⟩
    intro hw
    apply waiting_of_same (hremoved.extend.unit (hrep.filed.slice r hr.1)) _ hw
    exact fun hin => hremoved.updating _ hin hr.2
  rcases hok with hahead | hstay
  · have hkept : Swept (Waiting fw handed s) (fix fw now order s).pq.queue (fix fw now order s).pq.nextIdx := by
      rw [hremoved.queue, hremoved.nextIdx]
      apply hswept.filter_of_kept
      intro r hr
      exact decide_eq_true ((stays_iff hrep horder (List.mem_of_mem_take hr)).mpr (hahead r hr))
    exact hkept.imp (fun r hr hw => (hsame r (List.mem_of_mem_take hr)).2.2 hw)
  · intro r hr hw
    obtain ⟨hmem, hg, hback⟩ := hsame r (List.mem_of_mem_take hr)
    exact hstay r hmem hg (hback hw)

end KoordQueue.Queue.Passing
