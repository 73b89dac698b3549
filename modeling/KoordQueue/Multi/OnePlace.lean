import KoordQueue.Lib.Run
import KoordQueue.Multi.Tracking

namespace KoordQueue.Multi.OnePlace

open Api UnitStatus KoordQueue.Queue Memory Frames Filing Object Contents Calls Handlers Places Board
  Indexing Rehoming Tracking Run

variable {fw : MultiHandle} {now : Time} {g : Mapping} {s t : State} {parted : Finset (String × String)}
  {qu old new : QueueUnit} {n : String} {o : Ref}

structure Cleared (key : String) (s : State) (parted : Finset (String × String)) : Prop where
  wired : Wired s
  keyed : Keyed s.lister
  unnamed : "" ∉ s.queueMap
  indexed : Indexed ∅ s.infos (contents s) s.queueUnitFindNoQueue (Function.update (nameOf s) key none) parted
  registered : ∀ {n key}, (n, key) ∈ parted → n ∈ s.queueMap
  unlisted : key ∉ s.queueUnitFindNoQueue.map s.infos.key

theorem Cleared.enlisted (h : Cleared qu.key s parted) (now : Time) :
    Indexed ∅ (s.infos.newQueueUnitInfo now qu) (contents s) (s.infos.heap.next :: s.queueUnitFindNoQueue)
      (Function.update (nameOf s) qu.key none) parted := by
  have hkeys := sameKeys_extends (extends_newQueueUnitInfo s.infos now qu)
  have hkey : (s.infos.newQueueUnitInfo now qu).key s.infos.heap.next = qu.key :=
    congrArg QueueUnit.key (Infos.unit_newQueueUnitInfo s.infos now qu)
  refine indexed_enlist (indexed_infos h.indexed hkeys) (allocated_new s.infos now qu) ?_ ?_ ?_
  · rw [hkey]
    exact Infos.name_newQueueUnitInfo s.infos now qu
  · rw [hkey, map_key_congr hkeys h.indexed.good]
    exact h.unlisted
  · rw [hkey, Function.update_self]

theorem settled_addUnitsFindNoQueue (h : Cleared qu.key s parted) : Settled (s.addUnitsFindNoQueue now qu) parted where
  wired := h.wired.congr rfl rfl
  keyed := h.keyed
  unnamed := h.unnamed
  indexed := by
    have hnames : nameOf (s.addUnitsFindNoQueue now qu) = Function.update (nameOf s) qu.key none :=
      lookup_erase_index s.queueUnitToQueue qu.key
    rw [hnames]
    exact indexed_perm (h.enlisted now) (List.perm_append_singleton _ _)
  registered := h.registered

theorem settled_addNew {result : Except String Bool} (h : Cleared qu.key s parted)
    (hn : s.queueMap.lookup n = some o) (hwaits : isQueueUnitDequeued qu = false)
    (hrun : { s.setQueueForQueueUnit qu n with infos := s.infos.newQueueUnitInfo now qu
      }.addQueueUnitInfo fw now o s.infos.heap.next = some (t, result)) :
    Settled t parted ∧ ∃ b, result = .ok b := by
  have hwired : Wired { s.setQueueForQueueUnit qu n with infos := s.infos.newQueueUnitInfo now qu } :=
    h.wired.congr rfl rfl
  obtain ⟨htouched, hext, hok⟩ := touched_add hwired hn (allocated_new s.infos now qu) hrun
  have hunit := Infos.unit_newQueueUnitInfo s.infos now qu
  have hkey : (s.infos.newQueueUnitInfo now qu).key s.infos.heap.next = qu.key := congrArg QueueUnit.key hunit
  have hlisted := h.enlisted now
  have hunplaced := (hlisted.unplaced (List.mem_cons_self :
    (s.infos.newQueueUnitInfo now qu).key s.infos.heap.next ∈
      (s.infos.heap.next :: s.queueUnitFindNoQueue).map (s.infos.newQueueUnitInfo now qu).key) n).1
  have hplaced := indexed_enter hlisted (by rwa [hunit]) n hext
  have hnames : nameOf t = Function.update (nameOf s) qu.key (some n) := nameOf_insert htouched.index
  rw [Finset.erase_empty, hkey, Function.update_idem, ← hnames] at hplaced
  refine ⟨⟨htouched.wired, htouched.lister ▸ h.keyed, htouched.queueMap ▸ h.unnamed, ?_,
    htouched.queueMap ▸ h.registered⟩, hok hunplaced⟩
  rw [htouched.list, contents_touched htouched]
  exact hplaced

theorem settled_addQueueUnit (h : Cleared qu.key s parted)
    (hwaits : ∀ n ∈ g.target qu, n ∈ s.queueMap → isQueueUnitDequeued qu = false)
    (hrun : s.addQueueUnit fw now g qu = some t) : Settled t parted := by
  rw [State.addQueueUnit] at hrun
  split at hrun
  next =>
    cases hrun
    exact settled_addUnitsFindNoQueue h
  next n o hfound =>
    obtain ⟨htarget, ho⟩ := found_target hfound
    obtain ⟨⟨u, result⟩, hadd, rfl⟩ := Option.map_eq_some_iff.mp hrun
    exact (settled_addNew h ho (hwaits n htarget (Finmap.mem_iff.mpr ⟨o, ho⟩)) hadd).1

theorem cleared_deleteIfFound {oldQu : QueueUnit} (h : Settled s parted) (hkey : oldQu.key = qu.key)
    (hlisted : qu.key ∉ s.queueUnitFindNoQueue.map s.infos.key)
    (hrun : s.deleteIfFound fw now (s.getQueueForQueueUnit oldQu) qu = some t) :
    Cleared qu.key t (parted.filter (fun e => e.2 ≠ qu.key)) ∧ t.queueMap = s.queueMap ∧ t.lister = s.lister := by
  obtain ⟨htouched, hext⟩ := touched_deleteIfFound h.wired hrun
  have hnamed : ∀ n', nameOf s qu.key = some n' → n' = s.getQueueForQueueUnit oldQu := by
    intro n' hn'
    rw [State.getQueueForQueueUnit, hkey]
    exact (congrArg (fun x : Option String => x.getD "") hn').symm
  refine ⟨⟨htouched.wired, htouched.lister ▸ h.keyed, htouched.queueMap ▸ h.unnamed, ?_, ?_, ?_⟩, htouched.queueMap,
    htouched.lister⟩
  · rw [htouched.list, nameOf_touched htouched, contents_touched htouched]
    exact indexed_infos (indexed_clear h.indexed hnamed) (sameKeys_extends hext)
  · intro n' key hp
    rw [htouched.queueMap]
    exact h.registered (Finset.mem_filter.mp hp).1
  · rw [htouched.list, map_key_congr (sameKeys_extends hext) h.indexed.good]
    exact hlisted

theorem stays_eq_some (hs : stays s g old new = some o) : ∃ n, g.target new = some n ∧
    s.getQueueForQueueUnit old = n ∧ s.queueMap.lookup n = some o := by
  obtain ⟨n, htarget, hn⟩ := Option.bind_eq_some_iff.mp hs
  split at hn
  next hsame => exact ⟨n, htarget, hsame, hn⟩
  next => cases hn

theorem stays_of_same (htarget : g.target new = some n) (hsame : s.getQueueForQueueUnit old = n)
    (ho : s.queueMap.lookup n = some o) : stays s g old new = some o := by
  rw [stays, htarget]
  exact (if_pos hsame).trans ho

theorem stays_of_other (htarget : g.target new = some n) (hother : s.getQueueForQueueUnit old ≠ n) :
    stays s g old new = none := by
  rw [stays, htarget]
  exact if_neg hother

theorem stays_of_not_found (h : (g.target new).bind (fun n => (s.queueMap.lookup n).map (n, ·)) = none) :
    stays s g old new = none := by
  rw [Option.eq_none_iff_forall_ne_some]
  intro o hs
  obtain ⟨n, htarget, _, ho⟩ := stays_eq_some hs
  rw [htarget, Option.bind_some, ho] at h
  cases h

theorem nameOf_of_same (hn : n ≠ "") (hsame : s.getQueueForQueueUnit qu = n) : nameOf s qu.key = some n := by
  rw [State.getQueueForQueueUnit] at hsame
  cases hfind : s.queueUnitToQueue.lookup qu.key with
  | none =>
    rw [hfind] at hsame
    exact absurd hsame.symm hn
  | some n' =>
    rw [hfind] at hsame
    rw [nameOf, hfind]
    exact congrArg some hsame

theorem settled_updated {units : GoMap String Ref} {m : Infos} (h : Settled s parted)
    (hname : nameOf s new.key = some n) (htarget : g.target new = some n) (ho : s.queueMap.lookup n = some o)
    (hstays : stays s g old new = some o) (htouched : Touched s t n units) (hext : Extends s.infos m)
    (hupdated : Updated (skips fw.toHandle old new (s.objects.get o)) new m t.infos (contents s n) units) :
    Settled t (updatePartings s t g old new parted) := by
  have hunits : contents t n = units := by
    rw [htouched.contents, if_pos rfl]
  rw [updatePartings, hstays, (target_eq_some htarget).2, hunits]
  refine ⟨htouched.wired, htouched.lister ▸ h.keyed, htouched.queueMap ▸ h.unnamed, ?_, ?_⟩
  · rw [htouched.list, nameOf_touched htouched, contents_touched htouched]
    exact indexed_updated (indexed_infos h.indexed (sameKeys_extends hext)) hname hupdated
  · intro n' key hp
    rw [htouched.queueMap]
    rcases Finset.mem_union.mp hp with hp | hp
    · exact h.registered hp
    · split at hp
      next =>
        rw [(mem_leftOver.mp hp).1]
        exact Finmap.mem_iff.mpr ⟨o, ho⟩
      next => exact absurd hp (Finset.notMem_empty _)

theorem settled_updateQueueUnit (h : Settled s parted) (hkey : old.key = new.key)
    (hlisted : new.key ∉ s.queueUnitFindNoQueue.map s.infos.key)
    (hwaits : ∀ n ∈ g.target new, n ∈ s.queueMap → s.getQueueForQueueUnit old ≠ n → isQueueUnitDequeued new = false)
    (hrun : s.updateQueueUnit fw now g old new = some t) : Settled t (updatePartings s t g old new parted) := by
  rw [State.updateQueueUnit] at hrun
  dsimp only at hrun
  split at hrun
  next hnone =>
    rw [updatePartings, stays_of_not_found hnone]
    obtain ⟨u, hdelete, rfl⟩ := Option.map_eq_some_iff.mp hrun
    exact settled_addUnitsFindNoQueue (cleared_deleteIfFound h hkey hlisted hdelete).1
  next n o hfound =>
    obtain ⟨htarget, ho⟩ := found_target hfound
    have hin : n ∈ s.queueMap := Finmap.mem_iff.mpr ⟨o, ho⟩
    split at hrun
    next hsame =>
      have hn : n ≠ "" := by
        rintro rfl
        exact h.unnamed hin
      obtain ⟨units, m, htouched, hext, hupdated⟩ := touched_update h.wired ho (h.indexed.filed n) hrun
      exact settled_updated h (hkey ▸ nameOf_of_same hn hsame) htarget ho (stays_of_same htarget hsame ho) htouched hext
        hupdated
    next hother =>
      rw [updatePartings, stays_of_other htarget hother]
      obtain ⟨u, hdelete, hrest⟩ := Option.bind_eq_some_iff.mp hrun
      obtain ⟨hcleared, hmap, _⟩ := cleared_deleteIfFound h hkey hlisted hdelete
      obtain ⟨⟨v, result⟩, hadd, rfl⟩ := Option.map_eq_some_iff.mp hrest
      have ho' : u.queueMap.lookup n = some o := hmap ▸ ho
      rw [hcleared.wired.named ho'] at hadd
      obtain ⟨hv, b, rfl⟩ := settled_addNew hcleared ho' (hwaits n htarget hin hother) hadd
      exact hv

theorem settled_deleteQueueUnit (h : Settled s parted) (hrun : s.deleteQueueUnit fw now qu = some t) :
    Settled t (parted.filter (fun e => e.2 ≠ qu.key)) := by
  obtain ⟨u, hdelete, rfl⟩ := Option.map_eq_some_iff.mp hrun
  obtain ⟨htouched, hext⟩ := touched_deleteIfFound h.wired hdelete
  have hnamed : ∀ n', nameOf s qu.key = some n' → n' = s.getQueueForQueueUnit qu := fun n' hn' =>
    (congrArg (fun x : Option String => x.getD "") hn').symm
  refine ⟨htouched.wired.congr rfl rfl, htouched.lister ▸ h.keyed, htouched.queueMap ▸ h.unnamed, ?_, ?_⟩
  · have hnames : nameOf { u with queueUnitToQueue := u.queueUnitToQueue.erase qu.key } =
        Function.update (nameOf s) qu.key none := by
      unfold nameOf
      rw [htouched.index]
      exact lookup_erase_index s.queueUnitToQueue qu.key
    have hcontents : contents { u with queueUnitToQueue := u.queueUnitToQueue.erase qu.key } = contents u := rfl
    rw [hnames, hcontents, contents_touched htouched]
    dsimp only
    rw [htouched.list]
    exact indexed_infos (indexed_clear h.indexed hnamed) (sameKeys_extends hext)
  · intro n' key hp
    dsimp only
    rw [htouched.queueMap]
    exact h.registered (Finset.mem_filter.mp hp).1

/-- No unit that is on the list gets another info, what is handed to a queue waits,
and what is taken out of a queue finds another one. -/
def Tidy (w : Tracked) : Action → Prop
  | .deleteQueue _ g n order => n ∈ w.state.queueMap → Vacates w g n order
  | .addUnit _ g qu => qu.key ∉ w.state.queueUnitFindNoQueue.map w.state.infos.key ∧
      qu.key ∉ w.state.queueUnitToQueue ∧
      ∀ n ∈ g.target qu, n ∈ w.state.queueMap → isQueueUnitDequeued qu = false
  | .updateUnit _ g oldQu newQu => newQu.key ∉ w.state.queueUnitFindNoQueue.map w.state.infos.key ∧
      ∀ n ∈ g.target newQu, n ∈ w.state.queueMap → w.state.getQueueForQueueUnit oldQu ≠ n →
        isQueueUnitDequeued newQu = false
  | .flush _ g => Welcomed w.state g none w.state.queueUnitFindNoQueue
  | .fixQueues _ g orders => Fixable w g orders
  | _ => True

theorem settled_lister (h : Settled s parted) {lister : GoMap String QueueUnit} (hl : Keyed lister) :
    Settled { s with lister := lister } parted where
  wired := h.wired.congr rfl rfl
  keyed := hl
  unnamed := h.unnamed
  indexed := h.indexed
  registered := h.registered

theorem cleared_of_absent (h : Settled s parted) {key : String} (hlisted : key ∉ s.queueUnitFindNoQueue.map s.infos.key)
    (habsent : key ∉ s.queueUnitToQueue) : Cleared key s parted where
  wired := h.wired
  keyed := h.keyed
  unnamed := h.unnamed
  indexed := by
    have hnone : nameOf s key = none := Finmap.lookup_eq_none.mpr habsent
    rw [← hnone, Function.update_eq_self]
    exact h.indexed
  registered := h.registered
  unlisted := hlisted

theorem settled_step {w : Tracked} {a : Action} (h : Consistent w) (hg : Tidy w a) (hstep : step fw w.state a = some t) :
    Settled t (partings w.state t w.parted a) := by
  rw [step] at hstep
  split at hstep
  next htrue =>
    cases a with
    | addQueue now cr =>
      cases hstep
      exact settled_addQueue h.settled htrue
    | updateQueue now old new redistributed listed => exact settled_updateQueue h.settled htrue.1 htrue.2.2 hstep
    | deleteQueue now g n order => exact settled_deleteQueue h htrue hg hstep
    | addUnit now g qu =>
      have hsettled := settled_lister h.settled (keyed_insert h.keyed qu)
      exact settled_addQueueUnit (cleared_of_absent hsettled hg.1 hg.2.1) hg.2.2 hstep
    | updateUnit now g oldQu newQu =>
      have hsettled := settled_lister h.settled (keyed_insert h.keyed newQu)
      exact (settled_updateQueueUnit hsettled (h.keyed _ _ htrue.1) hg.1 hg.2 hstep :)
    | deleteUnit now qu =>
      exact settled_deleteQueueUnit (settled_lister h.settled (keyed_erase h.keyed qu.key)) hstep
    | flush now g => exact settled_flush h.settled hg hstep
    | fixQueues now g orders => exact settled_fixQueues h htrue hg hstep
  next => cases hstep

theorem consistent_track {w v : Tracked} {a : Action} (h : Consistent w) (hg : Tidy w a)
    (hstep : track fw w a = some v) : Consistent v := by
  obtain ⟨t, ht, rfl⟩ := Option.map_eq_some_iff.mp hstep
  exact consistent_of_settled (settled_step h hg ht)

theorem consistent_init : Consistent {} := by
  have hempty : ∀ n, contents {} n = ∅ := fun n => contents_of_none (Finmap.lookup_empty n)
  refine ⟨⟨?_, ?_, ?_⟩, ?_, ?_, ⟨fun n => ⟨?_, ?_⟩, ?_, ?_, ?_, ?_, ?_, ?_, ?_⟩, ?_, ?_⟩ <;>
    simp [hempty, Keyed, nameOf, Finmap.notMem_empty]

/-- Every unit is in one place, and the index names it. -/
theorem one_place {run : List Action} {w : Tracked} (hg : Guarded (track fw) Tidy {} run)
    (hrun : exec (track fw) {} run = some w) : AtMostOnce w.state ∧ Named w := by
  have h : Consistent w := invariant (fun _ _ _ h hok hstep => consistent_track h hok hstep) consistent_init hg hrun
  exact ⟨h.atMostOnce, h.named⟩

section Runs

deriving instance Decidable for Welcomed, Homed, Routed, Fixable

instance (w : Tracked) (g : Mapping) (n : String) (order : List String) : Decidable (Vacates w g n order) :=
  inferInstanceAs (Decidable (_ ∧ _))

instance (w : Tracked) (a : Action) : Decidable (Tidy w a) := by
  delta Tidy
  induction a using Handlers.Action.casesOn <;> infer_instance

theorem one_place_moved : ∃ w, exec (track plainHandle) {} (oneHeld ++ [.deleteQueue 0 (allTo "b") "a" ["ns/u"]]) =
    some w ∧ w.state.queueUnitToQueue.lookup "ns/u" = some "b" ∧ AtMostOnce w.state ∧ Named w := by
  obtain ⟨w, hrun, hw⟩ : ∃ w, exec (track plainHandle) {} (oneHeld ++ [.deleteQueue 0 (allTo "b") "a" ["ns/u"]]) =
      some w ∧ w.state.queueUnitToQueue.lookup "ns/u" = some "b" := by decide +kernel
  exact ⟨w, hrun, hw, one_place (by decide +kernel) hrun⟩

/-- Each event of a unit whose queue does not exist puts one more info on the list. -/
theorem listed_twice : ∃ w, exec (track plainHandle) {} [.addUnit 0 (allTo "a") waiter,
    .updateUnit 0 (allTo "a") waiter { waiter with resourceVersion := "2" }] = some w ∧
      ¬ (AtMostOnce w.state ∧ Named w) := by
  obtain ⟨w, hrun, hw⟩ : ∃ w, exec (track plainHandle) {}
      [.addUnit 0 (allTo "a") waiter, .updateUnit 0 (allTo "a") waiter { waiter with resourceVersion := "2" }] =
      some w ∧ w.state.queueUnitFindNoQueue.map w.state.infos.key = ["ns/u", "ns/u"] := by decide +kernel
  refine ⟨w, hrun, fun h => ?_⟩
  have hlisted := h.1.listed
  rw [hw] at hlisted
  exact (List.nodup_cons.mp hlisted).1 List.mem_cons_self

end Runs

end KoordQueue.Multi.OnePlace
