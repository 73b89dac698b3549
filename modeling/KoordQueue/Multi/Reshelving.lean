import KoordQueue.Multi.Coverage

namespace KoordQueue.Multi.Reshelving

open Api UnitStatus KoordQueue.Queue Memory Frames Filing Object Handlers Places Board
  Coverage

variable {fw : MultiHandle} {now : Time} {g : Mapping} {s t : State}

/-- The mapping answers for the units that exist and wait, and with a queue that stays. -/
def Answered (s : State) (g : Mapping) (gone : Option String) (refs : List Ref) : Prop :=
  ∀ r ∈ refs, ∀ v ∈ s.lister.lookup (s.infos.key r), isQueueUnitDequeued v = false →
    g.fails v = false ∧ gone ≠ some (g.name v)

variable {list refs : List Ref} {hidden : Option String} {r : Ref}

theorem answered_tail {gone : Option String} (h : Answered s g gone (r :: refs))
    (hlister : t.lister = s.lister) (hkeys : ∀ x ∈ refs, t.infos.key x = s.infos.key x) : Answered t g gone refs := by
  intro x hx v hv
  rw [hlister, hkeys x hx] at hv
  exact h x (List.mem_cons_of_mem r hx) v hv

theorem covered_found {v : QueueUnit} (hkeyed : Keyed s.lister)
    (h : Covered s.lister (fun _ => True) s.infos (shelves hidden s) (r :: list))
    (hv : s.lister.lookup (s.infos.key r) = some v) :
    Covered s.lister (fun _ => True) (s.infos.setUnit r v) (shelves hidden s) (r :: list) ∧
      SameKeys s.infos (s.infos.setUnit r v) := by
  have hkey : v.key = s.infos.key r := hkeyed _ _ hv
  exact ⟨covered_refresh h List.mem_cons_self hv hkey,
    sameKeys_revised (revised_setUnit (h.good r List.mem_cons_self) v) hkey⟩

theorem covered_flushes {stay stay' : List Ref} (hw : Wired s) (hkeyed : Keyed s.lister)
    (h : Covered s.lister (fun _ => True) s.infos (shelves hidden s) (r :: (refs ++ stay)))
    (hg : Answered s g hidden (r :: refs)) (hstep : Flushes fw now g r stay s stay' t) :
    Wired t ∧ t.lister = s.lister ∧ SameKeys s.infos t.infos ∧
      Covered s.lister (fun _ => True) t.infos (shelves hidden t) (refs ++ stay') := by
  have halloc := h.good r List.mem_cons_self
  cases hstep with
  | gone absent =>
    refine ⟨hw, rfl, fun x hx => ⟨hx, rfl, rfl⟩, covered_tail h ?_⟩
    intro v hv
    rw [absent] at hv
    cases hv
  | failed v found fails =>
    obtain ⟨hfresh, hkeys⟩ := covered_found hkeyed h found
    refine ⟨hw.congr rfl rfl, rfl, hkeys, covered_tail hfresh ?_⟩
    rw [(hkeys r halloc).2.1, found]
    rintro _ ⟨⟩
    by_contra hwait
    have hok := (hg r List.mem_cons_self v found (Bool.eq_false_of_not_eq_true hwait)).1
    rw [fails] at hok
    cases hok
  | listed v found answers homeless =>
    obtain ⟨hfresh, hkeys⟩ := covered_found hkeyed h found
    refine ⟨hw.congr rfl rfl, rfl, hkeys, covered_perm hfresh ?_⟩
    rw [← List.append_assoc]
    exact List.perm_append_singleton r (refs ++ stay)
  | placed v found answers o named registered u result call =>
    obtain ⟨hfresh, hkeys⟩ := covered_found hkeyed h found
    have hindexed : Wired (State.setQueueForQueueUnit v (g.name v) { s with infos := s.infos.setUnit r v }) :=
      hw.congr rfl rfl
    obtain ⟨htouched, hext, _⟩ := touched_add hindexed registered (hfresh.good r List.mem_cons_self) call
    refine ⟨htouched.wired, htouched.lister, hkeys.trans (sameKeys_extends hext), ?_⟩
    · by_cases hn : hidden = some (g.name v)
      · subst hn
        rw [shelves_touched_hidden htouched]
        refine covered_extends (covered_tail hfresh ?_) hext
        rw [(hkeys r halloc).2.1, found]
        rintro _ ⟨⟩
        by_contra hwait
        exact (hg r List.mem_cons_self v found (Bool.eq_false_of_not_eq_true hwait)).2 rfl
      · rw [shelves_touched htouched hn]
        have hshelf : contents (State.setQueueForQueueUnit v (g.name v) { s with infos := s.infos.setUnit r v })
            (g.name v) = shelves hidden s (g.name v) := by
          rw [shelves, if_neg hn]
          exact contents_congr rfl rfl _
        rw [hshelf]
        exact covered_extends (covered_place hfresh (g.name v)) hext

theorem covered_flushUnits {hidden : Option String} {refs stay : List Ref} (hw : Wired s) (hkeyed : Keyed s.lister)
    (h : Covered s.lister (fun _ => True) s.infos (shelves hidden s) (refs ++ stay))
    (hg : Answered s g hidden refs) (hrun : s.flushUnits fw now g refs stay = some t) :
    Wired t ∧ t.lister = s.lister ∧
      Covered s.lister (fun _ => True) t.infos (shelves hidden t) t.queueUnitFindNoQueue := by
  induction refs generalizing s stay with
  | nil =>
    cases hrun
    exact ⟨hw.congr rfl rfl, rfl, h⟩
  | cons r refs ih =>
    obtain ⟨stay', u, hround, hrest⟩ := flushUnits_cons hrun
    obtain ⟨hwu, hlister, hkeys, hcovered⟩ := covered_flushes hw hkeyed h hg hround
    have hgu : Answered u g hidden refs := by
      refine answered_tail hg hlister (fun x hx => (hkeys x (h.good x ?_)).2.1)
      exact List.mem_cons_of_mem r (List.mem_append.mpr (Or.inl hx))
    rw [← hlister] at hkeyed hcovered
    obtain ⟨hwt, hlt, hct⟩ := ih hwu hkeyed hcovered hgu hrest
    rw [hlister] at hlt hct
    exact ⟨hwt, hlt, hct⟩

theorem covered_requeue (hw : Wired s)
    (h : Covered s.lister (fun _ => True) s.infos (contents s) (refs ++ s.queueUnitFindNoQueue))
    (hrun : s.requeue fw now g refs = some t) : Wired t ∧ t.lister = s.lister ∧
      Covered s.lister (fun _ => True) t.infos (contents t) t.queueUnitFindNoQueue := by
  induction refs generalizing s with
  | nil =>
    cases hrun
    exact ⟨hw, rfl, h⟩
  | cons r refs ih =>
    obtain ⟨u, hround, hrest⟩ := requeue_cons hrun
    cases hround with
    | listed homeless =>
      refine ih (s := { s with queueUnitFindNoQueue := s.queueUnitFindNoQueue ++ [r] }) (hw.congr rfl rfl)
        (covered_perm h ?_) hrest
      dsimp only
      rw [← List.append_assoc]
      exact List.perm_append_singleton r (refs ++ s.queueUnitFindNoQueue)
    | placed n o target registered u result call =>
      have hindexed : Wired { s with
          queueUnitToQueue := s.queueUnitToQueue.insert (s.infos.get r).name (s.objects.get o).name } :=
        hw.congr rfl rfl
      obtain ⟨htouched, hext, _⟩ := touched_add hindexed registered (h.good r List.mem_cons_self) call
      have hlister : u.lister = s.lister := htouched.lister
      have hcovered : Covered u.lister (fun _ => True) u.infos (contents u) (refs ++ u.queueUnitFindNoQueue) := by
        rw [hlister, htouched.list, contents_touched htouched]
        exact covered_extends (covered_place h n) hext
      obtain ⟨hwt, hlt, hct⟩ := ih htouched.wired hcovered hrest
      rw [hlister] at hlt hct
      exact ⟨hwt, hlt, hct⟩

theorem covered_collect {orders : List (String × List String)} {list' : List Ref} (hw : Wired s)
    (hn : ∀ e ∈ orders, e.2.Nodup) (h : Covered s.lister (fun _ => True) s.infos (contents s) list)
    (hrun : s.collect fw now orders list = (t, list')) :
    Wired t ∧ t.lister = s.lister ∧ t.queueUnitFindNoQueue = s.queueUnitFindNoQueue ∧
      Covered s.lister (fun _ => True) t.infos (contents t) list' := by
  induction orders generalizing s list with
  | nil =>
    cases hrun
    exact ⟨hw, rfl, rfl, h⟩
  | cons e orders ih =>
    obtain ⟨n, order⟩ := e
    have hrest : ∀ e ∈ orders, e.2.Nodup := fun e he => hn e (List.mem_cons_of_mem _ he)
    rw [State.collect] at hrun
    split at hrun
    next => exact ih hw hrest h hrun
    next o ho =>
      obtain ⟨units, htouched, hext, hunits⟩ := @touched_fix s n o fw now order hw ho (h.filed n)
      have hcovered := covered_extends (covered_takeOut h (hn _ List.mem_cons_self) hunits) hext
      rw [← contents_touched htouched, contents_of_lookup ho] at hcovered
      obtain ⟨hwt, hlt, hlist, hct⟩ := ih htouched.wired hrest hcovered hrun
      exact ⟨hwt, hlt, hlist, hct⟩

end KoordQueue.Multi.Reshelving
