import KoordQueue.Multi.Calls
import KoordQueue.Multi.Handlers

namespace KoordQueue.Multi.Places

open Api UnitStatus UnitInfo KoordQueue.Queue Memory Frames Filing Object Contents Calls Handlers

/-- Every registered queue is an object of its own, with the name it is
registered under. -/
structure Wired (s : State) : Prop where
  allocated : ∀ {n o}, s.queueMap.lookup n = some o → s.objects.Allocated o
  injective : ∀ {n n' o}, s.queueMap.lookup n = some o → s.queueMap.lookup n' = some o → n = n'
  named : ∀ {n o}, s.queueMap.lookup n = some o → (s.objects.get o).name = n

theorem contents_of_lookup {s : State} {n : String} {o : Ref} (h : s.queueMap.lookup n = some o) :
    contents s n = (s.objects.get o).units := by
  rw [contents, h]
  rfl

theorem contents_of_none {s : State} {n : String} (h : s.queueMap.lookup n = none) : contents s n = ∅ := by
  rw [contents, h]
  rfl

theorem contents_congr {s t : State} (hmap : t.queueMap = s.queueMap) (hobjects : t.objects = s.objects) (n : String) :
    contents t n = contents s n := by
  rw [contents, contents, hmap, hobjects]

theorem Wired.congr {s t : State} (h : Wired s) (hmap : t.queueMap = s.queueMap) (hobjects : t.objects = s.objects) :
    Wired t where
  allocated hn := by
    rw [hobjects]
    exact h.allocated (hmap ▸ hn)
  injective hn hn' := h.injective (hmap ▸ hn) (hmap ▸ hn')
  named hn := by
    rw [hobjects]
    exact h.named (hmap ▸ hn)

/-- A call on the registered queue `n` that leaves it with these units. -/
structure Touched (s t : State) (n : String) (units : GoMap String Ref) : Prop where
  queueMap : t.queueMap = s.queueMap
  index : t.queueUnitToQueue = s.queueUnitToQueue
  list : t.queueUnitFindNoQueue = s.queueUnitFindNoQueue
  lister : t.lister = s.lister
  contents : ∀ n', contents t n' = if n' = n then units else Handlers.contents s n'
  wired : Wired t

variable {s t : State} {n : String} {o r : Ref} {q : Queue} {infos : Infos}

theorem touched_set (hw : Wired s) (hn : s.queueMap.lookup n = some o) (hname : q.name = n) :
    Touched s { s with infos, objects := s.objects.set o q } n q.units where
  queueMap := rfl
  index := rfl
  list := rfl
  lister := rfl
  contents n' := by
    cases hn' : s.queueMap.lookup n' with
    | none =>
      have hne : n' ≠ n := by
        rintro rfl
        rw [hn] at hn'
        cases hn'
      rw [if_neg hne, contents_of_none hn']
      exact contents_of_none hn'
    | some o' =>
      have hset : Handlers.contents { s with infos, objects := s.objects.set o q } n' =
          ((s.objects.set o q).get o').units := contents_of_lookup hn'
      rw [hset, Heap.get_set (hw.allocated hn), contents_of_lookup hn']
      by_cases he : n' = n
      · subst he
        rw [hn, Option.some.injEq] at hn'
        rw [if_pos hn'.symm, if_pos rfl]
      · rw [if_neg he, if_neg]
        rintro rfl
        exact he (hw.injective hn' hn)
  wired :=
    { allocated := fun hn' => (Heap.allocated_set _ _ _ _).mpr (hw.allocated hn')
      injective := hw.injective
      named := by
        intro n' o' hn'
        dsimp only at hn' ⊢
        rw [Heap.get_set (hw.allocated hn)]
        split
        next he =>
          subst he
          rw [hname]
          exact hw.injective hn hn'
        next => exact hw.named hn' }

def Keyed (lister : GoMap String QueueUnit) : Prop := ∀ key v, lister.lookup key = some v → v.key = key

variable {lister : GoMap String QueueUnit}

theorem keyed_insert (h : Keyed lister) (qu : QueueUnit) : Keyed (lister.insert qu.key qu) := GoMap.forall_insert h rfl

theorem keyed_erase (h : Keyed lister) (key : String) : Keyed (lister.erase key) :=
  fun key' v hv => h key' v (GoMap.lookup_of_erase hv)

theorem wired_erase (h : Wired s) (n : String) : Wired { s with queueMap := s.queueMap.erase n } where
  allocated hk := h.allocated (GoMap.lookup_of_erase hk)
  injective hk hk' := h.injective (GoMap.lookup_of_erase hk) (GoMap.lookup_of_erase hk')
  named hk := h.named (GoMap.lookup_of_erase hk)

def stays (s : State) (g : Mapping) (old new : QueueUnit) : Option Ref :=
  (g.target new).bind (fun n => if s.getQueueForQueueUnit old = n then s.queueMap.lookup n else none)

theorem allocated_new (m : Infos) (now : Time) (qu : QueueUnit) :
    (m.newQueueUnitInfo now qu).heap.Allocated m.heap.next := (Heap.allocated_alloc _ _ _).mpr (Or.inr rfl)

section Calls

variable {fw : MultiHandle} {now : Time}

theorem touched_add {result : Except String Bool} (hw : Wired s) (hn : s.queueMap.lookup n = some o)
    (hr : s.infos.heap.Allocated r) (h : s.addQueueUnitInfo fw now o r = some (t, result)) :
    Touched s t n (added s.infos r (contents s n)) ∧ Extends s.infos t.infos ∧
      (s.infos.key r ∉ contents s n → ∃ b, result = .ok b) := by
  obtain ⟨⟨infos, q, res⟩, hcall, heq⟩ := Option.map_eq_some_iff.mp h
  cases heq
  obtain ⟨hext, hunits, hname, hok⟩ := queue_add hr hcall
  rw [contents_of_lookup hn, ← hunits]
  exact ⟨touched_set hw hn (hname.trans (hw.named hn)), hext, hok⟩

theorem touched_delete {qu : QueueUnit} (hw : Wired s) (hn : s.queueMap.lookup n = some o)
    (h : s.deleteFrom fw now o qu = some t) :
    Touched s t n ((contents s n).erase qu.key) ∧ Extends s.infos t.infos := by
  obtain ⟨⟨infos, q⟩, hcall, heq⟩ := Option.map_eq_some_iff.mp h
  cases heq
  obtain ⟨hext, hunits, hname⟩ := queue_delete hcall
  rw [contents_of_lookup hn, ← hunits]
  exact ⟨touched_set hw hn (hname.trans (hw.named hn)), hext⟩

theorem touched_deleteIfFound {qu : QueueUnit} (hw : Wired s) (h : s.deleteIfFound fw now n qu = some t) :
    Touched s t n ((contents s n).erase qu.key) ∧ Extends s.infos t.infos := by
  rw [State.deleteIfFound] at h
  split at h
  next hnone =>
    cases h
    refine ⟨⟨rfl, rfl, rfl, rfl, fun n' => ?_, hw⟩, Extends.refl _⟩
    split
    next he =>
      subst he
      rw [contents_of_none hnone]
      apply Finmap.ext_lookup
      intro key
      rw [GoMap.lookup_erase_eq, Finmap.lookup_empty, ite_self]
    next => rfl
  next o hn => exact touched_delete hw hn h

theorem touched_update {old new : QueueUnit} (hw : Wired s) (hn : s.queueMap.lookup n = some o)
    (hf : Filed s.infos (contents s n))
    (h : ((s.objects.get o).update fw.toHandle now s.infos old new).map (fun (infos, q) =>
      { s with infos, objects := s.objects.set o q }) = some t) :
    ∃ units infos, Touched s t n units ∧ Extends s.infos infos ∧
      Updated (skips fw.toHandle old new (s.objects.get o)) new infos t.infos (contents s n) units := by
  obtain ⟨⟨m, q⟩, hcall, heq⟩ := Option.map_eq_some_iff.mp h
  cases heq
  rw [contents_of_lookup hn] at hf ⊢
  obtain ⟨m₁, hext, hupdated, hname⟩ := queue_update hf hcall
  exact ⟨q.units, m₁, touched_set hw hn (hname.trans (hw.named hn)), hext, hupdated⟩

theorem touched_sync {cr : QueueCr} {redistributed listed : List String} (hw : Wired s)
    (hn : s.queueMap.lookup n = some o) (hf : Filed s.infos (contents s n))
    (hlisted : ∀ key ∈ contents s n, key ∈ listed)
    (h : ((s.objects.get o).sync now s.infos fw cr redistributed listed).map (fun q =>
      { s with objects := s.objects.set o q }) = some t) :
    ∃ units, Touched s t n units ∧ t.infos = s.infos ∧ Within units (contents s n) ∧
      ∀ key r, (contents s n).lookup key = some r → isQueueUnitDequeued (s.infos.unit r) = false → key ∈ units := by
  obtain ⟨q, hcall, heq⟩ := Option.map_eq_some_iff.mp h
  cases heq
  rw [contents_of_lookup hn] at hf hlisted ⊢
  obtain ⟨hwithin, hkeep, hname⟩ := queue_sync hf hlisted hcall
  exact ⟨q.units, touched_set hw hn (hname.trans (hw.named hn)), rfl, hwithin, hkeep⟩

theorem touched_fix {order : List String} (hw : Wired s) (hn : s.queueMap.lookup n = some o)
    (hf : Filed s.infos (contents s n)) : ∃ units,
    Touched s { s with
      infos := ((s.objects.get o).fix fw.toHandle now s.infos order).1
      objects := s.objects.set o ((s.objects.get o).fix fw.toHandle now s.infos order).2 } n units ∧
    Extends s.infos ((s.objects.get o).fix fw.toHandle now s.infos order).1 ∧
    ∀ key, units.lookup key = if key ∈ order then none else (contents s n).lookup key := by
  rw [contents_of_lookup hn] at hf ⊢
  obtain ⟨hext, hunits, hname⟩ := @queue_fix fw.toHandle now s.infos (s.objects.get o) order hf
  exact ⟨_, touched_set hw hn (hname.trans (hw.named hn)), hext, hunits⟩

section Registration

variable {name : String}

theorem lookup_registered (hw : Wired s) (h : (s.queueMap.insert name s.objects.next).lookup n = some o) :
    (n = name ∧ o = s.objects.next) ∨ (o ≠ s.objects.next ∧ s.queueMap.lookup n = some o) := by
  rw [GoMap.lookup_insert_eq] at h
  split at h
  next he => exact Or.inl ⟨he, (Option.some.inj h).symm⟩
  next =>
    refine Or.inr ⟨?_, h⟩
    rintro rfl
    exact Nat.lt_irrefl _ (hw.allocated h)

theorem wired_registered (hw : Wired s) (hname : q.name = name)
    (hmap : t.queueMap = s.queueMap.insert name s.objects.next) (hobjects : t.objects = s.objects.alloc q) : Wired t where
  allocated := by
    intro n o hn
    rw [hobjects, Heap.allocated_alloc]
    rcases lookup_registered hw (hmap ▸ hn) with ⟨_, rfl⟩ | ⟨_, hn⟩
    · exact Or.inr rfl
    · exact Or.inl (hw.allocated hn)
  injective := by
    intro n n' o hn hn'
    rcases lookup_registered hw (hmap ▸ hn) with ⟨rfl, rfl⟩ | ⟨hne, hn⟩
    · rcases lookup_registered hw (hmap ▸ hn') with ⟨rfl, _⟩ | ⟨hne, _⟩
      · rfl
      · exact absurd rfl hne
    · rcases lookup_registered hw (hmap ▸ hn') with ⟨_, rfl⟩ | ⟨_, hn'⟩
      · exact absurd rfl hne
      · exact hw.injective hn hn'
  named := by
    intro n o hn
    rw [hobjects]
    rcases lookup_registered hw (hmap ▸ hn) with ⟨rfl, rfl⟩ | ⟨_, hn⟩
    · exact (congrArg Queue.name (Heap.get_alloc_next s.objects q)).trans hname
    · exact (congrArg Queue.name (Heap.get_alloc (hw.allocated hn) q)).trans (hw.named hn)

theorem contents_registered (hw : Wired s) (hnew : name ∉ s.queueMap) (hunits : q.units = ∅)
    (hmap : t.queueMap = s.queueMap.insert name s.objects.next) (hobjects : t.objects = s.objects.alloc q)
    (n : String) : contents t n = contents s n := by
  by_cases he : n = name
  · subst he
    have hlookup : t.queueMap.lookup n = some s.objects.next := by
      rw [hmap]
      exact Finmap.lookup_insert _
    rw [contents_of_none (Finmap.lookup_eq_none.mpr hnew), contents_of_lookup hlookup, hobjects]
    exact (congrArg Queue.units (Heap.get_alloc_next s.objects q)).trans hunits
  · have hlookup : t.queueMap.lookup n = s.queueMap.lookup n := by
      rw [hmap]
      exact Finmap.lookup_insert_of_ne _ he
    cases hn : s.queueMap.lookup n with
    | none => rw [contents_of_none hn, contents_of_none (hlookup.trans hn)]
    | some o =>
      rw [contents_of_lookup hn, contents_of_lookup (hlookup.trans hn), hobjects]
      exact congrArg Queue.units (Heap.get_alloc (hw.allocated hn) q)

end Registration

theorem addQueue_spec (hw : Wired s) (cr : QueueCr) : Wired (s.addQueue fw now cr) ∧
    (∀ n, contents (s.addQueue fw now cr) n = contents s n) ∧
    (s.addQueue fw now cr).infos = s.infos ∧
    (s.addQueue fw now cr).queueUnitToQueue = s.queueUnitToQueue ∧
    (s.addQueue fw now cr).queueUnitFindNoQueue = s.queueUnitFindNoQueue ∧
    (s.addQueue fw now cr).lister = s.lister := by
  rw [State.addQueue]
  split
  next => exact ⟨hw, fun _ => rfl, rfl, rfl, rfl, rfl⟩
  next hcr =>
    split
    next => exact ⟨hw, fun _ => rfl, rfl, rfl, rfl, rfl⟩
    next q hq =>
      obtain ⟨hunits, hname⟩ := newQueue_spec hq
      exact ⟨wired_registered hw hname rfl rfl, contents_registered hw hcr hunits rfl rfl, rfl, rfl, rfl, rfl⟩

end Calls

section Loops

variable {fw : MultiHandle} {now : Time} {g : Mapping}

theorem target_eq_none {v : QueueUnit} : g.target v = none ↔ g.fails v = true := by
  rw [Mapping.target]
  split <;> simp_all

theorem target_eq_some {v : QueueUnit} {n : String} (h : g.target v = some n) : g.fails v = false ∧ g.name v = n := by
  rw [Mapping.target] at h
  split at h
  next => cases h
  next hok => exact ⟨Bool.eq_false_of_not_eq_true hok, Option.some.inj h⟩

theorem found_target {v : QueueUnit} {n : String} {o : Ref}
    (h : (g.target v).bind (fun n => (s.queueMap.lookup n).map (n, ·)) = some (n, o)) :
    g.target v = some n ∧ s.queueMap.lookup n = some o := by
  obtain ⟨n', htarget, hn⟩ := Option.bind_eq_some_iff.mp h
  obtain ⟨o', ho, heq⟩ := Option.map_eq_some_iff.mp hn
  cases heq
  exact ⟨htarget, ho⟩

inductive Flushes (fw : MultiHandle) (now : Time) (g : Mapping) (r : Ref) (stay : List Ref) (s : State) :
    List Ref → State → Prop
  | gone (absent : s.lister.lookup (s.infos.key r) = none) : Flushes fw now g r stay s stay s
  | failed (v : QueueUnit) (found : s.lister.lookup (s.infos.key r) = some v) (fails : g.fails v = true) :
      Flushes fw now g r stay s stay { s with infos := s.infos.setUnit r v }
  | listed (v : QueueUnit) (found : s.lister.lookup (s.infos.key r) = some v) (answers : g.fails v = false)
      (homeless : g.name v = "" ∨ s.queueMap.lookup (g.name v) = none) :
      Flushes fw now g r stay s (stay ++ [r]) { s with infos := s.infos.setUnit r v }
  | placed (v : QueueUnit) (found : s.lister.lookup (s.infos.key r) = some v) (answers : g.fails v = false)
      (o : Ref) (named : g.name v ≠ "") (registered : s.queueMap.lookup (g.name v) = some o) (u : State)
      (result : Except String Bool)
      (call : ({ s with infos := s.infos.setUnit r v }.setQueueForQueueUnit v (g.name v)).addQueueUnitInfo fw now o r =
        some (u, result)) : Flushes fw now g r stay s stay u

theorem flushUnits_cons {refs stay : List Ref} (h : s.flushUnits fw now g (r :: refs) stay = some t) :
    ∃ stay' u, Flushes fw now g r stay s stay' u ∧ u.flushUnits fw now g refs stay' = some t := by
  rw [State.flushUnits] at h
  split at h
  next habsent => exact ⟨_, _, .gone habsent, h⟩
  next v hv =>
    dsimp only at h
    split at h
    next hfails => exact ⟨_, _, .failed v hv (target_eq_none.mp hfails), h⟩
    next qname htarget =>
      obtain ⟨hok, rfl⟩ := target_eq_some htarget
      split at h
      next hempty => exact ⟨_, _, .listed v hv hok (Or.inl hempty), h⟩
      next hnamed =>
        split at h
        next hnone => exact ⟨_, _, .listed v hv hok (Or.inr hnone), h⟩
        next o ho =>
          obtain ⟨⟨u, result⟩, hadd, hrest⟩ := Option.bind_eq_some_iff.mp h
          exact ⟨_, u, .placed v hv hok o hnamed ho u result hadd, hrest⟩

inductive Requeues (fw : MultiHandle) (now : Time) (g : Mapping) (r : Ref) (s : State) : State → Prop
  | listed (homeless : ∀ n, g.target (s.infos.unit r) = some n → s.queueMap.lookup n = none) :
      Requeues fw now g r s { s with queueUnitFindNoQueue := s.queueUnitFindNoQueue ++ [r] }
  | placed (n : String) (o : Ref) (target : g.target (s.infos.unit r) = some n)
      (registered : s.queueMap.lookup n = some o) (u : State) (result : Except String Bool)
      (call : { s with queueUnitToQueue := s.queueUnitToQueue.insert (s.infos.get r).name (s.objects.get o).name
        }.addQueueUnitInfo fw now o r = some (u, result)) : Requeues fw now g r s u

theorem requeue_cons {refs : List Ref} (h : s.requeue fw now g (r :: refs) = some t) :
    ∃ u, Requeues fw now g r s u ∧ u.requeue fw now g refs = some t := by
  rw [State.requeue] at h
  split at h
  next hnone =>
    refine ⟨_, .listed (fun n hn => ?_), h⟩
    rwa [hn, Option.bind_some] at hnone
  next o ho =>
    obtain ⟨n, htarget, hn⟩ := Option.bind_eq_some_iff.mp ho
    obtain ⟨⟨u, result⟩, hadd, hrest⟩ := Option.bind_eq_some_iff.mp h
    exact ⟨u, .placed n o htarget hn u result hadd, hrest⟩

end Loops

end KoordQueue.Multi.Places
