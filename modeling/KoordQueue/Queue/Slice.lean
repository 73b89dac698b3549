import KoordQueue.Queue.Representation

namespace KoordQueue.Queue.Slice

open Api UnitInfo SortedSlice Memory Less Policy Update Frames Filing Queue.Representation

def rankOf (m : Infos) (r : Ref) : Rank := rank (m.get r)

/-- The slice and the map hold the same infos, each under the key of its unit. -/
structure Listed (obj : Objects) (s : State) : Prop where
  built : Built obj s.infos
  filed : Filed s
  nodup : s.pq.queue.Nodup
  listed : ∀ {r}, r ∈ s.pq.queue ↔ s.pq.queueUnits.lookup (s.infos.key r) = some r

structure Represented (obj : Objects) (s : State) : Prop extends Listed obj s where
  sorted : Sorted (rankOf s.infos) s.pq.queue

variable {obj : Objects} {s : State} {m : Infos} {q : PriorityQueue}

theorem rank_congr {a b : QueueUnitInfo} (h : SameInfo a b) : rank a = rank b := by
  rw [rank, rank, h.1, h.2.1, h.2.2]

theorem Listed.eq_of_key (h : Listed obj s) {r x : Ref} (hr : r ∈ s.pq.queue) (hx : x ∈ s.pq.queue)
    (hkey : s.infos.key r = s.infos.key x) : r = x := by
  have hlr := h.listed.mp hr
  rw [hkey, h.listed.mp hx] at hlr
  exact (Option.some.inj hlr).symm

theorem Listed.key_of_rank (h : Listed obj s) {r : Ref} (hr : r ∈ s.pq.queue) {info : QueueUnitInfo}
    (hrank : rankOf s.infos r = rank info) : s.infos.key r = info.name :=
  (h.built.name (h.filed.slice r hr)).symm.trans ((rank_eq_iff _ _).mp hrank).2.2

theorem Listed.rank_inj (h : Listed obj s) {r x : Ref} (hr : r ∈ s.pq.queue) (hx : x ∈ s.pq.queue)
    (hrank : rankOf s.infos r = rankOf s.infos x) : r = x :=
  h.eq_of_key hr hx ((h.key_of_rank hr hrank).trans (h.built.name (h.filed.slice x hx)))

theorem aligned {queue : List Ref} {target : QueueUnitInfo}
    (h : ∀ r ∈ queue, (m.unit r).uid = target.unit.uid → rankOf m r = rank target) :
    Aligned (rankOf m) (fun r t => less (m.get r) t) target (rank target) queue := by
  intro r hr
  by_cases hu : (m.unit r).uid = target.unit.uid
  · have hrank := h r hr hu
    rw [hrank]
    exact ⟨iff_of_false (less_of_eq hu).not_lt (lt_irrefl _), iff_of_true (less_of_eq hu) rfl⟩
  · exact less_of_ne hu

theorem Listed.extend (h : Listed obj s) (hm : Extends s.infos m) (hb : Built obj m) : Listed obj ⟨m, s.pq⟩ where
  built := hb
  filed := h.filed.same hm rfl rfl
  nodup := h.nodup
  listed {r} := by
    constructor
    · intro hr
      rw [Infos.key, hm.unit (h.filed.slice r hr)]
      exact h.listed.mp hr
    · intro hk
      have hown := h.filed.own hk
      exact h.listed.mpr (hown ▸ hk)

theorem rankOf_extend (h : Filed s) (hm : Extends s.infos m) {r : Ref} (hr : r ∈ s.pq.queue) :
    rankOf m r = rankOf s.infos r := rank_congr (hm r (h.slice r hr)).2

theorem Represented.extend (h : Represented obj s) (hm : Extends s.infos m) (hb : Built obj m) :
    Represented obj ⟨m, s.pq⟩ where
  toListed := h.toListed.extend hm hb
  sorted := by
    apply h.sorted.imp_of_mem
    intro a b ha hb' hlt
    rwa [rankOf_extend h.filed hm ha, rankOf_extend h.filed hm hb']

theorem Represented.same (h : Represented obj s) (hqueue : q.queue = s.pq.queue)
    (hunits : q.queueUnits = s.pq.queueUnits) : Represented obj ⟨s.infos, q⟩ where
  built := h.built
  filed := h.filed.same (Extends.refl s.infos) hqueue hunits
  nodup := hqueue ▸ h.nodup
  listed := by
    rw [hqueue, hunits]
    exact h.listed
  sorted := hqueue ▸ h.sorted

theorem removeFound_eq (h : Represented obj s) {target : QueueUnitInfo} {key : String}
    (hkey : obj.key target.unit.uid = key) (hname : target.name = key)
    (hrank : ∀ r, s.pq.queueUnits.lookup key = some r → rankOf s.infos r = rank target) :
    removeFound s.infos s.pq.queue target = s.pq.queue.filter (fun r => s.infos.key r ≠ key) := by
  have haligned : Aligned (rankOf s.infos) (fun r t => less (s.infos.get r) t) target (rank target) s.pq.queue := by
    apply aligned
    intro r hr huid
    apply hrank
    rw [← hkey, ← huid, ← h.built.key (h.filed.slice r hr)]
    exact h.listed.mp hr
  cases hl : s.pq.queueUnits.lookup key with
  | none =>
    have habsent : ∀ r ∈ s.pq.queue, s.infos.key r ≠ key := by
      intro r hr he
      have hlr := h.listed.mp hr
      rw [he, hl] at hlr
      cases hlr
    have hpos := not_found h.sorted haligned (fun r hr he => habsent r hr ((h.key_of_rank hr he).trans hname))
    rw [removeFound, position, hpos]
    symm
    apply List.filter_eq_self.mpr
    exact fun r hr => decide_eq_true (habsent r hr)
  | some x =>
    have hown := h.filed.own hl
    have hmem : x ∈ s.pq.queue := h.listed.mpr (hown ▸ hl)
    rw [← hrank x hl] at haligned
    rw [removeFound, position, found h.sorted haligned hmem]
    dsimp only
    rw [eraseIdx_below h.sorted hmem]
    apply List.filter_congr
    intro r hr
    rw [decide_eq_decide, not_iff_not]
    constructor
    · intro he
      rw [h.rank_inj hr hmem he, hown]
    · intro he
      rw [h.eq_of_key hr hmem (he.trans hown.symm)]

theorem represented_drop (h : Represented obj s) {key : String}
    (hqueue : q.queue = s.pq.queue.filter (fun r => s.infos.key r ≠ key))
    (hunits : q.queueUnits = s.pq.queueUnits.erase key) : Represented obj ⟨s.infos, q⟩ where
  built := h.built
  filed := by
    apply h.filed.shrink (Extends.refl s.infos)
    · intro r hr
      rw [hqueue] at hr
      exact List.mem_of_mem_filter hr
    · intro k r hk
      rw [hunits] at hk
      exact GoMap.lookup_of_erase hk
  nodup := by
    rw [hqueue]
    exact h.nodup.filter _
  listed {r} := by
    rw [hqueue, hunits, List.mem_filter, GoMap.lookup_erase_eq, decide_eq_true_eq, h.listed]
    by_cases hk : s.infos.key r = key
    · simp [hk]
    · simp [hk]
  sorted := by
    rw [hqueue]
    exact h.sorted.filter _

theorem position_of_absent (h : Represented obj s) {info : QueueUnitInfo}
    (hkey : obj.key info.unit.uid = info.name) (habsent : s.pq.queueUnits.lookup info.name = none) :
    position s.infos s.pq.queue info = ((below (rankOf s.infos) (rank info) s.pq.queue).length, false) := by
  have hne : ∀ r ∈ s.pq.queue, s.infos.key r ≠ info.name := by
    intro r hr he
    have hlr := h.listed.mp hr
    rw [he, habsent] at hlr
    cases hlr
  apply not_found h.sorted
  · apply aligned
    intro r hr huid
    exact absurd ((h.built.key (h.filed.slice r hr)).trans (by rw [huid, hkey])) (hne r hr)
  · exact fun r hr he => hne r hr (h.key_of_rank hr he)

theorem insertIdx_position (h : Represented obj s) {r : Ref} (hr : s.infos.heap.Allocated r)
    (habsent : s.pq.queueUnits.lookup (s.infos.key r) = none) :
    s.pq.queue.insertIdx (position s.infos s.pq.queue (s.infos.get r)).1 r =
      below (rankOf s.infos) (rankOf s.infos r) s.pq.queue ++
        r :: above (rankOf s.infos) (rankOf s.infos r) s.pq.queue := by
  have hname := h.built.name hr
  rw [position_of_absent h (by rw [hname]; exact (h.built.key hr).symm) (by rw [hname]; exact habsent)]
  exact insertIdx_below h.sorted _ r

theorem represented_file (h : Represented obj s) {r : Ref} (hr : s.infos.heap.Allocated r)
    (habsent : s.pq.queueUnits.lookup (s.infos.key r) = none)
    (hqueue : q.queue = s.pq.queue.insertIdx (position s.infos s.pq.queue (s.infos.get r)).1 r)
    (hunits : q.queueUnits = s.pq.queueUnits.insert (s.infos.key r) r) : Represented obj ⟨s.infos, q⟩ := by
  have hname := h.built.name hr
  have hsplit := hqueue.trans (insertIdx_position h hr habsent)
  have hmem : ∀ x, x ∈ q.queue ↔ x = r ∨ x ∈ s.pq.queue := by
    intro x
    rw [hsplit]
    exact mem_insert h.sorted
  have hne : ∀ x ∈ s.pq.queue, rankOf s.infos x ≠ rankOf s.infos r := by
    intro x hx he
    have hlx := h.listed.mp hx
    rw [(h.key_of_rank hx he).trans hname, habsent] at hlx
    cases hlx
  have hsorted : Sorted (rankOf s.infos) q.queue := by
    rw [hsplit]
    exact sorted_insert h.sorted hne
  refine ⟨⟨h.built, ?_, ?_, ?_⟩, hsorted⟩
  · exact h.filed.file (Extends.refl s.infos) hr rfl (fun x hx => (hmem x).mp hx) hunits
  · exact hsorted.imp (fun hlt he => hlt.ne (by rw [he]))
  · intro x
    change x ∈ q.queue ↔ q.queueUnits.lookup (s.infos.key x) = some x
    rw [hmem, hunits, GoMap.lookup_insert_eq, h.listed]
    by_cases hx : s.infos.key x = s.infos.key r
    · rw [if_pos hx, hx, habsent, Option.some.injEq]
      exact ⟨fun hor => (hor.resolve_right (by simp)).symm, fun he => Or.inl he.symm⟩
    · rw [if_neg hx]
      exact ⟨fun hor => hor.resolve_left (fun he => hx (by rw [he])), Or.inr⟩

theorem represented_sort (h : Listed obj s) (hqueue : q.queue = sortQueue s.infos s.pq.queue)
    (hunits : q.queueUnits = s.pq.queueUnits) : Represented obj ⟨s.infos, q⟩ := by
  have hmem : ∀ r, r ∈ q.queue ↔ r ∈ s.pq.queue := by
    intro r
    rw [hqueue]
    exact mem_sortQueue s.infos s.pq.queue r
  have hsorted : Sorted (rankOf s.infos) q.queue := by
    rw [hqueue]
    apply sorted_mergeSort
    · intro a ha b hb
      rw [decide_eq_decide]
      by_cases hu : (s.infos.unit a).uid = (s.infos.unit b).uid
      · have hab : a = b := by
          apply h.eq_of_key ha hb
          rw [h.built.key (h.filed.slice a ha), h.built.key (h.filed.slice b hb), hu]
        rw [hab]
        exact iff_of_true (less_of_eq rfl).le le_rfl
      · obtain ⟨hlt, heq⟩ := less_of_ne hu
        rw [le_iff_lt_or_eq, le_iff_lt_or_eq]
        exact or_congr hlt heq
    · exact fun a ha b hb he => h.rank_inj ha hb he
    · exact h.nodup
  refine ⟨⟨h.built, ?_, ?_, ?_⟩, hsorted⟩
  · exact h.filed.shrink (Extends.refl s.infos) (fun r hr => (hmem r).mp hr) (fun _ _ hk => hunits ▸ hk)
  · exact hsorted.imp (fun hlt he => hlt.ne (by rw [he]))
  · intro r
    change r ∈ q.queue ↔ q.queueUnits.lookup (s.infos.key r) = some r
    rw [hmem, hunits]
    exact h.listed

theorem Listed.setUnit (h : Listed obj s) {r : Ref} (hr : s.infos.heap.Allocated r) {qu : QueueUnit}
    (hqu : obj.Has qu) (huid : qu.uid = (s.infos.unit r).uid) : Listed obj ⟨s.infos.setUnit r qu, s.pq⟩ := by
  have hkey : qu.key = s.infos.key r := by rw [hqu.1, huid, ← h.built.key hr]
  have hkeys : ∀ x, (s.infos.setUnit r qu).key x = s.infos.key x := by
    intro x
    rw [Infos.key, Infos.unit_setUnit hr]
    split
    next he => rw [he, hkey]
    next => rfl
  refine ⟨?_, ?_, h.nodup, ?_⟩
  · exact built_set h.built hr hqu huid rfl rfl
  · exact h.filed.setUnit hr hkey
  · intro x
    change x ∈ s.pq.queue ↔ s.pq.queueUnits.lookup ((s.infos.setUnit r qu).key x) = some x
    rw [hkeys]
    exact h.listed

theorem Represented.setUnit (h : Represented obj s) {r : Ref} (hr : s.infos.heap.Allocated r) {qu : QueueUnit}
    (hqu : obj.Has qu) (huid : qu.uid = (s.infos.unit r).uid)
    (hprio : r ∈ s.pq.queue → priorityOf qu = priorityOf (s.infos.unit r)) :
    Represented obj ⟨s.infos.setUnit r qu, s.pq⟩ where
  toListed := h.toListed.setUnit hr hqu huid
  sorted := by
    have hrank : ∀ x ∈ s.pq.queue, rankOf (s.infos.setUnit r qu) x = rankOf s.infos x := by
      intro x hx
      rw [rankOf, Infos.setUnit, Infos.get_set hr]
      split
      next he =>
        subst he
        rw [rankOf, rank, rank, hprio hx]
        rfl
      next => rfl
    apply h.sorted.imp_of_mem
    intro a b ha hb hlt
    rwa [hrank a ha, hrank b hb]

end KoordQueue.Queue.Slice
