import KoordQueue.JobExt.AdmissionController
import Mathlib.Data.List.Perm.Basic

namespace KoordQueue.JobExt.Labelling

open Api AdmissionController
open GoMap (Ranges)

section Chunks

variable {α : Type}

theorem flatten_slices (l : List α) (c n : Nat) :
    ((List.range n).map (fun i => (l.drop (i * c)).take c)).flatten = l.take (n * c) := by
  induction n with
  | zero => simp
  | succ n ih =>
    rw [List.range_succ, List.map_append, List.flatten_append, ih, List.map_singleton, List.flatten_singleton,
      ← List.take_add, Nat.succ_mul]

theorem flatten_chunks (l : List α) : (chunks l).flatten = l := by
  rw [chunks]
  cases hn : parallism l.length with
  | zero =>
    have hlen : l.length = 0 := by
      rw [parallism] at hn
      split at hn <;> omega
    rw [List.length_eq_zero_iff.mp hlen]
    rfl
  | succ n =>
    have hmap : (List.range n).map (fun i =>
          if i = n + 1 - 1 then l.drop (i * (l.length / (n + 1)))
          else (l.drop (i * (l.length / (n + 1)))).take (l.length / (n + 1))) =
        (List.range n).map (fun i => (l.drop (i * (l.length / (n + 1)))).take (l.length / (n + 1))) := by
      apply List.map_congr_left
      intro i hi
      rw [if_neg]
      have := List.mem_range.mp hi
      omega
    rw [List.range_succ, List.map_append, hmap, List.flatten_append, flatten_slices, List.map_singleton,
      List.flatten_singleton, Nat.add_sub_cancel, if_pos rfl, List.take_append_drop]

theorem existsUnique_chunk {parts : List (List α)} (hn : parts.flatten.Nodup) {a : α} (h : a ∈ parts.flatten) :
    ∃! i : Nat, ∃ part, parts[i]? = some part ∧ a ∈ part := by
  obtain ⟨part, hpart, ha⟩ := List.mem_flatten.mp h
  obtain ⟨i, hi⟩ := List.mem_iff_getElem?.mp hpart
  refine ⟨i, ⟨part, hi, ha⟩, ?_⟩
  rintro j ⟨part', hj, ha'⟩
  by_contra hne
  have hdisj := List.pairwise_iff_getElem.mp (List.nodup_flatten.mp hn).2
  obtain ⟨hil, rfl⟩ := List.getElem?_eq_some_iff.mp hi
  obtain ⟨hjl, rfl⟩ := List.getElem?_eq_some_iff.mp hj
  rcases Nat.lt_or_gt_of_ne hne with hlt | hlt
  · exact hdisj j i hjl hil hlt ha' ha
  · exact hdisj i j hil hjl hlt ha ha'

end Chunks

section Selected

variable {admissions : List Admission} {pods : List LabelledPod} {order : List String} {ads : Admission}
  {po : LabelledPod} {psn : String}

theorem mem_admitted : po ∈ admitted pods psn ↔
    po ∈ pods ∧ psn ≠ "" ∧ po.podSet = psn ∧ po.live = true ∧ po.held = false := by
  simp only [admitted, List.mem_filter, Bool.and_eq_true, decide_eq_true_eq, Bool.not_eq_true', and_assoc]

theorem mem_unadmitted : po ∈ unadmitted pods psn ↔
    po ∈ pods ∧ psn ≠ "" ∧ po.podSet = psn ∧ po.live = true ∧ po.held = true := by
  simp only [unadmitted, List.mem_filter, Bool.and_eq_true, decide_eq_true_eq, and_assoc]

theorem mem_eligible : po ∈ eligible pods ads ↔
    po ∈ pods ∧ ads.name ≠ "" ∧ po.podSet = ads.name ∧ po.live = true ∧ po.scheduled = false ∧
      po.held = decide (((admitted pods ads.name).length : Int) < ads.replicas.toInt) := by
  rw [eligible, List.mem_filter, Bool.not_eq_true']
  split
  next h =>
    rw [mem_unadmitted, decide_eq_true h]
    tauto
  next h =>
    rw [mem_admitted, decide_eq_false h]
    tauto

theorem chosen_sublist (pods : List LabelledPod) (ads : Admission) : (chosen pods ads).Sublist pods := by
  have heligible : (eligible pods ads).Sublist pods := by
    rw [eligible]
    split
    next => exact List.filter_sublist.trans List.filter_sublist
    next => exact List.filter_sublist.trans List.filter_sublist
  rw [chosen_eq]
  exact (List.take_sublist _ _).trans heligible

theorem eligible_of_chosen (h : po ∈ chosen pods ads) : po ∈ eligible pods ads := by
  rw [chosen_eq] at h
  exact List.mem_of_mem_take h

theorem lookup_foldl_of_notMem (m : GoMap String (List LabelledPod)) (h : psn ∉ admissions.map Admission.name) :
    (admissions.foldl (addChosen pods) m).lookup psn = m.lookup psn := by
  induction admissions generalizing m with
  | nil => rfl
  | cons ads admissions ih =>
    rw [List.map_cons, List.mem_cons, not_or] at h
    rw [List.foldl_cons, ih _ h.2, addChosen]
    split
    next => rfl
    next => rw [GoMap.lookup_insert_eq, if_neg h.1]

theorem lookup_build (hnames : (admissions.map Admission.name).Nodup) (hads : ads ∈ admissions) :
    (buildXorAdmit admissions pods).lookup ads.name =
      if chosen pods ads = [] then none else some (chosen pods ads) := by
  rw [buildXorAdmit]
  have hnone : (∅ : GoMap String (List LabelledPod)).lookup ads.name = none := Finmap.lookup_empty _
  revert hnone
  generalize (∅ : GoMap String (List LabelledPod)) = m
  intro hnone
  induction admissions generalizing m with
  | nil => cases hads
  | cons first admissions ih =>
    rw [List.map_cons, List.nodup_cons] at hnames
    rw [List.foldl_cons]
    rcases List.mem_cons.mp hads with rfl | hads
    · rw [lookup_foldl_of_notMem _ hnames.1, addChosen]
      split
      next => exact hnone
      next => rw [GoMap.lookup_insert_eq, if_pos rfl, hnone, Option.getD_none, List.nil_append]
    · apply ih hnames.2 hads
      have hne : ads.name ≠ first.name := fun he => hnames.1 (he ▸ List.mem_map_of_mem hads)
      rw [addChosen]
      split
      next => exact hnone
      next => rw [GoMap.lookup_insert_eq, if_neg hne, hnone]

theorem mem_build (hnames : (admissions.map Admission.name).Nodup) :
    psn ∈ buildXorAdmit admissions pods ↔ ∃ ads ∈ admissions, ads.name = psn ∧ chosen pods ads ≠ [] := by
  rw [Finmap.mem_iff]
  constructor
  · rintro ⟨entry, hentry⟩
    by_cases hmem : psn ∈ admissions.map Admission.name
    · obtain ⟨ads, hads, rfl⟩ := List.mem_map.mp hmem
      refine ⟨ads, hads, rfl, fun hnil => ?_⟩
      rw [lookup_build hnames hads, if_pos hnil] at hentry
      cases hentry
    · rw [buildXorAdmit, lookup_foldl_of_notMem _ hmem, Finmap.lookup_empty] at hentry
      cases hentry
  · rintro ⟨ads, hads, rfl, hne⟩
    exact ⟨chosen pods ads, by rw [lookup_build hnames hads, if_neg hne]⟩

theorem entry_build (hnames : (admissions.map Admission.name).Nodup) (hads : ads ∈ admissions) :
    ((buildXorAdmit admissions pods).lookup ads.name).getD [] = chosen pods ads := by
  rw [lookup_build hnames hads]
  split
  next hnil => exact hnil.symm
  next => rfl

theorem entry_of_notMem (h : psn ∉ admissions.map Admission.name) :
    ((buildXorAdmit admissions pods).lookup psn).getD [] = [] := by
  rw [buildXorAdmit, lookup_foldl_of_notMem _ h]
  rfl

theorem mem_entry (hnames : (admissions.map Admission.name).Nodup) :
    po ∈ ((buildXorAdmit admissions pods).lookup psn).getD [] ↔
      ∃ ads ∈ admissions, ads.name = psn ∧ po ∈ chosen pods ads := by
  constructor
  · intro hpo
    by_cases hmem : psn ∈ admissions.map Admission.name
    · obtain ⟨ads, hads, rfl⟩ := List.mem_map.mp hmem
      rw [entry_build hnames hads] at hpo
      exact ⟨ads, hads, rfl, hpo⟩
    · rw [entry_of_notMem hmem] at hpo
      cases hpo
  · rintro ⟨ads, hads, rfl, hpo⟩
    rwa [entry_build hnames hads]

theorem podSet_of_mem_entry (hnames : (admissions.map Admission.name).Nodup)
    (h : po ∈ ((buildXorAdmit admissions pods).lookup psn).getD []) : po.podSet = psn := by
  obtain ⟨ads, _, hname, hpo⟩ := (mem_entry hnames).mp h
  exact (mem_eligible.mp (eligible_of_chosen hpo)).2.2.1.trans hname

theorem nodup_entry (hnames : (admissions.map Admission.name).Nodup) (hpods : pods.Nodup) (psn : String) :
    (((buildXorAdmit admissions pods).lookup psn).getD []).Nodup := by
  by_cases hmem : psn ∈ admissions.map Admission.name
  · obtain ⟨ads, hads, rfl⟩ := List.mem_map.mp hmem
    rw [entry_build hnames hads]
    exact hpods.sublist (chosen_sublist pods ads)
  · rw [entry_of_notMem hmem]
    exact List.nodup_nil

theorem mem_allPods (hnames : (admissions.map Admission.name).Nodup)
    (horder : Ranges order (buildXorAdmit admissions pods)) :
    po ∈ allPods order (buildXorAdmit admissions pods) ↔ ∃ ads ∈ admissions, po ∈ chosen pods ads := by
  rw [allPods, List.mem_flatMap]
  constructor
  · rintro ⟨psn, _, hpo⟩
    obtain ⟨ads, hads, _, hc⟩ := (mem_entry hnames).mp hpo
    exact ⟨ads, hads, hc⟩
  · rintro ⟨ads, hads, hc⟩
    have hmem := (mem_build hnames).mpr ⟨ads, hads, rfl, List.ne_nil_of_mem hc⟩
    exact ⟨ads.name, (horder.mem ads.name).mpr hmem, (mem_entry hnames).mpr ⟨ads, hads, rfl, hc⟩⟩

theorem eligible_of_mem_allPods (hnames : (admissions.map Admission.name).Nodup)
    (horder : Ranges order (buildXorAdmit admissions pods))
    (h : po ∈ allPods order (buildXorAdmit admissions pods)) : ∃ ads ∈ admissions, po ∈ eligible pods ads := by
  obtain ⟨ads, hads, hc⟩ := (mem_allPods hnames horder).mp h
  exact ⟨ads, hads, eligible_of_chosen hc⟩

theorem free_of_mem_allPods (hnames : (admissions.map Admission.name).Nodup)
    (horder : Ranges order (buildXorAdmit admissions pods)) (h : po ∈ allPods order (buildXorAdmit admissions pods)) :
    po ∈ pods ∧ po.live = true ∧ po.scheduled = false := by
  obtain ⟨ads, _, he⟩ := eligible_of_mem_allPods hnames horder h
  obtain ⟨hpo, _, _, hlive, hsched, _⟩ := mem_eligible.mp he
  exact ⟨hpo, hlive, hsched⟩

theorem mem_allPods_iff (hnames : (admissions.map Admission.name).Nodup)
    (horder : Ranges order (buildXorAdmit admissions pods)) (hads : ads ∈ admissions) (hps : po.podSet = ads.name) :
    po ∈ allPods order (buildXorAdmit admissions pods) ↔ po ∈ chosen pods ads := by
  rw [mem_allPods hnames horder]
  constructor
  · rintro ⟨ads', hads', hpo⟩
    have hname := (mem_eligible.mp (eligible_of_chosen hpo)).2.2.1
    have heq : ads' = ads := List.inj_on_of_nodup_map hnames hads' hads (hname.symm.trans hps)
    exact heq ▸ hpo
  · exact fun hpo => ⟨ads, hads, hpo⟩

theorem nodup_allPods (hnames : (admissions.map Admission.name).Nodup) (hpods : pods.Nodup)
    (horder : Ranges order (buildXorAdmit admissions pods)) :
    (allPods order (buildXorAdmit admissions pods)).Nodup := by
  rw [allPods, List.nodup_flatMap]
  refine ⟨fun psn _ => nodup_entry hnames hpods psn, horder.nodup.imp ?_⟩
  intro psn psn' hne po hpo hpo'
  exact hne ((podSet_of_mem_entry hnames hpo).symm.trans (podSet_of_mem_entry hnames hpo'))

def Selects (pods selected : List LabelledPod) (ads : Admission) : Prop :=
  ∀ po ∈ pods, po.podSet = ads.name → (po ∈ selected ↔ po ∈ chosen pods ads)

theorem selects_allPods (hnames : (admissions.map Admission.name).Nodup)
    (horder : Ranges order (buildXorAdmit admissions pods)) (hads : ads ∈ admissions) :
    Selects pods (allPods order (buildXorAdmit admissions pods)) ads :=
  fun _ _ hps => mem_allPods_iff hnames horder hads hps

end Selected

section Patches

variable {pods applied : List LabelledPod} {po : LabelledPod}

def flipped (selected : List LabelledPod) (po : LabelledPod) : LabelledPod :=
  if po ∈ selected then po.flip else po

theorem foldl_patch (store : List LabelledPod) (hn : (applied.map LabelledPod.id).Nodup) :
    applied.foldl patch store =
      store.map (fun stored =>
        match applied.find? (fun po => stored.id = po.id) with
        | none => stored
        | some po => { stored with label := po.flip.label }) := by
  induction applied generalizing store with
  | nil => exact (List.map_id' store).symm
  | cons first applied ih =>
    rw [List.map_cons, List.nodup_cons] at hn
    rw [List.foldl_cons, ih _ hn.2, patch, List.map_map]
    apply List.map_congr_left
    intro stored _
    rw [Function.comp_apply]
    by_cases he : stored.id = first.id
    · have hnone : applied.find? (fun po =>
          ({ stored with label := first.flip.label } : LabelledPod).id = po.id) = none := by
        rw [List.find?_eq_none]
        intro po hpo heq
        have hid : first.id = po.id := he.symm.trans (of_decide_eq_true heq)
        exact hn.1 (hid ▸ List.mem_map_of_mem hpo)
      rw [if_pos he, List.find?_cons_of_pos (by simpa using he), hnone]
    · rw [if_neg he, List.find?_cons_of_neg (by simpa using he)]

theorem foldl_patch_eq (hpods : (pods.map LabelledPod.id).Nodup) (hn : (applied.map LabelledPod.id).Nodup)
    (hsub : applied ⊆ pods) : applied.foldl patch pods = pods.map (flipped applied) := by
  rw [foldl_patch pods hn]
  apply List.map_congr_left
  intro stored hstored
  rw [flipped]
  cases hf : applied.find? (fun po => stored.id = po.id) with
  | none =>
    have hnot : stored ∉ applied := fun hmem => List.find?_eq_none.mp hf stored hmem (decide_eq_true rfl)
    rw [if_neg hnot]
  | some po =>
    have hpo := List.mem_of_find?_eq_some hf
    have hid : stored.id = po.id := by simpa using List.find?_some hf
    have heq : stored = po := List.inj_on_of_nodup_map hpods hstored (hsub hpo) hid
    rw [heq, if_pos hpo]
    rfl

variable {selected : List LabelledPod}

theorem foldl_patch_perm (hpods : (pods.map LabelledPod.id).Nodup)
    (hn : selected.Nodup) (hsub : selected ⊆ pods) (happlied : applied.Perm selected) :
    applied.foldl patch pods = pods.map (flipped selected) := by
  have hsub' : applied ⊆ pods := fun po hpo => hsub (happlied.mem_iff.mp hpo)
  have hids : (applied.map LabelledPod.id).Nodup :=
    (happlied.nodup_iff.mpr hn).map_on (fun _ ha _ hb => List.inj_on_of_nodup_map hpods (hsub' ha) (hsub' hb))
  rw [foldl_patch_eq hpods hids hsub']
  apply List.map_congr_left
  intro po _
  simp only [flipped, happlied.mem_iff]

theorem live_flipped (selected : List LabelledPod) (po : LabelledPod) : (flipped selected po).live = po.live := by
  rw [flipped]
  split <;> rfl

theorem scheduled_flipped (selected : List LabelledPod) (po : LabelledPod) :
    (flipped selected po).scheduled = po.scheduled := by
  rw [flipped]
  split <;> rfl

theorem podSet_flipped (selected : List LabelledPod) (po : LabelledPod) : (flipped selected po).podSet = po.podSet := by
  rw [flipped]
  split <;> rfl

theorem held_flip (h : po.scheduled = false) : po.flip.held = !po.held := by
  have hs : po.flip.scheduled = false := h
  rw [LabelledPod.held, LabelledPod.held, hs, h, LabelledPod.flip]
  by_cases hl : po.label = "false"
  · simp [hl]
  · simp [hl]

theorem held_flipped (h : po ∈ selected → po.scheduled = false) :
    (flipped selected po).held = (po.held ^^ decide (po ∈ selected)) := by
  rw [flipped]
  split
  next hmem => rw [held_flip (h hmem), decide_eq_true hmem, Bool.xor_true]
  next hmem => rw [decide_eq_false hmem, Bool.xor_false]

end Patches

section Round

variable {admissions : List Admission} {pods : List LabelledPod} {order : List String} {ads : Admission}
  {selected : List LabelledPod}

theorem countP_xor {α : Type} (l : List α) (p q : α → Bool) :
    l.countP (fun a => p a ^^ q a) + 2 * l.countP (fun a => p a && q a) = l.countP p + l.countP q := by
  induction l with
  | nil => rfl
  | cons a l ih =>
    rw [List.countP_cons, List.countP_cons, List.countP_cons, List.countP_cons]
    cases p a <;> cases q a <;> simp <;> omega

theorem countP_mem {α : Type} [DecidableEq α] {l s : List α} (hl : l.Nodup) (hs : s.Sublist l) :
    l.countP (fun a => decide (a ∈ s)) = s.length := by
  rw [List.countP_eq_length_filter]
  apply List.Perm.length_eq
  rw [List.perm_ext_iff_of_nodup (hl.filter _) (hl.sublist hs)]
  intro a
  rw [List.mem_filter, decide_eq_true_eq]
  exact ⟨And.right, fun ha => ⟨hs.subset ha, ha⟩⟩

variable {po : LabelledPod}

theorem admitted_flipped (hsel : Selects pods selected ads) (hpo : po ∈ pods) (hps : po.podSet = ads.name) :
    (flipped selected po).held = (po.held ^^ decide (po ∈ chosen pods ads)) := by
  have hiff := hsel po hpo hps
  rw [held_flipped]
  · rw [decide_eq_decide.mpr hiff]
  · intro hmem
    exact (mem_eligible.mp (eligible_of_chosen (hiff.mp hmem))).2.2.2.2.1

theorem length_chosen (pods : List LabelledPod) (ads : Admission) :
    (chosen pods ads).length = min (gap pods ads) (eligible pods ads).length := by
  rw [chosen_eq, List.length_take]

def isAdmitted (psn : String) (po : LabelledPod) : Bool :=
  decide (psn ≠ "" ∧ po.podSet = psn) && po.live && !po.held

theorem length_admitted (pods : List LabelledPod) (psn : String) :
    (admitted pods psn).length = pods.countP (isAdmitted psn) := List.countP_eq_length_filter.symm

theorem isAdmitted_flipped (hsel : Selects pods selected ads) (hpo : po ∈ pods) :
    isAdmitted ads.name (flipped selected po) = (isAdmitted ads.name po ^^ decide (po ∈ chosen pods ads)) := by
  rw [isAdmitted, isAdmitted, podSet_flipped, live_flipped]
  by_cases hps : po.podSet = ads.name
  · rw [admitted_flipped hsel hpo hps]
    by_cases hc : po ∈ chosen pods ads
    · obtain ⟨_, hname, _, hlive, _, _⟩ := mem_eligible.mp (eligible_of_chosen hc)
      simp [hc, hname, hlive, hps]
    · simp [hc]
  · have hc : po ∉ chosen pods ads := fun h => hps (mem_eligible.mp (eligible_of_chosen h)).2.2.1
    simp [hc, hps]

theorem isAdmitted_of_chosen (h : po ∈ chosen pods ads) :
    isAdmitted ads.name po = !decide (((admitted pods ads.name).length : Int) < ads.replicas.toInt) := by
  obtain ⟨_, hname, hps, hlive, _, hheld⟩ := mem_eligible.mp (eligible_of_chosen h)
  rw [isAdmitted, hlive, hheld, decide_eq_true ⟨hname, hps⟩, Bool.true_and, Bool.true_and]

theorem countP_admitted_chosen (hpods : pods.Nodup) :
    pods.countP (fun po => isAdmitted ads.name po && decide (po ∈ chosen pods ads)) =
      if ((admitted pods ads.name).length : Int) < ads.replicas.toInt then 0 else (chosen pods ads).length := by
  rw [← countP_mem hpods (chosen_sublist pods ads)]
  have hchosen : ∀ po, (isAdmitted ads.name po && decide (po ∈ chosen pods ads)) =
      (!decide (((admitted pods ads.name).length : Int) < ads.replicas.toInt) && decide (po ∈ chosen pods ads)) := by
    intro po
    by_cases hc : po ∈ chosen pods ads
    · rw [isAdmitted_of_chosen hc]
    · rw [decide_eq_false hc, Bool.and_false, Bool.and_false]
  simp only [hchosen]
  split
  next h => simp [h]
  next h => simp [h]

theorem length_admitted_after (hpods : pods.Nodup) (hsel : Selects pods selected ads) :
    if ((admitted pods ads.name).length : Int) < ads.replicas.toInt then
      (admitted (pods.map (flipped selected)) ads.name).length =
        (admitted pods ads.name).length + (chosen pods ads).length
    else
      (admitted (pods.map (flipped selected)) ads.name).length + (chosen pods ads).length =
        (admitted pods ads.name).length := by
  have hafter : (admitted (pods.map (flipped selected)) ads.name).length =
      pods.countP (fun po => isAdmitted ads.name po ^^ decide (po ∈ chosen pods ads)) := by
    rw [length_admitted, List.countP_map]
    exact List.countP_congr (fun po hpo => by rw [Function.comp_apply, isAdmitted_flipped hsel hpo])
  have hxor := countP_xor pods (isAdmitted ads.name) (fun po => decide (po ∈ chosen pods ads))
  rw [countP_admitted_chosen hpods, countP_mem hpods (chosen_sublist pods ads), ← hafter,
    ← length_admitted] at hxor
  split
  next h =>
    rw [if_pos h] at hxor
    omega
  next h =>
    rw [if_neg h] at hxor
    omega

/-- A second round would choose no pod: the gap is closed, or every pod that could close it was
flipped in the first. -/
theorem chosen_after (hpods : pods.Nodup) (hsel : Selects pods selected ads) :
    chosen (pods.map (flipped selected)) ads = [] := by
  have hafter := length_admitted_after hpods hsel
  have hlen := length_chosen pods ads
  rw [chosen_eq]
  by_cases hclosed : gap (pods.map (flipped selected)) ads = 0
  · rw [hclosed, List.take_zero]
  · have hall : chosen pods ads = eligible pods ads ∧
        (((admitted (pods.map (flipped selected)) ads.name).length : Int) < ads.replicas.toInt ↔
          ((admitted pods ads.name).length : Int) < ads.replicas.toInt) := by
      rw [gap] at hclosed hlen
      rw [chosen_eq, List.take_eq_self_iff, gap]
      split at hafter <;> omega
    have hnone : eligible (pods.map (flipped selected)) ads = [] := by
      rw [List.eq_nil_iff_forall_not_mem]
      intro po' hpo'
      obtain ⟨hmem, hname, hps, hlive, hsched, hheld⟩ := mem_eligible.mp hpo'
      obtain ⟨po, hpo, rfl⟩ := List.mem_map.mp hmem
      rw [podSet_flipped] at hps
      rw [live_flipped] at hlive
      rw [scheduled_flipped] at hsched
      rw [admitted_flipped hsel hpo hps, decide_eq_decide.mpr hall.2, hall.1] at hheld
      by_cases hc : po ∈ eligible pods ads
      · rw [(mem_eligible.mp hc).2.2.2.2.2, decide_eq_true hc] at hheld
        simp at hheld
      · rw [decide_eq_false hc, Bool.xor_false] at hheld
        exact hc (mem_eligible.mpr ⟨hpo, hname, hps, hlive, hsched, hheld⟩)
    rw [hnone, List.take_nil]

theorem gap_after (hpods : pods.Nodup) (hsel : Selects pods selected ads) :
    gap (pods.map (flipped selected)) ads = gap pods ads - min (gap pods ads) (eligible pods ads).length := by
  have hafter := length_admitted_after hpods hsel
  have hlen := length_chosen pods ads
  rw [← hlen, gap, gap]
  rw [gap] at hlen
  split at hafter <;> omega

theorem foldl_addChosen_of_nil (m : GoMap String (List LabelledPod)) (h : ∀ ads ∈ admissions, chosen pods ads = []) :
    admissions.foldl (addChosen pods) m = m := by
  induction admissions with
  | nil => rfl
  | cons ads admissions ih =>
    rw [List.foldl_cons, addChosen, if_pos (h ads List.mem_cons_self)]
    exact ih (fun ads' hads' => h ads' (List.mem_cons_of_mem ads hads'))

structure Converges (admissions : List Admission) (pods selected after : List LabelledPod)
    (workers : List (List LabelledPod)) : Prop where
  -- the labels of the selected pods are flipped, and nothing else
  flips : after = pods.map (fun po => if po ∈ selected then po.flip else po)
  -- as many as close the gap, or all that can
  exact : ∀ ads ∈ admissions, (selected.filter (fun po => decide (po.podSet = ads.name))).length =
    min (gap pods ads) (eligible pods ads).length
  closes : ∀ po ∈ selected, ∃ ads ∈ admissions, po ∈ eligible pods ads
  narrows : ∀ ads ∈ admissions, gap after ads = gap pods ads - min (gap pods ads) (eligible pods ads).length
  untouched : ∀ po ∈ selected, po ∈ pods ∧ po.live = true ∧ po.scheduled = false
  assigned : ∀ po ∈ selected, ∃! i : Nat, ∃ chunk, workers[i]? = some chunk ∧ po ∈ chunk
  settled : buildXorAdmit admissions after = ∅

theorem length_selected (hpods : pods.Nodup) (hsel : Selects pods selected ads) (hn : selected.Nodup)
    (hsub : selected ⊆ pods) :
    (selected.filter (fun po => decide (po.podSet = ads.name))).length =
      min (gap pods ads) (eligible pods ads).length := by
  rw [← length_chosen]
  apply List.Perm.length_eq
  rw [List.perm_ext_iff_of_nodup (hn.filter _) (hpods.sublist (chosen_sublist pods ads))]
  intro po
  rw [List.mem_filter, decide_eq_true_eq]
  constructor
  · rintro ⟨hpo, hps⟩
    exact (hsel po (hsub hpo) hps).mp hpo
  · intro hc
    obtain ⟨hpo, _, hps, _⟩ := mem_eligible.mp (eligible_of_chosen hc)
    exact ⟨(hsel po hpo hps).mpr hc, hps⟩

theorem labels_converge {applied : List LabelledPod} (hnames : (admissions.map Admission.name).Nodup)
    (hpods : (pods.map LabelledPod.id).Nodup) (horder : Ranges order (buildXorAdmit admissions pods))
    (happlied : applied.Perm (reconcile order admissions pods).flatten) :
    Converges admissions pods (allPods order (buildXorAdmit admissions pods)) (applied.foldl patch pods)
      (reconcile order admissions pods) := by
  have hnodup := hpods.of_map
  have hselected := nodup_allPods hnames hnodup horder
  have hsub : allPods order (buildXorAdmit admissions pods) ⊆ pods :=
    fun _ hpo => (free_of_mem_allPods hnames horder hpo).1
  have hworkers : (reconcile order admissions pods).flatten = allPods order (buildXorAdmit admissions pods) :=
    flatten_chunks _
  rw [hworkers] at happlied
  rw [foldl_patch_perm hpods hselected hsub happlied]
  exact
    { flips := rfl
      exact := fun ads hads => length_selected hnodup (selects_allPods hnames horder hads) hselected hsub
      closes := fun po hpo => eligible_of_mem_allPods hnames horder hpo
      narrows := fun ads hads => gap_after hnodup (selects_allPods hnames horder hads)
      untouched := fun po hpo => free_of_mem_allPods hnames horder hpo
      assigned := fun po hpo => existsUnique_chunk (hworkers ▸ hselected) (hworkers ▸ hpo)
      settled := foldl_addChosen_of_nil ∅
        (fun ads hads => chosen_after hnodup (selects_allPods hnames horder hads)) }

def someAdmissions : List Admission := [{ name := "worker", replicas := 2 }, { name := "ps", replicas := 0 }]

def somePods : List LabelledPod :=
  [{ name := "w1", podSet := "worker", label := "false" }, { name := "w2", podSet := "worker", label := "false" },
    { name := "w3", podSet := "worker", nodeName := "node" }, { name := "p1", podSet := "ps", label := "true" }]

theorem somePods_converge :
    Converges someAdmissions somePods (allPods ["ps", "worker"] (buildXorAdmit someAdmissions somePods))
        ((reconcile ["ps", "worker"] someAdmissions somePods).flatten.reverse.foldl patch somePods)
        (reconcile ["ps", "worker"] someAdmissions somePods) ∧
      ((reconcile ["ps", "worker"] someAdmissions somePods).flatten.reverse.foldl patch somePods).map
        LabelledPod.label = ["true", "false", "", "false"] := by
  have hnames : (someAdmissions.map Admission.name).Nodup := by decide
  have horder : Ranges ["ps", "worker"] (buildXorAdmit someAdmissions somePods) := by
    refine ⟨by decide, fun psn => ?_⟩
    have hworker : chosen somePods { name := "worker", replicas := 2 } ≠ [] := by decide
    have hps : chosen somePods { name := "ps", replicas := 0 } ≠ [] := by decide
    rw [mem_build hnames]
    simp only [someAdmissions, List.mem_cons, List.not_mem_nil, or_false, exists_eq_or_imp, exists_eq_left]
    constructor
    · rintro (rfl | rfl)
      · exact Or.inr ⟨rfl, hps⟩
      · exact Or.inl ⟨rfl, hworker⟩
    · rintro (⟨rfl, _⟩ | ⟨rfl, _⟩)
      · exact Or.inr rfl
      · exact Or.inl rfl
  exact ⟨labels_converge hnames (by decide) horder (List.reverse_perm _), by decide +kernel⟩

end Round

end KoordQueue.JobExt.Labelling
