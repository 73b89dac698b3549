import KoordQueue.JobExt.Due
import KoordQueue.Lib.Run

namespace KoordQueue.JobExt.Losses

open Api Pods Pass Machine Reporter Due

structure Loss where
  podSet : String
  name : String
  replacement : Option String := none
deriving DecidableEq

/-- A unit with its pods and what the reporter remembers of them. The last three
are the books: the losses since the last round, the losses that had no live
replacement in the round that followed them, and what the rounds subtracted. -/
structure World where
  qu : QueueUnit
  pods : List Pod
  observedPods : GoMap String (Finset String) := ∅
  losses : List Loss := []
  unreplaced : Nat := 0
  subtracted : Int := 0

inductive Action
  | create (pod : Pod) (replaces : Option String)
  | delete (name : String)
  | finish (name : String) (succeeded : Bool)
  | write (phase : QueueUnitPhase) (admissions : List Admission)
  | restart
  | reconcile (accepted : Bool)

def Loss.replaced (l : Loss) (pods : List Pod) : Bool := l.replacement.any (fun c => decide (c ∈ liveNames pods))

def fill (pod : Pod) (replaces : Option String) (l : Loss) : Loss :=
  if l.podSet = pod.podSet ∧ replaces = some l.name then { l with replacement := some pod.name } else l

def finished (succeeded : Bool) (pod : Pod) : Pod :=
  { pod with phase := if succeeded then .succeeded else .failed }

def lose (name : String) (pods : List Pod) : List Loss :=
  (pods.filter (fun po => po.name = name && po.live)).map (fun po => ⟨po.podSet, name, none⟩)

def released (before after : List Admission) : Int :=
  (List.zipWith (fun ad ad' => ad.replicas.toInt - ad'.replicas.toInt) before after).sum

def deletion (s : World) : Visit (GoMap String (Finset String)) (List Admission) :=
  reconcilePodDeletion s.observedPods s.qu (podsByPs s.pods)

def setAdmissions (qu : QueueUnit) (phase : QueueUnitPhase) (admissions : List Admission) : QueueUnit :=
  { qu with status := { qu.status with phase, admissions } }

/-- Pods come and go, the status is written by others, the controller is
restarted, and rounds happen. What a round remembers stays when its write is refused. -/
def step (s : World) : Action → Option World
  | .create pod replaces =>
    if pod.live && !s.pods.any (fun po => po.name = pod.name) then
      some { s with pods := pod :: s.pods, losses := s.losses.map (fill pod replaces) }
    else none
  | .delete name =>
    if s.pods.any (fun po => po.name = name) then
      some { s with pods := s.pods.filter (fun po => po.name ≠ name), losses := lose name s.pods ++ s.losses }
    else none
  | .finish name succeeded =>
    if s.pods.any (fun po => po.name = name && po.live) then
      some { s with
        pods := s.pods.map (fun po => if po.name = name then finished succeeded po else po)
        losses := lose name s.pods ++ s.losses }
    else none
  | .write phase admissions => some { s with qu := setAdmissions s.qu phase admissions }
  | .restart => some { s with observedPods := ∅ }
  | .reconcile accepted => some { s with
      qu := if accepted then setAdmissions s.qu s.qu.status.phase (deletion s).item else s.qu
      observedPods := (deletion s).memory
      losses := []
      unreplaced := s.unreplaced + (s.losses.filter (fun l => !l.replaced s.pods)).length
      subtracted := s.subtracted + if accepted then released s.qu.status.admissions (deletion s).item else 0 }

def goneNames (s : World) (name : String) : Finset String := gone s.qu (podsByPs s.pods) s.observedPods name

def liveCount (s : World) (name : String) : Nat := ((podsByPs s.pods name).filter Pod.live).length

/-- A round leaves every admission as many replicas as it has live pods, or all
it had. -/
def Spared (s : World) : Prop :=
  List.Forall₂ (fun ad ad' => min ad.replicas.toInt (liveCount s ad.name : Int) ≤ ad'.replicas.toInt)
    s.qu.status.admissions (deletion s).item
deriving Decidable

/-- The replicas cover the live pods and the recorded ones that are gone. -/
def Covers (s : World) (ad : Admission) : Prop :=
  goneNames s ad.name = ∅ ∨ liveCount s ad.name = 0 ∨ ad.replicas.toInt ≤ 0 ∨
    ((goneNames s ad.name).card + liveCount s ad.name : Int) ≤ ad.replicas.toInt
deriving Decidable

/-- No recorded pod was replaced before the round that finds it gone. -/
def Noticed (s : World) : Action → Prop
  | .reconcile _ =>
    (s.qu.status.phase = .dequeued → ∀ ad ∈ s.qu.status.admissions, ad.reclaimState = none → Covers s ad) ∧
      ∀ l ∈ s.losses, l.replaced s.pods = true → l.name ∉ goneNames s l.podSet
  | _ => True

section Visits

variable (qu : QueueUnit) (byPs : String → List Pod)

theorem toInt_reduceBy (gone : Nat) (replicas : Int64) :
    (reduceBy gone replicas).toInt = min (gone : Int) replicas.toInt := by
  have hlt := Int64.toInt_lt replicas
  rw [reduceBy]
  split
  next h =>
    rw [gt_iff_toInt, toInt_len64] at h
    omega
  next h =>
    rw [gt_iff_toInt, toInt_len64] at h
    rw [toInt_len64]
    omega

/-- A visit takes one replica for each recorded pod that is gone, as far as
there are replicas. -/
theorem toInt_confirmDeletions (m : GoMap String (Finset String)) (ad : Admission) :
    (confirmDeletions qu byPs m ad).item.replicas.toInt =
      if ad.reclaimState = none ∧ (gone qu byPs m ad.name).card ≠ 0 then
        ad.replicas.toInt - min ((gone qu byPs m ad.name).card : Int) ad.replicas.toInt
      else ad.replicas.toInt := by
  have hgone : (observed qu m ad.name ∪ liveNames (byPs ad.name)) \ liveNames (byPs ad.name) =
      gone qu byPs m ad.name := Finset.union_sdiff_right _ _
  simp only [confirmDeletions, hgone]
  by_cases hnone : ad.reclaimState = none
  · rw [if_neg (not_not.mpr hnone)]
    by_cases hg : (gone qu byPs m ad.name).card = 0
    · rw [if_pos hg, if_neg (fun h => h.2 hg)]
    · have hl := Int64.le_toInt ad.replicas
      have hu := Int64.toInt_lt ad.replicas
      have hby := toInt_reduceBy (gone qu byPs m ad.name).card ad.replicas
      rw [if_neg hg, if_pos ⟨hnone, hg⟩]
      simp only
      rw [toInt_sub_of_fits (by omega) (by omega), hby]
  · rw [if_pos hnone, if_neg (fun h => hnone h.1)]

def Within (m : GoMap String (Finset String)) (F : Finset (String × String)) : Prop :=
  ∀ p n, n ∈ gone qu byPs m p → (p, n) ∈ F

variable {F : Finset (String × String)} {m : GoMap String (Finset String)}

theorem within_confirmDeletions (h : Within qu byPs m F) (ad : Admission) :
    ∃ F' ⊆ F, Within qu byPs (confirmDeletions qu byPs m ad).memory F' ∧
      ad.replicas.toInt - (confirmDeletions qu byPs m ad).item.replicas.toInt + F'.card ≤ F.card := by
  rw [toInt_confirmDeletions]
  by_cases hgone : ad.reclaimState = none ∧ (gone qu byPs m ad.name).card ≠ 0
  · let taken := (gone qu byPs m ad.name).map ⟨fun n => (ad.name, n), Prod.mk_right_injective ad.name⟩
    have hsub : taken ⊆ F := by
      intro e he
      obtain ⟨n, hn, rfl⟩ := Finset.mem_map.mp he
      exact h ad.name n hn
    refine ⟨F \ taken, Finset.sdiff_subset, ?_, ?_⟩
    · intro p n hn
      rw [gone_confirmDeletions] at hn
      split at hn
      next => cases hn
      next hne =>
        refine Finset.mem_sdiff.mpr ⟨h p n hn, ?_⟩
        intro he
        obtain ⟨n', _, heq⟩ := Finset.mem_map.mp he
        exact hne ⟨congrArg Prod.fst heq, hgone.1⟩
    · have hcard : (F \ taken).card + (gone qu byPs m ad.name).card = F.card := by
        rw [← Finset.card_sdiff_add_card_eq_card hsub, Finset.card_map]
      rw [if_pos hgone]
      omega
  · refine ⟨F, subset_rfl, ?_, by rw [if_neg hgone]; omega⟩
    intro p n hn
    rw [gone_confirmDeletions] at hn
    split at hn
    next => cases hn
    next => exact h p n hn

theorem within_walk (h : Within qu byPs m F) (ads : List Admission) :
    ∃ F' ⊆ F, Within qu byPs (walk (confirmDeletions qu byPs) m ads).memory F' ∧
      released ads (walk (confirmDeletions qu byPs) m ads).item + F'.card ≤ F.card := by
  induction ads generalizing m F with
  | nil => exact ⟨F, subset_rfl, h, by simp [released, walk]⟩
  | cons ad ads ih =>
    obtain ⟨F₁, hsub, h₁, hle⟩ := within_confirmDeletions qu byPs h ad
    obtain ⟨F', hsub', h', hle'⟩ := ih h₁
    refine ⟨F', hsub'.trans hsub, h', ?_⟩
    simp only [released, walk, List.zipWith_cons_cons, List.sum_cons] at hle' ⊢
    omega

end Visits

theorem released_self (ads : List Admission) : released ads ads = 0 := by
  induction ads with
  | nil => rfl
  | cons ad ads ih =>
    rw [released, List.zipWith_cons_cons, List.sum_cons, ← released, ih]
    omega

variable {pods : List Pod} {name : String} {s t : World}

theorem within_deletion {F : Finset (String × String)} (h : Within s.qu (podsByPs s.pods) s.observedPods F) :
    ∃ F' ⊆ F, Within s.qu (podsByPs s.pods) (deletion s).memory F' ∧
      released s.qu.status.admissions (deletion s).item + F'.card ≤ F.card := by
  rw [deletion, reconcilePodDeletion]
  split
  next =>
    refine ⟨F, subset_rfl, h, ?_⟩
    rw [released_self]
    omega
  next => exact within_walk s.qu (podsByPs s.pods) h s.qu.status.admissions

theorem spared_of_covers
    (h : s.qu.status.phase = .dequeued → ∀ ad ∈ s.qu.status.admissions, ad.reclaimState = none → Covers s ad) :
    Spared s := by
  rw [Spared, deletion, reconcilePodDeletion]
  split
  next =>
    rw [List.forall₂_same]
    intro ad _
    exact min_le_left _ _
  next hphase =>
    refine (walk_forall₂ (fun m => ∀ p, gone s.qu (podsByPs s.pods) m p = goneNames s p ∨
      gone s.qu (podsByPs s.pods) m p = ∅) _ ?_ (fun p => Or.inl rfl)).2
    intro m hm ad hmem
    constructor
    · intro p
      rw [gone_confirmDeletions]
      split
      next => exact Or.inr rfl
      next => exact hm p
    · rw [toInt_confirmDeletions]
      split
      next hg =>
        have hsame : gone s.qu (podsByPs s.pods) m ad.name = goneNames s ad.name :=
          (hm ad.name).resolve_right (fun he => hg.2 (Finset.card_eq_zero.mpr he))
        rw [hsame] at hg ⊢
        rcases h (not_not.mp hphase) ad hmem hg.1 with hnone | hlive | hrep | hcover
        · exact absurd (Finset.card_eq_zero.mpr hnone) hg.2
        · rw [hlive]
          omega
        · omega
        · omega
      next => exact min_le_left _ _

theorem mem_liveNames {n : String} : n ∈ liveNames pods ↔ ∃ po ∈ pods, po.live = true ∧ po.name = n := by
  simp only [liveNames, List.mem_toFinset, List.mem_map, List.mem_filter]
  constructor
  · rintro ⟨po, ⟨hm, hlive⟩, hname⟩
    exact ⟨po, hm, hlive, hname⟩
  · rintro ⟨po, hm, hlive, hname⟩
    exact ⟨po, ⟨hm, hlive⟩, hname⟩

theorem mem_lose {po : Pod} (hm : po ∈ pods) (hlive : po.live = true)
    (hname : po.name = name) : ∃ l ∈ lose name pods, l.podSet = po.podSet ∧ l.name = name := by
  refine ⟨⟨po.podSet, name, none⟩, ?_, rfl, rfl⟩
  refine List.mem_map.mpr ⟨po, List.mem_filter.mpr ⟨hm, ?_⟩, rfl⟩
  simp [hname, hlive]

/-- Every recorded pod that is gone is accounted for: among the losses since
the last round, or among those that had no replacement and were not subtracted. -/
def Accounted (s : World) : Prop :=
  ∃ F : Finset (String × String), (∀ p n, n ∈ goneNames s p →
    (p, n) ∈ F ∨ ∃ l ∈ s.losses, l.podSet = p ∧ l.name = n) ∧ s.subtracted + F.card ≤ s.unreplaced

theorem accounted_pods (h : Accounted s) (hqu : t.qu.key = s.qu.key)
    (hobs : t.observedPods = s.observedPods) (hunr : t.unreplaced = s.unreplaced)
    (hsub : t.subtracted = s.subtracted)
    (hkept : ∀ l ∈ s.losses, ∃ l' ∈ t.losses, l'.podSet = l.podSet ∧ l'.name = l.name)
    (hlive : ∀ p n, n ∈ liveNames (podsByPs s.pods p) →
      n ∈ liveNames (podsByPs t.pods p) ∨ ∃ l ∈ t.losses, l.podSet = p ∧ l.name = n) : Accounted t := by
  obtain ⟨F, hF, hle⟩ := h
  refine ⟨F, ?_, by rw [hsub, hunr]; exact hle⟩
  intro p n hn
  have hkey : admissionKey t.qu p = admissionKey s.qu p := by rw [admissionKey, admissionKey, hqu]
  rw [goneNames, gone, observed, hobs, hkey, Finset.mem_sdiff] at hn
  by_cases hold : n ∈ liveNames (podsByPs s.pods p)
  · exact (hlive p n hold).elim (fun hnew => absurd hnew hn.2) Or.inr
  · rcases hF p n (Finset.mem_sdiff.mpr ⟨hn.1, hold⟩) with hin | ⟨l, hl, hps, hname⟩
    · exact Or.inl hin
    · obtain ⟨l', hl', hps', hname'⟩ := hkept l hl
      exact Or.inr ⟨l', hl', hps'.trans hps, hname'.trans hname⟩

theorem accounted_create {pod : Pod} {replaces : Option String} (h : Accounted s)
    (hstep : step s (.create pod replaces) = some t) : Accounted t := by
  rw [step] at hstep
  split at hstep
  next =>
    cases hstep
    refine accounted_pods h rfl rfl rfl rfl ?_ ?_
    · intro l hl
      refine ⟨fill pod replaces l, List.mem_map_of_mem hl, ?_⟩
      rw [fill]
      split <;> exact ⟨rfl, rfl⟩
    · intro p n hn
      obtain ⟨po, hpo, hlive, hname⟩ := mem_liveNames.mp hn
      obtain ⟨hm, hp, hps⟩ := mem_podsByPs.mp hpo
      exact Or.inl (mem_liveNames.mpr
        ⟨po, mem_podsByPs.mpr ⟨List.mem_cons_of_mem pod hm, hp, hps⟩, hlive, hname⟩)
  next => cases hstep

theorem accounted_lost (h : Accounted s) (hstays : ∀ po ∈ s.pods, po.name ≠ name → po ∈ pods) :
    Accounted { s with pods, losses := lose name s.pods ++ s.losses } := by
  refine accounted_pods h rfl rfl rfl rfl (fun l hl => ⟨l, List.mem_append_right _ hl, rfl, rfl⟩) ?_
  intro p n hn
  obtain ⟨po, hpo, hlive, hname⟩ := mem_liveNames.mp hn
  obtain ⟨hm, hp, hps⟩ := mem_podsByPs.mp hpo
  by_cases heq : po.name = name
  · obtain ⟨l, hl, hlps, hlname⟩ := mem_lose hm hlive heq
    exact Or.inr ⟨l, List.mem_append_left _ hl, hlps.trans hps, hlname.trans (heq.symm.trans hname)⟩
  · exact Or.inl (mem_liveNames.mpr ⟨po, mem_podsByPs.mpr ⟨hstays po hm heq, hp, hps⟩, hlive, hname⟩)

theorem accounted_delete (h : Accounted s) (hstep : step s (.delete name) = some t) : Accounted t := by
  rw [step] at hstep
  split at hstep
  next =>
    cases hstep
    exact accounted_lost h (fun po hm hne => List.mem_filter.mpr ⟨hm, decide_eq_true hne⟩)
  next => cases hstep

theorem accounted_finish {succeeded : Bool} (h : Accounted s)
    (hstep : step s (.finish name succeeded) = some t) : Accounted t := by
  rw [step] at hstep
  split at hstep
  next =>
    cases hstep
    exact accounted_lost h (fun po hm hne => List.mem_map.mpr ⟨po, hm, if_neg hne⟩)
  next => cases hstep

def settled (s : World) : Finset (String × String) :=
  ((s.losses.filter (fun l => !l.replaced s.pods)).map (fun l => (l.podSet, l.name))).toFinset

theorem accounted_reconcile {accepted : Bool} (h : Accounted s)
    (hok : ∀ l ∈ s.losses, l.replaced s.pods = true → l.name ∉ goneNames s l.podSet)
    (hstep : step s (.reconcile accepted) = some t) : Accounted t := by
  obtain ⟨F, hF, hle⟩ := h
  have hwithin : Within s.qu (podsByPs s.pods) s.observedPods (F ∪ settled s) := by
    intro p n hn
    rcases hF p n hn with hin | ⟨l, hl, rfl, rfl⟩
    · exact Finset.mem_union_left _ hin
    · apply Finset.mem_union_right
      refine List.mem_toFinset.mpr (List.mem_map.mpr ⟨l, List.mem_filter.mpr ⟨hl, ?_⟩, rfl⟩)
      rw [Bool.not_eq_true', Bool.eq_false_iff]
      exact fun hrep => hok l hl hrep hn
  have hcard : (F ∪ settled s).card ≤ F.card + (s.losses.filter (fun l => !l.replaced s.pods)).length := by
    refine (Finset.card_union_le _ _).trans (Nat.add_le_add_left ?_ _)
    refine (List.toFinset_card_le _).trans ?_
    rw [List.length_map]
  obtain ⟨F', hsub, hF', hrel⟩ := within_deletion hwithin
  have hsmaller := Finset.card_le_card hsub
  cases hstep
  refine ⟨F', ?_, ?_⟩
  · intro p n hn
    refine Or.inl (hF' p n ?_)
    cases accepted <;> exact hn
  · cases accepted with
    | true =>
      simp only [if_true, Int.natCast_add]
      omega
    | false =>
      simp only [Bool.false_eq_true, if_false, Int.natCast_add]
      omega

theorem accounted_step (s : World) (a : Action) (t : World) (h : Accounted s) (hok : Noticed s a)
    (hstep : step s a = some t) : Accounted t := by
  cases a with
  | create pod replaces => exact accounted_create h hstep
  | delete name => exact accounted_delete h hstep
  | finish name succeeded => exact accounted_finish h hstep
  | write phase admissions =>
    cases hstep
    exact h
  | restart =>
    cases hstep
    obtain ⟨F, _, hle⟩ := h
    refine ⟨F, ?_, hle⟩
    intro p n hn
    simp [goneNames, gone, observed] at hn
  | reconcile accepted => exact accounted_reconcile h hok.2 hstep

/-- The reporter has just started. -/
structure Started (s : World) : Prop where
  observed : s.observedPods = ∅
  losses : s.losses = []
  unreplaced : s.unreplaced = 0
  subtracted : s.subtracted = 0

theorem accounted_started (h : Started s) : Accounted s := by
  refine ⟨∅, ?_, by rw [h.subtracted, h.unreplaced]; rfl⟩
  intro p n hn
  rw [goneNames, gone, observed, h.observed] at hn
  simp at hn

/-- Rounds leave the live pods their replicas, and take no more than was lost
for good, as long as they find no recorded pod that was already replaced. -/
theorem deletions_counted {s : World} (h : Started s) {as : List Action} (hg : Run.Guarded step Noticed s as) :
    (∀ bs t, bs <+: as → Run.exec step s bs = some t → t.subtracted ≤ t.unreplaced) ∧
      ∀ bs accepted t, bs ++ [.reconcile accepted] <+: as → Run.exec step s bs = some t → Spared t := by
  constructor
  · rintro bs t ⟨cs, rfl⟩ hrun
    obtain ⟨F, _, hle⟩ := Run.invariant accounted_step (accounted_started h) (Run.guarded_left hg) hrun
    omega
  · rintro bs accepted t ⟨cs, rfl⟩ hrun
    have hlast := Run.guarded_append (Run.guarded_left hg) hrun
    exact spared_of_covers (hlast _ rfl).1.1

instance decidableNoticed (s : World) (a : Action) : Decidable (Noticed s a) := by
  delta Noticed
  split <;> infer_instance

def twoAdmitted : World :=
  { qu := setAdmissions { ns := "ns", name := "job" } .dequeued [{ name := "worker", replicas := 2 }], pods := [] }

def podOf (name : String) : Pod := { ns := "ns", name, podSet := "worker" }

def oneDeleted : List Action :=
  [.create (podOf "a") none, .create (podOf "b") none, .reconcile true, .delete "a"]

/-- The round finds a pod that is gone for good. -/
theorem deletions_counted_gone :
    ∃ t, Run.exec step twoAdmitted (oneDeleted ++ [.reconcile true]) = some t ∧
      t.qu.status.admissions.map Admission.replicas = [1] ∧ t.subtracted ≤ t.unreplaced := by
  obtain ⟨t, hrun, h⟩ : ∃ t, Run.exec step twoAdmitted (oneDeleted ++ [.reconcile true]) = some t ∧
      t.qu.status.admissions.map Admission.replicas = [1] := by decide +kernel
  exact ⟨t, hrun, h,
    (deletions_counted ⟨rfl, rfl, rfl, rfl⟩ (by decide +kernel)).1 _ t List.prefix_rfl hrun⟩

/-- The deleted pod is replaced before the round. Two pods are live and the
round leaves one replica, although nothing was lost. -/
theorem replaced_pod_subtracted :
    ∃ t u, Run.exec step twoAdmitted (oneDeleted ++ [.create (podOf "c") (some "a")]) = some t ∧
      liveCount t "worker" = 2 ∧ ¬ Spared t ∧ step t (.reconcile true) = some u ∧
      u.qu.status.admissions.map Admission.replicas = [1] ∧ ¬ u.subtracted ≤ u.unreplaced := by
  obtain ⟨t, hrun, hlive, hspared, hnext⟩ : ∃ t, Run.exec step twoAdmitted
      (oneDeleted ++ [.create (podOf "c") (some "a")]) = some t ∧ liveCount t "worker" = 2 ∧ ¬ Spared t ∧
      (step t (.reconcile true)).any (fun u => decide
      (u.qu.status.admissions.map Admission.replicas = [1] ∧ ¬ u.subtracted ≤ u.unreplaced)) := by decide +kernel
  obtain ⟨u, hstep, hu⟩ := (Option.any_eq_true _ _).mp hnext
  exact ⟨t, u, hrun, hlive, hspared, hstep, of_decide_eq_true hu⟩

end KoordQueue.JobExt.Losses
