import KoordQueue.JobExt.Due
import Mathlib.Logic.Function.Iterate

namespace KoordQueue.JobExt.Truth

open Api Pods Records Reporter Effects Due

variable {pods : List Pod} {qu : JobUnit}

def syncOnce (pods : List Pod) (qu : JobUnit) : JobUnit :=
  match syncInFlightWorkers qu pods with
  | none => qu
  | some w => Write.store w qu

def Settled (pods : List Pod) (qu : JobUnit) : Prop := syncInFlightWorkers qu pods = none
deriving Decidable

/-- The admission has the number of its scheduled pods, and no fewer replicas. -/
structure Honest (pods : List Pod) (ad : Admission) : Prop where
  running : ad.running = runningByPs pods ad.name
  covered : ad.running ≤ ad.replicas

def Truthful (pods : List Pod) (qu : JobUnit) : Prop := ∀ ad ∈ qu.status.admissions, Honest pods ad

/-- The admissions that no call writes to: those whose podset has no pod, and
all but the first one of a name. -/
def unsynced : List String → List Admission → List Admission
  | _, [] => []
  | ks, ad :: ads => if ad.name ∈ ks then unsynced (ks.erase ad.name) ads else ad :: unsynced ks ads

def untouched (pods : List Pod) (qu : JobUnit) : List Admission :=
  if recycles qu then unsynced (podSetNames pods) qu.status.admissions else qu.status.admissions

section Admissions

variable {syncRes : Bool} {ks : List String}

theorem unsynced_syncPodSet {k : String} (hk : k ∈ ks) (r : Int64) (res : ResourceList) (ads : List Admission) :
    unsynced ks (syncPodSet syncRes k r res ads).item = unsynced ks ads := by
  induction ads generalizing ks with
  | nil => simp [syncPodSet, unsynced, hk]
  | cons ad ads ih =>
    rw [syncPodSet]
    split
    next he =>
      have hname : (syncAdmission syncRes r res ad).item.name = ad.name := rfl
      rw [unsynced, unsynced, hname, if_pos (he ▸ hk), if_pos (he ▸ hk)]
    next he =>
      rw [unsynced, unsynced, ih hk]
      split
      next => rw [ih ((List.mem_erase_of_ne (Ne.symm he)).mpr hk)]
      next => rfl

theorem unsynced_syncAdmissions {js : List String} (hsub : ∀ k ∈ js, k ∈ ks) (ads : List Admission) :
    unsynced ks (syncAdmissions syncRes pods js ads).item = unsynced ks ads := by
  induction js generalizing ads with
  | nil => rfl
  | cons k js ih =>
    rw [List.forall_mem_cons] at hsub
    rw [syncAdmissions]
    exact (ih hsub.2 _).trans (unsynced_syncPodSet hsub.1 _ _ ads)

theorem unsynced_sublist (ks : List String) (ads : List Admission) : (unsynced ks ads).Sublist ads := by
  induction ads generalizing ks with
  | nil => exact List.Sublist.refl []
  | cons ad ads ih =>
    rw [unsynced]
    split
    next => exact (ih _).cons ad
    next => exact (ih ks).cons_cons ad

theorem mem_unsynced_or {ads : List Admission} (hks : ks.Nodup) {ad : Admission} (h : ad ∈ ads) :
    ad ∈ unsynced ks ads ∨ (ad.name ∈ ks ∧ ads.find? (fun a => a.name = ad.name) = some ad) := by
  induction ads generalizing ks with
  | nil => cases h
  | cons a ads ih =>
    rw [unsynced]
    by_cases ha : a.name ∈ ks
    · rw [if_pos ha]
      rcases List.mem_cons.mp h with rfl | h
      · exact Or.inr ⟨ha, by simp⟩
      · rcases ih (hks.erase a.name) h with hleft | ⟨hmem, hfind⟩
        · exact Or.inl hleft
        · obtain ⟨hne, hmem⟩ := hks.mem_erase_iff.mp hmem
          exact Or.inr ⟨hmem, by rw [List.find?_cons_of_neg (by simpa using hne.symm), hfind]⟩
    · rw [if_neg ha]
      rcases List.mem_cons.mp h with rfl | h
      · exact Or.inl List.mem_cons_self
      · rcases ih hks h with hleft | ⟨hmem, hfind⟩
        · exact Or.inl (List.mem_cons_of_mem a hleft)
        · have hne : a.name ≠ ad.name := fun he => ha (he ▸ hmem)
          exact Or.inr ⟨hmem, by rw [List.find?_cons_of_neg (by simpa using hne), hfind]⟩

theorem inSync_syncAdmission (k : String) (ad : Admission) :
    InSync syncRes pods k (syncAdmission syncRes (runningByPs pods k) (resByPs pods k) ad).item where
  running := rfl
  replicas := by
    dsimp only [syncAdmission]
    split
    next => exact Int64.le_refl _
    next h => exact Int64.not_lt.mp h
  resources := by
    rintro rfl
    dsimp only [syncAdmission]
    split
    next => rfl
    next h => exact (equal_iff _ _).mp (by simpa using h)

theorem find_syncPodSet_self (k : String) (ads : List Admission) :
    ∃ ad, (syncPodSet syncRes k (runningByPs pods k) (resByPs pods k) ads).item.find? (fun ad => ad.name = k) =
      some ad ∧ InSync syncRes pods k ad := by
  induction ads with
  | nil =>
    refine ⟨_, List.find?_cons_of_pos (decide_eq_true rfl), rfl, Int64.le_refl _, ?_⟩
    rintro rfl
    rfl
  | cons ad ads ih =>
    rw [syncPodSet]
    split
    next he =>
      exact ⟨_, List.find?_cons_of_pos (decide_eq_true he), inSync_syncAdmission k ad⟩
    next he =>
      rw [List.find?_cons_of_neg (by simpa using he)]
      exact ih

theorem find_syncAdmissions_of_notMem {k : String} (hk : k ∉ ks) (ads : List Admission) :
    (syncAdmissions syncRes pods ks ads).item.find? (fun ad => ad.name = k) = ads.find? (fun ad => ad.name = k) := by
  induction ks generalizing ads with
  | nil => rfl
  | cons j ks ih =>
    rw [List.mem_cons, not_or] at hk
    rw [syncAdmissions]
    exact (ih hk.2 _).trans (find_syncPodSet syncRes hk.1 _ _ ads)

theorem find_syncAdmissions (hks : ks.Nodup) (ads : List Admission) : ∀ k ∈ ks,
    ∃ ad, (syncAdmissions syncRes pods ks ads).item.find? (fun ad => ad.name = k) = some ad ∧
      InSync syncRes pods k ad := by
  induction ks generalizing ads with
  | nil => simp
  | cons k ks ih =>
    rw [List.nodup_cons] at hks
    rw [List.forall_mem_cons]
    refine ⟨?_, ih hks.2 _⟩
    obtain ⟨ad, hfind, hsync⟩ := @find_syncPodSet_self pods syncRes k ads
    refine ⟨ad, ?_, hsync⟩
    rw [syncAdmissions]
    exact (find_syncAdmissions_of_notMem hks.1 _).trans hfind

end Admissions

theorem settled_iff : Settled pods qu ↔ ¬ (recycles qu = true ∧ OutOfSync qu pods) := by
  rw [Settled, ← syncInFlightWorkers_isSome_iff, Bool.not_eq_true, Option.isSome_eq_false_iff, Option.isNone_iff_eq_none]

theorem syncOnce_of_settled (h : Settled pods qu) : syncOnce pods qu = qu := by
  rw [syncOnce, h]

def Outdated (pods : List Pod) (qu : JobUnit) : Prop :=
  qu.status.phase = .running ∧ totalRequests pods ≠ qu.spec.resource

theorem syncOnce_cases (pods : List Pod) (qu : JobUnit) :
    (Settled pods qu ∧ syncOnce pods qu = qu) ∨
      recycles qu = true ∧
        (Outdated pods qu ∧
            syncOnce pods qu = { qu with spec := { qu.spec with resource := totalRequests pods } } ∨
          ¬ Outdated pods qu ∧
            syncOnce pods qu = { qu.setAdmissions (synced qu pods).item with podState := podStateOf pods }) := by
  rw [syncOnce]
  cases hw : syncInFlightWorkers qu pods with
  | none => exact Or.inl ⟨hw, rfl⟩
  | some w =>
    rw [syncInFlightWorkers] at hw
    split at hw
    next => cases hw
    next hrec =>
      refine Or.inr ⟨by simpa using hrec, ?_⟩
      split at hw
      next hout =>
        rw [needResource_iff] at hout
        cases hw
        exact Or.inl ⟨hout, rfl⟩
      next hout =>
        rw [needResource_iff] at hout
        dsimp only at hw
        split at hw
        next =>
          cases hw
          exact Or.inr ⟨hout, rfl⟩
        next => cases hw

theorem untouched_syncOnce (pods : List Pod) (qu : JobUnit) : untouched pods (syncOnce pods qu) = untouched pods qu := by
  rcases syncOnce_cases pods qu with ⟨_, heq⟩ | ⟨hrec, ⟨_, heq⟩ | ⟨_, heq⟩⟩
  · rw [heq]
  · rw [heq]
    rfl
  · have hrec' : recycles (syncOnce pods qu) = recycles qu := by rw [heq]; rfl
    rw [untouched, untouched, hrec', if_pos hrec, if_pos hrec, heq]
    exact unsynced_syncAdmissions (fun _ hk => hk) _

theorem truthful_of_settled (h : Settled pods qu) : Truthful pods qu ↔ ∀ ad ∈ untouched pods qu, Honest pods ad := by
  rw [untouched]
  split
  next hrec =>
    have hin : ¬ OutOfSync qu pods := fun hout => (settled_iff.mp h) ⟨hrec, hout⟩
    constructor
    · exact fun htrue ad had => htrue ad ((unsynced_sublist _ _).subset had)
    · intro hleft ad had
      rcases mem_unsynced_or (nodup_podSetNames pods) had with hmem | ⟨hk, hfind⟩
      · exact hleft ad hmem
      · have hsync : InSync (decide (qu.status.phase = .running)) pods ad.name ad := by
          by_contra hnot
          refine hin (Or.inr (Or.inr ⟨ad.name, hk, ?_⟩))
          rintro ⟨ad', hfind', hsync⟩
          rw [hfind, Option.some.injEq] at hfind'
          exact hnot (hfind' ▸ hsync)
        exact ⟨hsync.running, hsync.running ▸ hsync.replicas⟩
  next => exact Iff.rfl

theorem settled_of_status (hspec : ¬ Outdated pods qu) :
    Settled pods { qu.setAdmissions (synced qu pods).item with podState := podStateOf pods } := by
  rw [settled_iff]
  rintro ⟨_, hout⟩
  rcases hout with hres | hstate | ⟨k, hk, hnone⟩
  · exact hspec hres
  · exact hstate rfl
  · exact hnone (find_syncAdmissions (nodup_podSetNames pods) _ k hk)

theorem settled_syncOnce (h : ¬ Outdated pods qu) : Settled pods (syncOnce pods qu) := by
  rcases syncOnce_cases pods qu with ⟨hsettled, heq⟩ | ⟨_, ⟨hout, _⟩ | ⟨_, heq⟩⟩
  · rwa [heq]
  · exact absurd hout h
  · rw [heq]
    exact settled_of_status h

theorem settled_twice (pods : List Pod) (qu : JobUnit) : Settled pods ((syncOnce pods)^[2] qu) := by
  rw [Function.iterate_succ_apply, Function.iterate_one]
  rcases syncOnce_cases pods qu with ⟨hsettled, heq⟩ | ⟨_, ⟨_, heq⟩ | ⟨hspec, _⟩⟩
  · rwa [heq, heq]
  · apply settled_syncOnce
    rw [heq]
    exact fun h => h.2 rfl
  · rw [syncOnce_of_settled (settled_syncOnce hspec)]
    exact settled_syncOnce hspec

theorem untouched_iterate (n : Nat) (qu : JobUnit) : untouched pods ((syncOnce pods)^[n] qu) = untouched pods qu := by
  induction n generalizing qu with
  | zero => rfl
  | succ n ih => rw [Function.iterate_succ_apply, ih, untouched_syncOnce]

/-- Calls come to an end, and when they have, what the unit says is true exactly
if it was true of the admissions that they leave alone. -/
theorem settled_truthful_iff (pods : List Pod) (qu : JobUnit) :
    (∃ n, Settled pods ((syncOnce pods)^[n] qu)) ∧
      ∀ n, Settled pods ((syncOnce pods)^[n] qu) →
        (Truthful pods ((syncOnce pods)^[n] qu) ↔ ∀ ad ∈ untouched pods qu, Honest pods ad) := by
  refine ⟨⟨2, settled_twice pods qu⟩, fun n hn => ?_⟩
  rw [truthful_of_settled hn, untouched_iterate]

def scheduledWorker : JobUnit := workerUnit .dequeued 2 [{ name := "worker", replicas := 2 }]

/-- Of two workers one is scheduled, and the unit comes to say so. -/
theorem scheduledWorker_truthful : ∃ n,
    Truthful [worker "a" "node", worker "b" ""] ((syncOnce [worker "a" "node", worker "b" ""])^[n] scheduledWorker) := by
  obtain ⟨⟨n, hn⟩, hiff⟩ := settled_truthful_iff [worker "a" "node", worker "b" ""] scheduledWorker
  refine ⟨n, (hiff n hn).mpr ?_⟩
  have hnone : untouched [worker "a" "node", worker "b" ""] scheduledWorker = [] := by decide
  rw [hnone]
  exact fun _ h => nomatch h

def deletedWorker : JobUnit := workerUnit .dequeued 2 [{ name := "worker", replicas := 2, running := 1 }]

/-- The last pod is gone, and the unit still says that one is running. -/
theorem deletedWorker_settled : Settled [] deletedWorker ∧ runningByPs [] "worker" = 0 ∧ ¬ Truthful [] deletedWorker := by
  refine ⟨by decide, by decide, fun h => ?_⟩
  have hrun := (h _ List.mem_cons_self).running
  exact absurd hrun (by decide)

end KoordQueue.JobExt.Truth
