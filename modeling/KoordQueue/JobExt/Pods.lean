import KoordQueue.Resources
import Mathlib.Data.Finset.Card

namespace KoordQueue.JobExt.Pods

open Api

inductive PodPhase
  | failed
  | succeeded
  | other (text : String)
deriving DecidableEq

/-- A pod as the job manager returns it; `podSet` is the name that
`GetPodSetName` finds for it, and is empty when there is none. -/
structure Pod where
  ns : String := ""
  name : String
  podSet : String := ""
  phase : PodPhase := .other "Pending"
  nodeName : String := ""
  spec : PodSpec := {}
deriving DecidableEq

def Pod.key (pod : Pod) : String := pod.ns ++ "/" ++ pod.name

def Pod.live (pod : Pod) : Bool := decide (pod.phase ≠ .failed ∧ pod.phase ≠ .succeeded)

def Pod.scheduled (pod : Pod) : Bool := decide (pod.nodeName ≠ "")

def Pod.waiting (pod : Pod) : Bool := pod.live && !pod.scheduled

/-- The entry of the map from podsets to pods. A pod without a podset is in
none, and a missing entry reads as no pods. -/
def podsByPs (pods : List Pod) (psn : String) : List Pod :=
  pods.filter (fun po => decide (psn ≠ "" ∧ po.podSet = psn))

/-- The keys of that map, in the order in which the pods are listed. The pods
come in no particular order, so every order of the keys arises. -/
def podSetNames (pods : List Pod) : List String :=
  ((pods.map Pod.podSet).filter (fun psn => decide (psn ≠ ""))).dedup

def liveNames (pods : List Pod) : Finset String := ((pods.filter Pod.live).map Pod.name).toFinset

def quantityAdd (a b : Quantity) : Quantity := ⟨a.milli + b.milli⟩

def addResourceList (list new : ResourceList) : ResourceList :=
  GoMap.range (fun _ value quantity => some ((value.map (quantityAdd · quantity)).getD quantity)) list new

def maxResourceList (list new : ResourceList) : ResourceList :=
  GoMap.range (fun _ value quantity =>
    match value with
    | none => some quantity
    | some v => if quantity.milli > v.milli then some quantity else some v) list new

def containerRequests (ct : Container) : ResourceList :=
  if ct.requests.getD ∅ = ∅ ∧ ct.limits.getD ∅ ≠ ∅ then ct.limits.getD ∅ else ct.requests.getD ∅

def getPodRequestsAndLimits (spec : PodSpec) : ResourceList :=
  addResourceList
    ((spec.initContainers.map containerRequests).foldl maxResourceList
      ((spec.containers.map containerRequests).foldl addResourceList ∅))
    spec.overhead

def equal (r1 r2 : ResourceList) : Bool :=
  if r1.keys.card ≠ r2.keys.card then false
  else GoMap.all r1 (fun k v => decide (r2.lookup k = some v))

variable {pods : List Pod} {psn : String}

theorem mem_podsByPs {po : Pod} : po ∈ podsByPs pods psn ↔ po ∈ pods ∧ psn ≠ "" ∧ po.podSet = psn := by
  simp [podsByPs]

theorem mem_podSetNames : psn ∈ podSetNames pods ↔ psn ≠ "" ∧ ∃ po ∈ pods, po.podSet = psn := by
  simp only [podSetNames, List.mem_dedup, List.mem_filter, List.mem_map, decide_eq_true_eq]
  tauto

theorem nodup_podSetNames (pods : List Pod) : (podSetNames pods).Nodup := List.nodup_dedup _

theorem equal_iff (r1 r2 : ResourceList) : equal r1 r2 = true ↔ r1 = r2 := by
  rw [equal]
  constructor
  · intro h
    split at h
    next => cases h
    next hcard =>
      rw [GoMap.all_iff] at h
      have hsub : r1.keys ⊆ r2.keys := by
        intro k hk
        obtain ⟨v, hv⟩ := Finmap.mem_iff.mp (Finmap.mem_keys.mp hk)
        exact Finmap.mem_keys.mpr (Finmap.mem_iff.mpr ⟨v, of_decide_eq_true (h k v hv)⟩)
      have hkeys : r1.keys = r2.keys := Finset.eq_of_subset_of_card_le hsub (by omega)
      apply Finmap.ext_lookup
      intro k
      cases hl : r1.lookup k with
      | some v => exact (of_decide_eq_true (h k v hl)).symm
      | none =>
        have hk : k ∉ r2.keys := by
          rw [← hkeys, Finmap.mem_keys]
          exact Finmap.lookup_eq_none.mp hl
        exact (Finmap.lookup_eq_none.mpr (fun hm => hk (Finmap.mem_keys.mpr hm))).symm
  · rintro rfl
    rw [if_neg (by simp), GoMap.all_iff]
    intro k v hv
    exact decide_eq_true hv

end KoordQueue.JobExt.Pods
