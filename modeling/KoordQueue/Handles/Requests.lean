import KoordQueue.JobExt.Pods
import Mathlib.Algebra.BigOperators.Group.List.Basic
import Mathlib.Data.Int.Cast.Lemmas
import Mathlib.Logic.Function.Iterate

namespace KoordQueue.Handles.Requests

open Api JobExt.Pods

/-- The requests of the containers. Unlike `getPodRequestsAndLimits`, no limits stand in for them. -/
def podRequestsAndLimits (spec : PodSpec) : ResourceList :=
  addResourceList
    ((spec.initContainers.map (fun ct => ct.requests.getD ∅)).foldl maxResourceList
      ((spec.containers.map (fun ct => ct.requests.getD ∅)).foldl addResourceList ∅))
    spec.overhead

def addTimes (request : ResourceList) (n : Nat) (total : ResourceList) : ResourceList :=
  (fun total => addResourceList total request)^[n] total

def amount (list : ResourceList) (k : ResourceName) : Int := ((list.lookup k).map Quantity.milli).getD 0

def podSetsTotal (perPod : PodSpec → ResourceList) (podSets : List PodSet) (k : ResourceName) : Int :=
  (podSets.map (fun ps => ps.count.toInt * amount (perPod ps.template) k)).sum

theorem amount_addResourceList (list new : ResourceList) (k : ResourceName) :
    amount (addResourceList list new) k = amount list k + amount new k := by
  rw [amount, amount, amount, addResourceList, GoMap.lookup_range]
  cases new.lookup k with
  | none => simp
  | some quantity =>
    cases list.lookup k with
    | none => simp
    | some value => simp [quantityAdd]

theorem amount_addTimes (request : ResourceList) (n : Nat) (total : ResourceList) (k : ResourceName) :
    amount (addTimes request n total) k = amount total k + n * amount request k := by
  induction n generalizing total with
  | zero => simp [addTimes]
  | succ n ih =>
    have hstep : addTimes request (n + 1) total = addTimes request n (addResourceList total request) :=
      Function.iterate_succ_apply _ n total
    rw [hstep, ih, amount_addResourceList, Nat.cast_succ, add_mul, one_mul, add_assoc,
      add_comm (amount request k)]

end KoordQueue.Handles.Requests
