import KoordQueue.Reserving.Records
import Mathlib.Data.List.Count
import Mathlib.Logic.Function.Iterate

namespace KoordQueue.Reserving.Blacklist

open Api Records

def hostnameLabel : String := "kubernetes.io/hostname"

/-- What the config map says about one node; `timestamps` are the last update
times of its records. -/
structure Entry where
  nodeName : String
  timestamps : List Time := []
deriving DecidableEq

/-- The config map of the blacklist. The entries are those of its JSON text, in
the order in which the map is visited, and are missing when the text does not parse. -/
structure ConfigMap where
  resourceVersion : String := ""
  entries : Option (List Entry) := none
deriving DecidableEq

def hour : Time := 3600 * 1000000000

def latest (now : Time) (e : Entry) : Time := e.timestamps.foldl (fun t u => if u > t then u else t) now

def exclusion (e : Entry) : NodeSelectorRequirement := ⟨hostnameLabel, .opNotIn, [e.nodeName]⟩

def getJobBlackList (now : Time) (blacklistcm : Option ConfigMap) : List NodeSelectorRequirement × String :=
  match blacklistcm with
  | none => ([], "")
  | some cm =>
    match cm.entries with
    | none => ([], "")
    | some entries =>
      ((entries.filter (fun e => !decide (now - latest now e > 12 * hour - 10 * 1000000000))).map exclusion,
        cm.resourceVersion)

def exclude (blacklist : List NodeSelectorRequirement) (t : PodTemplate) : PodTemplate :=
  { t with
    required := some ((t.required.getD []).map (fun term =>
      { term with matchExpressions := term.matchExpressions ++ blacklist })) }

/-- Write through the template pointer of one reservation: every reservation
with that pointer sees the write. -/
def excludeAt (blacklist : List NodeSelectorRequirement) (addr : Nat) (r : Reservation) : Reservation :=
  { r with
    template := r.template.map (fun p => if p.addr = addr then { p with val := exclude blacklist p.val } else p) }

def applyBlacklist (blacklist : List NodeSelectorRequirement) (resvs : List Reservation) : List Reservation :=
  if blacklist = [] then resvs
  else (resvs.filterMap Reservation.template).foldl
    (fun rs p => rs.map (excludeAt blacklist p.addr)) resvs

theorem le_latest (now : Time) (e : Entry) : now ≤ latest now e := by
  suffices h : ∀ (ts : List Time) (t : Time), t ≤ ts.foldl (fun t u => if u > t then u else t) t from h e.timestamps now
  intro ts
  induction ts with
  | nil => exact fun t => le_refl t
  | cons u ts ih =>
    intro t
    rw [List.foldl_cons]
    refine le_trans ?_ (ih _)
    split
    next hu => exact le_of_lt hu
    next => exact le_refl t

theorem getJobBlackList_some (now : Time) (rv : String) (entries : List Entry) :
    getJobBlackList now (some ⟨rv, some entries⟩) = (entries.map exclusion, rv) := by
  have hkeep : entries.filter (fun e => !decide (now - latest now e > 12 * hour - 10 * 1000000000)) = entries := by
    rw [List.filter_eq_self]
    intro e _
    have hage : now - latest now e ≤ 0 := Int.sub_nonpos_of_le (le_latest now e)
    rw [Bool.not_eq_true', decide_eq_false_iff_not, not_lt]
    exact hage.trans (by decide)
  simp only [getJobBlackList, hkeep]

theorem foldl_map_excludeAt (blacklist : List NodeSelectorRequirement) (ps : List (Ptr PodTemplate))
    (rs : List Reservation) :
    ps.foldl (fun rs p => rs.map (excludeAt blacklist p.addr)) rs =
      rs.map (fun r => { r with
        template := r.template.map (fun q =>
          { q with val := (exclude blacklist)^[ps.countP (fun p => p.addr = q.addr)] q.val }) }) := by
  induction ps generalizing rs with
  | nil => simp
  | cons p ps ih =>
    rw [List.foldl_cons, ih, List.map_map]
    refine List.map_congr_left (fun r _ => ?_)
    cases hr : r.template with
    | none => simp [excludeAt, hr]
    | some q =>
      by_cases hq : q.addr = p.addr
      · simp [excludeAt, hr, hq, List.countP_cons, Function.iterate_succ_apply]
      · simp [excludeAt, hr, hq, Ne.symm hq, List.countP_cons]

end KoordQueue.Reserving.Blacklist
