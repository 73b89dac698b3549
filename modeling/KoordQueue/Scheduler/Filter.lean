import KoordQueue.UnitInfo

namespace KoordQueue.Scheduler.Filter

open Api UnitStatus UnitInfo

abbrev Admissions := GoMap String FrameworkAdmission

def maxInt64 : Int64 := Int64.maxValue

/-- A filter plugin answers with an error or with admissions, in the order in
which its caller ranges over them. -/
abbrev FilterPlugin := QueueUnitInfo → Admissions → Except String (List FrameworkAdmission)

/-- What the podsets still miss. A podset with more admitted than it asks for
falls through both tests and keeps its full count. -/
def missing (reserved request : Admissions) : Admissions :=
  GoMap.range (fun name _ ps =>
    let admitted := ((reserved.lookup name).map FrameworkAdmission.replicas).getD 0
    if ps.replicas > admitted then some ⟨name, ps.replicas - admitted⟩
    else if ps.replicas = admitted then none
    else some ps) request request

def merge (result : Admissions) (admission : FrameworkAdmission) : Admissions :=
  match result.lookup admission.name with
  | none => result
  | some ad =>
    if ad.replicas > admission.replicas then
      result.insert admission.name ⟨admission.name, admission.replicas⟩
    else result

def runPlugins (unit : QueueUnitInfo) (request : Admissions) :
    List FilterPlugin → Admissions → Except String Admissions
  | [], result => .ok result
  | pl :: pls, result => do
      let admissions ← pl unit request
      runPlugins unit request pls (admissions.foldl merge result)

def prune (result : Admissions) : Admissions :=
  GoMap.range (fun _ _ ad => if ad.replicas = 0 ∨ ad.replicas = maxInt64 then none else some ad) result result

def runFilterPlugins (filterPlugins : List FilterPlugin) (unit : QueueUnitInfo) : Except String Admissions := do
  let request := missing (getAdmissionMap unit.unit) (getQueueUnitResourceRequirementAds unit.unit)
  let result ← runPlugins unit request filterPlugins
    (GoMap.range (fun name _ _ => some ⟨name, maxInt64⟩) ∅ request)
  .ok (prune result)

/-- The plugin accepts whatever is asked for and answers with just that. -/
def PassThrough (pl : FilterPlugin) : Prop :=
  ∀ unit request, ∃ admissions, pl unit request = .ok admissions ∧
    ∀ ad, ad ∈ admissions ↔ request.lookup ad.name = some ad

theorem lookup_merge (result : Admissions) (ad : FrameworkAdmission) (name : String) :
    (merge result ad).lookup name =
      if name = ad.name then
        (result.lookup name).map (fun cur =>
          if cur.replicas > ad.replicas then ⟨name, ad.replicas⟩ else cur)
      else result.lookup name := by
  by_cases hn : name = ad.name
  · subst hn
    rw [merge, if_pos rfl]
    cases hl : result.lookup ad.name with
    | none => simp [hl]
    | some cur =>
      simp only [Option.map_some]
      split
      next => rw [Finmap.lookup_insert]
      next => exact hl
  · rw [if_neg hn, merge]
    split
    next => rfl
    next =>
      split
      next => rw [Finmap.lookup_insert_of_ne _ hn]
      next => rfl

variable {request result : Admissions} {ad : FrameworkAdmission} {pls : List FilterPlugin}
  {ads : List FrameworkAdmission} {qu : QueueUnit} {name : String}

theorem lookup_foldl_merge_none (ads : List FrameworkAdmission)
    (h : result.lookup name = none) : (ads.foldl merge result).lookup name = none := by
  induction ads generalizing result with
  | nil => exact h
  | cons ad ads ih =>
    apply ih
    rw [lookup_merge, h]
    simp

theorem lookup_foldl_merge {r cur : FrameworkAdmission} (hname : r.name = name)
    (hads : ∀ ad ∈ ads, ad.name = name → ad = r)
    (hcur : result.lookup name = some cur) (hcase : cur = r ∨ cur.replicas > r.replicas ∧ r ∈ ads) :
    (ads.foldl merge result).lookup name = some r := by
  induction ads generalizing result cur with
  | nil =>
    obtain rfl : cur = r := hcase.resolve_right (fun h => List.not_mem_nil h.2)
    exact hcur
  | cons ad ads ih =>
    have hrest : ∀ o ∈ ads, o.name = name → o = r := fun o ho => hads o (List.mem_cons_of_mem ad ho)
    by_cases he : name = ad.name
    · obtain rfl := hads ad List.mem_cons_self he.symm
      have hsettled : (merge result ad).lookup name = some ad := by
        rw [lookup_merge, if_pos he, hcur, Option.map_some]
        split
        next => rw [he]
        next hle => rw [hcase.resolve_right (fun h => hle h.1)]
      exact ih hrest hsettled (Or.inl rfl)
    · have hkept : (merge result ad).lookup name = some cur := by rw [lookup_merge, if_neg he, hcur]
      refine ih hrest hkept (hcase.imp_right (fun h => ⟨h.1, ?_⟩))
      exact (List.mem_cons.mp h.2).resolve_left (fun h => he (by rw [← h, hname]))

def Above (request result : Admissions) : Prop :=
  ∀ name, match request.lookup name with
    | none => result.lookup name = none
    | some r => ∃ cur, result.lookup name = some cur ∧ (cur = r ∨ cur.replicas > r.replicas)

theorem foldl_merge_eq (hkeyed : ∀ name ad, request.lookup name = some ad → ad.name = name)
    (hads : ∀ ad, ad ∈ ads ↔ request.lookup ad.name = some ad)
    (h : Above request result) : ads.foldl merge result = request := by
  apply Finmap.ext_lookup
  intro name
  have hn := h name
  cases hr : request.lookup name with
  | none =>
    rw [hr] at hn
    exact lookup_foldl_merge_none ads hn
  | some r =>
    rw [hr] at hn
    obtain ⟨cur, hcur, hcase⟩ := hn
    have hname := hkeyed name r hr
    refine lookup_foldl_merge hname ?_ hcur (hcase.imp_right (fun h => ⟨h, (hads r).mpr (by rw [hname, hr])⟩))
    intro ad hm he
    have := (hads ad).mp hm
    rw [he, hr, Option.some.injEq] at this
    exact this.symm

theorem above_self (request : Admissions) : Above request request := by
  intro name
  split
  next h => exact h
  next r h => exact ⟨r, h, Or.inl rfl⟩

theorem runPlugins_passThrough {unit : QueueUnitInfo}
    (hkeyed : ∀ name ad, request.lookup name = some ad → ad.name = name)
    (hpls : ∀ pl ∈ pls, PassThrough pl) (h : Above request result) :
    runPlugins unit request pls result = .ok (if pls = [] then result else request) := by
  induction pls generalizing result with
  | nil => rfl
  | cons pl pls ih =>
    obtain ⟨ads, hok, hads⟩ := hpls pl List.mem_cons_self unit request
    rw [runPlugins, hok]
    change runPlugins unit request pls (ads.foldl merge result) = _
    rw [foldl_merge_eq hkeyed hads h, ih (fun p hp => hpls p (List.mem_cons_of_mem pl hp)) (above_self request)]
    simp

theorem lookup_prune (result : Admissions) (name : String) :
    (prune result).lookup name =
      (result.lookup name).filter (fun ad => ad.replicas ≠ 0 ∧ ad.replicas ≠ maxInt64) := by
  rw [prune, GoMap.lookup_range]
  cases result.lookup name with
  | none => rfl
  | some ad =>
    rw [Option.filter_some]
    by_cases h : ad.replicas = 0 ∨ ad.replicas = maxInt64
    · simp [h, ← not_or]
    · simp [h, ← not_or]

/-- What a podset asks for that wants `count` replicas and has `old`. -/
def ask (count old : Int64) : Option Int64 :=
  if count > old then some (count - old) else if count = old then none else some count

def grant (count old : Int64) : Option Int64 :=
  (ask count old).filter (fun r => r ≠ 0 ∧ r ≠ maxInt64)

theorem requirement_keyed (h : (getQueueUnitResourceRequirementAds qu).lookup name = some ad) : ad.name = name := by
  rw [getQueueUnitResourceRequirementAds] at h
  split at h
  next =>
    rw [GoMap.lookup_singleton] at h
    split at h
    next he =>
      cases h
      exact he.symm
    next => cases h
  next =>
    obtain ⟨ps, _, hps⟩ := List.mem_map.mp (GoMap.mem_of_lookup_ofList h)
    cases hps
    rfl

theorem lookup_missing (reserved : Admissions) (qu : QueueUnit) (name : String) :
    (missing reserved (getQueueUnitResourceRequirementAds qu)).lookup name =
      ((getQueueUnitResourceRequirementAds qu).lookup name).bind (fun ps =>
        (ask ps.replicas (((reserved.lookup name).map FrameworkAdmission.replicas).getD 0)).map
          (fun r => ⟨name, r⟩)) := by
  rw [missing, GoMap.lookup_range]
  cases hps : (getQueueUnitResourceRequirementAds qu).lookup name with
  | none => rfl
  | some ps =>
    have hname := requirement_keyed hps
    simp only [Option.bind_some, ask]
    split
    next => rfl
    next =>
      split
      next => rfl
      next => rw [Option.map_some, ← hname]

theorem missing_keyed {reserved : Admissions}
    (h : (missing reserved (getQueueUnitResourceRequirementAds qu)).lookup name = some ad) : ad.name = name := by
  rw [lookup_missing] at h
  obtain ⟨ps, _, h⟩ := Option.bind_eq_some_iff.mp h
  obtain ⟨r, _, rfl⟩ := Option.map_eq_some_iff.mp h
  rfl

/-- With plugins that pass the request through, each podset is granted what it
misses, and a podset with too much is granted its count again. -/
theorem runFilterPlugins_passThrough (hne : pls ≠ []) (hpls : ∀ pl ∈ pls, PassThrough pl) (unit : QueueUnitInfo) :
    ∃ result, runFilterPlugins pls unit = .ok result ∧
      ∀ name, result.lookup name =
        ((getQueueUnitResourceRequirementAds unit.unit).lookup name).bind (fun ps =>
          (grant ps.replicas ((((getAdmissionMap unit.unit).lookup name).map
            FrameworkAdmission.replicas).getD 0)).map (fun r => ⟨name, r⟩)) := by
  set request := missing (getAdmissionMap unit.unit) (getQueueUnitResourceRequirementAds unit.unit) with hrequest
  have hkeyed : ∀ name ad, request.lookup name = some ad → ad.name = name := fun _ _ h => missing_keyed h
  have habove : Above request (GoMap.range (fun name _ _ => some ⟨name, maxInt64⟩) ∅ request) := by
    intro name
    rw [GoMap.lookup_range]
    cases hr : request.lookup name with
    | none => exact Finmap.lookup_empty name
    | some r =>
      refine ⟨_, rfl, ?_⟩
      by_cases hmax : r.replicas = maxInt64
      · left
        rw [← hmax, ← hkeyed name r hr]
      · right
        exact Int64.lt_of_le_of_ne (Int64.le_maxValue r.replicas) hmax
  refine ⟨prune request, ?_, ?_⟩
  · rw [runFilterPlugins, ← hrequest, runPlugins_passThrough hkeyed hpls habove, if_neg hne]
    rfl
  · intro name
    rw [lookup_prune, hrequest, lookup_missing]
    cases (getQueueUnitResourceRequirementAds unit.unit).lookup name with
    | none => rfl
    | some ps =>
      rw [Option.bind_some, Option.bind_some, grant, Option.filter_map]
      rfl

end KoordQueue.Scheduler.Filter
