import KoordQueue.Lib.Float64
import KoordQueue.Quota.ConservationRuns
import Mathlib.Tactic.Linarith

namespace KoordQueue.Quota.PathCondition

open Api Resources UnitInfo Info Cache Conservation ConservationRuns Run Float64

/-- `checkResource` in the arithmetic of the source, which rounds after every operation. -/
def checkResource64 (limit used req : Amounts) (oversellRate : ℚ) : Finset ResourceName :=
  req.keys.filter (fun resKey => (limit.lookup resKey).any (fun l =>
    float64 (float64 (float64 l.toInt * oversellRate) - float64 (amount used resKey).toInt) <
      float64 (amount req resKey).toInt))

def quotaCheck64 (currentQuota : QuotaName) (queueUnit : QueueUnitInfo) (oversellRate : ℚ)
    (info : ElasticQuotaInfo) : Except CheckError Unit :=
  let queueUnitRes := (newResource queueUnit.unit.spec.resource).resources
  if info.max = ∅ ∧ queueUnitRes ≠ ∅ then .error (.emptyLimit currentQuota)
  else if checkResource64 info.max info.used queueUnitRes oversellRate ≠ ∅ then
    .error (.limited currentQuota (checkResource64 info.max info.used queueUnitRes oversellRate))
  else .ok ()

/-- The loop of `checkUsage` around a check of one quota. -/
def followPath (check : QuotaName → ElasticQuotaInfo → Except CheckError Unit) (c : CacheImpl) (item : String) :
    Nat → List QuotaName → QuotaName → Except CheckError Unit
  | 0, visited, currentQuota => .error (.cycleReference item currentQuota visited)
  | n + 1, visited, currentQuota =>
    if currentQuota = koordRootQuota then .ok ()
    else if currentQuota ∈ visited then .error (.cycleReference item currentQuota visited)
    else match c.quotas.lookup currentQuota with
      | none => .error (.quotaNotExist item currentQuota (visited ++ [currentQuota]))
      | some info => do
          check currentQuota info
          match c.quotaParent.lookup currentQuota with
          | some parent => followPath check c item n (visited ++ [currentQuota]) parent
          | none => .ok ()

def checkUsage64 (c : CacheImpl) (queueUnitQuota : QuotaName) (queueUnit : QueueUnitInfo) (oversellRate : ℚ) :
    Except CheckError Unit :=
  followPath (fun q => quotaCheck64 q queueUnit oversellRate) c queueUnit.name (c.quotas.keys.card + 1) []
    queueUnitQuota

section Loop

variable {c : CacheImpl} {item : String} {check check' : QuotaName → ElasticQuotaInfo → Except CheckError Unit}

theorem checkUsagePath_eq (u : QueueUnitInfo) (rate : ℚ) (n : Nat) (visited : List QuotaName) (q : QuotaName) :
    checkUsagePath c u rate n visited q =
      followPath (fun q => Info.checkUsage q u rate) c u.name n visited q := by
  induction n generalizing visited q with
  | zero => rfl
  | succ n ih =>
    rw [checkUsagePath, followPath]
    cases c.quotas.lookup q with
    | none => rfl
    | some info =>
      cases c.quotaParent.lookup q with
      | none => rfl
      | some parent =>
        dsimp only
        rw [ih]

theorem followPath_congr (h : ∀ x info, c.quotas.lookup x = some info → check x info = check' x info)
    (n : Nat) (visited : List QuotaName) (q : QuotaName) :
    followPath check c item n visited q = followPath check' c item n visited q := by
  induction n generalizing visited q with
  | zero => rfl
  | succ n ih =>
    rw [followPath, followPath]
    cases hl : c.quotas.lookup q with
    | none => rfl
    | some info => simp only [h q info hl, ih]

/-- The quotas from `q` up to the root, along the parent links. -/
inductive Path (quotaParent : GoMap QuotaName QuotaName) : QuotaName → List QuotaName → Prop
  | root : Path quotaParent koordRootQuota []
  | up {q p : QuotaName} {path : List QuotaName} (hne : q ≠ koordRootQuota)
      (hp : quotaParent.lookup q = some p) (rest : Path quotaParent p path) : Path quotaParent q (q :: path)

structure Fuelled (c : CacheImpl) (n : Nat) (visited : List QuotaName) : Prop where
  exist : ∀ x ∈ visited, x ∈ c.quotas
  nodup : visited.Nodup
  enough : c.quotas.keys.card < n + visited.length

variable {visited : List QuotaName} {n : Nat} {q : QuotaName}

theorem Fuelled.start (h : c.quotas.keys.card < n) : Fuelled c n [] :=
  ⟨by simp, List.nodup_nil, by simpa using h⟩

theorem not_fuelled_zero : ¬ Fuelled c 0 visited := by
  intro h
  have hle : visited.length ≤ c.quotas.keys.card :=
    ParentWalk.length_le_card (fun x hx => Finmap.mem_keys.mpr (h.exist x hx)) h.nodup
  have := h.enough
  omega

theorem Fuelled.next (h : Fuelled c (n + 1) visited)
    (hq : q ∈ c.quotas) (hnew : q ∉ visited) : Fuelled c n (visited ++ [q]) where
  exist := by
    intro x hx
    rcases List.mem_append.mp hx with hx | hx
    · exact h.exist x hx
    · rwa [List.mem_singleton.mp hx]
  nodup := List.nodup_append_comm.mp (List.nodup_cons.mpr ⟨hnew, h.nodup⟩)
  enough := by
    have := h.enough
    rw [List.length_append, List.length_singleton]
    omega

theorem followPath_fuel {m : Nat} (hn : Fuelled c n visited) (hm : Fuelled c m visited) :
    followPath check c item n visited q = followPath check c item m visited q := by
  induction n generalizing m visited q with
  | zero => exact absurd hn not_fuelled_zero
  | succ n ih =>
    cases m with
    | zero => exact absurd hm not_fuelled_zero
    | succ m =>
      rw [followPath, followPath]
      split
      next => rfl
      next =>
        split
        next => rfl
        next hnew =>
          cases hl : c.quotas.lookup q with
          | none => rfl
          | some info =>
            have hq : q ∈ c.quotas := Finmap.mem_iff.mpr ⟨info, hl⟩
            cases hp : c.quotaParent.lookup q with
            | none => rfl
            | some p => simp only [ih (hn.next hq hnew) (hm.next hq hnew)]

theorem path_iff_of_ne {links : GoMap QuotaName QuotaName} {path : List QuotaName} (hne : q ≠ koordRootQuota) :
    Path links q path ↔ ∃ p rest, path = q :: rest ∧ links.lookup q = some p ∧ Path links p rest := by
  constructor
  · rintro (_ | ⟨_, hp, hrest⟩)
    · exact absurd rfl hne
    · exact ⟨_, _, rfl, hp, hrest⟩
  · rintro ⟨p, rest, rfl, hp, hrest⟩
    exact .up hne hp hrest

theorem no_path_of_blocked (hne : q ≠ koordRootQuota)
    (hq : q ∈ visited ∨ ∀ info, c.quotas.lookup q = some info → check q info ≠ .ok ()) :
    ¬ ∃ path, Path c.quotaParent q path ∧ (visited ++ path).Nodup ∧
        ∀ x ∈ path, ∃ info, c.quotas.lookup x = some info ∧ check x info = .ok () := by
  rintro ⟨path, hp, hnodup, hall⟩
  obtain ⟨p, rest, rfl, _, _⟩ := (path_iff_of_ne hne).mp hp
  rcases hq with hv | hfail
  · exact (List.nodup_append.mp hnodup).2.2 q hv q List.mem_cons_self rfl
  · obtain ⟨info, hinfo, hok⟩ := hall q List.mem_cons_self
    exact hfail info hinfo hok

/-- The loop succeeds exactly when the links lead to the root without coming
back to a quota, and each quota on the way exists and passes. -/
theorem followPath_ok_iff (hc : Linked c) (hn : Fuelled c n visited) :
    followPath check c item n visited q = .ok () ↔
      ∃ path, Path c.quotaParent q path ∧ (visited ++ path).Nodup ∧
        ∀ x ∈ path, ∃ info, c.quotas.lookup x = some info ∧ check x info = .ok () := by
  induction n generalizing visited q with
  | zero => exact absurd hn not_fuelled_zero
  | succ n ih =>
    rw [followPath]
    by_cases hroot : q = koordRootQuota
    · subst q
      rw [if_pos rfl]
      refine iff_of_true rfl ⟨[], .root, ?_, by simp⟩
      rw [List.append_nil]
      exact hn.nodup
    · rw [if_neg hroot]
      by_cases hv : q ∈ visited
      · rw [if_pos hv]
        exact iff_of_false (by simp) (no_path_of_blocked hroot (Or.inl hv))
      · rw [if_neg hv]
        cases hl : c.quotas.lookup q with
        | none =>
          refine iff_of_false (by simp) (no_path_of_blocked hroot (Or.inr ?_))
          intro info hinfo
          rw [hl] at hinfo
          cases hinfo
        | some info =>
          have hq : q ∈ c.quotas := Finmap.mem_iff.mpr ⟨info, hl⟩
          obtain ⟨p, hp⟩ := Finmap.mem_iff.mp ((hc q).mpr hq)
          simp only [hp]
          cases hcheck : check q info with
          | error e =>
            refine iff_of_false (by exact fun h => nomatch h) (no_path_of_blocked hroot (Or.inr ?_))
            intro info' hinfo' hok
            rw [hl, Option.some.injEq] at hinfo'
            subst info'
            rw [hcheck] at hok
            cases hok
          | ok _ =>
            refine (ih (hn.next hq hv)).trans ?_
            constructor
            · rintro ⟨rest, hrest, hnodup, hall⟩
              refine ⟨q :: rest, .up hroot hp hrest, by simpa using hnodup, ?_⟩
              exact List.forall_mem_cons.mpr ⟨⟨info, hl, hcheck⟩, hall⟩
            · rintro ⟨path, hpa, hnodup, hall⟩
              obtain ⟨p', rest, rfl, hp', hrest⟩ := (path_iff_of_ne hroot).mp hpa
              rw [hp, Option.some.injEq] at hp'
              subst p'
              exact ⟨rest, hrest, by simpa using hnodup, (List.forall_mem_cons.mp hall).2⟩

end Loop

section Room

/-- All values of the map are below `2 ^ 52` in absolute value. -/
def small (m : Amounts) : Bool := GoMap.all m (fun _ v => decide (|v.toInt| < 2 ^ 52))

def Small (c : CacheImpl) (u : QueueUnitInfo) : Prop :=
  GoMap.all c.quotas (fun _ info => small info.used && small info.max) = true ∧
    small (newResource u.unit.spec.resource).resources = true
deriving Decidable

/-- The quota is there, limits something unless the unit lists no resource, and
has room for what the unit lists, wherever it sets a limit. -/
def Room (c : CacheImpl) (u : QueueUnitInfo) (x : QuotaName) : Prop :=
  ∃ info, c.quotas.lookup x = some info ∧ (info.max = ∅ → u.unit.spec.resource = ∅) ∧
    ∀ k ∈ u.unit.spec.resource, ∀ m, info.max.lookup k = some m →
      (amount info.used k).toInt + (amount (newResource u.unit.spec.resource).resources k).toInt ≤ m.toInt

variable {c : CacheImpl} {u : QueueUnitInfo} {info : ElasticQuotaInfo}

theorem mem_newResource (rl : ResourceList) (k : ResourceName) : k ∈ (newResource rl).resources ↔ k ∈ rl := by
  rw [Finmap.mem_iff, Finmap.mem_iff]
  simp only [lookup_newResource, Option.map_eq_some_iff]
  constructor
  · rintro ⟨_, v, hv, _⟩
    exact ⟨v, hv⟩
  · rintro ⟨v, hv⟩
    exact ⟨_, v, hv, rfl⟩

theorem newResource_eq_empty {rl : ResourceList} : (newResource rl).resources = ∅ ↔ rl = ∅ := by
  constructor
  · intro h
    apply Finmap.ext_lookup
    intro k
    rw [Finmap.lookup_empty, Finmap.lookup_eq_none, ← mem_newResource, h]
    exact Finmap.notMem_empty
  · rintro rfl
    rfl

variable {limit m req used : Amounts} {x : QuotaName}

theorem small_lookup (h : small m = true) {k : ResourceName} {v : Int64} (hv : m.lookup k = some v) :
    |v.toInt| < 2 ^ 52 := by
  rw [small, GoMap.all_iff] at h
  exact of_decide_eq_true (h k v hv)

theorem small_amount (h : small m = true) (k : ResourceName) : |(amount m k).toInt| < 2 ^ 52 := by
  rw [amount]
  cases hv : m.lookup k with
  | none => decide
  | some v => exact small_lookup h hv

theorem checkResource64_eq (hl : small limit = true) (hu : small used = true)
    (hr : small req = true) : checkResource64 limit used req 1 = checkResource limit used req 1 := by
  apply Finset.filter_congr
  intro k _
  cases hk : limit.lookup k with
  | none => rfl
  | some l =>
    have hl' := abs_lt.mp (small_lookup hl hk)
    have hu' := abs_lt.mp (small_amount hu k)
    have hr' := abs_lt.mp (small_amount hr k)
    have hdiff : |l.toInt - (amount used k).toInt| < 2 ^ 53 := by
      rw [abs_lt]
      omega
    have hlimit : |l.toInt| < 2 ^ 53 := by
      rw [abs_lt]
      omega
    have hused : |(amount used k).toInt| < 2 ^ 53 := by
      rw [abs_lt]
      omega
    have hreq : |(amount req k).toInt| < 2 ^ 53 := by
      rw [abs_lt]
      omega
    simp only [Option.any_some, mul_one]
    rw [float64_intCast hlimit, float64_intCast hlimit, float64_intCast hused, float64_intCast hreq, ← Int.cast_sub,
      float64_intCast hdiff]

theorem quotaCheck64_eq (h : Small c u) (hinfo : c.quotas.lookup x = some info) :
    quotaCheck64 x u 1 info = Info.checkUsage x u 1 info := by
  obtain ⟨hquotas, hreq⟩ := h
  rw [GoMap.all_iff] at hquotas
  have hboth := Bool.and_eq_true_iff.mp (hquotas x info hinfo)
  simp only [quotaCheck64, Info.checkUsage, checkResource64_eq hboth.2 hboth.1 hreq]

theorem checkUsage64_eq (h : Small c u) (q : QuotaName) : checkUsage64 c q u 1 = Cache.checkUsage c q u 1 := by
  rw [checkUsage64, Cache.checkUsage, checkUsagePath_eq]
  exact followPath_congr (fun x info hinfo => quotaCheck64_eq h hinfo) _ _ _

theorem checkResource_eq_empty :
    checkResource limit used req 1 = ∅ ↔ ∀ k ∈ req, ∀ m, limit.lookup k = some m →
      (amount used k).toInt + (amount req k).toInt ≤ m.toInt := by
  rw [checkResource, Finset.filter_eq_empty_iff]
  apply forall₂_congr
  intro k _
  cases limit.lookup k with
  | none => simp
  | some l =>
    have hcast : (l.toInt : ℚ) * 1 - ((amount used k).toInt : ℚ) < ((amount req k).toInt : ℚ) ↔
        ¬ (amount used k).toInt + (amount req k).toInt ≤ l.toInt := by
      rw [mul_one, sub_lt_iff_lt_add', not_le]
      exact_mod_cast Iff.rfl
    simp only [Option.any_some, decide_eq_true_eq, hcast, not_not, Option.some.injEq, forall_eq']

theorem quotaCheck_ok_iff (hinfo : c.quotas.lookup x = some info) :
    Info.checkUsage x u 1 info = .ok () ↔ Room c u x := by
  have hroom : Room c u x ↔ (info.max = ∅ → u.unit.spec.resource = ∅) ∧
      ∀ k ∈ u.unit.spec.resource, ∀ m, info.max.lookup k = some m →
        (amount info.used k).toInt + (amount (newResource u.unit.spec.resource).resources k).toInt ≤ m.toInt := by
    simp only [Room, hinfo, Option.some.injEq, exists_eq_left']
  rw [hroom, Info.checkUsage]
  simp only [← mem_newResource, ← checkResource_eq_empty]
  by_cases hempty : info.max = ∅ ∧ (newResource u.unit.spec.resource).resources ≠ ∅
  · rw [if_pos hempty]
    refine iff_of_false (by simp) ?_
    rintro ⟨h, _⟩
    exact hempty.2 (newResource_eq_empty.mpr (h hempty.1))
  · rw [if_neg hempty]
    have hfirst : info.max = ∅ → u.unit.spec.resource = ∅ := by
      intro hmax
      by_contra hne
      exact hempty ⟨hmax, fun h => hne (newResource_eq_empty.mp h)⟩
    by_cases hfull : checkResource info.max info.used (newResource u.unit.spec.resource).resources 1 ≠ ∅
    · rw [if_pos hfull]
      refine iff_of_false (by simp) ?_
      exact fun h => hfull h.2
    · rw [if_neg hfull]
      exact iff_of_true rfl ⟨hfirst, not_not.mp hfull⟩

end Room

/-- Over every cache that calls have built, the check ends and decides whether
the quotas from `q` up to the root all have room. -/
theorem checkUsage64_ok_iff_path [ResourceHelpers] {ops : List CacheOp} {c : CacheImpl}
    (hrun : exec step buildCache ops = some c) (q : QuotaName) (u : QueueUnitInfo) (hsmall : Small c u) :
    (∀ n, c.quotas.keys.card < n →
      followPath (fun q => quotaCheck64 q u 1) c u.name n [] q = checkUsage64 c q u 1) ∧
    (checkUsage64 c q u 1 = .ok () ↔
      ∃ path, Path c.quotaParent q path ∧ path.Nodup ∧ ∀ x ∈ path, Room c u x) := by
  have henough : Fuelled c (c.quotas.keys.card + 1) [] := .start (Nat.lt_succ_self _)
  constructor
  · intro n hn
    exact followPath_fuel (.start hn) henough
  · rw [checkUsage64_eq hsmall, Cache.checkUsage, checkUsagePath_eq, followPath_ok_iff (linked_run hrun) henough]
    simp only [List.nil_append]
    apply exists_congr
    intro path
    apply and_congr_right
    intro _
    apply and_congr_right
    intro _
    apply forall₂_congr
    intro x _
    constructor
    · rintro ⟨info, hinfo, hok⟩
      exact (quotaCheck_ok_iff hinfo).mp hok
    · intro hroom
      obtain ⟨info, hinfo, _⟩ := id hroom
      exact ⟨info, hinfo, (quotaCheck_ok_iff hinfo).mpr hroom⟩

def fullRun : List CacheOp :=
  [.addOrUpdateQuota (cpuQuota "p" koordRootQuota 20), .addOrUpdateQuota (cpuQuota "a" "p" 10),
   .reserve "a" (cpuUnitInfo "u" "a" 6 .dequeued)]

theorem fullRun_has_room : ∃ c, exec (@step noPods) buildCache fullRun = some c ∧
    ∃ path, Path c.quotaParent "a" path ∧ path.Nodup ∧
      ∀ x ∈ path, Room c (cpuUnitInfo "v" "a" 4 .enqueued) x := by
  have hrun : (exec (@step noPods) buildCache fullRun).any (fun c =>
      decide (Small c (cpuUnitInfo "v" "a" 4 .enqueued)) &&
        decide (Cache.checkUsage c "a" (cpuUnitInfo "v" "a" 4 .enqueued) 1 = .ok ())) = true := by
    decide +kernel
  obtain ⟨c, hc, hcheck⟩ := (Option.any_eq_true _ _).mp hrun
  obtain ⟨hsmall, hok⟩ := Bool.and_eq_true_iff.mp hcheck
  have h64 : checkUsage64 c "a" (cpuUnitInfo "v" "a" 4 .enqueued) 1 = .ok () := by
    rw [checkUsage64_eq (of_decide_eq_true hsmall)]
    exact of_decide_eq_true hok
  exact ⟨c, hc, (@checkUsage64_ok_iff_path noPods fullRun c hc "a" (cpuUnitInfo "v" "a" 4 .enqueued)
    (of_decide_eq_true hsmall)).2.mp h64⟩

end KoordQueue.Quota.PathCondition
