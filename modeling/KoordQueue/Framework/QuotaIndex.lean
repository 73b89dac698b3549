import KoordQueue.Lib.Run
import KoordQueue.Queue.Policy

namespace KoordQueue.Framework.QuotaIndex

open Api KoordQueue.Queue.Policy

abbrev NamespacedName := String × String

def namespacedName (qu : QueueUnit) : NamespacedName := (qu.ns, qu.name)

/-- What the visibility API shows of a unit. -/
structure IndexedUnit where
  name : String
  ns : String
  quotaName : String
deriving DecidableEq

abbrev ByQuota := GoMap String (GoMap NamespacedName IndexedUnit)

structure Index where
  queueUnitQuotaMapping : GoMap UID (List String) := ∅
  queueUnitsByQuota : ByQuota := ∅
deriving DecidableEq

def getQueueUnitInfoByQuota (quota : String) (f : Index) : Multiset IndexedUnit :=
  ((f.queueUnitsByQuota.lookup quota).getD ∅).entries.map (fun e => e.2)

def removeOld (nn : NamespacedName) (oldQuotas : List String) (byQuota : ByQuota) : ByQuota :=
  oldQuotas.foldl (fun byQuota oldQuota =>
    match byQuota.lookup oldQuota with
    | some m => byQuota.insert oldQuota (m.erase nn)
    | none => byQuota) byQuota

def addNew (qu : QueueUnit) (quotaNames : List String) (byQuota : ByQuota) : ByQuota :=
  quotaNames.foldl (fun byQuota quotaName =>
    byQuota.insert quotaName (((byQuota.lookup quotaName).getD ∅).insert (namespacedName qu)
      { name := qu.name, ns := qu.ns, quotaName })) byQuota

def recorded (f : Index) (uid : UID) : List String := (f.queueUnitQuotaMapping.lookup uid).getD []

def onQueueUnitAddOrUpdate (fw : Handle) (qu : QueueUnit) (f : Index) : Index :=
  match fw.getQueueUnitQuotaName qu with
  | none => f
  | some quotaNames =>
    { queueUnitQuotaMapping := f.queueUnitQuotaMapping.insert qu.uid quotaNames
      queueUnitsByQuota := addNew qu quotaNames
        (removeOld (namespacedName qu) (recorded f qu.uid) f.queueUnitsByQuota) }

def onQueueUnitDelete (qu : QueueUnit) (f : Index) : Index where
  queueUnitQuotaMapping := f.queueUnitQuotaMapping.erase qu.uid
  queueUnitsByQuota := removeOld (namespacedName qu) (recorded f qu.uid) f.queueUnitsByQuota

/-- The index next to the units that exist, each in the latest version that the
informer delivered. -/
structure World where
  index : Index := {}
  existing : GoMap NamespacedName QueueUnit := ∅
deriving DecidableEq

inductive Event
  | add (qu : QueueUnit)
  | update (newObj : QueueUnit)
  | delete (qu : QueueUnit)

def OwnUid (w : World) (qu : QueueUnit) : Prop :=
  w.existing.all (fun k u => u.uid ≠ qu.uid || k = namespacedName qu) = true
deriving Decidable

/-- Add events are for units that are not there yet, the other events for units
that are. What is deleted is the unit that was there, in any version. -/
def Enabled (fw : Handle) (w : World) : Event → Prop
  | .add qu => namespacedName qu ∉ w.existing ∧ OwnUid w qu ∧ (fw.getQueueUnitQuotaName qu).isSome = true
  | .update qu => namespacedName qu ∈ w.existing ∧ OwnUid w qu ∧ (fw.getQueueUnitQuotaName qu).isSome = true
  | .delete qu => (w.existing.lookup (namespacedName qu)).any (fun u => u.uid = qu.uid) = true

instance decidableEnabled (fw : Handle) (w : World) (e : Event) : Decidable (Enabled fw w e) := by
  delta Enabled
  split <;> infer_instance

def act (fw : Handle) (w : World) : Event → World
  | .add qu | .update qu =>
    ⟨onQueueUnitAddOrUpdate fw qu w.index, w.existing.insert (namespacedName qu) qu⟩
  | .delete qu => ⟨onQueueUnitDelete qu w.index, w.existing.erase (namespacedName qu)⟩

def step (fw : Handle) (w : World) (e : Event) : Option World :=
  if Enabled fw w e then some (act fw w e) else none

def quotaNames (fw : Handle) (qu : QueueUnit) : List String := (fw.getQueueUnitQuotaName qu).getD []

/-- Every quota lists the existing units that name it, each once. -/
def Exact (fw : Handle) (w : World) : Prop :=
  ∀ quota, ((getQueueUnitInfoByQuota quota w.index).map (fun e => (e.ns, e.name))).Nodup ∧
    ∀ e, e ∈ getQueueUnitInfoByQuota quota w.index ↔ e.quotaName = quota ∧
      ∃ qu, w.existing.lookup (e.ns, e.name) = some qu ∧ quota ∈ quotaNames fw qu

/-- A unit that replaces one with another UID names every quota of that one,
unless an earlier version under its own UID did. -/
def Covers (fw : Handle) (w : World) : Event → Prop
  | .update qu => ∀ old ∈ w.existing.lookup (namespacedName qu), old.uid ≠ qu.uid →
      ∀ quota ∈ quotaNames fw old, quota ∈ quotaNames fw qu ∨ quota ∈ recorded w.index qu.uid
  | .add _ | .delete _ => True

def entry (byQuota : ByQuota) (quota : String) (k : NamespacedName) : Option IndexedUnit :=
  (byQuota.lookup quota).bind (fun m => m.lookup k)

theorem entry_insert (byQuota : ByQuota) (quota q : String) (m : GoMap NamespacedName IndexedUnit)
    (k : NamespacedName) :
    entry (byQuota.insert quota m) q k = if q = quota then m.lookup k else entry byQuota q k := by
  rw [entry, GoMap.lookup_insert_eq]
  split
  next => rfl
  next => rfl

theorem entry_removeOld (nn : NamespacedName) (oldQuotas : List String) (byQuota : ByQuota) (q : String)
    (k : NamespacedName) :
    entry (removeOld nn oldQuotas byQuota) q k =
      if k = nn ∧ q ∈ oldQuotas then none else entry byQuota q k := by
  rw [removeOld]
  induction oldQuotas generalizing byQuota with
  | nil => simp
  | cons oldQuota oldQuotas ih =>
    rw [List.foldl_cons, ih]
    split
    next h => rw [if_pos ⟨h.1, List.mem_cons_of_mem oldQuota h.2⟩]
    next h =>
      split
      next m hm =>
        rw [entry_insert, GoMap.lookup_erase_eq]
        by_cases hq : q = oldQuota
        · subst hq
          by_cases hk : k = nn
          · simp [hk]
          · simp [hk, entry, hm]
        · have hmem : ¬ (k = nn ∧ q ∈ oldQuota :: oldQuotas) := by
            simpa [hq] using h
          rw [if_neg hq, if_neg hmem]
      next hm =>
        by_cases hq : q = oldQuota
        · subst hq
          have hnone : entry byQuota q k = none := by rw [entry, hm, Option.bind_none]
          rw [hnone, ite_self]
        · have hmem : ¬ (k = nn ∧ q ∈ oldQuota :: oldQuotas) := by
            simpa [hq] using h
          rw [if_neg hmem]

theorem entry_addNew (qu : QueueUnit) (names : List String) (byQuota : ByQuota) (q : String) (k : NamespacedName) :
    entry (addNew qu names byQuota) q k =
      if k = namespacedName qu ∧ q ∈ names then some ⟨qu.name, qu.ns, q⟩ else entry byQuota q k := by
  rw [addNew]
  induction names generalizing byQuota with
  | nil => simp
  | cons name names ih =>
    rw [List.foldl_cons, ih]
    split
    next h => rw [if_pos ⟨h.1, List.mem_cons_of_mem name h.2⟩]
    next h =>
      rw [entry_insert, GoMap.lookup_insert_eq]
      by_cases hq : q = name
      · subst hq
        by_cases hk : k = namespacedName qu
        · simp [hk]
        · cases hl : byQuota.lookup q <;> simp [hk, entry, hl]
      · have hmem : ¬ (k = namespacedName qu ∧ q ∈ name :: names) := by
          simpa [hq] using h
        rw [if_neg hq, if_neg hmem]

variable {fw : Handle} {w t : World} {e : Event} {qu : QueueUnit}

/-- The entries say what they are filed under, the UIDs of the existing units
are their own, and each has the quota names of its latest version on record. -/
structure Filed (fw : Handle) (w : World) : Prop where
  entry_eq : ∀ {q k u}, entry w.index.queueUnitsByQuota q k = some u → u = ⟨k.2, k.1, q⟩
  own : ∀ {k u}, w.existing.lookup k = some u → OwnUid w u
  recorded_eq : ∀ {k u}, w.existing.lookup k = some u → recorded w.index u.uid = quotaNames fw u

theorem ownUid_iff : OwnUid w qu ↔
    ∀ k u, w.existing.lookup k = some u → u.uid = qu.uid → k = namespacedName qu := by
  rw [OwnUid, GoMap.all_iff]
  simp only [ne_eq, decide_not, Bool.or_eq_true, Bool.not_eq_true', decide_eq_false_iff_not, decide_eq_true_eq,
    or_iff_not_imp_left, Classical.not_not]

theorem entry_of_mem {quota : String} {k : NamespacedName} {v : IndexedUnit} {byQuota : ByQuota}
    (h : ⟨k, v⟩ ∈ ((byQuota.lookup quota).getD ∅).entries) : entry byQuota quota k = some v := by
  cases hm : byQuota.lookup quota with
  | none =>
    rw [hm] at h
    cases h
  | some m =>
    rw [hm] at h
    rw [entry, hm]
    exact Finmap.lookup_eq_some_iff.mpr h

theorem mem_getQueueUnitInfoByQuota (hw : Filed fw w) (quota : String) (u : IndexedUnit) :
    u ∈ getQueueUnitInfoByQuota quota w.index ↔
      u.quotaName = quota ∧ (entry w.index.queueUnitsByQuota quota (u.ns, u.name)).isSome = true := by
  rw [getQueueUnitInfoByQuota, Multiset.mem_map]
  constructor
  · rintro ⟨⟨k, v⟩, hin, rfl⟩
    have hv := entry_of_mem hin
    obtain rfl := hw.entry_eq hv
    exact ⟨rfl, Option.isSome_of_eq_some hv⟩
  · rintro ⟨rfl, hs⟩
    obtain ⟨v, hv⟩ := Option.isSome_iff_exists.mp hs
    obtain ⟨m, hm, hl⟩ := Option.bind_eq_some_iff.mp hv
    refine ⟨⟨(u.ns, u.name), v⟩, ?_, hw.entry_eq hv⟩
    rw [hm]
    exact Finmap.lookup_eq_some_iff.mp hl

theorem nodup_getQueueUnitInfoByQuota (hw : Filed fw w) (quota : String) :
    ((getQueueUnitInfoByQuota quota w.index).map (fun e => (e.ns, e.name))).Nodup := by
  rw [getQueueUnitInfoByQuota, Multiset.map_map]
  have hkeys : ((w.index.queueUnitsByQuota.lookup quota).getD ∅).entries.map
      ((fun e => (e.ns, e.name)) ∘ fun e => e.2) =
      ((w.index.queueUnitsByQuota.lookup quota).getD ∅).entries.map Sigma.fst := by
    apply Multiset.map_congr rfl
    rintro ⟨k, v⟩ hin
    rw [Function.comp_apply, hw.entry_eq (entry_of_mem hin)]
  rw [hkeys]
  exact (Finmap.keys ((w.index.queueUnitsByQuota.lookup quota).getD ∅)).nodup

theorem exact_iff (hw : Filed fw w) : Exact fw w ↔ ∀ q k,
    (entry w.index.queueUnitsByQuota q k).isSome = true ↔
      ∃ qu, w.existing.lookup k = some qu ∧ q ∈ quotaNames fw qu := by
  constructor
  · intro h q k
    have hmem := (h q).2 ⟨k.2, k.1, q⟩
    rw [mem_getQueueUnitInfoByQuota hw] at hmem
    simpa using hmem
  · intro h quota
    refine ⟨nodup_getQueueUnitInfoByQuota hw quota, fun u => ?_⟩
    rw [mem_getQueueUnitInfoByQuota hw, h]

theorem filed_empty (fw : Handle) : Filed fw {} where
  entry_eq h := by simp [entry] at h
  own h := by simp at h
  recorded_eq h := by simp at h

theorem exact_empty (fw : Handle) : Exact fw {} := by
  rw [exact_iff (filed_empty fw)]
  simp [entry]

theorem onQueueUnitAddOrUpdate_eq (hs : (fw.getQueueUnitQuotaName qu).isSome = true) (f : Index) :
    onQueueUnitAddOrUpdate fw qu f =
      { queueUnitQuotaMapping := f.queueUnitQuotaMapping.insert qu.uid (quotaNames fw qu)
        queueUnitsByQuota := addNew qu (quotaNames fw qu)
          (removeOld (namespacedName qu) (recorded f qu.uid) f.queueUnitsByQuota) } := by
  obtain ⟨names, hnames⟩ := Option.isSome_iff_exists.mp hs
  simp only [onQueueUnitAddOrUpdate, quotaNames, hnames, Option.getD_some]

/-- The entries after a version was delivered: those of its name are the quotas
it names, with what the record of its UID does not cover left over. -/
theorem entry_onQueueUnitAddOrUpdate (hs : (fw.getQueueUnitQuotaName qu).isSome = true) (f : Index) (q : String)
    (k : NamespacedName) :
    entry (onQueueUnitAddOrUpdate fw qu f).queueUnitsByQuota q k =
      if k = namespacedName qu ∧ q ∈ quotaNames fw qu then some ⟨qu.name, qu.ns, q⟩
      else if k = namespacedName qu ∧ q ∈ recorded f qu.uid then none
      else entry f.queueUnitsByQuota q k := by
  rw [onQueueUnitAddOrUpdate_eq hs, entry_addNew, entry_removeOld]

theorem recorded_insert (f : Index) (uid v : UID) (names : List String) (b : ByQuota) :
    recorded ⟨f.queueUnitQuotaMapping.insert uid names, b⟩ v = if v = uid then names else recorded f v := by
  rw [recorded, GoMap.lookup_insert_eq]
  split
  next => rfl
  next => rfl

theorem filed_addOrUpdate (hw : Filed fw w) (hown : OwnUid w qu) (hs : (fw.getQueueUnitQuotaName qu).isSome = true) :
    Filed fw ⟨onQueueUnitAddOrUpdate fw qu w.index, w.existing.insert (namespacedName qu) qu⟩ where
  entry_eq {q k u} h := by
    rw [entry_onQueueUnitAddOrUpdate hs] at h
    split at h
    next hk =>
      cases h
      rw [hk.1, namespacedName]
    next =>
      split at h
      next => cases h
      next => exact hw.entry_eq h
  own {k u} h := by
    rw [GoMap.lookup_insert_eq] at h
    rw [ownUid_iff] at hown ⊢
    intro k' v hv hu
    rw [GoMap.lookup_insert_eq] at hv
    split at h
    next hk =>
      cases h
      split at hv
      next hk' => exact hk'
      next => exact hown k' v hv hu
    next hk =>
      have hne : u.uid ≠ qu.uid := fun he => hk (hown k u h he)
      split at hv
      next hk' =>
        cases hv
        exact absurd hu.symm hne
      next => exact ownUid_iff.mp (hw.own h) k' v hv hu
  recorded_eq {k u} h := by
    rw [GoMap.lookup_insert_eq] at h
    rw [onQueueUnitAddOrUpdate_eq hs, recorded_insert]
    split at h
    next hk =>
      cases h
      rw [if_pos rfl]
    next hk =>
      have hne : u.uid ≠ qu.uid := fun he => hk (ownUid_iff.mp hown k u h he)
      rw [if_neg hne, hw.recorded_eq h]

theorem filed_delete (hw : Filed fw w) {old : QueueUnit}
    (hold : w.existing.lookup (namespacedName qu) = some old) (huid : old.uid = qu.uid) :
    Filed fw ⟨onQueueUnitDelete qu w.index, w.existing.erase (namespacedName qu)⟩ where
  entry_eq {q k u} h := by
    rw [onQueueUnitDelete, entry_removeOld] at h
    split at h
    next => cases h
    next => exact hw.entry_eq h
  own {k u} h := by
    rw [GoMap.lookup_erase_eq] at h
    split at h
    next => cases h
    next =>
      rw [ownUid_iff]
      intro k' v hv hu
      rw [GoMap.lookup_erase_eq] at hv
      split at hv
      next => cases hv
      next => exact ownUid_iff.mp (hw.own h) k' v hv hu
  recorded_eq {k u} h := by
    rw [GoMap.lookup_erase_eq] at h
    split at h
    next => cases h
    next hk =>
      have hne : u.uid ≠ qu.uid := by
        intro he
        have hown := ownUid_iff.mp (hw.own hold)
        exact hk ((hown k u h (he.trans huid.symm)).trans (hown _ _ hold rfl).symm)
      rw [← hw.recorded_eq h, recorded, recorded, onQueueUnitDelete, GoMap.lookup_erase_eq, if_neg hne]

theorem filed_step (hw : Filed fw w) (hstep : step fw w e = some t) : Filed fw t := by
  obtain ⟨he, ht⟩ := Option.ite_none_right_eq_some.mp hstep
  cases ht
  cases e with
  | add qu => exact filed_addOrUpdate hw he.2.1 he.2.2
  | update qu => exact filed_addOrUpdate hw he.2.1 he.2.2
  | delete qu =>
    obtain ⟨old, hold, huid⟩ := (Option.any_eq_true _ _).mp he
    exact filed_delete hw hold (of_decide_eq_true huid)

/-- The index stays exact precisely when no entry of the replaced version is
left over. -/
theorem exact_addOrUpdate (hw : Filed fw w) (hx : Exact fw w) (hown : OwnUid w qu)
    (hs : (fw.getQueueUnitQuotaName qu).isSome = true) :
    Exact fw ⟨onQueueUnitAddOrUpdate fw qu w.index, w.existing.insert (namespacedName qu) qu⟩ ↔
      ∀ old, w.existing.lookup (namespacedName qu) = some old →
        ∀ quota ∈ quotaNames fw old, quota ∈ quotaNames fw qu ∨ quota ∈ recorded w.index qu.uid := by
  rw [exact_iff hw] at hx
  rw [exact_iff (filed_addOrUpdate hw hown hs)]
  simp only [entry_onQueueUnitAddOrUpdate hs, GoMap.lookup_insert_eq]
  constructor
  · intro h old hold quota hq
    by_contra hno
    rw [not_or] at hno
    have hleft := h quota (namespacedName qu)
    rw [if_neg (fun hc => hno.1 hc.2), if_neg (fun hc => hno.2 hc.2), if_pos rfl,
      (hx quota _).mpr ⟨old, hold, hq⟩] at hleft
    obtain ⟨u, hu, hin⟩ := hleft.mp rfl
    cases hu
    exact hno.1 hin
  · intro h q k
    by_cases hk : k = namespacedName qu
    · subst hk
      simp only [true_and, if_true, Option.some.injEq, exists_eq_left']
      split
      next hin => simp [hin]
      next hin =>
        split
        next => simp [hin]
        next hrec =>
          rw [hx]
          constructor
          · rintro ⟨old, hold, hq⟩
            rcases h old hold q hq with hc | hc
            · exact hc
            · exact absurd hc hrec
          · exact fun hc => absurd hc hin
    · simp only [hk, false_and, if_false]
      exact hx q k

theorem exact_delete (hw : Filed fw w) (hx : Exact fw w) {old : QueueUnit}
    (hold : w.existing.lookup (namespacedName qu) = some old) (huid : old.uid = qu.uid) :
    Exact fw ⟨onQueueUnitDelete qu w.index, w.existing.erase (namespacedName qu)⟩ := by
  rw [exact_iff hw] at hx
  rw [exact_iff (filed_delete hw hold huid)]
  intro q k
  rw [onQueueUnitDelete, entry_removeOld, GoMap.lookup_erase_eq, ← huid, hw.recorded_eq hold]
  by_cases hk : k = namespacedName qu
  · subst hk
    have hold' := hx q (namespacedName qu)
    simp only [hold, Option.some.injEq, exists_eq_left'] at hold'
    by_cases hq : q ∈ quotaNames fw old
    · simp [hq]
    · have hnone : entry w.index.queueUnitsByQuota q (namespacedName qu) = none := by
        simpa [hq] using hold'
      simp [hnone]
  · simp only [hk, false_and, if_false]
    exact hx q k

theorem exact_step (hw : Filed fw w ∧ Exact fw w) (hstep : step fw w e = some t) :
    (Filed fw t ∧ Exact fw t) ↔ Covers fw w e := by
  rw [and_iff_right (filed_step hw.1 hstep)]
  obtain ⟨he, ht⟩ := Option.ite_none_right_eq_some.mp hstep
  cases ht
  cases e with
  | add qu =>
    rw [act, exact_addOrUpdate hw.1 hw.2 he.2.1 he.2.2, Covers, iff_true]
    intro old hold
    rw [Finmap.lookup_eq_none.mpr he.1] at hold
    cases hold
  | update qu =>
    rw [act, exact_addOrUpdate hw.1 hw.2 he.2.1 he.2.2]
    constructor
    · exact fun h old hold _ => h old hold
    · intro h old hold
      by_cases huid : old.uid = qu.uid
      · intro quota hq
        right
        rwa [← huid, hw.1.recorded_eq hold]
      · exact h old hold huid
  | delete qu =>
    obtain ⟨old, hold, huid⟩ := (Option.any_eq_true _ _).mp he
    rw [Covers, iff_true]
    exact exact_delete hw.1 hw.2 hold (of_decide_eq_true huid)

/-- The index is exact after every event of a sequence precisely when no unit
replaces one of another UID that named a quota it does not. -/
theorem quota_index_exact_iff (fw : Handle) (es : List Event) :
    (∀ delivered w, delivered <+: es → Run.exec (step fw) {} delivered = some w → Exact fw w) ↔
      Run.Guarded (step fw) (Covers fw) {} es := by
  have hstart : Filed fw {} ∧ Exact fw {} := ⟨filed_empty fw, exact_empty fw⟩
  rw [← Run.always_iff_guarded (fun _ _ _ => exact_step) hstart es]
  constructor
  · intro h delivered w hp hrun
    refine ⟨?_, h delivered w hp hrun⟩
    exact Run.invariant (fun _ _ _ hi _ hs => filed_step hi hs) (filed_empty fw)
      (Run.guarded_true { : World } delivered) hrun
  · exact fun h delivered w hp hrun => (h delivered w hp hrun).2

def labelQuota : Handle := ⟨fun qu => (qu.labels.lookup "quota").map (fun quota => [quota]), false⟩

def labelled (uid quota : String) : QueueUnit where
  ns := "ns"
  name := "a"
  uid := uid
  labels := Finmap.singleton "quota" quota

/-- A unit is created again with another quota, and the informer delivers the
two changes as one update. -/
theorem recreated_unit_listed_twice :
    ∃ w, Run.exec (step labelQuota) {} [.add (labelled "1" "x"), .update (labelled "2" "y")] = some w ∧
      getQueueUnitInfoByQuota "x" w.index = {⟨"a", "ns", "x"⟩} ∧ ¬ Exact labelQuota w := by
  obtain ⟨w, hrun, hlist, hno⟩ : ∃ w, Run.exec (step labelQuota) {}
      [.add (labelled "1" "x"), .update (labelled "2" "y")] = some w ∧ getQueueUnitInfoByQuota "x" w.index =
      {⟨"a", "ns", "x"⟩} ∧ (w.existing.lookup ("ns", "a")).any (fun qu => "x" ∈ quotaNames labelQuota qu) = false :=
      by decide +kernel
  refine ⟨w, hrun, hlist, fun hx => ?_⟩
  obtain ⟨_, qu, hqu, hin⟩ := ((hx "x").2 ⟨"a", "ns", "x"⟩).mp (hlist ▸ Multiset.mem_singleton_self _)
  simp [hqu, hin] at hno

end KoordQueue.Framework.QuotaIndex
