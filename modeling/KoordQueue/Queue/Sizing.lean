import KoordQueue.Queue.Offering
import KoordQueue.Quota.Balance

namespace KoordQueue.Queue.Sizing

open Api Resources UnitStatus Victims Offering

/-- The spec that `ConvertFromAdmissionToResource` works on: the template itself
until the first container without requests is met, and a copy of it from then on. -/
structure Draft where
  copied : Bool
  usedPs : PodSpec

/-- `DeepCopy`, unless it was made before. -/
def Draft.copy (template : PodSpec) (d : Draft) : Draft := if d.copied then d else ⟨true, template⟩

structure Field where
  read : PodSpec → List Container
  write : List Container → PodSpec → PodSpec

def containers : Field := ⟨PodSpec.containers, fun containers spec => { spec with containers }⟩

def initContainers : Field := ⟨PodSpec.initContainers, fun initContainers spec => { spec with initContainers }⟩

/-- The loop over one of the lists, from the `j`-th container on. -/
def substitute (template : PodSpec) (f : Field) : Nat → List Container → Draft → Draft
  | _, [], d => d
  | j, res :: rest, d =>
    if res.requests = none then
      let d := d.copy template
      substitute template f (j + 1) rest
        { d with usedPs := f.write ((f.read d.usedPs).modify j (fun c => { c with requests := res.limits })) d.usedPs }
    else substitute template f (j + 1) rest d

def usedPs (template : PodSpec) : PodSpec :=
  (substitute template initContainers 0 template.initContainers
    (substitute template containers 0 template.containers ⟨false, template⟩)).usedPs

def requestsOrLimits (c : Container) : Container := if c.requests = none then { c with requests := c.limits } else c

def limitsAsRequests (template : PodSpec) : PodSpec :=
  { template with
    containers := template.containers.map requestsOrLimits
    initContainers := template.initContainers.map requestsOrLimits }

section Draft

variable {template : PodSpec}

def Draft.Sound (template : PodSpec) (d : Draft) : Prop := d.copied = false → d.usedPs = template

theorem usedPs_copy {d : Draft} (h : d.Sound template) : (d.copy template).usedPs = d.usedPs := by
  rw [Draft.copy]
  split
  next => rfl
  next hc => exact (h (Bool.eq_false_iff.mpr hc)).symm

/-- Reading and writing a field is reading and writing one place of the spec. -/
structure Field.Lawful (f : Field) : Prop where
  read_write : ∀ cs spec, f.read (f.write cs spec) = cs
  write_read : ∀ spec, f.write (f.read spec) spec = spec
  write_write : ∀ cs cs' spec, f.write cs (f.write cs' spec) = f.write cs spec

theorem lawful_containers : containers.Lawful := ⟨fun _ _ => rfl, fun _ => rfl, fun _ _ _ => rfl⟩

theorem lawful_initContainers : initContainers.Lawful := ⟨fun _ _ => rfl, fun _ => rfl, fun _ _ _ => rfl⟩

theorem modify_length {α : Type} (g : α → α) (done rest : List α) (a : α) :
    (done ++ a :: rest).modify done.length g = done ++ g a :: rest := by
  induction done with
  | nil => rfl
  | cons b done ih => exact congrArg (b :: ·) ih

theorem sound_copy {d : Draft} {spec : PodSpec} : Draft.Sound template { d.copy template with usedPs := spec } := by
  intro hf
  rw [Draft.copy] at hf
  split at hf
  next hc => exact absurd (hc.symm.trans hf) (by decide)
  next => cases hf

theorem substitute_spec {f : Field} (hf : f.Lawful) (done rest : List Container) (d : Draft)
    (hsound : d.Sound template) (hd : f.read d.usedPs = done ++ rest) :
    (substitute template f done.length rest d).Sound template ∧
      (substitute template f done.length rest d).usedPs =
        f.write (done ++ rest.map requestsOrLimits) d.usedPs := by
  induction rest generalizing done d with
  | nil =>
    refine ⟨hsound, ?_⟩
    rw [List.map_nil, ← hd, hf.write_read]
    rfl
  | cons c rest ih =>
    have hlen : done.length + 1 = (done ++ [requestsOrLimits c]).length := by simp
    have hmap : (done ++ [requestsOrLimits c]) ++ rest.map requestsOrLimits =
        done ++ (c :: rest).map requestsOrLimits := by simp
    rw [substitute, hlen]
    split
    next hnone =>
      have hc : requestsOrLimits c = { c with requests := c.limits } := if_pos hnone
      dsimp only
      rw [usedPs_copy hsound, hd, modify_length, ← hc]
      obtain ⟨hs, he⟩ := ih (done ++ [requestsOrLimits c])
        { d.copy template with usedPs := f.write (done ++ requestsOrLimits c :: rest) d.usedPs } sound_copy
        (by rw [hf.read_write]; simp)
      refine ⟨hs, he.trans ?_⟩
      rw [hmap, hf.write_write]
    next hsome =>
      have hc : requestsOrLimits c = c := if_neg hsome
      obtain ⟨hs, he⟩ := ih (done ++ [requestsOrLimits c]) d hsound (by rw [hd, hc]; simp)
      refine ⟨hs, he.trans ?_⟩
      rw [hmap]

theorem usedPs_eq (template : PodSpec) : usedPs template = limitsAsRequests template := by
  obtain ⟨hs, he⟩ := substitute_spec lawful_containers [] template.containers ⟨false, template⟩ (fun _ => rfl) rfl
  obtain ⟨_, he'⟩ := substitute_spec lawful_initContainers [] template.initContainers _ hs (by rw [he]; rfl)
  rw [he] at he'
  exact he'

end Draft

section Sum

variable [ResourceHelpers] (qu : QueueUnit) (ads : GoMap String FrameworkAdmission)

/-- What one pod of the podset takes when limits stand in for missing requests. -/
def defaultedRequest (name : String) (k : ResourceName) : Int64 :=
  ((qu.spec.podSets.find? (fun ps => ps.name = name)).map (fun ps =>
    amount (newResource (ResourceHelpers.podRequests (limitsAsRequests ps.template))).resources k)).getD 0

/-- What a pod takes more by the copy that is built and not read than by its template. -/
def unread (name : String) (k : ResourceName) : Int64 :=
  ((qu.spec.podSets.find? (fun ps => ps.name = name)).map (fun ps =>
    amount (newResource (ResourceHelpers.podRequests (usedPs ps.template))).resources k -
      amount (newResource (ResourceHelpers.podRequests ps.template)).resources k)).getD 0

/-- What the listed podsets take of a resource. -/
def listedAmount (k : ResourceName) : Int64 :=
  if koordQueueDefaultRequirement ∈ ads then amount (newResource qu.spec.request).resources k
  else (ads.entries.map (fun e => podRequest qu e.1 k * e.2.replicas)).sum

theorem unread_add (name : String) (k : ResourceName) :
    unread qu name k + podRequest qu name k = defaultedRequest qu name k := by
  rw [unread, podRequest, defaultedRequest]
  cases qu.spec.podSets.find? (fun ps => ps.name = name) with
  | none => rfl
  | some ps =>
    rw [Option.map_some, Option.map_some, Option.map_some, Option.getD_some, Option.getD_some, Option.getD_some,
      usedPs_eq, Int64.sub_add_cancel]

/-- No container of the template has limits without requests. -/
def Requested (template : PodSpec) : Prop :=
  ∀ c ∈ template.containers ++ template.initContainers, c.requests = none → c.limits = none

omit [ResourceHelpers] in
theorem map_requestsOrLimits {cs : List Container} (h : ∀ c ∈ cs, c.requests = none → c.limits = none) :
    cs.map requestsOrLimits = cs := by
  refine (List.map_congr_left ?_).trans (List.map_id cs)
  intro c hc
  rw [requestsOrLimits]
  split
  next hnone =>
    have hlimits : c.limits = c.requests := (h c hc hnone).trans hnone.symm
    exact congrArg (fun requests => { c with requests := requests }) hlimits
  next => rfl

theorem unread_of_requested {name : String} (k : ResourceName)
    (h : ∀ ps, qu.spec.podSets.find? (fun ps => ps.name = name) = some ps → Requested ps.template) :
    unread qu name k = 0 := by
  rw [unread]
  cases hf : qu.spec.podSets.find? (fun ps => ps.name = name) with
  | none => rfl
  | some ps =>
    have hsame : usedPs ps.template = ps.template := by
      rw [usedPs_eq, limitsAsRequests, map_requestsOrLimits (fun c hc => h ps hf c (List.mem_append_left _ hc)),
        map_requestsOrLimits (fun c hc => h ps hf c (List.mem_append_right _ hc))]
    rw [Option.map_some, Option.getD_some, hsame, Int64.sub_self]

theorem sum_unread (k : ResourceName) (s : Multiset (Sigma (fun _ : String => FrameworkAdmission))) :
    (s.map (fun e => unread qu e.1 k * e.2.replicas)).sum + (s.map (fun e => podRequest qu e.1 k * e.2.replicas)).sum =
      (s.map (fun e => defaultedRequest qu e.1 k * e.2.replicas)).sum := by
  rw [← Multiset.sum_map_add]
  congr 2
  funext e
  rw [← Int64.add_mul, unread_add]

theorem amount_foldr_admitted (k : ResourceName) (s : Multiset (Sigma (fun _ : String => FrameworkAdmission))) :
    amount (s.foldr (fun e converted => converted.add (admittedAmount qu e.1 e.2)) (newResource ∅)).resources k =
      (s.map (fun e => podRequest qu e.1 k * e.2.replicas)).sum := by
  induction s using Multiset.induction_on with
  | empty => rfl
  | cons e s ih =>
    rw [Multiset.foldr_cons, amount_admittedAmount, ih, Multiset.map_cons, Multiset.sum_cons, Int64.add_comm]

theorem amount_convert (k : ResourceName) :
    amount (convertFromAdmissionToResource qu ads).resources k = listedAmount qu ads k := by
  rw [convertFromAdmissionToResource, listedAmount]
  split
  next =>
    rw [amount_addResource]
    exact Int64.zero_add _
  next => exact amount_foldr_admitted qu k ads.entries

/-- The copy with the limits is built and not read. So the result counts limits for missing requests exactly when
what they would add cancels out over the listed podsets, as it does where no listed pod has limits without requests;
and when the default requirement is listed, exactly when the request of the unit happens to be that sum. -/
theorem convert_counts_limits_iff :
    ((∀ k, amount (convertFromAdmissionToResource qu ads).resources k =
        (ads.entries.map (fun e => defaultedRequest qu e.1 k * e.2.replicas)).sum) ↔
      if koordQueueDefaultRequirement ∈ ads then ∀ k, amount (newResource qu.spec.request).resources k =
        (ads.entries.map (fun e => defaultedRequest qu e.1 k * e.2.replicas)).sum
      else ∀ k, (ads.entries.map (fun e => unread qu e.1 k * e.2.replicas)).sum = 0) ∧
    ((∀ e ∈ ads.entries, e.2.replicas = 0 ∨
        ∀ ps, qu.spec.podSets.find? (fun ps => ps.name = e.1) = some ps → Requested ps.template) →
      ∀ k, (ads.entries.map (fun e => unread qu e.1 k * e.2.replicas)).sum = 0) := by
  constructor
  · simp only [amount_convert, listedAmount]
    split
    next => exact Iff.rfl
    next =>
      refine forall_congr' (fun k => ?_)
      rw [← sum_unread]
      constructor
      · intro h
        exact (Int64.add_left_inj _).mp (h.symm.trans (Int64.zero_add _).symm)
      · intro h
        rw [h, Int64.zero_add]
  · intro hset k
    refine Multiset.sum_eq_zero (fun x hx => ?_)
    obtain ⟨e, he, rfl⟩ := Multiset.mem_map.mp hx
    rcases hset e he with hzero | hps
    · rw [hzero, Int64.mul_zero]
    · rw [unread_of_requested qu k hps, Int64.zero_mul]

end Sum

def cpuUnit (requests limits : Option ResourceList) : QueueUnit :=
  { spec := { podSets := [{ name := "worker", count := 1, template := { containers := [{ requests, limits }] } }] } }

def oneCore : ResourceList := Finmap.singleton "cpu" ⟨1000⟩

def twoWorkers : GoMap String FrameworkAdmission := Finmap.singleton "worker" ⟨"worker", 2⟩

/-- With limits only, the pods count for nothing. -/
theorem convert_limits_only :
    amount (@convertFromAdmissionToResource firstContainer (cpuUnit none (some oneCore)) twoWorkers).resources "cpu" = 0 ∧
    (twoWorkers.entries.map (fun e =>
      @defaultedRequest firstContainer (cpuUnit none (some oneCore)) e.1 "cpu" * e.2.replicas)).sum = 2000 := by
  decide

end KoordQueue.Queue.Sizing
