import KoordQueue.Api

namespace KoordQueue.Resources

open Api

abbrev Amounts := GoMap ResourceName Int64

def amount (m : Amounts) (k : ResourceName) : Int64 := (m.lookup k).getD 0

structure Resource where
  resources : Amounts
deriving DecidableEq

def read (k : ResourceName) (q : Quantity) : Int64 := if k = "cpu" then q.milliValue else q.value

def write (k : ResourceName) (v : Int64) : Quantity :=
  if k = "cpu" then newMilliQuantity v else newQuantity v

def Resource.zero (r : Resource) : Bool := GoMap.all r.resources (fun _ v => v = 0)

def Resource.add (r : Resource) (rl : ResourceList) : Resource :=
  ⟨GoMap.range (fun k old q => some (old.getD 0 + read k q)) r.resources rl⟩

def newResource (rl : ResourceList) : Resource := Resource.add ⟨∅⟩ rl

def Resource.addResource (r res : Resource) : Resource :=
  if res.zero then r
  else ⟨GoMap.range (fun _ old v => some (old.getD 0 + v)) r.resources res.resources⟩

def scaleUp (res : Resource) (f : Int64) : Resource :=
  ⟨GoMap.range (fun _ _ v => some (v * f)) res.resources res.resources⟩

def max (rl rr : Resource) : Resource :=
  ⟨GoMap.range (fun _ old v => if old.getD 0 < v then some v else old) rl.resources rr.resources⟩

def Resource.resourceList (r : Resource) : ResourceList :=
  GoMap.range (fun k _ v => some (write k v)) ∅ r.resources

def transResourceList (rl : ResourceList) : Amounts :=
  GoMap.range (fun k _ q => some (read k q)) ∅ rl

def updateUsage (a b : Amounts) (m : Int64) : Amounts :=
  GoMap.range (fun _ old v =>
    match old with
    | none => some (v * m)
    | some originV => some (originV + v * m)) a b

theorem amount_updateUsage (a b : Amounts) (m : Int64) (k : ResourceName) :
    amount (updateUsage a b m) k = amount a k + amount b k * m := by
  simp only [amount, updateUsage, GoMap.lookup_range]
  cases b.lookup k with
  | none => simp
  | some v => cases a.lookup k <;> simp

theorem lookup_newResource (rl : ResourceList) (k : ResourceName) :
    (newResource rl).resources.lookup k = (rl.lookup k).map (read k) := by
  simp only [newResource, Resource.add, GoMap.lookup_range]
  cases rl.lookup k <;> simp

theorem amount_addResource (r res : Resource) (k : ResourceName) :
    amount (r.addResource res).resources k = amount r.resources k + amount res.resources k := by
  rw [Resource.addResource]
  split
  next hz =>
    rw [Resource.zero, GoMap.all_iff] at hz
    have hk : amount res.resources k = 0 := by
      rw [amount]
      cases hl : res.resources.lookup k with
      | none => rfl
      | some v => exact of_decide_eq_true (hz k v hl)
    rw [hk, Int64.add_zero]
  next =>
    simp only [amount, GoMap.lookup_range]
    cases res.resources.lookup k <;> simp

theorem read_write (k : ResourceName) (v : Int64) : read k (write k v) = v := by
  rw [read, write]
  split
  next => exact Int64.ofInt_toInt v
  next =>
    have hround : (v.toInt * 1000).sign * (((v.toInt * 1000).natAbs + 999) / 1000 : Nat) = v.toInt := by
      rw [Int.sign_mul, Int.natAbs_mul]
      have habs : (v.toInt.natAbs * (1000 : Int).natAbs + 999) / 1000 = v.toInt.natAbs := by
        have : (1000 : Int).natAbs = 1000 := rfl
        rw [this]
        omega
      rw [habs]
      have hs : (1000 : Int).sign = 1 := rfl
      rw [hs, mul_one, Int.sign_mul_natAbs]
    rw [newQuantity, Quantity.value, hround]
    exact Int64.ofInt_toInt v

theorem amount_add (r : Resource) (rl : ResourceList) (k : ResourceName) :
    amount (r.add rl).resources k = amount r.resources k + ((rl.lookup k).map (read k)).getD 0 := by
  simp only [amount, Resource.add, GoMap.lookup_range]
  cases rl.lookup k <;> simp

theorem lookup_resourceList (r : Resource) (k : ResourceName) :
    r.resourceList.lookup k = (r.resources.lookup k).map (write k) := by
  simp only [Resource.resourceList, GoMap.lookup_range]
  cases r.resources.lookup k <;> simp

theorem amount_add_resourceList (r s : Resource) (k : ResourceName) :
    amount (r.add s.resourceList).resources k = amount r.resources k + amount s.resources k := by
  rw [amount_add, lookup_resourceList, amount]
  congr 1
  rw [amount]
  cases s.resources.lookup k with
  | none => rfl
  | some v => exact read_write k v

theorem amount_scaleUp (r : Resource) (f : Int64) (k : ResourceName) :
    amount (scaleUp r f).resources k = amount r.resources k * f := by
  simp only [amount, scaleUp, GoMap.lookup_range]
  cases r.resources.lookup k <;> simp

def larger (a : Int64) : Option Int64 → Int64
  | none => a
  | some v => if a < v then v else a

theorem amount_max (a b : Resource) (k : ResourceName) :
    amount (max a b).resources k = larger (amount a.resources k) (b.resources.lookup k) := by
  simp only [amount, max, GoMap.lookup_range]
  cases b.resources.lookup k with
  | none => rfl
  | some v =>
    dsimp only [larger]
    split
    next => rfl
    next => rfl

end KoordQueue.Resources
