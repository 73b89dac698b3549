import KoordQueue.Quota.QueueSync
import Mathlib.Data.Finset.Sort
import Mathlib.Data.String.Basic

namespace KoordQueue.Framework.UpdateQueue

open Quota.QueueSync (Attributes QueueObject)

structure Yaml where
  marshal : GoMap String String → String
  unmarshal : String → Option (GoMap String String)
  read_back : ∀ m, unmarshal (marshal m) = some m

structure Queue extends QueueObject where
  priorityClassName : String := ""

def queueArgsAnnotationKey : String := "koord-queue/queue-args"

/-- The loop over the arguments, two at a time. The value is looked up in the
map that is being filled. -/
def collectArgs : List String → GoMap String String → GoMap String String
  | k :: v :: kv, args => collectArgs kv (args.insert k ((args.lookup v).getD ""))
  | _, args => args

def writeAll (attributes : Attributes) (given : GoMap String String) : GoMap String String :=
  GoMap.range (fun _ _ v => some v) (attributes.getD ∅) given

variable (y : Yaml)

def updateQueue (lister : GoMap String Queue) (queueName : String) (policy : Option String) (priority : Option Int32)
    (priorityClassName : String) (labels annotations : GoMap String String) (kv : List String) :
    Except String Queue :=
  match lister.lookup queueName with
  | none => .error ("queue.scheduling.x-k8s.io \"" ++ queueName ++ "\" not found")
  | some queue =>
    if kv.length % 2 ≠ 0 then .error "len of args must be times of 2"
    else .ok { queue with
      priority := priority.or queue.priority
      priorityClassName := if priorityClassName ≠ "" then priorityClassName else queue.priorityClassName
      queuePolicy := policy.getD queue.queuePolicy
      annotations := some ((writeAll queue.annotations annotations).insert queueArgsAnnotationKey
        (y.marshal (collectArgs kv ∅)))
      labels := some (writeAll queue.labels labels) }

def pairs : List String → List (String × String)
  | k :: v :: kv => (k, v) :: pairs kv
  | _ => []

def arguments (queue : Queue) : Option (GoMap String String) :=
  (queue.annotations.bind (fun m => m.lookup queueArgsAnnotationKey)).bind y.unmarshal

theorem lookup_writeAll (attributes : Attributes) (given : GoMap String String) (key : String) :
    (writeAll attributes given).lookup key = (given.lookup key).or ((attributes.getD ∅).lookup key) := by
  rw [writeAll, GoMap.lookup_range]
  cases given.lookup key with
  | none => rw [Option.none_or]
  | some v => rw [Option.some_or]

theorem lookup_collectArgs (kv : List String) {args : GoMap String String}
    (hempty : ∀ k v, args.lookup k = some v → v = "") (key : String) :
    (collectArgs kv args).lookup key = if key ∈ (pairs kv).map Prod.fst then some "" else args.lookup key := by
  induction kv using pairs.induct generalizing args with
  | case1 k v kv ih =>
    have hv : (args.lookup v).getD "" = "" := by
      cases hl : args.lookup v with
      | none => rfl
      | some w => exact hempty v w hl
    have hinsert : ∀ k' v', (args.insert k ((args.lookup v).getD "")).lookup k' = some v' → v' = "" :=
      GoMap.forall_insert hempty hv
    rw [collectArgs, ih hinsert, pairs, List.map_cons, GoMap.lookup_insert_eq, hv]
    by_cases hk : key = k
    · simp [hk]
    · rw [if_neg hk]
      simp only [List.mem_cons, hk, false_or]
  | case2 kv hkv =>
    rw [pairs.eq_def, collectArgs.eq_def]
    split
    next k v rest => exact absurd rfl (hkv k v rest)
    next => simp

theorem collectArgs_eq_iff {kv : List String} (hkeys : ((pairs kv).map Prod.fst).Nodup) :
    collectArgs kv ∅ = GoMap.ofList (pairs kv) ↔ ∀ p ∈ pairs kv, p.2 = "" := by
  have hlookup := @lookup_collectArgs kv ∅ (fun k v h => by cases h)
  constructor
  · rintro h ⟨k, v⟩ hp
    have hk := GoMap.lookup_ofList_of_mem hkeys hp
    rw [← h, hlookup, if_pos (List.mem_map_of_mem hp)] at hk
    exact (Option.some.inj hk).symm
  · intro h
    apply Finmap.ext_lookup
    intro key
    rw [hlookup]
    split
    next hmem =>
      obtain ⟨⟨k, v⟩, hp, rfl⟩ := List.mem_map.mp hmem
      rw [GoMap.lookup_ofList_of_mem hkeys hp, show v = "" from h _ hp]
    next hout => rw [GoMap.lookup_ofList_none.mpr hout, Finmap.lookup_empty]

/-- The arguments arrive exactly when all their values are empty texts; what the caller does not mention
is left alone. -/
theorem arguments_survive_iff (lister : GoMap String Queue) (queueName : String) (queue : Queue)
    (policy : Option String) (priority : Option Int32) (priorityClassName : String)
    (labels annotations : GoMap String String) (kv : List String) (hqueue : lister.lookup queueName = some queue)
    (heven : kv.length % 2 = 0) (hkeys : ((pairs kv).map Prod.fst).Nodup) :
    ∃ updated, updateQueue y lister queueName policy priority priorityClassName labels annotations kv = .ok updated ∧
      (arguments y updated = some (GoMap.ofList (pairs kv)) ↔ ∀ p ∈ pairs kv, p.2 = "") ∧
      (∀ key, key ∉ labels → (updated.labels.getD ∅).lookup key = (queue.labels.getD ∅).lookup key) ∧
      ∀ key, key ∉ annotations → key ≠ queueArgsAnnotationKey →
        (updated.annotations.getD ∅).lookup key = (queue.annotations.getD ∅).lookup key := by
  rw [updateQueue, hqueue]
  dsimp only
  rw [if_neg (not_not.mpr heven)]
  refine ⟨_, rfl, ?_, ?_, ?_⟩
  · rw [← collectArgs_eq_iff hkeys]
    simp only [arguments, Option.bind_some, GoMap.lookup_insert_eq, if_pos, y.read_back, Option.some.injEq]
  · intro key hkey
    simp only [Option.getD_some, lookup_writeAll, Finmap.lookup_eq_none.mpr hkey, Option.none_or]
  · intro key hkey hne
    simp only [Option.getD_some, GoMap.lookup_insert_eq, if_neg hne, lookup_writeAll,
      Finmap.lookup_eq_none.mpr hkey, Option.none_or]

section Encoding

def sorted {α : Type} [LinearOrder α] (s : Finset α) : List α := s.sort

def listing (m : GoMap String String) : List (String × String) :=
  (sorted m.keys).map (fun k => (k, (m.lookup k).getD ""))

theorem ofList_listing (m : GoMap String String) : GoMap.ofList (listing m) = m := by
  have hnodup : ((listing m).map Prod.fst).Nodup := by
    rw [listing, List.map_map]
    exact (List.map_id _).symm ▸ Finset.sort_nodup _ _
  apply Finmap.ext_lookup
  intro k
  cases hk : m.lookup k with
  | some v =>
    refine GoMap.lookup_ofList_of_mem hnodup (List.mem_map.mpr ⟨k, ?_, by rw [hk, Option.getD_some]⟩)
    exact (Finset.mem_sort _).mpr (Finmap.mem_keys.mpr (Finmap.mem_of_lookup_eq_some hk))
  | none =>
    rw [GoMap.lookup_ofList_none]
    simpa [listing, sorted, Finmap.mem_keys] using Finmap.lookup_eq_none.mp hk

theorem pairs_flatMap (ps : List (String × String)) : pairs (ps.flatMap (fun p => [p.1, p.2])) = ps := by
  induction ps with
  | nil => rfl
  | cons p ps ih => rw [List.flatMap_cons, List.cons_append, List.cons_append, List.nil_append, pairs, ih]

/-- Each character is escaped, so that a bare one ends the text. -/
def escape (text : String) : List Char := text.toList.flatMap (fun c => ['\\', c]) ++ [';']

def readTexts : List Char → List Char → List String
  | text, '\\' :: c :: rest => readTexts (text ++ [c]) rest
  | text, _ :: rest => String.ofList text :: readTexts [] rest
  | _, [] => []

theorem readTexts_chars (text cs rest : List Char) :
    readTexts text (cs.flatMap (fun c => ['\\', c]) ++ ';' :: rest) =
      String.ofList (text ++ cs) :: readTexts [] rest := by
  induction cs generalizing text with
  | nil => simp [readTexts]
  | cons c cs ih => simp [readTexts, ih]

theorem readTexts_escape (texts : List String) : readTexts [] (texts.flatMap escape) = texts := by
  induction texts with
  | nil => rfl
  | cons text texts ih =>
    rw [List.flatMap_cons, escape, List.append_assoc, List.singleton_append, readTexts_chars, ih]
    simp

def escaped : Yaml where
  marshal m := String.ofList (((listing m).flatMap (fun p => [p.1, p.2])).flatMap escape)
  unmarshal text := some (GoMap.ofList (pairs (readTexts [] text.toList)))
  read_back m := by rw [String.toList_ofList, readTexts_escape, pairs_flatMap, ofList_listing]

end Encoding

def annotated : Queue := { name := "q", annotations := some (Finmap.singleton "team" "blue") }

theorem cleared_argument_survives :
    ∃ updated, updateQueue escaped (Finmap.singleton "q" annotated) "q" none none "" ∅ ∅
        ["threshold", "", "window", ""] = .ok updated ∧
      arguments escaped updated = some (GoMap.ofList [("threshold", ""), ("window", "")]) ∧
      (updated.annotations.getD ∅).lookup "team" = some "blue" := by
  obtain ⟨updated, hok, hargs, -, hannotations⟩ := arguments_survive_iff escaped (Finmap.singleton "q" annotated) "q"
    annotated none none "" ∅ ∅ ["threshold", "", "window", ""] (Finmap.lookup_singleton_eq) rfl (by decide)
  refine ⟨updated, hok, hargs.mpr (by decide), ?_⟩
  rw [hannotations "team" (Finmap.notMem_empty) (by decide)]
  exact Finmap.lookup_singleton_eq

/-- The value of an argument is lost: what is read back is the empty text. -/
theorem argument_value_lost :
    ∃ updated, updateQueue escaped (Finmap.singleton "q" annotated) "q" none none "" ∅ ∅ ["threshold", "4"] = .ok updated ∧
      (arguments escaped updated).map (fun args => args.lookup "threshold") = some (some "") := by
  refine ⟨_, by rw [updateQueue, Finmap.lookup_singleton_eq]; rfl, ?_⟩
  simp only [arguments, Option.bind_some, GoMap.lookup_insert_eq, if_pos, escaped.read_back, Option.map_some]
  decide

end KoordQueue.Framework.UpdateQueue
