import KoordQueue.Handles.Requests
import KoordQueue.Lib.Decimal

namespace KoordQueue.Handles.BatchJob

open Api Requests Decimal

inductive CompletionMode
  | nonIndexed
  | indexed
  | other (text : String)
deriving DecidableEq

/-- What the handle reads of a batch job. -/
structure Job where
  name : String := ""
  parallelism : Option Int32 := none
  completions : Option Int32 := none
  completionMode : Option CompletionMode := none
  template : PodSpec := {}
  succeeded : Int32 := 0
  failedIndexes : Option String := none
deriving DecidableEq

inductive IndexError
  | invalidIndex (interval : String)
  | invalidRange (interval : String) (completions : Int64)
deriving DecidableEq

def endOf (start : Int64) : Option (List Char) → Option Int64
  | none => some start
  | some last => atoi last

def countIntervals (completions : Int64) : List (List Char) → Int64 → Int64 → Except IndexError Int64
  | [], count, _ => .ok count
  | interval :: intervals, count, previousEnd =>
    let (first, last) := cut '-' interval
    match atoi first with
    | none => .error (.invalidIndex (String.ofList interval))
    | some start =>
      match endOf start last with
      | none => .error (.invalidRange (String.ofList interval) completions)
      | some stop =>
        if start ≤ previousEnd ∨ stop < start ∨ stop ≥ completions then
          .error (.invalidRange (String.ofList interval) completions)
        else countIntervals completions intervals (count + (stop - start + 1)) stop

def countFailedIndexes (indexes : String) (completions : Int64) : Except IndexError Int64 :=
  if indexes = "" then .ok 0
  else countIntervals completions (indexes.toList.splitOn ',') 0 (-1)

def Job.parallel (job : Job) : Int64 :=
  match job.parallelism with
  | none => 1
  | some parallelism => parallelism.toInt64

def Job.completion (job : Job) : Int64 :=
  match job.completions with
  | none => job.parallel
  | some completions => completions.toInt64

def Job.failed (job : Job) : Int64 :=
  if job.completionMode.getD .nonIndexed = .indexed then
    match job.failedIndexes with
    | none => 0
    | some indexes =>
      match countFailedIndexes indexes job.completion with
      | .error _ => 0
      | .ok failed => failed
  else 0

def podSet (job : Job) : List PodSet :=
  let remaining := job.completion - job.succeeded.toInt64 - job.failed
  [{ name := job.name
     template := job.template
     count := (min job.parallel (max 0 remaining)).toInt32 }]

def resources (job : Job) : Option ResourceList :=
  job.parallelism.map (fun parallel =>
    addTimes (podRequestsAndLimits job.template) parallel.toInt.toNat ∅)

end KoordQueue.Handles.BatchJob
