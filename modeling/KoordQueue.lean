import KoordQueue.Scheduler.Rollback
import KoordQueue.Scheduler.QuotaInterleaving
import KoordQueue.Scheduler.Admission
import KoordQueue.Scheduler.Settlement
import KoordQueue.Queue.Exclusivity
import KoordQueue.Queue.Reclaim
import KoordQueue.Queue.NextOrder
import KoordQueue.Queue.InFlight
import KoordQueue.Queue.HeadOfLine
import KoordQueue.Multi.Lossless
import KoordQueue.Multi.OnePlace
import KoordQueue.Queue.IntelligentServing
import KoordQueue.Queue.IntelligentSight
import KoordQueue.Queue.Switches
import KoordQueue.Multi.Waiting
import KoordQueue.Queue.BackingOff
import KoordQueue.JobExt.Eviction
import KoordQueue.Quota.PathCondition
import KoordQueue.Multi.PolicyChange
import KoordQueue.Queue.Suffix
import KoordQueue.JobExt.Charging
import KoordQueue.JobExt.Idleness
import KoordQueue.Queue.Departed
import KoordQueue.JobExt.Trimming
import KoordQueue.JobExt.Truth
import KoordQueue.JobExt.Shortfall
import KoordQueue.JobExt.Labelling
import KoordQueue.JobExt.PodSets
import KoordQueue.Handles.Totals
import KoordQueue.JobExt.ConditionRuns
import KoordQueue.Queue.Rejection
import KoordQueue.Queue.PodSetChange
import KoordQueue.Queue.QueueOrder
import KoordQueue.Queue.UnsetPriority
import KoordQueue.Queue.FirstSeen
import KoordQueue.Framework.UpdateQueue
import KoordQueue.Controllers.Listing
import KoordQueue.JobExt.BackoffCount
import KoordQueue.Scheduler.Throttle
import KoordQueue.Multi.EventLoop
import KoordQueue.Scheduler.StrictMode
import KoordQueue.Reserving.Isolation
import KoordQueue.Reserving.Readmission
