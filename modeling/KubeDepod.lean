import KubeDepod.Lib.Execution
import KubeDepod.Lib.Program
import KubeDepod.Lib.Snapshots
import KubeDepod.Lib.Streams
import KubeDepod.Crd
import KubeDepod.Controller.ReconcilePod
import KubeDepod.Controller.Reference
import KubeDepod.RateLimiter.Concurrent
import KubeDepod.Controller.ReconcilePolicy
import KubeDepod.Policies.Refresh
import KubeDepod.Policies.Deleted
import KubeDepod.Policies.CaughtUp
import KubeDepod.Pods.Replacement
import KubeDepod.Pods.Termination
import KubeDepod.RateLimiter.Budgets
import KubeDepod.RateLimiter.FirstUse
import KubeDepod.Controller.Limited
import KubeDepod.Pods.Denied
import KubeDepod.Pods.PolicyOrder
import KubeDepod.Pods.Requeue
import KubeDepod.Policies.Touch
import KubeDepod.Lib.Polling
import KubeDepod.Pods.Deadlines
import KubeDepod.Pods.SystemNamespaces
import KubeDepod.Pods.Counters
import KubeDepod.Lib.MergePatch
import KubeDepod.Policies.Status
import KubeDepod.RateLimiter.Window
import KubeDepod.RateLimiter.ConsumeLoop
import KubeDepod.RateLimiter.Limits
import KubeDepod.StatusUpdater.History
import KubeDepod.StatusUpdater.Verdict
import KubeDepod.Config
import KubeDepod.Pods.HotLoop
import KubeDepod.Lib.Sharing
import KubeDepod.Engine.Evaluator
import KubeDepod.Engine.SharedCache
import KubeDepod.Engine.Context
import KubeDepod.Pods.TtlDelay
import KubeDepod.Pods.GracePeriod
import KubeDepod.Policies.StatusCounters
import KubeDepod.Pods.FailedCalls
import KubeDepod.Policies.Listings
import KubeDepod.Policies.LabelSelector
import KubeDepod.Lib.Marks
import KubeDepod.Pods.Misconfigured
import KubeDepod.Pods.Retries
import KubeDepod.Lib.Potential
import KubeDepod.Pods.Rate
import KubeDepod.Policies.StatusLoop
import KubeDepod.RateLimiter.Progress
import KubeDepod.Pods.Provenance
import KubeDepod.Crd.Schema
import KubeDepod.Pods.Ledger
import KubeDepod.Policies.TouchConcurrent
import KubeDepod.Policies.TouchAfterPublish
import KubeDepod.Metrics.Scrapes
import KubeDepod.Engine.Compilations
import KubeDepod.Policies.OptIn
