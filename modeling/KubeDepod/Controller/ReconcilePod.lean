/-
KubeDepod/Controller/ReconcilePod.lean

`reconcile_pod` as a program over its effects.

The effects are the places where the function touches something outside
itself: the metric counters, the policy cache, the clock, the CEL evaluator,
the rate limiter, the JSON serialiser and the API server.  Log statements are
left out.  `reconcilePolicies` is the `for` loop over the cached policies;
`ttlRequeue` is the loop's accumulator `ttl_requeue_seconds`.
-/
import KubeDepod.Controller.Matching
import KubeDepod.Lib.Program

namespace KubeDepod

open Effects

/-! ### Requests to the API server -/

/-- The field of `kube::api::DeleteParams` that the code sets; the others,
the preconditions among them, keep their defaults. -/
structure DeleteParams where
  gracePeriodSeconds : Option UInt32
deriving DecidableEq

/-- The field of `DeleteOptions` that the code sets. -/
structure DeleteOptions where
  gracePeriodSeconds : Option Int64
deriving DecidableEq

/-- `k8s_openapi::api::policy::v1::Eviction`. -/
structure Eviction where
  name : String
  namespace_ : String
  deleteOptions : Option DeleteOptions
deriving DecidableEq

/-- `Status`, the answer to an eviction. -/
structure Status where
  status : Option String
deriving DecidableEq

/-! ### Effects -/

/-- The counters of `Metrics`. -/
inductive Counter where
  | podsEvaluated
  | podsDeleted
  | policyMatches
  | evaluationErrors
  | rateLimited
deriving DecidableEq

inductive PodEffect where
  /-- `ctx.metrics.increment_*()` -/
  | increment (counter : Counter)
  /-- `ctx.policies.load()` -/
  | loadPolicies
  /-- `chrono::Utc::now()` -/
  | now
  /-- `ctx.evaluator.evaluate(expr, &pod, name)` -/
  | evaluate (expr : String) (pod : Pod) (policyName : String)
  /-- `ctx.rate_limiter.allow_global()` -/
  | allowGlobal
  /-- `ctx.rate_limiter.allow_policy(name, max)` -/
  | allowPolicy (policyName : String) (maxPerMinute : Option Int32)
  /-- `serde_json::to_vec(&eviction)`: the bytes are represented by the value -/
  | toVec (eviction : Eviction)
  /-- `Api::namespaced(ns).delete(name, &dp)` -/
  | delete (ns name : String) (dp : DeleteParams)
  /-- `Api::namespaced(ns).create_subresource("eviction", name, .., bytes)` -/
  | createEviction (ns name : String) (body : Eviction)
deriving DecidableEq

/-- The reply to each effect. -/
abbrev PodEffect.Reply : PodEffect → Type
  | .increment _ => Unit
  | .loadPolicies => List DepodPolicy
  | .now => DateTime
  | .evaluate _ _ _ => Except Error Bool
  | .allowGlobal => Bool
  | .allowPolicy _ _ => Bool
  | .toVec _ => Except Error Unit
  | .delete _ _ _ => Except Error Unit
  | .createEviction _ _ _ => Except Error Status

abbrev PodProg := Prog PodEffect.Reply

def perform (e : PodEffect) : PodProg e.Reply := Prog.perform e

def incrementPodsEvaluated : PodProg Unit := perform (.increment .podsEvaluated)
def incrementPodsDeleted : PodProg Unit := perform (.increment .podsDeleted)
def incrementPolicyMatches : PodProg Unit := perform (.increment .policyMatches)
def incrementEvaluationErrors : PodProg Unit := perform (.increment .evaluationErrors)
def incrementRateLimited : PodProg Unit := perform (.increment .rateLimited)

/-! ### The condition -/

/-- The `match` on the condition type.  Returns `condition_met` and the new
value of `ttl_requeue_seconds`. -/
def evaluateWhen (pod : Pod) (policy : DepodPolicy) (ttlRequeue : Option Nat) :
    PodProg (Bool × Option Nat) :=
  match policy.spec.when_.conditionType with
  | .builtin =>
      match policy.spec.when_.ttlSeconds with
      | some ttlSeconds => do
          let now ← perform .now
          if evaluateTtlCondition pod ttlSeconds now then
            return (true, ttlRequeue)
          else
            match calculateTtlRequeue pod ttlSeconds now with
            | some ttlLeft =>
                -- the minimum over the pending policies
                match ttlRequeue with
                | some current => return (false, some (min current ttlLeft))
                | none => return (false, some ttlLeft)
            | none => return (false, ttlRequeue)
      | none => do
          incrementEvaluationErrors
          return (false, ttlRequeue)
  | .cel =>
      match policy.spec.when_.expression with
      | some expr => do
          match ← perform (.evaluate expr pod policy.nameAny) with
          | .ok conditionResult => return (conditionResult, ttlRequeue)
          | .error (.celCompilationError _) => do
              incrementEvaluationErrors
              return (false, ttlRequeue)
          | .error (.celEvaluationError _) => do
              incrementEvaluationErrors
              return (false, ttlRequeue)
          | .error _ => do
              incrementEvaluationErrors
              return (false, ttlRequeue)
      | none => do
          incrementEvaluationErrors
          return (false, ttlRequeue)

/-! ### The actions -/

/-- What `reconcile_pod` returns when it returns from inside the loop. -/
abbrev EarlyReturn := Option (Except Error Action)

/-- The `Delete` arm. -/
def deleteArm (pod : Pod) (policy : DepodPolicy) : PodProg EarlyReturn :=
  if policy.spec.then_.dryRun then
    return none
  else do
    -- the policy's limit is asked even if the global one denies
    let globalAllowed ← perform .allowGlobal
    let policyAllowed ←
      perform (.allowPolicy policy.nameAny policy.spec.limits.maxDeletesPerMinute)
    if !globalAllowed || !policyAllowed then do
      incrementRateLimited
      return some (.ok (.requeue (Duration.fromSecs 10)))
    else do
      -- `g as u32` keeps the low 32 bits
      let dp : DeleteParams :=
        ⟨policy.spec.then_.gracePeriodSeconds.map fun g => g.toUInt64.toUInt32⟩
      match ← perform (.delete pod.namespaceOrDefault pod.nameAny dp) with
      | .ok _ => do
          incrementPodsDeleted
          return some (.ok .awaitChange)
      | .error _ => do
          -- a failed call does not end the loop
          incrementEvaluationErrors
          return none

/-- The request of the `Evict` arm. -/
def evictionOf (pod : Pod) (policy : DepodPolicy) : Eviction where
  name := pod.nameAny
  namespace_ := pod.namespaceOrDefault
  deleteOptions := some ⟨policy.spec.then_.gracePeriodSeconds⟩

/-- The `Evict` arm. -/
def evictArm (pod : Pod) (policy : DepodPolicy) : PodProg EarlyReturn :=
  if policy.spec.then_.dryRun then
    return none
  else do
    let globalAllowed ← perform .allowGlobal
    let policyAllowed ←
      perform (.allowPolicy policy.nameAny policy.spec.limits.maxDeletesPerMinute)
    if !globalAllowed || !policyAllowed then do
      incrementRateLimited
      return some (.ok (.requeue (Duration.fromSecs 10)))
    else do
      let eviction := evictionOf pod policy
      match ← perform (.toVec eviction) with
      | .error e => return some (.error e)    -- the `?`
      | .ok _ =>
          match ← perform (.createEviction pod.namespaceOrDefault pod.nameAny eviction) with
          | .ok status =>
              match status.status with
              | some statusStr =>
                  if statusStr == "Success" then do
                    incrementPodsDeleted
                    return some (.ok .awaitChange)
                  else do
                    incrementEvaluationErrors
                    return none
              | none => do
                  -- no status text counts as a success
                  incrementPodsDeleted
                  return some (.ok .awaitChange)
          | .error _ => do
              incrementEvaluationErrors
              return none

/-- The `match` on the action type. -/
def executeThen (pod : Pod) (policy : DepodPolicy) : PodProg EarlyReturn :=
  match policy.spec.then_.actionType with
  | .delete => deleteArm pod policy
  | .evict => evictArm pod policy

/-! ### The loop -/

/-- The action returned when no policy ended the run. -/
def actionAfterLoop (periodicResyncInterval : Option Duration) (ttlRequeue : Option Nat) :
    Action :=
  match ttlRequeue with
  | some ttlSeconds => .requeue (Duration.fromSecs ttlSeconds)
  | none =>
      match periodicResyncInterval with
      | some interval => .requeue interval
      | none => .awaitChange

/-- The `for` loop over the policies and what follows it. -/
def reconcilePolicies (periodicResyncInterval : Option Duration) (pod : Pod) :
    List DepodPolicy → Option Nat → PodProg (Except Error Action)
  | [], ttlRequeue => return .ok (actionAfterLoop periodicResyncInterval ttlRequeue)
  | policy :: policies, ttlRequeue =>
      -- the recursive calls are the `continue`s and the end of the body
      if !matchesPolicy pod policy then
        reconcilePolicies periodicResyncInterval pod policies ttlRequeue
      else if !checkTrigger pod policy.spec.trigger.annotationKey
          policy.spec.trigger.annotationValues then
        reconcilePolicies periodicResyncInterval pod policies ttlRequeue
      else do
        incrementPolicyMatches
        let (conditionMet, ttlRequeue) ← evaluateWhen pod policy ttlRequeue
        if !conditionMet then
          reconcilePolicies periodicResyncInterval pod policies ttlRequeue
        else if isNamespaceProtected pod.namespaceOrDefault
            policy.spec.limits.protectSystemNamespaces
            policy.spec.limits.excludedNamespaces then
          reconcilePolicies periodicResyncInterval pod policies ttlRequeue
        else do
          match ← executeThen pod policy with
          | some result => return result
          | none => reconcilePolicies periodicResyncInterval pod policies ttlRequeue

/-- `reconcile_pod`. -/
def reconcilePod (periodicResyncInterval : Option Duration) (pod : Pod) :
    PodProg (Except Error Action) := do
  incrementPodsEvaluated
  let policies ← perform .loadPolicies
  reconcilePolicies periodicResyncInterval pod policies none

/-- `error_policy_pod`: the action after an error return. -/
def errorPolicyPod : Action := .requeue (Duration.fromSecs 60)

/-- Replies for runs on given inputs: the cache holds `policies`, every condition
is met, every call is accepted, and the limits grant or deny. -/
def answersWith (policies : List DepodPolicy) (granted : Bool) : (e : PodEffect) → e.Reply
  | .increment _ => ()
  | .loadPolicies => policies
  | .now => .unixEpoch
  | .evaluate _ _ _ => .ok true
  | .allowGlobal => granted
  | .allowPolicy _ _ => granted
  | .toVec _ => .ok ()
  | .delete _ _ _ => .ok ()
  | .createEviction _ _ _ => .ok ⟨none⟩

end KubeDepod
