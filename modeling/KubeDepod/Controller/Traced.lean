/-
KubeDepod/Controller/Traced.lean

`reconcile_pod` with marks in its branches.

The two branches for a misconfigured policy, the TTL that is used, the `unwrap`
in the log statement and the grace period before its conversion leave no
effect of their own, so `reconcilePod` does not show them.  Here each of them
is a mark; without the marks the program is `reconcilePod`
(`erase_tracedReconcilePod`).

`Occurs` says once what a policy can lead to and under what conditions
(`tracedReconcilePolicies_uses`); what all runs keep to is read off it.
-/
import KubeDepod.Controller.ReconcilePod
import KubeDepod.Lib.Marks

namespace KubeDepod

open Effects Prog

/-- The places that are marked. -/
inductive PodMark where
  /-- the branch that warns of a built-in policy without `ttlSeconds` -/
  | missingTtlSeconds
  /-- the branch that warns of a CEL policy without expression -/
  | missingExpression
  /-- the TTL handed to `evaluate_ttl_condition` -/
  | ttlUsed (ttlSeconds : Int64)
  /-- `pod.metadata.creation_timestamp.as_ref().unwrap()` in the log statement -/
  | creationUnwrapped (creationTimestamp : Option DateTime)
  /-- the grace period of a call, before its conversion -/
  | graceSent (gracePeriodSeconds : Option Int64)

abbrev TracedProg := Prog (Marked PodEffect.Reply PodMark)

def traced (e : PodEffect) : TracedProg e.Reply := unmarked e

/-- `evaluateWhen`, with marks. -/
def tracedEvaluateWhen (pod : Pod) (policy : DepodPolicy) (ttlRequeue : Option Nat) :
    TracedProg (Bool × Option Nat) :=
  match policy.spec.when_.conditionType with
  | .builtin =>
      match policy.spec.when_.ttlSeconds with
      | some ttlSeconds => do
          let now ← traced .now
          mark (.ttlUsed ttlSeconds)
          if evaluateTtlCondition pod ttlSeconds now then
            return (true, ttlRequeue)
          else
            match calculateTtlRequeue pod ttlSeconds now with
            | some ttlLeft => do
                mark (.creationUnwrapped pod.metadata.creationTimestamp)
                match ttlRequeue with
                | some current => return (false, some (min current ttlLeft))
                | none => return (false, some ttlLeft)
            | none => return (false, ttlRequeue)
      | none => do
          mark .missingTtlSeconds
          traced (.increment .evaluationErrors)
          return (false, ttlRequeue)
  | .cel =>
      match policy.spec.when_.expression with
      | some expr => do
          match ← traced (.evaluate expr pod policy.nameAny) with
          | .ok conditionResult => return (conditionResult, ttlRequeue)
          | .error (.celCompilationError _) => do
              traced (.increment .evaluationErrors)
              return (false, ttlRequeue)
          | .error (.celEvaluationError _) => do
              traced (.increment .evaluationErrors)
              return (false, ttlRequeue)
          | .error _ => do
              traced (.increment .evaluationErrors)
              return (false, ttlRequeue)
      | none => do
          mark .missingExpression
          traced (.increment .evaluationErrors)
          return (false, ttlRequeue)

/-- `deleteArm`, with marks. -/
def tracedDeleteArm (pod : Pod) (policy : DepodPolicy) : TracedProg EarlyReturn :=
  if policy.spec.then_.dryRun then
    return none
  else do
    let globalAllowed ← traced .allowGlobal
    let policyAllowed ←
      traced (.allowPolicy policy.nameAny policy.spec.limits.maxDeletesPerMinute)
    if !globalAllowed || !policyAllowed then do
      traced (.increment .rateLimited)
      return some (.ok (.requeue (Duration.fromSecs 10)))
    else do
      mark (.graceSent policy.spec.then_.gracePeriodSeconds)
      let dp : DeleteParams :=
        ⟨policy.spec.then_.gracePeriodSeconds.map fun g => g.toUInt64.toUInt32⟩
      match ← traced (.delete pod.namespaceOrDefault pod.nameAny dp) with
      | .ok _ => do
          traced (.increment .podsDeleted)
          return some (.ok .awaitChange)
      | .error _ => do
          traced (.increment .evaluationErrors)
          return none

/-- `evictArm`, with marks. -/
def tracedEvictArm (pod : Pod) (policy : DepodPolicy) : TracedProg EarlyReturn :=
  if policy.spec.then_.dryRun then
    return none
  else do
    let globalAllowed ← traced .allowGlobal
    let policyAllowed ←
      traced (.allowPolicy policy.nameAny policy.spec.limits.maxDeletesPerMinute)
    if !globalAllowed || !policyAllowed then do
      traced (.increment .rateLimited)
      return some (.ok (.requeue (Duration.fromSecs 10)))
    else do
      mark (.graceSent policy.spec.then_.gracePeriodSeconds)
      let eviction := evictionOf pod policy
      match ← traced (.toVec eviction) with
      | .error e => return some (.error e)
      | .ok _ =>
          match ← traced (.createEviction pod.namespaceOrDefault pod.nameAny eviction) with
          | .ok status =>
              match status.status with
              | some statusStr =>
                  if statusStr == "Success" then do
                    traced (.increment .podsDeleted)
                    return some (.ok .awaitChange)
                  else do
                    traced (.increment .evaluationErrors)
                    return none
              | none => do
                  traced (.increment .podsDeleted)
                  return some (.ok .awaitChange)
          | .error _ => do
              traced (.increment .evaluationErrors)
              return none

/-- `executeThen`, with marks. -/
def tracedExecuteThen (pod : Pod) (policy : DepodPolicy) : TracedProg EarlyReturn :=
  match policy.spec.then_.actionType with
  | .delete => tracedDeleteArm pod policy
  | .evict => tracedEvictArm pod policy

/-- `reconcilePolicies`, with marks. -/
def tracedReconcilePolicies (periodicResyncInterval : Option Duration) (pod : Pod) :
    List DepodPolicy → Option Nat → TracedProg (Except Error Action)
  | [], ttlRequeue => return .ok (actionAfterLoop periodicResyncInterval ttlRequeue)
  | policy :: policies, ttlRequeue =>
      if !matchesPolicy pod policy then
        tracedReconcilePolicies periodicResyncInterval pod policies ttlRequeue
      else if !checkTrigger pod policy.spec.trigger.annotationKey
          policy.spec.trigger.annotationValues then
        tracedReconcilePolicies periodicResyncInterval pod policies ttlRequeue
      else do
        traced (.increment .policyMatches)
        let (conditionMet, ttlRequeue) ← tracedEvaluateWhen pod policy ttlRequeue
        if !conditionMet then
          tracedReconcilePolicies periodicResyncInterval pod policies ttlRequeue
        else if isNamespaceProtected pod.namespaceOrDefault
            policy.spec.limits.protectSystemNamespaces
            policy.spec.limits.excludedNamespaces then
          tracedReconcilePolicies periodicResyncInterval pod policies ttlRequeue
        else do
          match ← tracedExecuteThen pod policy with
          | some result => return result
          | none => tracedReconcilePolicies periodicResyncInterval pod policies ttlRequeue

/-- `reconcilePod`, with marks. -/
def tracedReconcilePod (periodicResyncInterval : Option Duration) (pod : Pod) :
    TracedProg (Except Error Action) := do
  traced (.increment .podsEvaluated)
  let policies ← traced .loadPolicies
  tracedReconcilePolicies periodicResyncInterval pod policies none

/-! ### Without the marks -/

theorem erase_tracedEvaluateWhen (pod : Pod) (policy : DepodPolicy) (ttlRequeue : Option Nat) :
    (tracedEvaluateWhen pod policy ttlRequeue).erase = evaluateWhen pod policy ttlRequeue := by
  unfold tracedEvaluateWhen evaluateWhen
  rcases policy.spec.when_.conditionType with - | -
  · rcases policy.spec.when_.expression with - | expr
    · rfl
    · refine congrArg (Prog.op _) (funext fun verdict => ?_)
      rcases verdict with e | verdict
      · cases e <;> rfl
      · rfl
  · rcases policy.spec.when_.ttlSeconds with - | ttlSeconds
    · rfl
    · refine congrArg (Prog.op _) (funext fun now => ?_)
      show Prog.erase (if evaluateTtlCondition pod ttlSeconds now then _ else _)
        = if evaluateTtlCondition pod ttlSeconds now then _ else _
      split
      · rfl
      · rcases calculateTtlRequeue pod ttlSeconds now with - | ttlLeft
        · rfl
        · cases ttlRequeue <;> rfl

/-- Both arms ask the limits first. -/
theorem erase_askLimits (policy : DepodPolicy) {granted : TracedProg EarlyReturn}
    {granted' : PodProg EarlyReturn} (h : granted.erase = granted') :
    Prog.erase (do
      let globalAllowed ← traced .allowGlobal
      let policyAllowed ←
        traced (.allowPolicy policy.nameAny policy.spec.limits.maxDeletesPerMinute)
      if !globalAllowed || !policyAllowed then do
        traced (.increment .rateLimited)
        return some (.ok (.requeue (Duration.fromSecs 10)))
      else granted)
    = (do
      let globalAllowed ← perform .allowGlobal
      let policyAllowed ←
        perform (.allowPolicy policy.nameAny policy.spec.limits.maxDeletesPerMinute)
      if !globalAllowed || !policyAllowed then do
        incrementRateLimited
        return some (.ok (.requeue (Duration.fromSecs 10)))
      else granted') := by
  refine congrArg (Prog.op _) (funext fun globalAllowed => ?_)
  refine congrArg (Prog.op _) (funext fun policyAllowed => ?_)
  show Prog.erase (if !globalAllowed || !policyAllowed then _ else _)
    = if !globalAllowed || !policyAllowed then _ else _
  split
  · rfl
  · exact h

theorem erase_tracedDeleteArm (pod : Pod) (policy : DepodPolicy) :
    (tracedDeleteArm pod policy).erase = deleteArm pod policy := by
  unfold tracedDeleteArm deleteArm
  split
  · rfl
  · refine erase_askLimits policy ?_
    refine congrArg (Prog.op _) (funext fun reply => ?_)
    cases reply <;> rfl

theorem erase_tracedEvictArm (pod : Pod) (policy : DepodPolicy) :
    (tracedEvictArm pod policy).erase = evictArm pod policy := by
  unfold tracedEvictArm evictArm
  split
  · rfl
  · refine erase_askLimits policy ?_
    refine congrArg (Prog.op _) (funext fun reply => ?_)
    rcases reply with e | ⟨⟩
    · rfl
    · refine congrArg (Prog.op _) (funext fun reply => ?_)
      rcases reply with e | ⟨- | statusStr⟩
      · rfl
      · rfl
      · show Prog.erase (if statusStr == "Success" then _ else _)
          = if statusStr == "Success" then _ else _
        split <;> rfl

theorem erase_tracedExecuteThen (pod : Pod) (policy : DepodPolicy) :
    (tracedExecuteThen pod policy).erase = executeThen pod policy := by
  unfold tracedExecuteThen executeThen
  cases policy.spec.then_.actionType with
  | delete => exact erase_tracedDeleteArm pod policy
  | evict => exact erase_tracedEvictArm pod policy

theorem erase_tracedReconcilePolicies (periodicResyncInterval : Option Duration) (pod : Pod)
    (policies : List DepodPolicy) (ttlRequeue : Option Nat) :
    (tracedReconcilePolicies periodicResyncInterval pod policies ttlRequeue).erase
      = reconcilePolicies periodicResyncInterval pod policies ttlRequeue := by
  induction policies generalizing ttlRequeue with
  | nil => rfl
  | cons policy policies ih =>
      rw [tracedReconcilePolicies, reconcilePolicies]
      split
      · exact ih ttlRequeue
      split
      · exact ih ttlRequeue
      refine congrArg (Prog.op _) (funext fun _ => ?_)
      show Prog.erase (tracedEvaluateWhen pod policy ttlRequeue >>= _) = _
      rw [erase_bind, erase_tracedEvaluateWhen]
      refine congrArg (evaluateWhen pod policy ttlRequeue >>= ·) (funext fun verdict => ?_)
      obtain ⟨conditionMet, ttlRequeue⟩ := verdict
      dsimp only
      split
      · exact ih ttlRequeue
      split
      · exact ih ttlRequeue
      rw [erase_bind, erase_tracedExecuteThen]
      refine congrArg (executeThen pod policy >>= ·) (funext fun early => ?_)
      cases early with
      | none => exact ih ttlRequeue
      | some result => rfl

/-- **Without its marks the traced program is `reconcile_pod`.** -/
theorem erase_tracedReconcilePod (periodicResyncInterval : Option Duration) (pod : Pod) :
    (tracedReconcilePod periodicResyncInterval pod).erase
      = reconcilePod periodicResyncInterval pod := by
  refine congrArg (Prog.op _) (funext fun _ => ?_)
  refine congrArg (Prog.op _) (funext fun policies => ?_)
  exact erase_tracedReconcilePolicies periodicResyncInterval pod policies none

/-! ### What occurs in a run -/

/-- The effects and marks that a policy can lead to in a run for the pod, each
with what is known of the policy at that place. -/
inductive Occurs (pod : Pod) (policy : DepodPolicy) : PodEffect ⊕ PodMark → Prop
  | increment (counter : Counter) : Occurs pod policy (.inl (.increment counter))
  | now : Occurs pod policy (.inl .now)
  | ttlUsed {ttlSeconds : Int64} (htype : policy.spec.when_.conditionType = .builtin)
      (httl : policy.spec.when_.ttlSeconds = some ttlSeconds) :
      Occurs pod policy (.inr (.ttlUsed ttlSeconds))
  | creationUnwrapped {created : DateTime}
      (hcreated : pod.metadata.creationTimestamp = some created) :
      Occurs pod policy (.inr (.creationUnwrapped (some created)))
  | missingTtlSeconds (htype : policy.spec.when_.conditionType = .builtin)
      (httl : policy.spec.when_.ttlSeconds = none) :
      Occurs pod policy (.inr .missingTtlSeconds)
  | evaluate (expr : String) : Occurs pod policy (.inl (.evaluate expr pod policy.nameAny))
  | missingExpression (htype : policy.spec.when_.conditionType = .cel)
      (hexpr : policy.spec.when_.expression = none) :
      Occurs pod policy (.inr .missingExpression)
  | allowGlobal : Occurs pod policy (.inl .allowGlobal)
  | allowPolicy :
      Occurs pod policy
        (.inl (.allowPolicy policy.nameAny policy.spec.limits.maxDeletesPerMinute))
  | graceSent : Occurs pod policy (.inr (.graceSent policy.spec.then_.gracePeriodSeconds))
  | delete (haction : policy.spec.then_.actionType = .delete)
      (hdry : policy.spec.then_.dryRun = false) :
      Occurs pod policy (.inl (.delete pod.namespaceOrDefault pod.nameAny
        ⟨policy.spec.then_.gracePeriodSeconds.map fun g => g.toUInt64.toUInt32⟩))
  | toVec : Occurs pod policy (.inl (.toVec (evictionOf pod policy)))
  | createEviction (haction : policy.spec.then_.actionType = .evict)
      (hdry : policy.spec.then_.dryRun = false) :
      Occurs pod policy
        (.inl (.createEviction pod.namespaceOrDefault pod.nameAny (evictionOf pod policy)))

variable {pod : Pod} {policy : DepodPolicy}

theorem tracedEvaluateWhen_uses (ttlRequeue : Option Nat) :
    (tracedEvaluateWhen pod policy ttlRequeue).Uses (Occurs pod policy) := by
  unfold tracedEvaluateWhen
  rcases htype : policy.spec.when_.conditionType with - | -
  · rcases hexpr : policy.spec.when_.expression with - | expr
    · exact ⟨.missingExpression htype hexpr, fun _ => ⟨.increment _, fun _ => trivial⟩⟩
    · refine ⟨.evaluate expr, fun verdict => ?_⟩
      rcases verdict with e | verdict
      · cases e <;> exact ⟨.increment _, fun _ => trivial⟩
      · trivial
  · rcases httl : policy.spec.when_.ttlSeconds with - | ttlSeconds
    · exact ⟨.missingTtlSeconds htype httl, fun _ => ⟨.increment _, fun _ => trivial⟩⟩
    · refine ⟨.now, fun now => ⟨.ttlUsed htype httl, fun _ => ?_⟩⟩
      show Uses _ (if evaluateTtlCondition pod ttlSeconds now then _ else _)
      split
      · trivial
      · -- there is a delay only if there is a creation time
        rcases hcreated : pod.metadata.creationTimestamp with - | created
        · rw [calculateTtlRequeue, hcreated]
          trivial
        · rw [calculateTtlRequeue, hcreated]
          refine ⟨.creationUnwrapped hcreated, fun _ => ?_⟩
          cases ttlRequeue <;> trivial

theorem askLimits_uses {granted : TracedProg EarlyReturn} (h : granted.Uses (Occurs pod policy)) :
    Prog.Uses (Occurs pod policy) (do
      let globalAllowed ← traced .allowGlobal
      let policyAllowed ←
        traced (.allowPolicy policy.nameAny policy.spec.limits.maxDeletesPerMinute)
      if !globalAllowed || !policyAllowed then do
        traced (.increment .rateLimited)
        return some (.ok (.requeue (Duration.fromSecs 10)))
      else granted) := by
  refine ⟨.allowGlobal, fun globalAllowed => ⟨.allowPolicy, fun policyAllowed => ?_⟩⟩
  show Prog.Uses _ (if !globalAllowed || !policyAllowed then _ else _)
  split
  · exact ⟨.increment _, fun _ => trivial⟩
  · exact h

theorem tracedDeleteArm_uses (haction : policy.spec.then_.actionType = .delete) :
    (tracedDeleteArm pod policy).Uses (Occurs pod policy) := by
  unfold tracedDeleteArm
  split
  case isTrue => trivial
  case isFalse hdry =>
    refine askLimits_uses ⟨.graceSent, fun _ => ?_⟩
    refine ⟨.delete haction (Bool.eq_false_iff.mpr hdry), fun reply => ?_⟩
    cases reply <;> exact ⟨.increment _, fun _ => trivial⟩

theorem tracedEvictArm_uses (haction : policy.spec.then_.actionType = .evict) :
    (tracedEvictArm pod policy).Uses (Occurs pod policy) := by
  unfold tracedEvictArm
  split
  case isTrue => trivial
  case isFalse hdry =>
    refine askLimits_uses ⟨.graceSent, fun _ => ⟨.toVec, fun reply => ?_⟩⟩
    rcases reply with e | ⟨⟩
    · trivial
    · refine ⟨.createEviction haction (Bool.eq_false_iff.mpr hdry), fun reply => ?_⟩
      rcases reply with e | ⟨- | statusStr⟩
      · exact ⟨.increment _, fun _ => trivial⟩
      · exact ⟨.increment _, fun _ => trivial⟩
      · show Uses _ (if statusStr == "Success" then _ else _)
        split <;> exact ⟨.increment _, fun _ => trivial⟩

theorem tracedExecuteThen_uses : (tracedExecuteThen pod policy).Uses (Occurs pod policy) := by
  unfold tracedExecuteThen
  rcases haction : policy.spec.then_.actionType with - | -
  · exact tracedDeleteArm_uses haction
  · exact tracedEvictArm_uses haction

/-- **What the loop does, it does for one of the policies**, whatever it learns
from outside. -/
theorem tracedReconcilePolicies_uses (periodicResyncInterval : Option Duration) (pod : Pod)
    (policies : List DepodPolicy) (ttlRequeue : Option Nat) :
    (tracedReconcilePolicies periodicResyncInterval pod policies ttlRequeue).Uses
      fun e => ∃ policy ∈ policies, Occurs pod policy e := by
  induction policies generalizing ttlRequeue with
  | nil => trivial
  | cons policy policies ih =>
      have hhead : ∀ e, Occurs pod policy e → ∃ q ∈ policy :: policies, Occurs pod q e :=
        fun e he => ⟨policy, List.mem_cons_self .., he⟩
      have ih := fun ttlRequeue => (ih ttlRequeue).mono
        fun e ⟨q, hq, he⟩ => (⟨q, List.mem_cons_of_mem _ hq, he⟩ :
          ∃ q ∈ policy :: policies, Occurs pod q e)
      rw [tracedReconcilePolicies]
      split
      · exact ih ttlRequeue
      split
      · exact ih ttlRequeue
      refine ⟨hhead _ (.increment _), fun _ => ?_⟩
      refine ((tracedEvaluateWhen_uses ttlRequeue).mono hhead).bind ?_
      rintro ⟨conditionMet, ttlRequeue⟩
      dsimp only
      split
      · exact ih ttlRequeue
      split
      · exact ih ttlRequeue
      refine (tracedExecuteThen_uses.mono hhead).bind fun early => ?_
      cases early with
      | none => exact ih ttlRequeue
      | some result => trivial

end KubeDepod
