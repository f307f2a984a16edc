/-
KubeDepod/Controller/ReconcilePolicy.lean

`reconcile_policy` as a program over its effects: the CEL evaluator, the
clock (as the text written into conditions and patches), the status patch,
the reflector's store, the policy cache, and the pod API.

The function has three parts.  `checkPolicy` validates the policy and, if it
is invalid, reports that in its status and leaves: the two early exits come
before the cache is touched.  `refreshCache` reads the whole store and
publishes its spec-valid policies.  `afterRefresh` reports `Ready` and touches
the matching pods.
-/
import KubeDepod.Controller.Matching
import KubeDepod.Engine.Cel
import KubeDepod.StatusUpdater
import KubeDepod.Lib.Program

namespace KubeDepod

open Effects

/-! ### Effects -/

/-- `Api<Pod>`, for all namespaces or for one. -/
inductive PodApi where
  | all
  | namespaced (ns : String)
deriving DecidableEq

/-- The three annotations of the touch patch. -/
structure TouchPatch where
  triggerBy : String
  triggerByPolicy : String
  triggerTime : String
deriving DecidableEq

inductive PolicyEffect where
  /-- `ctx.evaluator.validate(expr)` -/
  | validate (expr : String)
  /-- the text of `Utc::now()` -/
  | nowText
  /-- `Api::namespaced(ns).patch_subresource("status", name, .., {"status": status})` -/
  | patchStatus (ns name : String) (status : DepodPolicyStatus)
  /-- `ctx.policy_store.state()` -/
  | storeState
  /-- `ctx.policies.store(..)` -/
  | publish (policies : List DepodPolicy)
  /-- `pod_api.list(&lp)` -/
  | listPods (api : PodApi) (labels : Option String)
  /-- `pod_api.patch(name, .., &patch)` -/
  | patchPod (api : PodApi) (name : String) (patch : TouchPatch)

/-- The reply to each effect. -/
abbrev PolicyEffect.Reply : PolicyEffect → Type
  | .validate _ => Except Error Unit
  | .nowText => String
  | .patchStatus _ _ _ => Except Error Unit
  | .storeState => List DepodPolicy
  | .publish _ => Unit
  | .listPods _ _ => Except Error (List Pod)
  | .patchPod _ _ _ => Except Error Unit

abbrev PolicyProg := Prog PolicyEffect.Reply

def request (e : PolicyEffect) : PolicyProg e.Reply := Prog.perform e

/-! ### Status reports -/

/-- `update_policy_status`: the patch carries a fresh status with the one
condition. -/
def updatePolicyStatus (policyName ns : String) (condition : PolicyCondition) :
    PolicyProg (Except Error Unit) :=
  request (.patchStatus ns policyName (StatusUpdater.updateCondition {} condition))

/-- The check before a status update: no condition of the status matches. -/
def shouldUpdate (status : Option DepodPolicyStatus) (reported : PolicyCondition → Bool) : Bool :=
  match status with
  | some status => !status.conditions.any reported
  | none => true

/-- Report a condition unless the status already shows it; a failed patch is
only logged. -/
def report (policy : DepodPolicy) (reported : PolicyCondition → Bool)
    (condition : String → PolicyCondition) : PolicyProg Unit :=
  if shouldUpdate policy.status reported then do
    let now ← request .nowText
    let _ ← updatePolicyStatus policy.nameAny (getPolicyNamespace policy) (condition now)
    return ()
  else
    return ()

def reportInvalidSpec (policy : DepodPolicy) (e : Error) : PolicyProg Unit :=
  report policy
    (fun c => c.conditionType == "InvalidSpec" && c.status == "True" &&
      c.message == some e.toString)
    (.invalidSpec e.toString)

def reportInvalidCel (policy : DepodPolicy) (errMsg : String) : PolicyProg Unit :=
  report policy
    (fun c => c.conditionType == "InvalidCEL" && c.status == "True" &&
      c.message == some errMsg)
    (.invalidCel errMsg)

def reportReady (policy : DepodPolicy) : PolicyProg Unit :=
  report policy
    (fun c => c.conditionType == "Ready" && c.status == "True" &&
      c.reason == some "PolicyValidated")
    .ready

/-! ### Validation -/

/-- The two validations and their early exits: `false` means that the
function has returned `Action::await_change()`. -/
def checkPolicy (policy : DepodPolicy) : PolicyProg Bool :=
  match policy.spec.validate with
  | .error e => do
      reportInvalidSpec policy e
      return false
  | .ok _ =>
      match policy.spec.when_.expression with
      | some expr =>
          if policy.spec.when_.conditionType == .cel then do
            match ← request (.validate expr) with
            | .error e => do
                reportInvalidCel policy ("CEL compilation failed: " ++ e.toString)
                return false
            | .ok _ => return true
          else
            return true
      | none => return true

/-! ### The cache -/

/-- The store's spec-valid policies replace the cache. -/
def refreshCache : PolicyProg Unit := do
  let state ← request .storeState
  request (.publish (state.filter fun policy => policy.spec.isValid))

/-! ### Touching the pods -/

/-- The label selector of the pod listing. -/
def labelSelector (policy : DepodPolicy) : Option String :=
  match policy.spec.match_.podSelector with
  | some podSelector =>
      let labels := ",".intercalate
        (podSelector.matchLabels.entries.map fun (k, v) => k ++ "=" ++ v)
      if labels.isEmpty then none else some labels
  | none => none

/-- The namespaces the policy is restricted to; empty means all. -/
def policyNamespaces (policy : DepodPolicy) : List String :=
  match policy.spec.match_.namespaceSelector with
  | some nsSelector => nsSelector.matchNames
  | none => []

/-- The pods of a listing that opted in and match. -/
def podsToTrigger (policy : DepodPolicy) (pods : List Pod) : List Pod :=
  pods.filter fun pod =>
    checkTrigger pod policy.spec.trigger.annotationKey policy.spec.trigger.annotationValues &&
      matchesPolicy pod policy

/-- Patch each pod.  The patches are concurrent in the source and independent
of one another; here they are made in list order. -/
def touchPods (api : PodApi) (patch : TouchPatch) : List Pod → PolicyProg Unit
  | [] => return ()
  | pod :: pods => do
      let _ ← request (.patchPod api pod.nameAny patch)
      touchPods api patch pods

/-- The loop over the restricted namespaces; a failed listing is skipped. -/
def touchNamespaces (policy : DepodPolicy) (patch : TouchPatch) :
    List String → PolicyProg Unit
  | [] => return ()
  | ns :: namespaces => do
      match ← request (.listPods (.namespaced ns) (labelSelector policy)) with
      | .error _ => touchNamespaces policy patch namespaces
      | .ok pods => do
          touchPods (.namespaced ns) patch (podsToTrigger policy pods)
          touchNamespaces policy patch namespaces

/-- What follows the cache refresh. -/
def afterRefresh (operatorPodName : String) (policy : DepodPolicy) :
    PolicyProg (Except Error Action) := do
  reportReady policy
  let now ← request .nowText
  let patch : TouchPatch := ⟨operatorPodName, policy.nameAny, now⟩
  let namespaces := policyNamespaces policy
  if namespaces.isEmpty then do
    match ← request (.listPods .all (labelSelector policy)) with
    | .error _ => return .ok (.requeue (Duration.fromSecs 60))
    | .ok pods => do
        touchPods .all patch (podsToTrigger policy pods)
        return .ok .awaitChange
  else do
    touchNamespaces policy patch namespaces
    return .ok .awaitChange

/-- `reconcile_policy`. -/
def reconcilePolicy (operatorPodName : String) (policy : DepodPolicy) :
    PolicyProg (Except Error Action) := do
  if ← checkPolicy policy then do
    refreshCache
    afterRefresh operatorPodName policy
  else
    return .ok .awaitChange

end KubeDepod
