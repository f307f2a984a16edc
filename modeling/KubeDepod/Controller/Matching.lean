/-
KubeDepod/Controller/Matching.lean

The pure predicates of `controller.rs`: which pods a policy is about, whether
the pod opted in by its annotation, the built-in TTL condition, and the
namespaces a policy must leave alone.
-/
import KubeDepod.Crd

namespace KubeDepod

/-- `matches_policy`: namespace selector and label selector. -/
def matchesPolicy (pod : Pod) (policy : DepodPolicy) : Bool :=
  let namespaceOk := match policy.spec.match_.namespaceSelector with
    | some nsSelector =>
        nsSelector.matchNames.isEmpty ||
          nsSelector.matchNames.contains pod.namespaceOrDefault
    | none => true
  let labelsOk := match policy.spec.match_.podSelector with
    | some podSelector =>
        podSelector.matchLabels.isEmpty ||
          podSelector.matchLabels.entries.all fun (key, value) =>
            pod.labels.get key == some value
    | none => true
  namespaceOk && labelsOk

/-- `check_trigger`: the pod carries the annotation with an accepted value. -/
def checkTrigger (pod : Pod) (annotationKey : String)
    (annotationValues : BTreeSet String) : Bool :=
  match pod.metadata.annotations with
  | some annotations =>
      match annotations.get annotationKey with
      | some value => annotationValues.contains value
      | none => false
  | none => false

/-- `evaluate_ttl_condition`. -/
def evaluateTtlCondition (pod : Pod) (ttlSeconds : Int64) (now : DateTime) : Bool :=
  match pod.metadata.creationTimestamp with
  | some created =>
      let age := (now.sub created).numSeconds
      age > ttlSeconds
  | none => false

/-- `calculate_ttl_requeue`: `(ttl_seconds - age).max(1) as u64`. -/
def calculateTtlRequeue (pod : Pod) (ttlSeconds : Int64) (now : DateTime) : Option Nat :=
  match pod.metadata.creationTimestamp with
  | some created =>
      let age := (now.sub created).numSeconds
      some (max (ttlSeconds - age) 1).toUInt64.toNat
  | none => none

/-- `is_system_namespace`. -/
def isSystemNamespace (ns : String) : Bool :=
  ["kube-system", "kube-public", "kube-node-lease", "kube-apiserver",
    "kube-controller-manager", "kube-scheduler"].contains ns

/-- `is_namespace_protected`. -/
def isNamespaceProtected (ns : String) (protectSystem : Bool)
    (excludedNamespaces : Option (List String)) : Bool :=
  if protectSystem && isSystemNamespace ns then
    true
  else
    match excludedNamespaces with
    | some excluded => excluded.contains ns
    | none => false

/-- `get_policy_namespace`. -/
def getPolicyNamespace (policy : DepodPolicy) : String :=
  match policy.metadata.namespace_ with
  | some ns => ns
  | none =>
      match policy.spec.match_.namespaceSelector with
      | some ⟨[ns]⟩ => ns
      | _ => "default"

end KubeDepod
