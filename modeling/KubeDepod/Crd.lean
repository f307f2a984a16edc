/-
KubeDepod/Crd.lean

The `DepodPolicy` resource and the pod, as the code reads them, and the
validation of a policy's spec.

A field of a Kubernetes object is kept when some function of the operator
reads it or sends it.  Of the pod's spec and status only CEL expressions see
anything, and they see them whole; they are kept as opaque JSON texts.
-/
import KubeDepod.Std

namespace KubeDepod

/-! ### Metadata -/

/-- `ObjectMeta`. -/
structure ObjectMeta where
  name : Option String := none
  generateName : Option String := none
  namespace_ : Option String := none
  uid : Option String := none
  labels : Option (BTreeMap String String) := none
  annotations : Option (BTreeMap String String) := none
  creationTimestamp : Option DateTime := none
  deletionTimestamp : Option DateTime := none
deriving DecidableEq

/-- `ResourceExt::name_any`. -/
def ObjectMeta.nameAny (m : ObjectMeta) : String :=
  (m.name.or m.generateName).getD ""

/-- `k8s_openapi::api::core::v1::Pod`. -/
structure Pod where
  metadata : ObjectMeta
  spec : Option String := none
  status : Option String := none
deriving DecidableEq

def Pod.nameAny (pod : Pod) : String := pod.metadata.nameAny

/-- `pod.namespace().unwrap_or_default()`. -/
def Pod.namespaceOrDefault (pod : Pod) : String := pod.metadata.namespace_.getD ""

/-- `ResourceExt::labels`: absent labels read as the empty map. -/
def Pod.labels (pod : Pod) : BTreeMap String String := pod.metadata.labels.getD .empty

/-! ### The policy -/

inductive ConditionType where
  | cel
  | builtin
deriving DecidableEq

inductive ActionType where
  | delete
  | evict
deriving DecidableEq

structure NamespaceSelector where
  matchNames : List String
deriving DecidableEq

structure PodSelector where
  matchLabels : BTreeMap String String
deriving DecidableEq

structure Match where
  namespaceSelector : Option NamespaceSelector := none
  podSelector : Option PodSelector := none
deriving DecidableEq

structure Trigger where
  annotationKey : String
  annotationValues : BTreeSet String
deriving DecidableEq

structure When where
  conditionType : ConditionType
  expression : Option String := none
  ttlSeconds : Option Int64 := none
deriving DecidableEq

structure Then where
  actionType : ActionType
  gracePeriodSeconds : Option Int64 := none
  dryRun : Bool := false
deriving DecidableEq

structure Limits where
  maxDeletesPerMinute : Option Int32 := none
  protectSystemNamespaces : Bool := false
  excludedNamespaces : Option (List String) := none
deriving DecidableEq

structure DepodPolicySpec where
  match_ : Match
  trigger : Trigger
  when_ : When
  then_ : Then
  limits : Limits
deriving DecidableEq

/-! ### The status -/

structure PolicyCondition where
  conditionType : String
  status : String
  lastTransitionTime : Option String := none
  reason : Option String := none
  message : Option String := none
deriving DecidableEq

structure DepodPolicyStatus where
  conditions : List PolicyCondition := []
  lastObservedTime : Option String := none
  podsEvaluated : UInt64 := 0
  podsMatched : UInt64 := 0
  podsDeleted : UInt64 := 0
  evaluationErrors : UInt64 := 0
deriving DecidableEq

structure DepodPolicy where
  metadata : ObjectMeta
  spec : DepodPolicySpec
  status : Option DepodPolicyStatus := none
deriving DecidableEq

def DepodPolicy.nameAny (policy : DepodPolicy) : String := policy.metadata.nameAny

/-- The condition builders; `now` is the text of the current time. -/
def PolicyCondition.invalidCel (message now : String) : PolicyCondition where
  conditionType := "InvalidCEL"
  status := "True"
  lastTransitionTime := some now
  reason := some "CELCompilationError"
  message := some message

def PolicyCondition.invalidSpec (message now : String) : PolicyCondition where
  conditionType := "InvalidSpec"
  status := "True"
  lastTransitionTime := some now
  reason := some "SpecValidationError"
  message := some message

def PolicyCondition.ready (now : String) : PolicyCondition where
  conditionType := "Ready"
  status := "True"
  lastTransitionTime := some now
  reason := some "PolicyValidated"
  message := some "Policy spec is valid and ready for evaluation"

/-! ### Validation -/

/-- `validate_when`. -/
def validateWhen (w : When) : Except Error Unit := do
  match w.conditionType with
  | .cel =>
    let isInvalid := match w.expression with
      | none => true
      | some s => (trim s).isEmpty
    if isInvalid then
      throw (.validationError "when.expression required and cannot be empty for CEL type")
    if w.ttlSeconds.isSome then
      throw (.validationError
        "when.ttlSeconds must not be set for CEL type (use expression instead)")
  | .builtin =>
    if w.ttlSeconds.isNone then
      throw (.validationError "when.ttlSeconds required for Builtin type")
    if let some ttl := w.ttlSeconds then
      if ttl ≤ 0 then
        throw (.validationError "when.ttlSeconds must be a positive integer")
    if w.expression.isSome then
      throw (.validationError
        "when.expression must not be set for Builtin type (use ttlSeconds instead)")

/-- `DepodPolicySpec::validate`. -/
def DepodPolicySpec.validate (spec : DepodPolicySpec) : Except Error Unit := do
  if spec.trigger.annotationKey.isEmpty then
    throw (.validationError "trigger.annotation_key cannot be empty")
  if spec.trigger.annotationValues.isEmpty then
    throw (.validationError "trigger.annotation_values cannot be empty")
  validateWhen spec.when_
  if let some grace := spec.then_.gracePeriodSeconds then
    if grace < 0 then
      throw (.validationError "then.gracePeriodSeconds must be non-negative")

/-- `spec.validate().is_ok()`. -/
def DepodPolicySpec.isValid (spec : DepodPolicySpec) : Bool := spec.validate.isOk

/-- A valid spec passes each of its checks. -/
theorem validateWhen_of_isValid {spec : DepodPolicySpec} (h : spec.isValid = true) :
    validateWhen spec.when_ = .ok () := by
  rcases hwhen : validateWhen spec.when_ with e | ⟨⟩
  · rw [DepodPolicySpec.isValid, DepodPolicySpec.validate, hwhen] at h
    by_cases hkey : spec.trigger.annotationKey.isEmpty = true <;>
      by_cases hvalues : spec.trigger.annotationValues.isEmpty = true <;>
      simp [hkey, hvalues, Except.isOk, Except.toBool, throw, throwThe, MonadExceptOf.throw,
        bind, Except.bind] at h
  · rfl

/-- A valid built-in condition has a positive TTL. -/
theorem ttl_of_isValid {spec : DepodPolicySpec} (h : spec.isValid = true)
    (htype : spec.when_.conditionType = .builtin) :
    ∃ ttl, spec.when_.ttlSeconds = some ttl ∧ 0 < ttl := by
  have hwhen := validateWhen_of_isValid h
  rw [validateWhen, htype] at hwhen
  rcases httl : spec.when_.ttlSeconds with - | ttl
  · rw [httl] at hwhen
    cases hwhen
  · refine ⟨ttl, rfl, Int64.not_le.mp fun hle => ?_⟩
    simp only [httl, hle, if_true] at hwhen
    cases hwhen

/-- Whatever the condition type, a TTL that passes validation is positive. -/
theorem ttl_pos_of_isValid {spec : DepodPolicySpec} (h : spec.isValid = true) {ttl : Int64}
    (httl : spec.when_.ttlSeconds = some ttl) : 0 < ttl := by
  rcases htype : spec.when_.conditionType with - | -
  · -- a CEL condition has no TTL
    have hwhen := validateWhen_of_isValid h
    rw [validateWhen, htype, httl] at hwhen
    rcases hexpr : spec.when_.expression with - | expr
    · rw [hexpr] at hwhen
      cases hwhen
    · by_cases hempty : (trim expr).isEmpty = true <;>
        simp [hexpr, hempty, throw, throwThe, MonadExceptOf.throw, bind, Except.bind] at hwhen
  · obtain ⟨ttl', httl', hpos⟩ := ttl_of_isValid h htype
    obtain rfl : ttl' = ttl := Option.some.inj (httl'.symm.trans httl)
    exact hpos

/-- A grace period that passes validation is not negative. -/
theorem grace_nonneg_of_isValid {spec : DepodPolicySpec} (h : spec.isValid = true) {grace : Int64}
    (hgrace : spec.then_.gracePeriodSeconds = some grace) : 0 ≤ grace := by
  refine Int64.not_lt.mp fun hneg => ?_
  have hwhen := validateWhen_of_isValid h
  rw [DepodPolicySpec.isValid, DepodPolicySpec.validate, hwhen, hgrace] at h
  by_cases hkey : spec.trigger.annotationKey.isEmpty = true <;>
    by_cases hvalues : spec.trigger.annotationValues.isEmpty = true <;>
    simp [hkey, hvalues, hneg, Except.isOk, Except.toBool, throw, throwThe, MonadExceptOf.throw,
      bind, Except.bind] at h

/-! ### Sample objects -/

/-- A policy that deletes the opted-in pods older than `ttl` seconds. -/
def ttlPolicy (name : String) (ttl : Int64) : DepodPolicy where
  metadata := { namespace_ := some "default", name := some name }
  spec :=
    { match_ := {}
      trigger := ⟨"kube-depod/enabled", .singleton "true"⟩
      when_ := { conditionType := .builtin, ttlSeconds := some ttl }
      then_ := { actionType := .delete }
      limits := {} }

/-- A policy on a CEL condition. -/
def celPolicy (name expression : String) : DepodPolicy :=
  { ttlPolicy name 1 with
    spec :=
      { (ttlPolicy name 1).spec with
        when_ := { conditionType := .cel, expression := some expression } } }

/-- A policy of the namespace `ns` with a limit of one. -/
def limitedPolicy (ns name expression : String) : DepodPolicy :=
  { celPolicy name expression with
    metadata := { namespace_ := some ns, name := some name }
    spec :=
      { (celPolicy name expression).spec with limits := { maxDeletesPerMinute := some 1 } } }

/-- A pod that has opted in. -/
def optedInPod (name uid : String) : Pod where
  metadata :=
    { namespace_ := some "default"
      name := some name
      uid := some uid
      annotations := some (.singleton "kube-depod/enabled" "true") }

/-- A pod that has opted in, created at the epoch. -/
def epochPod : Pod :=
  { optedInPod "web-0" "4e1f" with
    metadata :=
      { (optedInPod "web-0" "4e1f").metadata with creationTimestamp := some .unixEpoch } }

end KubeDepod
