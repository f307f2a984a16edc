/-
KubeDepod/StatusUpdater.lean

Updates of a policy's status.

Each operation of `StatusUpdater` is a function of the status; the texts of the
times it reads are arguments, `created` for the transition time of a condition
and `now` for the last observation.
-/
import KubeDepod.Crd

namespace KubeDepod

namespace StatusUpdater

/-- `StatusUpdater::update_last_observed_time`. -/
def updateLastObservedTime (status : DepodPolicyStatus) (now : String) : DepodPolicyStatus :=
  { status with lastObservedTime := some now }

/-- `StatusUpdater::record_pod_evaluated`. -/
def recordPodEvaluated (status : DepodPolicyStatus) (now : String) : DepodPolicyStatus :=
  updateLastObservedTime { status with podsEvaluated := status.podsEvaluated + 1 } now

/-- `StatusUpdater::record_policy_match`. -/
def recordPolicyMatch (status : DepodPolicyStatus) (now : String) : DepodPolicyStatus :=
  updateLastObservedTime
    { status with
      podsMatched := status.podsMatched + 1
      podsEvaluated := status.podsEvaluated + 1 } now

/-- `StatusUpdater::record_pod_deleted`. -/
def recordPodDeleted (status : DepodPolicyStatus) (now : String) : DepodPolicyStatus :=
  updateLastObservedTime { status with podsDeleted := status.podsDeleted + 1 } now

/-- `StatusUpdater::record_evaluation_error`. -/
def recordEvaluationError (status : DepodPolicyStatus) (now : String) : DepodPolicyStatus :=
  updateLastObservedTime { status with evaluationErrors := status.evaluationErrors + 1 } now

/-- `StatusUpdater::update_condition`: replaces the condition of the same type. -/
def updateCondition (status : DepodPolicyStatus) (condition : PolicyCondition) :
    DepodPolicyStatus :=
  { status with
    conditions := status.conditions.filter (fun c => c.conditionType != condition.conditionType)
      ++ [condition] }

/-- `StatusUpdater::reset_counters`. -/
def resetCounters (status : DepodPolicyStatus) : DepodPolicyStatus :=
  { status with
    podsEvaluated := 0
    podsMatched := 0
    podsDeleted := 0
    evaluationErrors := 0 }

/-- `StatusUpdater::initialize`. -/
def initialize_ (status : DepodPolicyStatus) (created now : String) : DepodPolicyStatus :=
  let cleared := { status with conditions := [] }
  let pushed := { cleared with conditions := cleared.conditions ++ [.ready created] }
  updateLastObservedTime pushed now

/-- `StatusUpdater::mark_invalid_cel`. -/
def markInvalidCel (status : DepodPolicyStatus) (message created now : String) :
    DepodPolicyStatus :=
  updateLastObservedTime (updateCondition status (.invalidCel message created)) now

/-- `StatusUpdater::mark_invalid_spec`. -/
def markInvalidSpec (status : DepodPolicyStatus) (message created now : String) :
    DepodPolicyStatus :=
  updateLastObservedTime (updateCondition status (.invalidSpec message created)) now

/-- `StatusUpdater::mark_ready`. -/
def markReady (status : DepodPolicyStatus) (created now : String) : DepodPolicyStatus :=
  updateLastObservedTime (updateCondition status (.ready created)) now

/-- `StatusUpdater::validate_and_update_when`. -/
def validateAndUpdateWhen (status : DepodPolicyStatus) (w : When) (created now : String) :
    Except Error Unit × DepodPolicyStatus :=
  match validateWhen w with
  | .ok () => (.ok (), if status.conditions.isEmpty then markReady status created now else status)
  | .error e => (.error e, markInvalidSpec status e.toString created now)

end StatusUpdater

/-! ### Sequences of operations -/

/-- The operations of `StatusUpdater`, with their arguments. -/
inductive StatusOp where
  | recordPodEvaluated
  | recordPolicyMatch
  | recordPodDeleted
  | recordEvaluationError
  | updateCondition (condition : PolicyCondition)
  | updateLastObservedTime
  | resetCounters
  | initialize_
  | markInvalidCel (message : String)
  | markInvalidSpec (message : String)
  | markReady
  | validateAndUpdateWhen (when_ : When)
deriving DecidableEq

/-- A call of an operation, with the texts of the times it reads. -/
structure StatusCall where
  op : StatusOp
  created : String
  now : String
deriving DecidableEq

namespace StatusCall

/-- The status after the call. -/
def apply (call : StatusCall) (status : DepodPolicyStatus) : DepodPolicyStatus :=
  match call.op with
  | .recordPodEvaluated => StatusUpdater.recordPodEvaluated status call.now
  | .recordPolicyMatch => StatusUpdater.recordPolicyMatch status call.now
  | .recordPodDeleted => StatusUpdater.recordPodDeleted status call.now
  | .recordEvaluationError => StatusUpdater.recordEvaluationError status call.now
  | .updateCondition condition => StatusUpdater.updateCondition status condition
  | .updateLastObservedTime => StatusUpdater.updateLastObservedTime status call.now
  | .resetCounters => StatusUpdater.resetCounters status
  | .initialize_ => StatusUpdater.initialize_ status call.created call.now
  | .markInvalidCel message =>
      StatusUpdater.markInvalidCel status message call.created call.now
  | .markInvalidSpec message =>
      StatusUpdater.markInvalidSpec status message call.created call.now
  | .markReady => StatusUpdater.markReady status call.created call.now
  | .validateAndUpdateWhen w =>
      (StatusUpdater.validateAndUpdateWhen status w call.created call.now).2

end StatusCall

end KubeDepod
