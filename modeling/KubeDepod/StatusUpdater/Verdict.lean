/-
KubeDepod/StatusUpdater/Verdict.lean

The verdict that a status gives on its policy.

Each of the conditions `Ready`, `InvalidSpec` and `InvalidCEL` is a verdict,
and a policy has one.  `initialize` clears the others, and
`validate_and_update_when` leaves the status alone if there are any; but the
`mark_*` operations replace the condition of their own type only, and a `when`
that has become valid does not take `InvalidSpec` back.  The status agrees with
the latest verdict exactly if no earlier one is left over
(`agreesWithVerdict_iff`).
-/
import KubeDepod.Lib.Execution
import KubeDepod.StatusUpdater.History

namespace KubeDepod

open Lts

/-! ### The verdicts of a status -/

/-- The condition is a verdict that holds. -/
def PolicyCondition.isVerdict (c : PolicyCondition) : Bool :=
  c.status == "True" && ["Ready", "InvalidSpec", "InvalidCEL"].contains c.conditionType

def DepodPolicyStatus.verdicts (status : DepodPolicyStatus) : List PolicyCondition :=
  status.conditions.filter PolicyCondition.isVerdict

/-- No verdict of another type holds. -/
def OnlyVerdict (conditionType : String) (status : DepodPolicyStatus) : Prop :=
  ∀ c ∈ status.verdicts, c.conditionType = conditionType

/-- The one verdict that holds is of this type. -/
def VerdictIs (conditionType : String) (status : DepodPolicyStatus) : Prop :=
  status.verdicts.map PolicyCondition.conditionType = [conditionType]

/-- What the result of `validate_and_update_when` says about the verdicts. -/
def AgreesWithResult (result : Except Error Unit) (status : DepodPolicyStatus) : Prop :=
  match result with
  | .ok () => ∀ c ∈ status.verdicts, c.conditionType ≠ "InvalidSpec"
  | .error e =>
      (∃ c, (status.verdicts.filter fun c => c.conditionType == "InvalidSpec") = [c] ∧
        c.message = some e.toString) ∧
      ∀ c ∈ status.verdicts, c.conditionType ≠ "Ready"

/-- After the call at most one verdict holds, and it is the one the call gave. -/
def AgreesWithVerdict (status : DepodPolicyStatus) (call : StatusCall) : Prop :=
  (call.apply status).verdicts.length ≤ 1 ∧
    match call.op with
    | .initialize_ => VerdictIs "Ready" (call.apply status)
    | .markReady => VerdictIs "Ready" (call.apply status)
    | .markInvalidCel _ => VerdictIs "InvalidCEL" (call.apply status)
    | .markInvalidSpec _ => VerdictIs "InvalidSpec" (call.apply status)
    | .validateAndUpdateWhen w =>
        AgreesWithResult
          (StatusUpdater.validateAndUpdateWhen status w call.created call.now).1
          (call.apply status)
    | _ => True

/-- No verdict is left over that the call contradicts. -/
def NothingLeftOver (status : DepodPolicyStatus) (call : StatusCall) : Prop :=
  match call.op with
  | .markReady => OnlyVerdict "Ready" status
  | .markInvalidCel _ => OnlyVerdict "InvalidCEL" status
  | .markInvalidSpec _ => OnlyVerdict "InvalidSpec" status
  | .validateAndUpdateWhen w =>
      match validateWhen w with
      | .ok () => ∀ c ∈ status.verdicts, c.conditionType ≠ "InvalidSpec"
      | .error _ => OnlyVerdict "InvalidSpec" status
  | _ => True

/-- A call of any operation but `update_condition`, which takes any condition. -/
def VerdictStep (status : DepodPolicyStatus) (call : StatusCall) (status' : DepodPolicyStatus) :
    Prop :=
  (∀ condition, call.op ≠ .updateCondition condition) ∧ status' = call.apply status

/-! ### What one call does to the verdicts -/

variable {status : DepodPolicyStatus} {c : PolicyCondition}

/-- A verdict is written among the verdicts as a condition is among the
conditions. -/
theorem verdicts_updateCondition (h : c.isVerdict = true) :
    (StatusUpdater.updateCondition status c).verdicts
      = LastWrites.write PolicyCondition.conditionType status.verdicts c := by
  unfold DepodPolicyStatus.verdicts StatusUpdater.updateCondition LastWrites.write
  rw [List.filter_append, List.filter_filter, List.filter_filter]
  congr 1
  · congr 1
    funext d
    exact Bool.and_comm _ _
  · rw [List.filter_singleton, h]
    rfl

/-- A verdict is the only one after it is marked exactly if no other was left. -/
theorem verdicts_mark_iff (h : c.isVerdict = true) :
    (StatusUpdater.updateCondition status c).verdicts.length ≤ 1 ↔
      OnlyVerdict c.conditionType status := by
  rw [verdicts_updateCondition h]
  exact LastWrites.length_write_le_one

theorem verdicts_of_mark (h : c.isVerdict = true)
    (honly : OnlyVerdict c.conditionType status) :
    (StatusUpdater.updateCondition status c).verdicts = [c] := by
  rw [verdicts_updateCondition h]
  exact LastWrites.write_eq_singleton honly

/-- The three `mark_*` operations. -/
theorem agrees_mark_iff (h : c.isVerdict = true) :
    ((StatusUpdater.updateCondition status c).verdicts.length ≤ 1 ∧
        VerdictIs c.conditionType (StatusUpdater.updateCondition status c)) ↔
      OnlyVerdict c.conditionType status := by
  rw [verdicts_mark_iff h]
  refine and_iff_left_of_imp fun honly => ?_
  rw [VerdictIs, verdicts_of_mark h honly]
  rfl

/-- `validate_and_update_when`, for a `when` that is not valid. -/
theorem agrees_invalid_iff (e : Error) (created : String) :
    ((StatusUpdater.updateCondition status (.invalidSpec e.toString created)).verdicts.length ≤ 1 ∧
        AgreesWithResult (.error e)
          (StatusUpdater.updateCondition status (.invalidSpec e.toString created))) ↔
      OnlyVerdict "InvalidSpec" status := by
  have hverdict : (PolicyCondition.invalidSpec e.toString created).isVerdict = true := rfl
  rw [verdicts_mark_iff hverdict]
  refine and_iff_left_of_imp fun honly => ?_
  unfold AgreesWithResult
  rw [verdicts_of_mark hverdict honly]
  refine ⟨⟨_, rfl, rfl⟩, fun c hc => ?_⟩
  rw [List.mem_singleton.mp hc]
  show "InvalidSpec" ≠ "Ready"
  decide

/-- `validate_and_update_when`, for a `when` that is valid: a status without
conditions becomes ready, any other stays. -/
theorem agrees_valid_iff (hone : status.verdicts.length ≤ 1) (created now : String) :
    let status' := if status.conditions.isEmpty then
      StatusUpdater.markReady status created now else status
    (status'.verdicts.length ≤ 1 ∧ AgreesWithResult (.ok ()) status') ↔
      ∀ c ∈ status.verdicts, c.conditionType ≠ "InvalidSpec" := by
  intro status'
  by_cases hempty : status.conditions.isEmpty = true
  · have hnone : status.verdicts = [] := by
      rw [DepodPolicyStatus.verdicts, List.isEmpty_iff.mp hempty, List.filter_nil]
    have hready : status'.verdicts = [.ready created] := by
      show (if status.conditions.isEmpty then
        StatusUpdater.markReady status created now else status).verdicts = _
      rw [if_pos hempty]
      refine verdicts_of_mark (c := .ready created) rfl ?_
      rw [OnlyVerdict, hnone]
      exact nofun
    rw [hnone]
    refine iff_of_true ⟨?_, ?_⟩ nofun
    · rw [hready]
      exact Nat.le_refl 1
    · rw [AgreesWithResult, hready]
      intro c hc
      rw [List.mem_singleton.mp hc]
      show "Ready" ≠ "InvalidSpec"
      decide
  · have hsame : status' = status := if_neg hempty
    rw [hsame]
    exact and_iff_right hone

/-- **One call.**  From a status with one verdict at most, a call leaves the
status in agreement with it exactly if nothing is left over. -/
theorem agreesWithVerdict_step {call : StatusCall} (hone : status.verdicts.length ≤ 1)
    (hop : ∀ condition, call.op ≠ .updateCondition condition) :
    AgreesWithVerdict status call ↔ NothingLeftOver status call := by
  obtain ⟨op, created, now⟩ := call
  cases op with
  | updateCondition condition => exact absurd rfl (hop condition)
  | initialize_ =>
      have hready : (StatusUpdater.initialize_ status created now).verdicts = [.ready created] :=
        rfl
      refine iff_of_true ⟨?_, ?_⟩ trivial
      · show (StatusUpdater.initialize_ status created now).verdicts.length ≤ 1
        rw [hready]
        exact Nat.le_refl 1
      · show VerdictIs "Ready" (StatusUpdater.initialize_ status created now)
        rw [VerdictIs, hready]
        rfl
  | markReady => exact agrees_mark_iff (c := .ready created) rfl
  | markInvalidCel message => exact agrees_mark_iff (c := .invalidCel message created) rfl
  | markInvalidSpec message =>
      exact agrees_mark_iff (c := .invalidSpec message created) rfl
  | validateAndUpdateWhen w =>
      unfold AgreesWithVerdict NothingLeftOver
      rcases hwhen : validateWhen w with e | ⟨⟩
      · simp only [StatusCall.apply, StatusUpdater.validateAndUpdateWhen, hwhen]
        exact agrees_invalid_iff e created
      · simp only [StatusCall.apply, StatusUpdater.validateAndUpdateWhen, hwhen]
        exact agrees_valid_iff hone created now
  | _ => exact iff_of_true ⟨hone, trivial⟩ trivial

/-! ### Over a run -/

/-- `mark_invalid_cel` and then `mark_ready`: both conditions hold. -/
theorem verdict_is_contradicted :
    ¬ ∀ π : List (StatusCall × DepodPolicyStatus), Execution VerdictStep {} π →
      StepsMeet AgreesWithVerdict {} π := by
  intro h
  let invalid : StatusCall := ⟨.markInvalidCel "unknown function", "10:00", "10:00"⟩
  let ready : StatusCall := ⟨.markReady, "10:01", "10:01"⟩
  obtain ⟨-, ⟨hone, -⟩, -⟩ :=
    h [(invalid, invalid.apply {}), (ready, ready.apply (invalid.apply {}))]
      ⟨⟨nofun, rfl⟩, ⟨nofun, rfl⟩, trivial⟩
  exact absurd hone (by decide)

/-- **When the status agrees with the latest verdict.**  In every run from the
default status: after every call at most one verdict holds and it is the one
the call gave, exactly if no call finds a verdict that it contradicts and does
not replace. -/
theorem agreesWithVerdict_iff {π : List (StatusCall × DepodPolicyStatus)}
    (hπ : Execution VerdictStep {} π) :
    StepsMeet AgreesWithVerdict {} π ↔ StepsMeet NothingLeftOver {} π := by
  refine hπ.stepsMeet_iff (I := fun status => status.verdicts.length ≤ 1) ?_ ?_ (Nat.zero_le 1)
  · rintro status call status' ⟨-, rfl⟩ hagrees -
    exact hagrees.1
  · rintro status call status' ⟨hop, -⟩ hone
    exact agreesWithVerdict_step hone hop

/-- A policy that is ready and then cleared for its next verdict. -/
theorem agreesWithVerdict_iff_initialized :
    let ready : StatusCall := ⟨.markReady, "10:00", "10:00"⟩
    let clear : StatusCall := ⟨.initialize_, "10:01", "10:01"⟩
    let π := [(ready, ready.apply {}), (clear, clear.apply (ready.apply {}))]
    StepsMeet AgreesWithVerdict {} π ↔ StepsMeet NothingLeftOver {} π :=
  agreesWithVerdict_iff ⟨⟨nofun, rfl⟩, ⟨nofun, rfl⟩, trivial⟩

end KubeDepod
