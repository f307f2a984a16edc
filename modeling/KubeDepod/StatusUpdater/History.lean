/-
KubeDepod/StatusUpdater/History.lean

What is in a status after any sequence of operations.

A call clears the conditions or not, and then writes one condition or none
(`StatusCall.apply_conditions`).  The conditions of a status are therefore the
last writes of their types since the last `initialize`, in the order of these
writes.  The counters are independent of them; as every match counts as an
evaluation, there are no more matches than evaluations until a counter
overflows.
-/
import KubeDepod.StatusUpdater
import KubeDepod.Lib.LastWrites
import Mathlib.Order.Basic

namespace KubeDepod

/-! ### What a call writes -/

namespace StatusCall

/-- The conditions that the call writes. -/
def writes (call : StatusCall) (status : DepodPolicyStatus) : List PolicyCondition :=
  match call.op with
  | .updateCondition condition => [condition]
  | .initialize_ => [.ready call.created]
  | .markInvalidCel message => [.invalidCel message call.created]
  | .markInvalidSpec message => [.invalidSpec message call.created]
  | .markReady => [.ready call.created]
  | .validateAndUpdateWhen w =>
      match validateWhen w with
      | .ok () => if status.conditions.isEmpty then [.ready call.created] else []
      | .error e => [.invalidSpec e.toString call.created]
  | _ => []

/-- The conditions that the call finds before it writes: `initialize` clears
them. -/
def kept (call : StatusCall) (conditions : List PolicyCondition) : List PolicyCondition :=
  match call.op with
  | .initialize_ => []
  | _ => conditions

/-- **A call clears, and then writes.** -/
theorem apply_conditions (call : StatusCall) (status : DepodPolicyStatus) :
    (call.apply status).conditions
      = (call.writes status).foldl (LastWrites.write PolicyCondition.conditionType)
          (call.kept status.conditions) := by
  obtain ⟨op, created, now⟩ := call
  cases op with
  | validateAndUpdateWhen w =>
      rcases hwhen : validateWhen w with e | ⟨⟩
      · simp only [apply, writes, StatusUpdater.validateAndUpdateWhen, hwhen]
        rfl
      · simp only [apply, writes, StatusUpdater.validateAndUpdateWhen, hwhen]
        split_ifs <;> rfl
  | _ => rfl

end StatusCall

namespace StatusUpdater

/-- The status after a sequence of calls. -/
def run (status : DepodPolicyStatus) (calls : List StatusCall) : DepodPolicyStatus :=
  calls.foldl (fun status call => call.apply status) status

/-- The conditions written since the last `initialize`, in order, the `written`
ones before the calls included. -/
def writtenBy : DepodPolicyStatus → List PolicyCondition → List StatusCall → List PolicyCondition
  | _, written, [] => written
  | status, written, call :: calls =>
      writtenBy (call.apply status) (call.kept written ++ call.writes status) calls

/-- The conditions are the last writes of their types. -/
abbrev Tracks (written conditions : List PolicyCondition) : Prop :=
  LastWrites.Tracks PolicyCondition.conditionType written conditions

variable {status : DepodPolicyStatus} {written : List PolicyCondition}

theorem tracks_apply (h : Tracks written status.conditions) (call : StatusCall) :
    Tracks (call.kept written ++ call.writes status) (call.apply status).conditions := by
  rw [call.apply_conditions]
  refine LastWrites.Tracks.foldl_write ?_ _
  obtain ⟨op, created, now⟩ := call
  cases op with
  | initialize_ => exact LastWrites.tracks_nil
  | _ => exact h

theorem tracks_run (h : Tracks written status.conditions) (calls : List StatusCall) :
    Tracks (writtenBy status written calls) (run status calls).conditions := by
  induction calls generalizing status written with
  | nil => exact h
  | cons call calls ih => exact ih (tracks_apply h call)

/-! ### The counters -/

end StatusUpdater

/-- The operation writes counters. -/
def StatusOp.onCounters : StatusOp → Bool
  | .recordPodEvaluated => true
  | .recordPolicyMatch => true
  | .recordPodDeleted => true
  | .recordEvaluationError => true
  | .resetCounters => true
  | _ => false

/-- The operation writes conditions. -/
def StatusOp.onConditions : StatusOp → Bool
  | .updateCondition _ => true
  | .initialize_ => true
  | .markInvalidCel _ => true
  | .markInvalidSpec _ => true
  | .markReady => true
  | .validateAndUpdateWhen _ => true
  | _ => false

/-- The four counters. -/
def DepodPolicyStatus.counters (status : DepodPolicyStatus) : UInt64 × UInt64 × UInt64 × UInt64 :=
  (status.podsEvaluated, status.podsMatched, status.podsDeleted, status.evaluationErrors)

namespace StatusUpdater

variable {status : DepodPolicyStatus} {call : StatusCall}

theorem apply_counters (h : call.op.onCounters = false) (status : DepodPolicyStatus) :
    (call.apply status).counters = status.counters := by
  obtain ⟨op, created, now⟩ := call
  cases op with
  | validateAndUpdateWhen w =>
      show (validateAndUpdateWhen status w created now).2.counters = _
      unfold validateAndUpdateWhen
      split
      · dsimp only
        split_ifs <;> rfl
      · rfl
  | updateCondition condition => rfl
  | updateLastObservedTime => rfl
  | initialize_ => rfl
  | markInvalidCel message => rfl
  | markInvalidSpec message => rfl
  | markReady => rfl
  | _ => cases h

theorem conditions_of_onConditions (h : call.op.onConditions = false)
    (status : DepodPolicyStatus) : (call.apply status).conditions = status.conditions := by
  obtain ⟨op, created, now⟩ := call
  cases op with
  | recordPodEvaluated => rfl
  | recordPolicyMatch => rfl
  | recordPodDeleted => rfl
  | recordEvaluationError => rfl
  | updateLastObservedTime => rfl
  | resetCounters => rfl
  | _ => cases h

/-- No more matches than evaluations, and no more evaluations than `n`. -/
structure CountedWithin (n : Nat) (status : DepodPolicyStatus) : Prop where
  matched : status.podsMatched.toNat ≤ status.podsEvaluated.toNat
  evaluated : status.podsEvaluated.toNat ≤ n

theorem CountedWithin.apply {n : Nat} (h : CountedWithin n status) (hn : n + 1 < UInt64.size)
    (call : StatusCall) : CountedWithin (n + 1) (call.apply status) := by
  obtain ⟨hmatched, hevaluated⟩ := h
  have hsucc : ∀ x : UInt64, x.toNat ≤ n → (x + 1).toNat = x.toNat + 1 := by
    intro x hx
    rw [UInt64.toNat_add]
    exact Nat.mod_eq_of_lt (Nat.lt_of_le_of_lt (Nat.add_le_add_right hx 1) hn)
  rcases hop : call.op.onCounters with - | -
  · -- the counters stay
    have hsame := apply_counters hop status
    simp only [DepodPolicyStatus.counters, Prod.mk.injEq] at hsame
    exact ⟨by rw [hsame.1, hsame.2.1]; exact hmatched, by rw [hsame.1]; omega⟩
  · obtain ⟨op, created, now⟩ := call
    cases op with
    | recordPodEvaluated =>
        have hcounted := hsucc _ hevaluated
        exact ⟨by show status.podsMatched.toNat ≤ (status.podsEvaluated + 1).toNat; omega,
          by show (status.podsEvaluated + 1).toNat ≤ _; omega⟩
    | recordPolicyMatch =>
        have hcounted := hsucc _ hevaluated
        have hcounted' := hsucc _ (Nat.le_trans hmatched hevaluated)
        exact ⟨by show (status.podsMatched + 1).toNat ≤ (status.podsEvaluated + 1).toNat; omega,
          by show (status.podsEvaluated + 1).toNat ≤ _; omega⟩
    | recordPodDeleted => exact ⟨hmatched, Nat.le_succ_of_le hevaluated⟩
    | recordEvaluationError => exact ⟨hmatched, Nat.le_succ_of_le hevaluated⟩
    | resetCounters => exact ⟨Nat.le_refl _, Nat.zero_le _⟩
    | _ => cases hop

theorem CountedWithin.run {n : Nat} {calls : List StatusCall} (h : CountedWithin n status)
    (hn : n + calls.length < UInt64.size) :
    CountedWithin (n + calls.length) (run status calls) := by
  induction calls generalizing status n with
  | nil => exact h
  | cons call calls ih =>
      rw [List.length_cons] at hn ⊢
      have hrest := ih (h.apply (by omega) call) (by omega)
      rw [Nat.add_assoc, Nat.add_comm 1] at hrest
      exact hrest

/-! ### After any sequence -/

/-- **The status stays well formed.**  After every sequence of fewer than
`2^64` calls from the default status: no two conditions have the same type,
each is the last one written for its type since the last `initialize`, in the
order of these writes; there are no more matches than evaluations; and a
further call changes the counters or the conditions only if its operation is on
them. -/
theorem run_wellFormed {calls : List StatusCall} (hcalls : calls.length < UInt64.size) :
    let status := run {} calls
    (status.conditions.Pairwise fun c c' => c.conditionType ≠ c'.conditionType) ∧
      Tracks (writtenBy {} [] calls) status.conditions ∧
      status.podsMatched ≤ status.podsEvaluated ∧
      ∀ call : StatusCall,
        (call.op.onCounters = false → (call.apply status).counters = status.counters) ∧
          (call.op.onConditions = false →
            (call.apply status).conditions = status.conditions) := by
  intro status
  have htracks : Tracks (writtenBy {} [] calls) status.conditions :=
    tracks_run LastWrites.tracks_nil calls
  have hcounted : CountedWithin (0 + calls.length) status :=
    CountedWithin.run ⟨Nat.le_refl _, Nat.zero_le _⟩ (by omega)
  exact ⟨htracks.keys_ne, htracks, UInt64.le_iff_toNat_le.mpr hcounted.matched, fun call =>
    ⟨fun hop => apply_counters hop status, fun hop => conditions_of_onConditions hop status⟩⟩

/-- A match, an error that is written twice, and a verdict in between. -/
def recheckedCalls : List StatusCall :=
  [⟨.recordPolicyMatch, "10:00", "10:00"⟩, ⟨.markInvalidCel "syntax", "10:01", "10:01"⟩,
    ⟨.markReady, "10:02", "10:02"⟩, ⟨.markInvalidCel "type", "10:03", "10:03"⟩]

example : (run {} recheckedCalls).conditions
    = [.ready "10:02", .invalidCel "type" "10:03"] := by decide

theorem run_wellFormed_rechecked :
    let status := run {} recheckedCalls
    (status.conditions.Pairwise fun c c' => c.conditionType ≠ c'.conditionType) ∧
      Tracks (writtenBy {} [] recheckedCalls) status.conditions ∧
      status.podsMatched ≤ status.podsEvaluated ∧
      ∀ call : StatusCall,
        (call.op.onCounters = false → (call.apply status).counters = status.counters) ∧
          (call.op.onConditions = false →
            (call.apply status).conditions = status.conditions) :=
  run_wellFormed (by decide)

end StatusUpdater

end KubeDepod
