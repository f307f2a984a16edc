/-
KubeDepod/Policies/StatusCounters.lean

What a published condition does to the rest of the status.

`update_policy_status` updates a condition of a *fresh* status and sends all of
it.  The counters of a fresh status are zeros, which the merge patch writes, and
its `lastObservedTime` is a null, which the merge patch removes.  The counters
and the time survive where they were the fresh ones (`publishKeepsCounters_iff`).
-/
import KubeDepod.Policies.Status

namespace KubeDepod

open Effects

variable {cel : CelEngine} {object object' : PolicyObject} {condition : PolicyCondition}
  {before : DepodPolicyStatus}

/-- The two statuses differ in their conditions at most. -/
structure SameCounters (before after : DepodPolicyStatus) : Prop where
  podsEvaluated : after.podsEvaluated = before.podsEvaluated
  podsMatched : after.podsMatched = before.podsMatched
  podsDeleted : after.podsDeleted = before.podsDeleted
  evaluationErrors : after.evaluationErrors = before.evaluationErrors
  lastObservedTime : after.lastObservedTime = before.lastObservedTime

/-- The API server is sent the condition for the object, which it then keeps as
`object'`. -/
def Publishes (cel : CelEngine) (condition : PolicyCondition) (object object' : PolicyObject) :
    Prop :=
  ∃ result patches, Exec (statusProtocol cel)
    (updatePolicyStatus object.name object.ns condition) ⟨object, 0⟩ result ⟨object', patches⟩

/-- Publishing the condition leaves the counters and the time as they were. -/
def PublishKeepsCounters (cel : CelEngine) (condition : PolicyCondition) (object : PolicyObject) :
    Prop :=
  ∀ object', Publishes cel condition object object' →
    ∀ before, object.readStatus = some (some before) →
      ∃ after, object'.readStatus = some (some after) ∧ SameCounters before after

/-- The object is patched with the fresh status, whatever its own was. -/
theorem Publishes.eq_patched (h : Publishes cel condition object object') :
    object' = object.patched (StatusUpdater.updateCondition {} condition) := by
  obtain ⟨result, patches, hexec⟩ := h
  have hwp : wp (statusProtocol cel) (updatePolicyStatus object.name object.ns condition)
      (fun _ s' => s'.object = object.patched (StatusUpdater.updateCondition {} condition))
      ⟨object, 0⟩ := by
    refine ⟨trivial, fun r s' hs' => ?_⟩
    obtain ⟨-, rfl⟩ := hs'
    exact if_pos ⟨rfl, rfl⟩
  exact hexec.of_wp hwp

theorem exists_publishes (cel : CelEngine) (condition : PolicyCondition) (object : PolicyObject) :
    ∃ object', Publishes cel condition object object' :=
  ⟨_, _, _, exec_run (P := statusProtocol cel) (h := fun e s => (s.plainAnswer cel e, s.after e))
    (fun e s => ⟨s.permits_plainAnswer cel e, rfl⟩) _ ⟨object, 0⟩⟩

/-- Keeping the counters means having had the fresh ones. -/
theorem publishKeepsCounters_iff_sameCounters
    (hread : object.readStatus = some (some before)) :
    PublishKeepsCounters cel condition object ↔
      SameCounters before (StatusUpdater.updateCondition {} condition) := by
  have hpatched := object.readStatus_patched (StatusUpdater.updateCondition {} condition)
  constructor
  · intro h
    obtain ⟨object', hpublish⟩ := exists_publishes cel condition object
    obtain ⟨after, hafter, hsame⟩ := h object' hpublish before hread
    rw [hpublish.eq_patched, hpatched] at hafter
    cases hafter
    exact hsame
  · intro hsame object' hpublish before' hread'
    obtain rfl : before = before' := Option.some.inj (Option.some.inj (hread.symm.trans hread'))
    refine ⟨_, ?_, hsame⟩
    rw [hpublish.eq_patched, hpatched]

/-- A policy that has deleted five pods, and is then reported as ready. -/
theorem published_condition_resets :
    ¬ ∀ (cel : CelEngine) (condition : PolicyCondition) (object : PolicyObject),
      PublishKeepsCounters cel condition object := by
  intro h
  let cel : CelEngine := ⟨Unit, fun _ => .ok ()⟩
  have hsame := (publishKeepsCounters_iff_sameCounters
    (cleanupObject.readStatus_patched { podsDeleted := 5 })).mp
    (h cel (.ready "2024-01-01T00:00:00.000Z") _)
  exact absurd hsame.podsDeleted (by decide)

/-- **When publishing a condition changes only the conditions.**  For every
object with a status and every condition: the stored counters and the time of
the last observation are what they were exactly if they were zero and absent. -/
theorem publishKeepsCounters_iff (hread : object.readStatus = some (some before)) :
    PublishKeepsCounters cel condition object ↔
      before.podsEvaluated = 0 ∧ before.podsMatched = 0 ∧ before.podsDeleted = 0 ∧
        before.evaluationErrors = 0 ∧ before.lastObservedTime = none := by
  rw [publishKeepsCounters_iff_sameCounters hread]
  constructor
  · rintro ⟨hevaluated, hmatched, hdeleted, herrors, htime⟩
    exact ⟨hevaluated.symm, hmatched.symm, hdeleted.symm, herrors.symm, htime.symm⟩
  · rintro ⟨hevaluated, hmatched, hdeleted, herrors, htime⟩
    exact ⟨hevaluated.symm, hmatched.symm, hdeleted.symm, herrors.symm, htime.symm⟩

/-- For a status that counts nothing yet. -/
theorem publishKeepsCounters_iff_fresh :
    let cel : CelEngine := ⟨Unit, fun _ => .ok ()⟩
    let before : DepodPolicyStatus := {}
    PublishKeepsCounters cel (.ready "2024-01-01T00:00:00.000Z") (cleanupObject.patched before) ↔
      before.podsEvaluated = 0 ∧ before.podsMatched = 0 ∧ before.podsDeleted = 0 ∧
        before.evaluationErrors = 0 ∧ before.lastObservedTime = none :=
  publishKeepsCounters_iff (cleanupObject.readStatus_patched _)

end KubeDepod
