/-
KubeDepod/Pods/GracePeriod.lean

The grace period on its way to the API server.

Validation admits every `gracePeriodSeconds` that is not negative.  An eviction
carries it as it is, an `i64`; a deletion carries it as a `u32`, and the cast
keeps the low 32 bits.  The two agree below `2 ^ 32` (`graceReachesApi_iff`).
-/
import KubeDepod.Controller.Traced
import Mathlib.Algebra.Order.Ring.Int

namespace KubeDepod

open Effects

variable {pod : Pod} {policy : DepodPolicy} {grace : Int64}

/-- A call of the API carries this grace period. -/
def PodEffect.CarriesGrace (grace : Int64) : PodEffect → Prop
  | .delete _ _ dp => dp.gracePeriodSeconds.map (fun g => (g.toNat : Int)) = some grace.toInt
  | .createEviction _ _ body =>
      (body.deleteOptions.bind DeleteOptions.gracePeriodSeconds).map Int64.toInt
        = some grace.toInt
  | _ => True

/-- The same policy with another action. -/
def DepodPolicy.withAction (policy : DepodPolicy) (actionType : ActionType) : DepodPolicy :=
  { policy with
    spec := { policy.spec with then_ := { policy.spec.then_ with actionType } } }

/-- Whichever of the two actions the policy has, the calls made for it carry
this grace period. -/
def GraceReachesApi (pod : Pod) (policy : DepodPolicy) (grace : Int64) : Prop :=
  ∀ actionType,
    (executeThen pod (policy.withAction actionType)).Uses (PodEffect.CarriesGrace grace)

/-- `g as u32` of a number that is not negative. -/
theorem toNat_toUInt32_grace (h : 0 ≤ grace) :
    (grace.toUInt64.toUInt32.toNat : Int) = grace.toInt % 2 ^ 32 := by
  have hnonneg : 0 ≤ grace.toInt := Int64.le_iff_toInt_le.mp h
  rw [UInt64.toNat_toUInt32, Int64.toNat_toUInt64_of_le h, ← Int64.toNat_toInt]
  omega

/-- The call made for a policy carries the grace period, unless it is a
deletion and the cast loses something. -/
theorem Occurs.carriesGrace {e : PodEffect} (he : Occurs pod policy (.inl e))
    (hgrace : policy.spec.then_.gracePeriodSeconds = some grace)
    (hcast : policy.spec.then_.dryRun = false →
      (grace.toUInt64.toUInt32.toNat : Int) = grace.toInt) : e.CarriesGrace grace := by
  cases he with
  | delete haction hdry =>
      rw [hgrace]
      exact congrArg some (hcast hdry)
  | createEviction haction hdry =>
      show policy.spec.then_.gracePeriodSeconds.map Int64.toInt = _
      rw [hgrace]
      rfl
  | _ => trivial

/-- If the deletion made for a policy carries the grace period, the cast has
left it as it is. -/
theorem cast_eq_of_deletes (hgrace : policy.spec.then_.gracePeriodSeconds = some grace)
    (hdry : policy.spec.then_.dryRun = false)
    (h : (executeThen pod (policy.withAction .delete)).Uses (PodEffect.CarriesGrace grace)) :
    (grace.toUInt64.toUInt32.toNat : Int) = grace.toInt := by
  replace h : (deleteArm pod (policy.withAction .delete)).Uses (PodEffect.CarriesGrace grace) := h
  rw [deleteArm, show (policy.withAction .delete).spec.then_.dryRun = false from hdry] at h
  -- with both queries granted the call is made
  have hcarries := ((h.2 true).2 true).1
  replace hcarries : (policy.spec.then_.gracePeriodSeconds.map fun g => g.toUInt64.toUInt32).map
      (fun g => (g.toNat : Int)) = some grace.toInt := hcarries
  rw [hgrace] at hcarries
  exact Option.some.inj hcarries

/-- A grace period of `2 ^ 32` seconds is a deletion without grace. -/
theorem long_grace_dropped :
    ¬ ∀ (pod : Pod) (policy : DepodPolicy) (grace : Int64), policy.spec.isValid = true →
      policy.spec.then_.gracePeriodSeconds = some grace → GraceReachesApi pod policy grace := by
  intro h
  let policy := ttlPolicy "cleanup" 3600
  let patient : DepodPolicy :=
    { policy with
      spec := { policy.spec with
        then_ := { actionType := .delete, gracePeriodSeconds := some 4294967296 } } }
  have hreaches := h epochPod patient 4294967296 (by decide) rfl .delete
  exact absurd (cast_eq_of_deletes rfl rfl hreaches) (by decide)

/-- **When the grace period reaches the API unchanged.**  For every valid policy
with a grace period: whichever action it has, the calls made for it carry the
grace period exactly if it is below `2 ^ 32`, or the policy is a dry run. -/
theorem graceReachesApi_iff (hvalid : policy.spec.isValid = true)
    (hgrace : policy.spec.then_.gracePeriodSeconds = some grace) :
    GraceReachesApi pod policy grace ↔
      policy.spec.then_.dryRun = true ∨ grace.toInt < 2 ^ 32 := by
  have hnonneg := grace_nonneg_of_isValid hvalid hgrace
  have hle : 0 ≤ grace.toInt := Int64.le_iff_toInt_le.mp hnonneg
  have hcast : (grace.toUInt64.toUInt32.toNat : Int) = grace.toInt ↔ grace.toInt < 2 ^ 32 := by
    rw [toNat_toUInt32_grace hnonneg]
    omega
  constructor
  · intro h
    rcases hdry : policy.spec.then_.dryRun with - | -
    · exact .inr (hcast.mp (cast_eq_of_deletes hgrace hdry (h .delete)))
    · exact .inl rfl
  · intro h actionType
    rw [← erase_tracedExecuteThen]
    refine tracedExecuteThen_uses.erase.mono fun e he => he.carriesGrace hgrace fun hdry => ?_
    replace hdry : policy.spec.then_.dryRun = false := hdry
    rw [hdry] at h
    exact hcast.mpr (h.resolve_left Bool.false_ne_true)

/-- Half a minute of grace. -/
theorem graceReachesApi_iff_halfMinute :
    let policy := ttlPolicy "cleanup" 3600
    let patient : DepodPolicy :=
      { policy with
        spec := { policy.spec with
          then_ := { actionType := .delete, gracePeriodSeconds := some 30 } } }
    GraceReachesApi epochPod patient 30 ↔
      patient.spec.then_.dryRun = true ∨ (30 : Int64).toInt < 2 ^ 32 := by
  intro policy patient
  have hvalid : patient.spec.isValid = true := by decide
  exact graceReachesApi_iff hvalid rfl

end KubeDepod
