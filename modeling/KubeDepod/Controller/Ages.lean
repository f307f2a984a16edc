/-
KubeDepod/Controller/Ages.lean

Ages in whole seconds, and the two functions that compare them with a TTL.

An age is the difference of two instants, truncated towards zero; between two
instants that `chrono` can represent it always fits in an `i64`.  The TTL
condition is then a comparison of instants (`evaluateTtlCondition_iff`).  The
subtraction `ttl - age` can leave the `i64` range on one side only, above it,
and then the delay is one second (`calculateTtlRequeue_of_overflow`).
-/
import KubeDepod.Controller.Matching
import Mathlib.Algebra.Order.Ring.Int

namespace KubeDepod

/-! ### Ages in seconds -/

/-- Truncation towards zero, on both sides of zero. -/
theorem tdiv_spec (a : Int) :
    (0 ≤ a → a.tdiv nanosPerSecond * nanosPerSecond ≤ a ∧
      a < (a.tdiv nanosPerSecond + 1) * nanosPerSecond ∧ 0 ≤ a.tdiv nanosPerSecond) ∧
    (a < 0 → a ≤ a.tdiv nanosPerSecond * nanosPerSecond ∧
      (a.tdiv nanosPerSecond - 1) * nanosPerSecond < a ∧ a.tdiv nanosPerSecond ≤ 0) := by
  unfold nanosPerSecond
  constructor
  · intro h
    rw [Int.tdiv_eq_ediv_of_nonneg h]
    omega
  · intro h
    have hneg : a.tdiv 1000000000 = -((-a) / 1000000000) := by
      rw [← Int.tdiv_eq_ediv_of_nonneg (by omega), Int.neg_tdiv, Int.neg_neg]
    rw [hneg]
    omega

/-- The age of a pod in seconds fits in an `i64`. -/
theorem toInt_numSeconds (t created : DateTime) :
    (t.sub created).numSeconds.toInt = (t.nanos - created.nanos).tdiv nanosPerSecond := by
  obtain ⟨hnonneg, hneg⟩ := tdiv_spec (t.nanos - created.nanos)
  have := t.min_le
  have := t.lt_max
  have := created.min_le
  have := created.lt_max
  simp only [nanosPerSecond] at *
  apply Int64.toInt_ofInt_of_le
  · show _ ≤ (t.nanos - created.nanos).tdiv 1000000000
    omega
  · show (t.nanos - created.nanos).tdiv 1000000000 < _
    omega

variable {created t : DateTime} {pod : Pod} {ttl : Int64}

theorem evaluateTtlCondition_iff (hcreated : pod.metadata.creationTimestamp = some created)
    (hpos : 0 < ttl) :
    evaluateTtlCondition pod ttl t = true ↔
      created.nanos + (ttl.toInt + 1) * nanosPerSecond ≤ t.nanos := by
  have hpos : 0 < ttl.toInt := Int64.lt_iff_toInt_lt.mp hpos
  have hmet : evaluateTtlCondition pod ttl t = true ↔
      ttl.toInt < (t.nanos - created.nanos).tdiv nanosPerSecond := by
    simp only [evaluateTtlCondition, hcreated]
    rw [decide_eq_true_iff, gt_iff_lt, Int64.lt_iff_toInt_lt, toInt_numSeconds]
  rw [hmet]
  -- a negative age is truncated up to at most 0, which exceeds no TTL
  obtain ⟨hnonneg, hneg⟩ := tdiv_spec (t.nanos - created.nanos)
  simp only [nanosPerSecond] at *
  omega

/-- The delay is the difference as the code computes it, or one second. -/
theorem calculateTtlRequeue_eq_max (hcreated : pod.metadata.creationTimestamp = some created) :
    calculateTtlRequeue pod ttl t
      = some (max (ttl - (t.sub created).numSeconds).toInt 1).toNat := by
  simp only [calculateTtlRequeue, hcreated, Option.some.injEq]
  have hone : (1 : Int64).toInt = 1 := rfl
  have hmax : (max (ttl - (t.sub created).numSeconds) 1).toInt
      = max (ttl - (t.sub created).numSeconds).toInt 1 := by
    show (if _ ≤ _ then _ else _ : Int64).toInt = _
    split
    case isTrue hle =>
      rw [Int64.le_iff_toInt_le, hone] at hle
      rw [hone, max_eq_right hle]
    case isFalse hle =>
      rw [Int64.le_iff_toInt_le, hone] at hle
      rw [max_eq_left (by omega)]
  rw [Int64.toNat_toUInt64_of_le, ← Int64.toNat_toInt, hmax]
  rw [Int64.le_iff_toInt_le, hmax]
  exact Int.le_trans (by decide) (le_max_right _ 1)

/-- The subtraction, while it does not wrap. -/
theorem toInt_ttl_sub_age (hpos : 0 < ttl)
    (hfits : ttl.toInt - (t.nanos - created.nanos).tdiv nanosPerSecond < 2 ^ 63) :
    (ttl - (t.sub created).numSeconds).toInt
      = ttl.toInt - (t.nanos - created.nanos).tdiv nanosPerSecond := by
  have hpos : 0 < ttl.toInt := Int64.lt_iff_toInt_lt.mp hpos
  have hage := toInt_numSeconds t created
  have := (t.sub created).numSeconds.toInt_lt
  rw [Int64.toInt_sub, hage]
  apply Int.bmod_eq_of_le <;> omega

/-- Above the range it wraps to a negative number. -/
theorem toInt_ttl_sub_age_of_overflow
    (hover : 2 ^ 63 ≤ ttl.toInt - (t.nanos - created.nanos).tdiv nanosPerSecond) :
    (ttl - (t.sub created).numSeconds).toInt
      = ttl.toInt - (t.nanos - created.nanos).tdiv nanosPerSecond - 2 ^ 64 ∧
      (ttl - (t.sub created).numSeconds).toInt < 0 := by
  have hage := toInt_numSeconds t created
  have := ttl.toInt_lt
  have := (t.sub created).numSeconds.le_toInt
  have hwrap : (ttl - (t.sub created).numSeconds).toInt
      = ttl.toInt - (t.nanos - created.nanos).tdiv nanosPerSecond - 2 ^ 64 := by
    rw [Int64.toInt_sub, hage, ← Int.sub_bmod_right]
    apply Int.bmod_eq_of_le <;> omega
  refine ⟨hwrap, ?_⟩
  omega

/-- The delay, while `ttl - age` fits in an `i64`. -/
theorem calculateTtlRequeue_eq (hcreated : pod.metadata.creationTimestamp = some created)
    (hpos : 0 < ttl)
    (hfits : ttl.toInt - (t.nanos - created.nanos).tdiv nanosPerSecond < 2 ^ 63) :
    calculateTtlRequeue pod ttl t
      = some (max (ttl.toInt - (t.nanos - created.nanos).tdiv nanosPerSecond) 1).toNat := by
  rw [calculateTtlRequeue_eq_max hcreated, toInt_ttl_sub_age hpos hfits]

/-- The delay when it does not. -/
theorem calculateTtlRequeue_of_overflow
    (hcreated : pod.metadata.creationTimestamp = some created)
    (hover : 2 ^ 63 ≤ ttl.toInt - (t.nanos - created.nanos).tdiv nanosPerSecond) :
    calculateTtlRequeue pod ttl t = some 1 := by
  rw [calculateTtlRequeue_eq_max hcreated,
    max_eq_right (by have := (toInt_ttl_sub_age_of_overflow hover).2; omega)]
  rfl

end KubeDepod
