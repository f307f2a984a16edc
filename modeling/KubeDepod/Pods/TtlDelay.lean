/-
KubeDepod/Pods/TtlDelay.lean

The delay for one pending TTL.

`evaluate_ttl_condition` asks for an age above the TTL, and
`calculate_ttl_requeue` waits until the age is the TTL; one second is missing.
The wake-up finds the condition met only where the delay is the one second
below which it never goes (`wakesOnce_iff`).

The delay is computed in `i64`.  A pod created after the clock reading has a
negative age, and then the difference can leave the range: the delay is the
one over the integers exactly while TTL and skew together stay within it
(`delayExact_iff`).
-/
import KubeDepod.Controller.Ages

namespace KubeDepod

variable {pod : Pod} {created now t : DateTime} {ttl : Int64} {seconds : Nat}

/-! ### The wake-up -/

theorem DateTime.min_le_add (t : DateTime) (seconds : Nat) :
    -8334601228800 * nanosPerSecond ≤ t.nanos + seconds * nanosPerSecond := by
  have := t.min_le
  simp only [nanosPerSecond] at *
  omega

/-- `now + TimeDelta::seconds(seconds)`; `none` where `chrono` has no such
instant. -/
def DateTime.addSeconds (t : DateTime) (seconds : Nat) : Option DateTime :=
  if h : t.nanos + seconds * nanosPerSecond < (8210266876799 + 1) * nanosPerSecond then
    some ⟨t.nanos + seconds * nanosPerSecond, t.min_le_add seconds, h⟩
  else
    none

theorem DateTime.nanos_of_addSeconds (h : now.addSeconds seconds = some t) :
    t.nanos = now.nanos + seconds * nanosPerSecond := by
  rw [addSeconds] at h
  split at h
  · cases h
    rfl
  · cases h

theorem DateTime.addSeconds_zero (t : DateTime) : t.addSeconds 0 = some t := by
  have hzero : t.nanos + (0 : Nat) * nanosPerSecond = t.nanos := by simp
  rw [addSeconds, dif_pos (by rw [hzero]; exact t.lt_max)]
  simp only [hzero]

/-- The wake-up after the delay finds the condition met, and no whole number of
seconds before it would have. -/
def WakesOnce (pod : Pod) (ttl : Int64) (now : DateTime) : Prop :=
  ∃ d, calculateTtlRequeue pod ttl now = some d ∧
    (∃ t, now.addSeconds d = some t ∧ evaluateTtlCondition pod ttl t = true) ∧
    ∀ k < d, ∀ t, now.addSeconds k = some t → evaluateTtlCondition pod ttl t = false

theorem evaluateTtlCondition_eq_false_iff
    (hcreated : pod.metadata.creationTimestamp = some created) (hpos : 0 < ttl) :
    evaluateTtlCondition pod ttl t = false ↔
      t.nanos < created.nanos + (ttl.toInt + 1) * nanosPerSecond := by
  rw [← Bool.not_eq_true, evaluateTtlCondition_iff hcreated hpos, Int.not_le]

/-- Half a minute before the age of a minute, the wake-up comes when the age is
a minute, which is not above the TTL. -/
theorem wake_finds_unmet :
    ¬ ∀ (pod : Pod) (created : DateTime) (ttl : Int64) (now : DateTime),
      pod.metadata.creationTimestamp = some created → 0 < ttl → created.nanos ≤ now.nanos →
      evaluateTtlCondition pod ttl now = false →
      (ttl - (now.sub created).numSeconds).toInt
        = ttl.toInt - (now.sub created).numSeconds.toInt →
      WakesOnce pod ttl now := by
  intro h
  let now : DateTime := ⟨30000000000, by decide, by decide⟩
  obtain ⟨d, hd, ⟨t, ht, hmet⟩, -⟩ := h epochPod .unixEpoch 60 now rfl (by decide) (by decide)
    (by decide) (by decide)
  have hthirty : calculateTtlRequeue epochPod 60 now = some 30 := by decide
  obtain rfl : 30 = d := Option.some.inj (hthirty.symm.trans hd)
  obtain rfl : (⟨60000000000, by decide, by decide⟩ : DateTime) = t := Option.some.inj ht
  exact absurd hmet (by decide)

/-- **When the delay is exact.**  For every pod with a creation time, every
positive TTL and every clock reading: the wake-up is the first to find the
condition met exactly if the age in whole seconds is the TTL already, and the
clock goes on for the one second that is then waited. -/
theorem wakesOnce_iff (hcreated : pod.metadata.creationTimestamp = some created)
    (hpos : 0 < ttl) :
    WakesOnce pod ttl now ↔
      (now.sub created).numSeconds = ttl ∧ (now.addSeconds 1).isSome = true := by
  have hage := toInt_numSeconds now created
  have httl : 0 < ttl.toInt := Int64.lt_iff_toInt_lt.mp hpos
  obtain ⟨hnonneg, hneg⟩ := tdiv_spec (now.nanos - created.nanos)
  constructor
  · rintro ⟨d, hd, ⟨t, ht, hmet⟩, hbefore⟩
    have hnanos := DateTime.nanos_of_addSeconds ht
    rw [evaluateTtlCondition_iff hcreated hpos, hnanos] at hmet
    by_cases hfits : ttl.toInt - (now.nanos - created.nanos).tdiv nanosPerSecond < 2 ^ 63
    · obtain rfl := Option.some.inj ((calculateTtlRequeue_eq hcreated hpos hfits).symm.trans hd)
      -- not yet met now, so the age is at most the TTL
      have hunmet := hbefore 0 (by omega) now now.addSeconds_zero
      rw [evaluateTtlCondition_eq_false_iff hcreated hpos] at hunmet
      have heq : (now.nanos - created.nanos).tdiv nanosPerSecond = ttl.toInt := by
        simp only [nanosPerSecond] at *
        omega
      refine ⟨Int64.toInt_inj.mp (hage.trans heq), ?_⟩
      rw [heq, Int.sub_self] at ht
      rw [show 1 = (max (0 : Int) 1).toNat from rfl, ht]
      rfl
    · -- the subtraction wraps, the delay is one second, and the pod is not even created
      obtain rfl := Option.some.inj
        ((calculateTtlRequeue_of_overflow hcreated (Int.not_lt.mp hfits)).symm.trans hd)
      have := ttl.toInt_lt
      simp only [nanosPerSecond] at *
      omega
  · rintro ⟨heq, hlater⟩
    rw [heq] at hage
    obtain ⟨t, ht⟩ := Option.isSome_iff_exists.mp hlater
    have hnanos := DateTime.nanos_of_addSeconds ht
    have hd : calculateTtlRequeue pod ttl now = some 1 := by
      rw [calculateTtlRequeue_eq hcreated hpos (by rw [← hage]; omega), ← hage, Int.sub_self]
      rfl
    refine ⟨1, hd, ⟨t, ht, ?_⟩, fun k hk t' ht' => ?_⟩
    · rw [evaluateTtlCondition_iff hcreated hpos, hnanos]
      simp only [nanosPerSecond] at *
      omega
    · obtain rfl := Nat.lt_one_iff.mp hk
      obtain rfl : now = t' := Option.some.inj (now.addSeconds_zero.symm.trans ht')
      rw [evaluateTtlCondition_eq_false_iff hcreated hpos]
      simp only [nanosPerSecond] at *
      omega

/-- At the age of a minute and a half second, with a TTL of a minute. -/
theorem wakesOnce_iff_minute :
    let now : DateTime := ⟨60500000000, by decide, by decide⟩
    WakesOnce epochPod 60 now ↔
      (now.sub .unixEpoch).numSeconds = 60 ∧ (now.addSeconds 1).isSome = true := by
  intro now
  exact wakesOnce_iff rfl (by decide)

/-! ### The subtraction -/

/-- `ttl_seconds - age` does not overflow, and the delay is the one over the
integers. -/
def DelayExact (pod : Pod) (ttl : Int64) (created now : DateTime) : Prop :=
  (ttl - (now.sub created).numSeconds).toInt
      = ttl.toInt - (now.sub created).numSeconds.toInt ∧
    calculateTtlRequeue pod ttl now
      = some (max 1 (ttl.toInt - (now.sub created).numSeconds.toInt)).toNat

/-- The whole seconds by which the creation lies after the clock reading. -/
def skewSeconds (created now : DateTime) : Nat :=
  ((created.nanos - now.nanos) / nanosPerSecond).toNat

/-- The longest TTL, for a pod created one second after the clock reading, is
waited for in steps of one second. -/
theorem longest_ttl_overflows :
    ¬ ∀ (policy : DepodPolicy) (ttl : Int64) (pod : Pod) (created now : DateTime),
      policy.spec.isValid = true → policy.spec.when_.ttlSeconds = some ttl →
      pod.metadata.creationTimestamp = some created → DelayExact pod ttl created now := by
  intro h
  obtain ⟨-, hdelay⟩ := h (ttlPolicy "archive" 9223372036854775807) _ epochPod .unixEpoch
    ⟨-1000000000, by decide, by decide⟩ (by decide) rfl rfl
  exact absurd hdelay (by decide)

/-- **When the delay does not overflow.**  For every TTL of a valid policy and
every creation time and clock reading: the subtraction stays in range, and the
delay is the one over the integers, exactly if the TTL is at most the greatest
`i64` less the seconds by which the creation lies after the clock reading. -/
theorem delayExact_iff {policy : DepodPolicy} (hvalid : policy.spec.isValid = true)
    (httl : policy.spec.when_.ttlSeconds = some ttl)
    (hcreated : pod.metadata.creationTimestamp = some created) :
    DelayExact pod ttl created now ↔
      ttl.toInt ≤ Int64.maxValue.toInt - skewSeconds created now := by
  have hpos := ttl_pos_of_isValid hvalid httl
  have hmax : Int64.maxValue.toInt = 2 ^ 63 - 1 := rfl
  -- a negative age is the skew
  have hskew : ttl.toInt ≤ Int64.maxValue.toInt - skewSeconds created now ↔
      ttl.toInt - (now.nanos - created.nanos).tdiv nanosPerSecond < 2 ^ 63 := by
    obtain ⟨hnonneg, hneg⟩ := tdiv_spec (now.nanos - created.nanos)
    have := ttl.toInt_lt
    rw [hmax, skewSeconds]
    simp only [nanosPerSecond] at *
    omega
  rw [DelayExact, toInt_numSeconds, hskew]
  by_cases hfits : ttl.toInt - (now.nanos - created.nanos).tdiv nanosPerSecond < 2 ^ 63
  · refine iff_of_true ⟨toInt_ttl_sub_age hpos hfits, ?_⟩ hfits
    rw [calculateTtlRequeue_eq hcreated hpos hfits, max_comm]
  · have hover := Int.not_lt.mp hfits
    refine iff_of_false (fun h => ?_) hfits
    have hwrap := (toInt_ttl_sub_age_of_overflow hover).1
    rw [h.1] at hwrap
    omega

/-- An hour, for a pod created five seconds after the clock reading. -/
theorem delayExact_iff_skewed :
    let now : DateTime := ⟨-5000000000, by decide, by decide⟩
    DelayExact epochPod 3600 .unixEpoch now ↔
      (3600 : Int64).toInt ≤ Int64.maxValue.toInt - skewSeconds .unixEpoch now := by
  intro now
  have hvalid : (ttlPolicy "cleanup" 3600).spec.isValid = true := by decide
  exact delayExact_iff hvalid rfl rfl

end KubeDepod
