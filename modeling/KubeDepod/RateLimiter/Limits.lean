/-
KubeDepod/RateLimiter/Limits.lean

The calls granted under two limits of a policy.

`spec.validate()` does not look at `maxDeletesPerMinute`, so every 32-bit value
reaches `allow_policy`, which takes a limit that is not positive for none at
all.  Among positive limits the smaller one grants no more, whatever the calls
(`FixedWindow.Capped.granted_le`); a limit of zero or less grants everything,
and more than any positive limit (`policyGrants_le_iff`).
-/
import KubeDepod.RateLimiter.Window

namespace KubeDepod

namespace RateLimiter

/-- The number of calls granted, one after another. -/
def policyGrants (policyName : String) (maxPerMinute : Option Int32) :
    RateLimiter → List LimiterReading → Nat
  | _, [] => 0
  | l, call :: calls =>
      let reply := l.allowPolicy policyName maxPerMinute call.created call.now
      reply.1.toNat + policyGrants policyName maxPerMinute reply.2 calls

variable {l : RateLimiter} {policyName : String} {maxPerMinute : Option Int32}

/-! ### One limit -/

theorem hasBucket_of_pos {limit : Int32} (h : 0 < limit) : hasBucket (some limit) = true :=
  decide_eq_true h

theorem hasBucket_of_not_pos {limit : Int32} (h : ¬ 0 < limit) :
    hasBucket (some limit) = false :=
  decide_eq_false h

theorem policyGrants_of_unlimited (h : hasBucket maxPerMinute = false)
    (calls : List LimiterReading) :
    policyGrants policyName maxPerMinute l calls = calls.length := by
  induction calls generalizing l with
  | nil => rfl
  | cons call calls ih =>
      rw [policyGrants, allowPolicy_of_unlimited h]
      show 1 + policyGrants policyName maxPerMinute l calls = _
      rw [ih, List.length_cons, Nat.add_comm]

/-- The calls for a limited policy are those of its bucket, which the first
of them creates if there is none. -/
theorem policyGrants_of_limited (h : hasBucket maxPerMinute = true) (call : LimiterReading)
    (calls : List LimiterReading) :
    policyGrants policyName maxPerMinute l (call :: calls)
      = FixedWindow.granted
          ((l.policyBucket policyName (limitOf maxPerMinute) call.created).replies
            ((call :: calls).map LimiterReading.now)) := by
  induction calls generalizing l call with
  | nil =>
      rw [policyGrants, allowPolicy_of_limited h, List.map_cons, TokenBucket.replies,
        FixedWindow.granted_cons, Nat.add_comm]
      rfl
  | cons next calls ih =>
      -- the next call finds the bucket as this one left it
      have hmax : ((l.policyBucket policyName (limitOf maxPerMinute) call.created).allow
          call.now).2.maxPerMinute = limitOf maxPerMinute := by
        rw [TokenBucket.allow_maxPerMinute, policyBucket_maxPerMinute]
      rw [policyGrants, allowPolicy_of_limited h, List.map_cons, TokenBucket.replies,
        FixedWindow.granted_cons, Nat.add_comm]
      dsimp only
      rw [ih, policyBucket_insert_self hmax]

/-- A policy without a bucket gets one at its first call, and its grants are
those of the fixed-window counter that starts there. -/
theorem policyGrants_of_new (h : hasBucket maxPerMinute = true)
    (hnew : l.policyLimiters policyName = none) (call : LimiterReading)
    (calls : List LimiterReading) :
    policyGrants policyName maxPerMinute l (call :: calls)
      = FixedWindow.granted (FixedWindow.replies (limitOf maxPerMinute) 60 ⟨call.created, 0⟩
          ((call :: calls).map LimiterReading.now)) := by
  have hbucket : l.policyBucket policyName (limitOf maxPerMinute) call.created
      = TokenBucket.new (limitOf maxPerMinute) call.created := by
    simp only [policyBucket, hnew]
  rw [policyGrants_of_limited h, hbucket,
    TokenBucket.replies_counts (TokenBucket.counts_new _ _)]

/-! ### Two limits -/

/-- Among positive limits the smaller one grants no more. -/
theorem policyGrants_mono {m m' : Int32} (hm : 0 < m) (hle : m ≤ m')
    (hnew : l.policyLimiters policyName = none) (calls : List LimiterReading) :
    policyGrants policyName (some m) l calls ≤ policyGrants policyName (some m') l calls := by
  have hm' : 0 < m' := Int32.lt_of_lt_of_le hm hle
  have hlimit : limitOf (some m) ≤ limitOf (some m') :=
    Int.toNat_le_toNat (Int32.le_iff_toInt_le.mp hle)
  cases calls with
  | nil => exact Nat.le_refl _
  | cons call calls =>
      rw [policyGrants_of_new (hasBucket_of_pos hm) hnew,
        policyGrants_of_new (hasBucket_of_pos hm') hnew]
      exact (FixedWindow.capped_self _ _).granted_le hlimit _ _

/-- One call more than the limit in the first window of a policy. -/
def burst (limit : Nat) : List LimiterReading := List.replicate (limit + 1) ⟨0, 0⟩

/-- A positive limit denies one of them. -/
theorem policyGrants_burst (h : hasBucket maxPerMinute = true)
    (hnew : l.policyLimiters policyName = none) :
    policyGrants policyName maxPerMinute l (burst (limitOf maxPerMinute))
      ≤ limitOf maxPerMinute := by
  rw [burst, List.replicate_succ, policyGrants_of_new h hnew]
  have hreadings : ∀ now ∈ ((⟨0, 0⟩ : LimiterReading) ::
      List.replicate (limitOf maxPerMinute) ⟨0, 0⟩).map LimiterReading.now, now ≤ 0 := by simp
  have hbound := FixedWindow.granted_add_count_le (c := ⟨0, 0⟩) (by decide : 0 < 60)
    (Nat.zero_le (limitOf maxPerMinute)) hreadings
  rw [FixedWindow.windowsUpTo, Nat.sub_self, Nat.zero_div, Nat.mul_one] at hbound
  exact hbound

/-- A limit of zero is accepted, and it grants what a limit of one denies. -/
theorem policyGrants_le_fails :
    ¬ ∀ (spec : DepodPolicySpec) (m m' : Int32), m ≤ m' →
      DepodPolicySpec.isValid
        { spec with limits := { spec.limits with maxDeletesPerMinute := some m } } = true →
      DepodPolicySpec.isValid
        { spec with limits := { spec.limits with maxDeletesPerMinute := some m' } } = true →
      ∀ (l : RateLimiter) (policyName : String), l.policyLimiters policyName = none →
      ∀ calls, policyGrants policyName (some m) l calls
        ≤ policyGrants policyName (some m') l calls := by
  intro h
  exact absurd
    (h (ttlPolicy "idle" 60).spec 0 1 (by decide) (by decide) (by decide) (RateLimiter.new 20 0)
      "idle" rfl [⟨0, 0⟩, ⟨0, 1⟩])
    (by decide)

/-- **A tighter limit allows no more, as far as it is a limit.**  For limits
`m ≤ m'` of a policy that has no bucket yet: whatever the calls, `m` grants no
more than `m'` does, exactly if `m` is positive or `m'` is no limit either. -/
theorem policyGrants_le_iff {m m' : Int32} (hle : m ≤ m')
    (hnew : l.policyLimiters policyName = none) :
    (∀ calls, policyGrants policyName (some m) l calls
        ≤ policyGrants policyName (some m') l calls) ↔ 0 < m ∨ m' ≤ 0 := by
  constructor
  · intro hgrants
    by_contra hneither
    obtain ⟨hm, hm'⟩ := not_or.mp hneither
    -- `m` is no limit and grants the whole burst
    have hall := hgrants (burst (limitOf (some m')))
    rw [policyGrants_of_unlimited (hasBucket_of_not_pos hm)] at hall
    have hlimited := hasBucket_of_pos (Int32.not_le.mp hm')
    have hdenied := Nat.le_trans hall (policyGrants_burst hlimited hnew)
    rw [burst, List.length_replicate] at hdenied
    omega
  · rintro (hm | hm') calls
    · exact policyGrants_mono hm hle hnew calls
    · have hm : m ≤ 0 := Int32.le_trans hle hm'
      have hsame : policyGrants policyName (some m) l calls
          = policyGrants policyName (some m') l calls := by
        rw [policyGrants_of_unlimited (hasBucket_of_not_pos (Int32.not_lt.mpr hm)),
          policyGrants_of_unlimited (hasBucket_of_not_pos (Int32.not_lt.mpr hm'))]
      exact Nat.le_of_eq hsame

theorem policyGrants_le_iff_one_two :
    (∀ calls, policyGrants "idle" (some 1) (RateLimiter.new 20 0) calls
        ≤ policyGrants "idle" (some 2) (RateLimiter.new 20 0) calls) ↔
      (0 : Int32) < 1 ∨ (2 : Int32) ≤ 0 :=
  policyGrants_le_iff (by decide) rfl

end RateLimiter

end KubeDepod
