/-
KubeDepod/RateLimiter.lean

The token bucket and the rate limiter, one call after another.

The bucket is a fixed-window counter: a call that finds sixty seconds or more
since the last reset refills it and starts the next window at its own clock
reading; every call then takes a token if there is one.  The bound that holds
over *every* period of sixty seconds is therefore twice the limit: a period
meets at most two windows (`grantsIn_le_two_mul`), and it can use both of them
up (`grantsIn_attained`).
-/
import KubeDepod.Crd
import Mathlib.Data.List.Count
import Mathlib.Order.Basic
import Mathlib.Tactic.SplitIfs

namespace KubeDepod

/-! ### The bucket -/

/-- `TokenBucket`.  A bucket never holds more than its limit. -/
structure TokenBucket where
  maxPerMinute : Nat
  lastReset : Nat
  tokens : Nat
  tokens_le : tokens ≤ maxPerMinute
deriving DecidableEq

namespace TokenBucket

/-- `TokenBucket::new`, at clock reading `now` (epoch seconds). -/
def new (maxPerMinute now : Nat) : TokenBucket where
  maxPerMinute := maxPerMinute
  lastReset := now
  tokens := maxPerMinute
  tokens_le := Nat.le_refl _

/-- `last_reset.store(now)` -/
def withReset (b : TokenBucket) (now : Nat) : TokenBucket := { b with lastReset := now }

/-- `tokens.store(max_per_minute)` -/
def refill (b : TokenBucket) : TokenBucket :=
  { b with tokens := b.maxPerMinute, tokens_le := Nat.le_refl _ }

/-- A compare-exchange that succeeds. -/
def take (b : TokenBucket) : TokenBucket :=
  { b with tokens := b.tokens - 1, tokens_le := Nat.le_trans (Nat.sub_le _ _) b.tokens_le }

/-- The reset. -/
def reset (b : TokenBucket) (now : Nat) : TokenBucket := (b.withReset now).refill

/-- The compare-exchange loop without contention: take a token if there is one. -/
def consume (b : TokenBucket) : Bool × TokenBucket :=
  if 0 < b.tokens then (true, b.take) else (false, b)

/-- `TokenBucket::allow`, at clock reading `now`.  The subtraction is
`saturating_sub`, which is subtraction of natural numbers. -/
def allow (b : TokenBucket) (now : Nat) : Bool × TokenBucket :=
  let elapsed := now - b.lastReset
  if 60 ≤ elapsed then (b.reset now).consume else b.consume

end TokenBucket

/-! ### The limiter -/

/-- The guard `Some(l) if l > 0` of `allow_policy`; without it there is no
bucket to take from. -/
def hasBucket : Option Int32 → Bool
  | some limit => decide (0 < limit)
  | none => false

/-- The limit that the guard lets through. -/
def limitOf (maxPerMinute : Option Int32) : Nat := (maxPerMinute.getD 0).toNatClampNeg

/-- The limit of the policy. -/
def DepodPolicy.limit (policy : DepodPolicy) : Nat :=
  limitOf policy.spec.limits.maxDeletesPerMinute

/-- The policy has a positive limit. -/
def DepodPolicy.isLimited (policy : DepodPolicy) : Bool :=
  hasBucket policy.spec.limits.maxDeletesPerMinute

/-- `RateLimiter`; the map holds the bucket of each policy name. -/
structure RateLimiter where
  globalLimiter : TokenBucket
  policyLimiters : String → Option TokenBucket

/-- The clock readings of a limiter query: `created` if it creates a bucket,
then `now`. -/
structure LimiterReading where
  created : Nat
  now : Nat

namespace RateLimiter

/-- `RateLimiter::new`. -/
def new (globalMaxPerMinute now : Nat) : RateLimiter where
  globalLimiter := TokenBucket.new globalMaxPerMinute now
  policyLimiters := fun _ => none

/-- `RateLimiter::allow_global`. -/
def allowGlobal (l : RateLimiter) (now : Nat) : Bool × RateLimiter :=
  ((l.globalLimiter.allow now).1, { l with globalLimiter := (l.globalLimiter.allow now).2 })

/-- `policy_limiters.insert(name, bucket)`. -/
def insert (l : RateLimiter) (policyName : String) (bucket : TokenBucket) : RateLimiter :=
  { l with policyLimiters := Function.update l.policyLimiters policyName (some bucket) }

/-- `RateLimiter::allow_policy`.  A bucket created by the call reads the clock
for itself (`created`) before `allow` does (`now`). -/
def allowPolicy (l : RateLimiter) (policyName : String) (maxPerMinute : Option Int32)
    (created now : Nat) : Bool × RateLimiter :=
  match maxPerMinute with
  | some limit =>
      if 0 < limit then
        let limit := limit.toNatClampNeg
        match l.policyLimiters policyName with
        | some limiter =>
            if limiter.maxPerMinute ≠ limit then
              -- limit changed: replace the bucket
              let result := (TokenBucket.new limit created).allow now
              (result.1, l.insert policyName result.2)
            else
              let result := limiter.allow now
              (result.1, l.insert policyName result.2)
        | none =>
            let result := (TokenBucket.new limit created).allow now
            (result.1, l.insert policyName result.2)
      else
        (true, l)    -- an invalid limit is no limit
  | none => (true, l)

/-! ### Runs of `allow_global` -/

/-- The replies to a sequence of calls with the given clock readings, each
with its reading. -/
def globalReplies : RateLimiter → List Nat → List (Nat × Bool)
  | _, [] => []
  | l, now :: clocks => (now, (l.allowGlobal now).1) :: globalReplies (l.allowGlobal now).2 clocks

end RateLimiter

/-- The calls of `replies` granted in the period `[t, t + 60)`. -/
def grantsIn (t : Nat) (replies : List (Nat × Bool)) : Nat :=
  replies.countP fun reply => reply.2 && decide (t ≤ reply.1) && decide (reply.1 < t + 60)

/-- The replies of one bucket. -/
def TokenBucket.replies : TokenBucket → List Nat → List (Nat × Bool)
  | _, [] => []
  | b, now :: clocks => (now, (b.allow now).1) :: replies (b.allow now).2 clocks

theorem RateLimiter.globalReplies_eq (l : RateLimiter) (clocks : List Nat) :
    l.globalReplies clocks = l.globalLimiter.replies clocks := by
  induction clocks generalizing l with
  | nil => rfl
  | cons now clocks ih =>
      rw [globalReplies, TokenBucket.replies, ih]
      rfl

namespace TokenBucket

/-! ### What one call does -/

/-- A grant costs one token. -/
theorem consume_spec (b : TokenBucket) :
    b.consume.2.maxPerMinute = b.maxPerMinute ∧ b.consume.2.lastReset = b.lastReset ∧
      b.consume.2.tokens + b.consume.1.toNat = b.tokens := by
  unfold consume
  split_ifs with h
  · exact ⟨rfl, rfl, Nat.sub_add_cancel h⟩
  · exact ⟨rfl, rfl, rfl⟩

/-- The first window starts at the creation of the bucket, every later one at
the reading of the call that finds the previous one over. -/
theorem allow_of_expired {b : TokenBucket} {now : Nat} (h : b.lastReset + 60 ≤ now) :
    b.allow now = (b.reset now).consume := by
  have helapsed : 60 ≤ now - b.lastReset := by omega
  simp only [allow, if_pos helapsed]

theorem allow_of_current {b : TokenBucket} {now : Nat} (h : now < b.lastReset + 60) :
    b.allow now = b.consume := by
  have helapsed : ¬ 60 ≤ now - b.lastReset := by omega
  simp only [allow, if_neg helapsed]

/-- The bucket from which a call takes its token. -/
def ready (b : TokenBucket) (now : Nat) : TokenBucket :=
  if 60 ≤ now - b.lastReset then b.reset now else b

theorem allow_eq_ready_consume (b : TokenBucket) (now : Nat) :
    b.allow now = (b.ready now).consume := by
  simp only [allow, ready]
  split_ifs <;> rfl

/-- The tokens at `now`, a refill that is due included. -/
def tokensAt (b : TokenBucket) (now : Nat) : Nat := (b.ready now).tokens

theorem ready_maxPerMinute (b : TokenBucket) (now : Nat) :
    (b.ready now).maxPerMinute = b.maxPerMinute := by
  unfold ready
  split_ifs <;> rfl

theorem allow_maxPerMinute (b : TokenBucket) (now : Nat) :
    (b.allow now).2.maxPerMinute = b.maxPerMinute := by
  rw [allow_eq_ready_consume, (consume_spec _).1, ready_maxPerMinute]

/-- A call at `now` is granted exactly if there is a token at `now`. -/
theorem allow_granted_iff (b : TokenBucket) (now : Nat) :
    (b.allow now).1 = true ↔ 0 < b.tokensAt now := by
  rw [allow_eq_ready_consume, consume, tokensAt]
  split_ifs with h
  · exact iff_of_true rfl h
  · exact iff_of_false nofun h

/-- The window of a bucket that is ready is not over. -/
theorem ready_of_ready {b : TokenBucket} {now : Nat} {c : TokenBucket}
    (h : c.lastReset = (b.ready now).lastReset) : c.ready now = c := by
  rw [ready, if_neg]
  rw [h, ready]
  split_ifs with hexpired
  · show ¬ 60 ≤ now - now
    omega
  · exact hexpired

/-- A call leaves one token less, if there was one. -/
theorem tokensAt_allow (b : TokenBucket) (now : Nat) :
    (b.allow now).2.tokensAt now = b.tokensAt now - 1 := by
  obtain ⟨-, hreset, htokens⟩ := consume_spec (b.ready now)
  rw [tokensAt, allow_eq_ready_consume, ready_of_ready hreset, tokensAt]
  rw [consume] at htokens ⊢
  split_ifs with h
  · rfl
  · show (b.ready now).tokens = _
    omega

/-! ### Counting grants in a period -/

theorem grantsIn_cons (t now : Nat) (granted : Bool) (replies : List (Nat × Bool)) :
    grantsIn t ((now, granted) :: replies)
      = grantsIn t replies + if t ≤ now ∧ now < t + 60 then granted.toNat else 0 := by
  cases granted <;> simp [grantsIn, List.countP_cons]

/-- After the period nothing counts. -/
theorem grantsIn_eq_zero (b : TokenBucket) {t : Nat} {clocks : List Nat}
    (h : ∀ now ∈ clocks, t + 60 ≤ now) : grantsIn t (b.replies clocks) = 0 := by
  induction clocks generalizing b with
  | nil => rfl
  | cons now clocks ih =>
      have hnow := h now (by simp)
      rw [replies, grantsIn_cons, ih _ fun x hx => h x (by simp [hx]), if_neg (by omega)]

/-- Once a window has started inside the period, only its tokens are left. -/
theorem grantsIn_le_tokens (b : TokenBucket) {t : Nat} {clocks : List Nat}
    (hsorted : clocks.Pairwise (· ≤ ·)) (hstart : t ≤ b.lastReset) :
    grantsIn t (b.replies clocks) ≤ b.tokens := by
  induction clocks generalizing b with
  | nil => exact Nat.zero_le _
  | cons now clocks ih =>
      obtain ⟨hle, hsorted⟩ := List.pairwise_cons.mp hsorted
      by_cases hend : now < t + 60
      · -- inside the period the window is still the same
        have hcall : b.allow now = b.consume := allow_of_current (by omega)
        obtain ⟨-, hreset, htokens⟩ := consume_spec b
        have ih := ih b.consume.2 hsorted (by omega)
        rw [replies, grantsIn_cons, hcall]
        split_ifs <;> omega
      · have hlater : ∀ x ∈ now :: clocks, t + 60 ≤ x := by
          intro x hx
          rcases List.mem_cons.mp hx with rfl | hx
          · omega
          · have := hle x hx
            omega
        rw [grantsIn_eq_zero b hlater]
        exact Nat.zero_le _

/-- From a state inside the period: the tokens left, and one more window. -/
theorem grantsIn_le_tokens_add (b : TokenBucket) {t : Nat} {clocks : List Nat}
    (hsorted : clocks.Pairwise (· ≤ ·)) (hstart : ∀ now ∈ clocks, t ≤ now) :
    grantsIn t (b.replies clocks) ≤ b.tokens + b.maxPerMinute := by
  induction clocks generalizing b with
  | nil => exact Nat.zero_le _
  | cons now clocks ih =>
      obtain ⟨-, hsorted'⟩ := List.pairwise_cons.mp hsorted
      have hnow : t ≤ now := hstart now (by simp)
      by_cases hexpired : b.lastReset + 60 ≤ now
      · -- the call starts the second window
        obtain ⟨-, hreset, htokens⟩ := consume_spec (b.reset now)
        have hrest := grantsIn_le_tokens (b.reset now).consume.2 hsorted'
          (t := t) (by rw [hreset]; exact hnow)
        have hfull : (b.reset now).tokens = b.maxPerMinute := rfl
        rw [replies, grantsIn_cons, allow_of_expired hexpired]
        split_ifs <;> omega
      · obtain ⟨hmax, -, htokens⟩ := consume_spec b
        have ih := ih b.consume.2 hsorted' fun x hx => hstart x (by simp [hx])
        rw [replies, grantsIn_cons, allow_of_current (by omega)]
        split_ifs <;> omega

/-- From any state: two windows' worth. -/
theorem grantsIn_replies_le (b : TokenBucket) {clocks : List Nat}
    (hsorted : clocks.Pairwise (· ≤ ·)) (t : Nat) :
    grantsIn t (b.replies clocks) ≤ 2 * b.maxPerMinute := by
  induction clocks generalizing b with
  | nil => exact Nat.zero_le _
  | cons now clocks ih =>
      obtain ⟨hle, hsorted'⟩ := List.pairwise_cons.mp hsorted
      by_cases hnow : t ≤ now
      · have hstart : ∀ x ∈ now :: clocks, t ≤ x := by
          intro x hx
          rcases List.mem_cons.mp hx with rfl | hx
          · exact hnow
          · exact Nat.le_trans hnow (hle x hx)
        have := grantsIn_le_tokens_add b hsorted hstart
        have := b.tokens_le
        omega
      · -- before the period nothing counts yet
        have hmax : (b.allow now).2.maxPerMinute = b.maxPerMinute := by
          by_cases hexpired : b.lastReset + 60 ≤ now
          · rw [allow_of_expired hexpired, (consume_spec _).1]
            rfl
          · rw [allow_of_current (by omega), (consume_spec _).1]
        have ih := ih (b.allow now).2 hsorted'
        rw [replies, grantsIn_cons, if_neg (by omega), Nat.add_zero]
        rwa [hmax] at ih

/-- While tokens last, calls at one reading inside the window are all granted. -/
theorem grantsIn_replicate (b : TokenBucket) {t n : Nat} (now : Nat) (rest : List Nat)
    (hin : t ≤ now ∧ now < t + 60) (hcurrent : now < b.lastReset + 60) (hn : n ≤ b.tokens) :
    ∃ b' : TokenBucket, b'.maxPerMinute = b.maxPerMinute ∧ b'.lastReset = b.lastReset ∧
      grantsIn t (b.replies (List.replicate n now ++ rest))
        = n + grantsIn t (b'.replies rest) := by
  induction n generalizing b with
  | zero => exact ⟨b, rfl, rfl, by simp⟩
  | succ n ih =>
      have hgrant : b.consume.1 = true := by
        rw [consume, if_pos (by omega)]
      obtain ⟨hmax, hreset, htokens⟩ := consume_spec b
      rw [hgrant, Bool.toNat_true] at htokens
      obtain ⟨b', hmax', hreset', hcount⟩ := ih b.consume.2 (by omega) (by omega)
      refine ⟨b', hmax'.trans hmax, hreset'.trans hreset, ?_⟩
      rw [List.replicate_succ, List.cons_append, replies, grantsIn_cons,
        allow_of_current hcurrent, hcount, hgrant, if_pos hin, Bool.toNat_true]
      omega

end TokenBucket

/-! ### The bucket of a policy -/

theorem limitOf_pos {maxPerMinute : Option Int32} (h : hasBucket maxPerMinute = true) :
    0 < limitOf maxPerMinute := by
  cases maxPerMinute with
  | none => cases h
  | some limit =>
      have hpos : 0 < limit.toInt := Int32.lt_iff_toInt_lt.mp (of_decide_eq_true h)
      show 0 < limit.toInt.toNat
      omega

namespace RateLimiter

/-- The bucket that `allow_policy` uses: the one in the map, unless it has
another limit. -/
def policyBucket (l : RateLimiter) (policyName : String) (limit created : Nat) : TokenBucket :=
  match l.policyLimiters policyName with
  | some limiter =>
      if limiter.maxPerMinute ≠ limit then TokenBucket.new limit created else limiter
  | none => TokenBucket.new limit created

variable {l : RateLimiter} {policyName : String} {maxPerMinute : Option Int32}

theorem policyBucket_maxPerMinute (limit created : Nat) :
    (l.policyBucket policyName limit created).maxPerMinute = limit := by
  unfold policyBucket
  split
  · split_ifs with h
    · rfl
    · exact not_not.mp h
  · rfl

/-- Without a limit everything is allowed. -/
theorem allowPolicy_of_unlimited (h : hasBucket maxPerMinute = false) (created now : Nat) :
    l.allowPolicy policyName maxPerMinute created now = (true, l) := by
  cases maxPerMinute with
  | none => rfl
  | some limit => simp only [allowPolicy, if_neg (of_decide_eq_false h)]

/-- With a limit, `allow_policy` is `allow` on the bucket of the policy. -/
theorem allowPolicy_of_limited (h : hasBucket maxPerMinute = true) (created now : Nat) :
    l.allowPolicy policyName maxPerMinute created now
      = (((l.policyBucket policyName (limitOf maxPerMinute) created).allow now).1,
          l.insert policyName
            ((l.policyBucket policyName (limitOf maxPerMinute) created).allow now).2) := by
  cases maxPerMinute with
  | none => cases h
  | some limit =>
      have hlimit : limitOf (some limit) = limit.toNatClampNeg := rfl
      simp only [allowPolicy, if_pos (of_decide_eq_true h), policyBucket, hlimit]
      cases l.policyLimiters policyName with
      | none => rfl
      | some limiter =>
          dsimp only
          split_ifs <;> rfl

@[simp] theorem insert_policyLimiters_self (b : TokenBucket) :
    (l.insert policyName b).policyLimiters policyName = some b := Function.update_self ..

theorem insert_policyLimiters_of_ne {name : String} (h : name ≠ policyName) (b : TokenBucket) :
    (l.insert policyName b).policyLimiters name = l.policyLimiters name :=
  Function.update_of_ne h ..

/-- What the next call of a policy with this limit will find. -/
theorem policyBucket_insert_self {b : TokenBucket} {limit : Nat} (h : b.maxPerMinute = limit)
    (created : Nat) : (l.insert policyName b).policyBucket policyName limit created = b := by
  simp only [policyBucket, insert_policyLimiters_self, ne_eq, h, not_true, if_false]

theorem policyBucket_insert_of_limit_ne {b : TokenBucket} {limit : Nat}
    (h : b.maxPerMinute ≠ limit) (created : Nat) :
    (l.insert policyName b).policyBucket policyName limit created
      = TokenBucket.new limit created := by
  simp only [policyBucket, insert_policyLimiters_self, ne_eq, h, not_false_eq_true, if_true]

end RateLimiter

/-! ### The bound over every minute -/

/-- The limit itself is not a bound over every period of sixty seconds: calls
just before and just after a reset together exceed it. -/
theorem grantsIn_le_limit_fails :
    ¬ ∀ (N created : Nat) (clocks : List Nat), (created :: clocks).Pairwise (· ≤ ·) →
      ∀ t, grantsIn t ((RateLimiter.new N created).globalReplies clocks) ≤ N := by
  intro h
  exact absurd (h 1 0 [59, 60] (by decide) 59) (by decide)

/-- Twice the limit is attained: the limit at second 59 and again at second 60
after the creation of the limiter. -/
theorem grantsIn_attained (N : Nat) :
    grantsIn 59 ((RateLimiter.new N 0).globalReplies
      (List.replicate N 59 ++ List.replicate N 60)) = 2 * N := by
  rw [RateLimiter.globalReplies_eq]
  cases N with
  | zero => rfl
  | succ n =>
      obtain ⟨b, hmax, hreset, hfirst⟩ := TokenBucket.grantsIn_replicate
        (TokenBucket.new (n + 1) 0) (t := 59) (n := n + 1) 59
        (List.replicate (n + 1) 60) (by omega) (show 59 < 0 + 60 by decide) (Nat.le_refl _)
      -- the first call at second 60 starts the second window
      have hexpired : b.allow 60 = (b.reset 60).consume :=
        TokenBucket.allow_of_expired (by rw [hreset]; exact Nat.le_refl 60)
      have hgrant : (b.reset 60).consume.1 = true := by
        rw [TokenBucket.consume, if_pos]
        show 0 < b.maxPerMinute
        rw [hmax]
        exact Nat.succ_pos n
      obtain ⟨-, hreset', htokens⟩ := TokenBucket.consume_spec (b.reset 60)
      have hfull : (b.reset 60).tokens = n + 1 := hmax
      rw [hgrant, Bool.toNat_true, hfull] at htokens
      obtain ⟨b', -, -, hsecond⟩ := TokenBucket.grantsIn_replicate
        (b.reset 60).consume.2 (t := 59) (n := n) 60 [] (by omega)
        (by rw [hreset']; exact Nat.lt_add_of_pos_right (by decide)) (by omega)
      have hnone : grantsIn 59 (b'.replies []) = 0 := rfl
      show grantsIn 59 ((TokenBucket.new (n + 1) 0).replies _) = _
      rw [hfirst, List.replicate_succ, TokenBucket.replies,
        TokenBucket.grantsIn_cons, hexpired, hgrant, ← List.append_nil (List.replicate n 60),
        hsecond, hnone]
      simp
      omega

/-- **Any sixty seconds.**  For every limit and every run of `allow_global`
calls with a non-decreasing clock, at most twice the limit of the calls in a
period `[t, t + 60)` are granted. -/
theorem grantsIn_le_two_mul (N created : Nat) (clocks : List Nat)
    (hsorted : clocks.Pairwise (· ≤ ·)) (t : Nat) :
    grantsIn t ((RateLimiter.new N created).globalReplies clocks) ≤ 2 * N := by
  rw [RateLimiter.globalReplies_eq]
  exact TokenBucket.grantsIn_replies_le _ hsorted t

theorem grantsIn_le_two_mul_straddle :
    grantsIn 59 ((RateLimiter.new 1 0).globalReplies [59, 60]) ≤ 2 * 1 :=
  grantsIn_le_two_mul 1 0 [59, 60] (by decide) 59

end KubeDepod
