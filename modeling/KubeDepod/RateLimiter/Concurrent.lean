/-
KubeDepod/RateLimiter/Concurrent.lean

`TokenBucket::allow` as a sequence of atomic operations, and any number of
callers of one bucket interleaved at that granularity.

A caller that finds the window expired stores `last_reset` and then `tokens`,
in two separate operations and without looking at either again.  A second
caller that loaded the old `last_reset` before the first store therefore
refills the bucket once more, possibly after tokens of the new window have
been taken: `refill_mints_tokens` is such a run.  As long as every refill
stores its tokens before the first grant, the limit holds
(`granted_le_of_refillFirst`).

`solo_allow` ties the operations to the sequential model: a caller that is
alone computes `TokenBucket.allow`, whatever compare-exchanges fail
spuriously.
-/
import KubeDepod.RateLimiter
import KubeDepod.Lib.Execution
import KubeDepod.Lib.Parties
import Mathlib.Data.Fintype.Basic

namespace KubeDepod

open Lts Parties

/-! ### The operations of one call -/

/-- Where a call of `allow` is, with its local variables. -/
inductive AllowPc where
  | start
  | loadReset (now : Nat)
  | storeReset (now : Nat)
  | storeTokens
  | loadTokens
  | loop (tokens : Nat)
  | done (granted : Bool)
deriving DecidableEq

/-- The atomic operations of a call, with what the environment decides. -/
inductive AtomicOp where
  /-- `SystemTime::now()` -/
  | readClock (now : Nat)
  /-- `last_reset.load()`, and the test of the elapsed time -/
  | loadReset
  /-- `last_reset.store(now)` -/
  | storeReset
  /-- `tokens.store(max_per_minute)` -/
  | storeTokens
  /-- `tokens.load()` -/
  | loadTokens
  /-- `tokens.compare_exchange_weak(tokens, tokens - 1)` -/
  | compareExchange (spuriousFailure : Bool)
  /-- the `while` condition is false -/
  | leaveLoop
deriving DecidableEq

/-- One operation of one call. -/
def allowStep : AllowPc → TokenBucket → AtomicOp → Option (AllowPc × TokenBucket)
  | .start, b, .readClock now => some (.loadReset now, b)
  | .loadReset now, b, .loadReset =>
      let elapsed := now - b.lastReset
      some (if 60 ≤ elapsed then .storeReset now else .loadTokens, b)
  | .storeReset now, b, .storeReset => some (.storeTokens, b.withReset now)
  | .storeTokens, b, .storeTokens => some (.loadTokens, b.refill)
  | .loadTokens, b, .loadTokens => some (.loop b.tokens, b)
  | .loop tokens, b, .compareExchange spuriousFailure =>
      if 0 < tokens then
        if b.tokens = tokens ∧ spuriousFailure = false then some (.done true, b.take)
        else some (.loop b.tokens, b)
      else none
  | .loop tokens, b, .leaveLoop => if tokens = 0 then some (.done false, b) else none
  | _, _, _ => none

/-! ### Any number of callers -/

/-- One bucket and the calls on it. -/
structure Callers (ι : Type) where
  bucket : TokenBucket
  pc : ι → AllowPc

variable {ι : Type} [DecidableEq ι]

/-- Caller `i` performs one operation. -/
def callersStep (s : Callers ι) (label : ι × AtomicOp) : Option (Callers ι) :=
  match allowStep (s.pc label.1) s.bucket label.2 with
  | some (pc, bucket) => some ⟨bucket, Function.update s.pc label.1 pc⟩
  | none => none

def CallersStep (s : Callers ι) (label : ι × AtomicOp) (s' : Callers ι) : Prop :=
  callersStep s label = some s'

/-- The calls that have returned true. -/
def granted [Fintype ι] (s : Callers ι) : Nat := countParties (· = AllowPc.done true) s.pc

/-- What one operation does to a call and to the bucket: a refill stores the
limit, a successful exchange takes a token, and a finished call does nothing. -/
theorem allowStep_cases {pc pc' : AllowPc} {b b' : TokenBucket} {op : AtomicOp}
    (h : allowStep pc b op = some (pc', b')) :
    pc ≠ .done true ∧ b'.maxPerMinute = b.maxPerMinute ∧
      (op = .storeTokens ∧ pc' ≠ .done true ∧ b'.tokens = b.maxPerMinute ∨
        op ≠ .storeTokens ∧ pc' ≠ .done true ∧ b'.tokens = b.tokens ∨
        op ≠ .storeTokens ∧ pc' = .done true ∧ b'.tokens + 1 = b.tokens) := by
  unfold allowStep at h
  split at h
  case h_1 => cases h; simp
  case h_2 => cases h; split_ifs <;> simp
  case h_3 => cases h; simp [TokenBucket.withReset]
  case h_4 => cases h; simp [TokenBucket.refill]
  case h_5 => cases h; simp
  case h_6 =>
    split_ifs at h with hpos hexchange
    · -- the exchange succeeds: one token, one grant
      cases h
      refine ⟨by simp, rfl, .inr (.inr ⟨by simp, rfl, ?_⟩)⟩
      simp only [TokenBucket.take]
      omega
    · cases h; simp
  case h_7 => split_ifs at h; cases h; simp
  case h_8 => cases h

theorem callersStep_eq {s s' : Callers ι} {label : ι × AtomicOp}
    (h : CallersStep s label s') :
    ∃ pc, allowStep (s.pc label.1) s.bucket label.2 = some (pc, s'.bucket) ∧
      s'.pc = Function.update s.pc label.1 pc := by
  unfold CallersStep callersStep at h
  split at h
  case h_1 pc bucket hstep => cases h; exact ⟨pc, hstep, rfl⟩
  case h_2 => cases h

/-- A step either refills the bucket or keeps the sum of grants and tokens. -/
theorem granted_add_tokens [Fintype ι] {s s' : Callers ι} {label : ι × AtomicOp}
    (h : CallersStep s label s') :
    s'.bucket.maxPerMinute = s.bucket.maxPerMinute ∧
      (label.2 = .storeTokens ∧ granted s' = granted s ∧
          s'.bucket.tokens = s.bucket.maxPerMinute ∨
        label.2 ≠ .storeTokens ∧
          granted s' + s'.bucket.tokens = granted s + s.bucket.tokens) := by
  obtain ⟨pc, hstep, hpc⟩ := callersStep_eq h
  obtain ⟨hbefore, hmax, hcases⟩ := allowStep_cases hstep
  refine ⟨hmax, ?_⟩
  have hleave : pc ≠ .done true → granted s' = granted s := by
    intro hafter
    unfold granted
    rw [hpc]
    exact countParties_update_of_not (P := (· = AllowPc.done true)) hbefore hafter
  have hgrant : pc = .done true → granted s' = granted s + 1 := by
    intro hafter
    unfold granted
    rw [hpc]
    exact countParties_update_of_pos (P := (· = AllowPc.done true)) hbefore hafter
  rcases hcases with ⟨hop, hafter, htokens⟩ | ⟨hop, hafter, htokens⟩ | ⟨hop, hafter, htokens⟩
  · exact .inl ⟨hop, hleave hafter, htokens⟩
  · exact .inr ⟨hop, by rw [hleave hafter, htokens]⟩
  · exact .inr ⟨hop, by rw [hgrant hafter]; omega⟩

/-! ### The limit under concurrency -/

/-- All calls at their start. -/
def Callers.initial (bucket : TokenBucket) : Callers ι := ⟨bucket, fun _ => .start⟩

/-- Every clock reading of the run lies in `[a, a + 60)`. -/
def ReadsWithin (a : Nat) (_ : Callers ι) (label : ι × AtomicOp) : Prop :=
  ∀ now, label.2 = .readClock now → a ≤ now ∧ now < a + 60

/-- A refill stores its tokens only while nothing has been granted. -/
def RefillFirst [Fintype ι] (s : Callers ι) (label : ι × AtomicOp) : Prop :=
  label.2 = .storeTokens → granted s = 0

instance [Fintype ι] (s : Callers ι) (label : ι × AtomicOp) :
    Decidable (RefillFirst s label) :=
  inferInstanceAs (Decidable (label.2 = .storeTokens → granted s = 0))

/-- The interleaving that refills twice: both callers find the window expired;
one refills and takes the only token; then the other refills. -/
def doubleRefill : List (Bool × AtomicOp) :=
  [(true, .readClock 60), (false, .readClock 60),
    (true, .loadReset), (false, .loadReset),
    (true, .storeReset), (true, .storeTokens), (true, .loadTokens),
    (true, .compareExchange false),
    (false, .storeReset), (false, .storeTokens), (false, .loadTokens),
    (false, .compareExchange false)]

/-- One new window, a limit of one, and two grants. -/
theorem refill_mints_tokens :
    ¬ ∀ (N : Nat), 1 ≤ N → ∀ (ι : Type) [Fintype ι] [DecidableEq ι] (bucket : TokenBucket),
      bucket.maxPerMinute = N → ∀ a, bucket.lastReset + 60 ≤ a →
      ∀ π : List ((ι × AtomicOp) × Callers ι),
        Execution CallersStep (Callers.initial bucket) π →
        StepsMeet (ReadsWithin a) (Callers.initial bucket) π →
        granted (final (Callers.initial bucket) π) ≤ N := by
  intro h
  have hfollow : ∃ π, follow callersStep
      (Callers.initial (ι := Bool) ⟨1, 0, 0, by decide⟩) doubleRefill = some π ∧
      granted (final (Callers.initial ⟨1, 0, 0, by decide⟩) π) = 2 := by
    refine ⟨_, rfl, ?_⟩
    decide
  obtain ⟨π, hπ, hgranted⟩ := hfollow
  obtain ⟨hexec, hlabels⟩ := execution_of_follow hπ
  have hclock : StepsMeet (ReadsWithin 60) (Callers.initial ⟨1, 0, 0, by decide⟩) π := by
    refine stepsMeet_of_labels fun label hlabel => ?_
    rw [hlabels] at hlabel
    revert label
    simp [doubleRefill]
  have := h 1 (Nat.le_refl 1) Bool ⟨1, 0, 0, by decide⟩ rfl 60 (by decide) π hexec hclock
  omega

omit [DecidableEq ι] in
theorem granted_initial [Fintype ι] (bucket : TokenBucket) :
    granted (Callers.initial (ι := ι) bucket) = 0 :=
  countParties_eq_zero fun i => by simp [Callers.initial]

/-- **The limit holds when every refill comes first.**  In every interleaving
of any number of calls in which each refill stores its tokens before the first
grant, at most `max_per_minute` calls have returned true at any point. -/
theorem granted_le_of_refillFirst [Fintype ι] (bucket : TokenBucket)
    (π : List ((ι × AtomicOp) × Callers ι))
    (hπ : Execution CallersStep (Callers.initial bucket) π)
    (hrefill : StepsMeet RefillFirst (Callers.initial bucket) π) :
    ∀ s ∈ states (Callers.initial bucket) π, granted s ≤ bucket.maxPerMinute := by
  -- the tokens left and the grants so far never exceed the limit
  have hinv := hπ.invariant_of_stepsMeet
    (I := fun s => s.bucket.maxPerMinute = bucket.maxPerMinute ∧
      granted s + s.bucket.tokens ≤ bucket.maxPerMinute)
    (fun s label s' hstep hok ⟨hmax, hsum⟩ => by
      obtain ⟨hmax', ⟨hop, hgranted, htokens⟩ | ⟨-, hkeep⟩⟩ := granted_add_tokens hstep
      · have hnone := hok hop
        exact ⟨hmax'.trans hmax, by omega⟩
      · exact ⟨hmax'.trans hmax, by omega⟩)
    hrefill
    ⟨rfl, by
      rw [granted_initial, Nat.zero_add]
      exact bucket.tokens_le⟩
  intro s hs
  have := (hinv s hs).2
  omega

/-- Two callers one after the other, the first of which refills. -/
theorem granted_le_of_refillFirst_orderly :
    ∃ π, follow callersStep (Callers.initial (ι := Bool) ⟨1, 0, 0, by decide⟩)
        [(true, .readClock 60), (true, .loadReset), (true, .storeReset), (true, .storeTokens),
          (true, .loadTokens), (true, .compareExchange true), (true, .compareExchange false),
          (false, .readClock 61), (false, .loadReset), (false, .loadTokens),
          (false, .leaveLoop)] = some π ∧
      ∀ s ∈ states (Callers.initial (ι := Bool) ⟨1, 0, 0, by decide⟩) π, granted s ≤ 1 := by
  have hrun : ∃ π, follow callersStep (Callers.initial (ι := Bool) ⟨1, 0, 0, by decide⟩)
      [(true, .readClock 60), (true, .loadReset), (true, .storeReset), (true, .storeTokens),
        (true, .loadTokens), (true, .compareExchange true), (true, .compareExchange false),
        (false, .readClock 61), (false, .loadReset), (false, .loadTokens),
        (false, .leaveLoop)] = some π ∧
      StepsMeet RefillFirst (Callers.initial ⟨1, 0, 0, by decide⟩) π :=
    ⟨_, rfl, by decide⟩
  obtain ⟨π, hπ, hrefill⟩ := hrun
  exact ⟨π, hπ, granted_le_of_refillFirst ⟨1, 0, 0, by decide⟩ π
    (execution_of_follow hπ).1 hrefill⟩

/-! ### One caller alone -/

namespace TokenBucket

/-- Where a lone call is, in terms of the bucket `b` it started with. -/
def Solo (b : TokenBucket) (now : Nat) : AllowPc → TokenBucket → Prop
  | .start, c => c = b
  | .loadReset n, c => n = now ∧ c = b
  | .storeReset n, c => n = now ∧ c = b ∧ 60 ≤ now - b.lastReset
  | .storeTokens, c => c = b.withReset now ∧ 60 ≤ now - b.lastReset
  | .loadTokens, c => c = b.ready now
  | .loop tokens, c => c = b.ready now ∧ tokens = (b.ready now).tokens
  | .done r, c => (r, c) = (b.ready now).consume

/-- Each operation of a lone call keeps to the sequential meaning. -/
theorem Solo.step {b c c' : TokenBucket} {now : Nat} {pc pc' : AllowPc} {op : AtomicOp}
    (h : allowStep pc c op = some (pc', c')) (hclock : ∀ n, op = .readClock n → n = now)
    (hs : Solo b now pc c) : Solo b now pc' c' := by
  unfold allowStep at h
  split at h
  case h_1 => cases h; exact ⟨hclock _ rfl, hs⟩
  case h_2 =>
    cases h
    obtain ⟨hn, hc⟩ := hs
    rw [hn, hc]
    split_ifs with hexpired
    · exact ⟨rfl, rfl, hexpired⟩
    · exact (if_neg hexpired).symm
  case h_3 =>
    cases h
    obtain ⟨hn, hc, hexpired⟩ := hs
    rw [hn, hc]
    exact ⟨rfl, hexpired⟩
  case h_4 =>
    cases h
    obtain ⟨hc, hexpired⟩ := hs
    rw [hc]
    exact (if_pos hexpired).symm
  case h_5 =>
    cases h
    have hc : c = b.ready now := hs
    rw [hc]
    exact ⟨rfl, rfl⟩
  case h_6 =>
    obtain ⟨hc, htokens⟩ := hs
    split_ifs at h with hpos hexchange
    · -- the exchange succeeds
      cases h
      rw [htokens] at hpos
      show (true, c.take) = _
      rw [hc, consume, if_pos hpos]
    · -- it fails, spuriously: nobody else changes the bucket
      cases h
      rw [hc]
      exact ⟨rfl, rfl⟩
  case h_7 =>
    obtain ⟨hc, htokens⟩ := hs
    split_ifs at h with hzero
    cases h
    show (false, c) = _
    rw [hc, consume, if_neg (by omega)]
  case h_8 => cases h

end TokenBucket

/-- **A caller alone computes `TokenBucket.allow`**, whatever exchanges fail
spuriously on the way. -/
theorem solo_allow (bucket : TokenBucket) (now : Nat)
    (π : List ((Unit × AtomicOp) × Callers Unit))
    (hπ : Execution CallersStep (Callers.initial bucket) π)
    (hclock : StepsMeet (fun _ label => ∀ n, label.2 = .readClock n → n = now)
      (Callers.initial bucket) π) {granted : Bool}
    (hdone : (final (Callers.initial bucket) π).pc () = .done granted) :
    (granted, (final (Callers.initial bucket) π).bucket) = bucket.allow now := by
  have hinv := hπ.invariant_of_stepsMeet
    (I := fun s => TokenBucket.Solo bucket now (s.pc ()) s.bucket)
    (fun s label s' hstep hok hs => by
      obtain ⟨pc, hstep, hpc⟩ := callersStep_eq hstep
      rw [hpc, Function.update_self]
      exact hs.step hstep hok)
    hclock (show TokenBucket.Solo bucket now .start bucket from rfl) _ (final_mem_states _ π)
  rw [hdone] at hinv
  rw [TokenBucket.allow_eq_ready_consume]
  exact hinv

end KubeDepod
