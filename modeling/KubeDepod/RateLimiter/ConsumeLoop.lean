/-
KubeDepod/RateLimiter/ConsumeLoop.lean

The compare-exchange loop of `TokenBucket::allow`, for any number of callers
none of which refills.

A caller may hold a value of `tokens` that is long out of date.  That is
harmless, for two reasons: an exchange succeeds only against the present
value, so each grant costs a token; and the tokens only fall, so a caller that
has once seen none can leave the loop (`AllowPc.Sound`).  When all calls have
returned, the grants are therefore all that the tokens or the callers allow
(`consume_exact`).
-/
import KubeDepod.RateLimiter.Concurrent

namespace KubeDepod

open Lts Parties

/-! ### What a call knows -/

/-- Every clock reading of the run lies before `bound`. -/
def ReadsBefore {ι : Type} (bound : Nat) (_ : Callers ι) (label : ι × AtomicOp) : Prop :=
  ∀ now, label.2 = .readClock now → now < bound

/-- What the local state of a call that does not refill says about the bucket:
the window is not over, and a caller that has seen no tokens is right. -/
def AllowPc.Sound (b : TokenBucket) : AllowPc → Prop
  | .start => True
  | .loadReset now => now < b.lastReset + 60
  | .storeReset _ => False
  | .storeTokens => False
  | .loadTokens => True
  | .loop tokens => tokens = 0 → b.tokens = 0
  | .done granted => granted = false → b.tokens = 0

/-- What a call knows stays true while tokens are taken. -/
theorem AllowPc.Sound.mono {b b' : TokenBucket} {pc : AllowPc} (h : pc.Sound b)
    (hreset : b'.lastReset = b.lastReset) (htokens : b'.tokens ≤ b.tokens) : pc.Sound b' := by
  cases pc with
  | start => trivial
  | loadReset now =>
      show now < b'.lastReset + 60
      rw [hreset]
      exact h
  | storeReset now => exact h
  | storeTokens => exact h
  | loadTokens => trivial
  | loop tokens =>
      intro hnone
      have hempty : b.tokens = 0 := h hnone
      omega
  | done granted =>
      intro hdenied
      have hempty : b.tokens = 0 := h hdenied
      omega

/-- One operation of a call that does not refill: the window stays, the tokens
do not grow, and the call still knows the truth. -/
theorem allowStep_sound {pc pc' : AllowPc} {b b' : TokenBucket} {op : AtomicOp}
    (h : allowStep pc b op = some (pc', b'))
    (hclock : ∀ now, op = .readClock now → now < b.lastReset + 60) (hpc : pc.Sound b) :
    b'.lastReset = b.lastReset ∧ b'.tokens ≤ b.tokens ∧ op ≠ .storeTokens ∧ pc'.Sound b' := by
  unfold allowStep at h
  split at h
  case h_1 now =>
    cases h
    exact ⟨rfl, Nat.le_refl _, nofun, hclock now rfl⟩
  case h_2 now =>
    cases h
    have hcurrent : now < b.lastReset + 60 := hpc
    rw [if_neg (by omega)]
    exact ⟨rfl, Nat.le_refl _, nofun, trivial⟩
  case h_3 => exact hpc.elim
  case h_4 => exact hpc.elim
  case h_5 =>
    cases h
    exact ⟨rfl, Nat.le_refl _, nofun, id⟩
  case h_6 =>
    split_ifs at h with hpos hexchange
    · -- the exchange succeeds
      cases h
      exact ⟨rfl, Nat.sub_le _ _, nofun, nofun⟩
    · -- it fails and hands the caller the present value
      cases h
      exact ⟨rfl, Nat.le_refl _, nofun, id⟩
  case h_7 =>
    split_ifs at h with hnone
    cases h
    exact ⟨rfl, Nat.le_refl _, nofun, fun _ => hpc hnone⟩
  case h_8 => cases h

/-! ### All calls together -/

variable {ι : Type} [Fintype ι]

/-- No call has refilled the bucket, every token gone is a grant, and every
call knows the truth. -/
structure Conserved (bucket : TokenBucket) (s : Callers ι) : Prop where
  lastReset : s.bucket.lastReset = bucket.lastReset
  tokens : s.bucket.tokens + granted s = bucket.tokens
  sound : ∀ i, (s.pc i).Sound s.bucket

theorem conserved_initial (bucket : TokenBucket) :
    Conserved bucket (Callers.initial (ι := ι) bucket) where
  lastReset := rfl
  tokens := by
    rw [granted_initial]
    rfl
  sound _ := trivial

/-- When all calls have returned, the grants are all that the tokens and the
number of calls allow. -/
theorem Conserved.granted_eq {bucket : TokenBucket} {s : Callers ι} (hs : Conserved bucket s)
    (hdone : ∀ i, ∃ reply, s.pc i = .done reply) :
    granted s = min (Fintype.card ι) bucket.tokens := by
  have hsum := hs.tokens
  have hcard : granted s ≤ Fintype.card ι := countParties_le_card _ _
  by_cases hempty : s.bucket.tokens = 0
  · omega
  · -- a call that was denied has seen an empty bucket, so none was
    have hall : ∀ i, s.pc i = .done true := by
      intro i
      obtain ⟨reply, hreply⟩ := hdone i
      cases reply with
      | true => exact hreply
      | false =>
          have hsound := hs.sound i
          rw [hreply] at hsound
          exact absurd (hsound rfl) hempty
    have hgranted : granted s = Fintype.card ι := countParties_eq_card hall
    omega

variable [DecidableEq ι]

theorem Conserved.step {bucket : TokenBucket} {s s' : Callers ι} {label : ι × AtomicOp}
    (hs : Conserved bucket s) (h : CallersStep s label s')
    (hclock : ReadsBefore (bucket.lastReset + 60) s label) : Conserved bucket s' := by
  obtain ⟨pc, hstep, hpc⟩ := callersStep_eq h
  obtain ⟨hreset, htokens, hop, hsound⟩ :=
    allowStep_sound hstep (by rw [hs.lastReset]; exact hclock) (hs.sound label.1)
  refine ⟨hreset.trans hs.lastReset, ?_, fun i => ?_⟩
  · -- without a refill the step keeps the sum
    obtain ⟨-, ⟨hrefill, -⟩ | ⟨-, hkeep⟩⟩ := granted_add_tokens h
    · exact absurd hrefill hop
    · have := hs.tokens
      omega
  · rw [hpc]
    by_cases hi : i = label.1
    · rw [hi, Function.update_self]
      exact hsound
    · rw [Function.update_of_ne hi]
      exact (hs.sound i).mono hreset htokens

/-- **The consume loop is exact.**  In every interleaving of any number of
calls that find the window not over, whatever exchanges fail spuriously:
tokens and grants always add up to the tokens at the start, and once all calls
have returned, as many have been granted as there were tokens for. -/
theorem consume_exact (bucket : TokenBucket) (π : List ((ι × AtomicOp) × Callers ι))
    (hπ : Execution CallersStep (Callers.initial bucket) π)
    (hclock : StepsMeet (ReadsBefore (bucket.lastReset + 60)) (Callers.initial bucket) π) :
    ∀ s ∈ states (Callers.initial bucket) π,
      s.bucket.tokens + granted s = bucket.tokens ∧
        ((∀ i, ∃ reply, s.pc i = .done reply) →
          granted s = min (Fintype.card ι) bucket.tokens ∧
            s.bucket.tokens = bucket.tokens - min (Fintype.card ι) bucket.tokens) := by
  intro s hs
  have hstep : ∀ (s : Callers ι) label s', CallersStep s label s' →
      ReadsBefore (bucket.lastReset + 60) s label → Conserved bucket s → Conserved bucket s' :=
    fun _ _ _ hstep hclock hs => hs.step hstep hclock
  have hconserved :=
    hπ.invariant_of_stepsMeet hstep hclock (conserved_initial bucket) s hs
  have hsum := hconserved.tokens
  refine ⟨hsum, fun hdone => ?_⟩
  have hgranted := hconserved.granted_eq hdone
  exact ⟨hgranted, by omega⟩

/-- Two callers and one token.  Both load it; the first exchange fails
spuriously, the second takes the token, and the third finds it gone. -/
def contended : List (Bool × AtomicOp) :=
  [(true, .readClock 59), (false, .readClock 59), (true, .loadReset), (false, .loadReset),
    (true, .loadTokens), (false, .loadTokens), (true, .compareExchange true),
    (true, .compareExchange false), (false, .compareExchange false), (false, .leaveLoop)]

theorem consume_exact_contended :
    ∃ π, follow callersStep (Callers.initial ⟨2, 0, 1, by decide⟩) contended = some π ∧
      (∀ i, (final (Callers.initial ⟨2, 0, 1, by decide⟩) π).pc i = .done i) ∧
      ∀ s ∈ states (Callers.initial (ι := Bool) ⟨2, 0, 1, by decide⟩) π,
        s.bucket.tokens + granted s = 1 ∧
          ((∀ i, ∃ reply, s.pc i = .done reply) →
            granted s = min (Fintype.card Bool) 1 ∧
              s.bucket.tokens = 1 - min (Fintype.card Bool) 1) := by
  have hfollow : ∃ π,
      follow callersStep (Callers.initial ⟨2, 0, 1, by decide⟩) contended = some π ∧
      ∀ i, (final (Callers.initial ⟨2, 0, 1, by decide⟩) π).pc i = .done i := by
    refine ⟨_, rfl, ?_⟩
    decide
  obtain ⟨π, hπ, hdone⟩ := hfollow
  obtain ⟨hexec, hlabels⟩ := execution_of_follow hπ
  refine ⟨π, hπ, hdone, consume_exact ⟨2, 0, 1, by decide⟩ π hexec ?_⟩
  refine stepsMeet_of_labels fun label hlabel => ?_
  rw [hlabels] at hlabel
  revert label
  simp [contended]

end KubeDepod
