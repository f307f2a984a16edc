/-
KubeDepod/RateLimiter/Progress.lean

Every call of `TokenBucket::allow` returns.

The compare-exchange of a call fails if the tokens are not those it has loaded,
and then it loads them again; so another call has stored or taken tokens in
between.  A call does each of these once at most, and each can make every other
call fail once: with `n` calls there are no more than `n * (6 + 2 * n)` atomic
operations besides the exchanges that fail spuriously, whatever the schedule
(`allow_returns`).
-/
import KubeDepod.Lib.Potential
import KubeDepod.RateLimiter.Concurrent
import Mathlib.Algebra.Order.BigOperators.Group.Finset

namespace KubeDepod

open Lts Parties

/-! ### What is left of a call -/

namespace AllowPc

/-- The operations left if no exchange fails. -/
def opsLeft : AllowPc → Nat
  | .start => 6
  | .loadReset _ => 5
  | .storeReset _ => 4
  | .storeTokens => 3
  | .loadTokens => 2
  | .loop _ => 1
  | .done _ => 0

/-- How often the call may still change the tokens. -/
def changesLeft : AllowPc → Nat
  | .start => 2
  | .loadReset _ => 2
  | .storeReset _ => 2
  | .storeTokens => 2
  | .loadTokens => 1
  | .loop _ => 1
  | .done _ => 0

/-- The tokens are not those that the call has loaded. -/
def stale (tokens : Nat) : AllowPc → Nat
  | .loop loaded => if loaded = tokens then 0 else 1
  | _ => 0

theorem stale_le_one (tokens : Nat) (pc : AllowPc) : pc.stale tokens ≤ 1 := by
  unfold stale
  split
  · split_ifs <;> decide
  · exact Nat.zero_le 1

end AllowPc

/-- An exchange that fails although the tokens are those expected. -/
def AtomicOp.isSpurious : AtomicOp → Bool
  | .compareExchange spuriousFailure => spuriousFailure
  | _ => false

/-- **One operation.**  It changes the tokens, which the call does once or twice,
or it brings the call further: a failed exchange at least to the tokens as they
are now. -/
theorem allowStep_progress {pc pc' : AllowPc} {b b' : TokenBucket} {op : AtomicOp}
    (h : allowStep pc b op = some (pc', b')) :
    (pc'.opsLeft + 1 ≤ pc.opsLeft ∧ pc'.changesLeft + 1 ≤ pc.changesLeft) ∨
      (b'.tokens = b.tokens ∧ pc'.changesLeft ≤ pc.changesLeft ∧
        pc'.opsLeft + pc'.stale b.tokens + 1
          ≤ pc.opsLeft + pc.stale b.tokens + op.isSpurious.toNat) := by
  unfold allowStep at h
  split at h
  case h_1 => cases h; exact .inr ⟨rfl, Nat.le_refl 2, Nat.le_refl 6⟩
  case h_2 =>
    cases h
    split_ifs
    · exact .inr ⟨rfl, Nat.le_refl 2, Nat.le_refl 5⟩
    · exact .inr ⟨rfl, Nat.le_succ 1, show 3 ≤ 5 by decide⟩
  case h_3 => cases h; exact .inr ⟨rfl, Nat.le_refl 2, Nat.le_refl 4⟩
  case h_4 => cases h; exact .inl ⟨by decide, by decide⟩
  case h_5 =>
    cases h
    exact .inr ⟨rfl, by simp [AllowPc.changesLeft], by simp [AllowPc.opsLeft, AllowPc.stale]⟩
  case h_6 tokens spuriousFailure =>
    split_ifs at h with hpos hexchange
    · cases h
      exact .inl ⟨by simp [AllowPc.opsLeft], by simp [AllowPc.changesLeft]⟩
    · -- the exchange fails: spuriously, or because the tokens have changed
      cases h
      refine .inr ⟨rfl, Nat.le_refl _, ?_⟩
      have hfresh : (AllowPc.loop b.tokens).stale b.tokens = 0 := if_pos rfl
      have hfails : 1 ≤ (AllowPc.loop tokens).stale b.tokens
          + (AtomicOp.compareExchange spuriousFailure).isSpurious.toNat := by
        by_cases htokens : b.tokens = tokens
        · cases spuriousFailure with
          | false => exact absurd ⟨htokens, rfl⟩ hexchange
          | true => exact Nat.le_add_left 1 _
        · have hstale : (AllowPc.loop tokens).stale b.tokens = 1 := if_neg (Ne.symm htokens)
          rw [hstale]
          exact Nat.le_add_right 1 _
      have hops : (AllowPc.loop b.tokens).opsLeft = 1 := rfl
      have hops' : (AllowPc.loop tokens).opsLeft = 1 := rfl
      omega
  case h_7 =>
    split_ifs at h
    cases h
    exact .inr ⟨rfl, Nat.zero_le 1,
      Nat.le_trans (Nat.le_add_right 1 _) (Nat.le_add_right (1 + _) _)⟩
  case h_8 => cases h

/-! ### All calls together -/

variable {ι : Type} [DecidableEq ι] [Fintype ι] {s s' : Callers ι} {label : ι × AtomicOp}

namespace Callers

/-- What is left of the calls, with `n` further operations for each change of the
tokens. -/
def work (s : Callers ι) : Nat :=
  (∑ i, ((s.pc i).opsLeft + Fintype.card ι * (s.pc i).changesLeft))
    + ∑ i, (s.pc i).stale s.bucket.tokens

omit [DecidableEq ι] in
theorem sum_stale_le (s : Callers ι) (tokens : Nat) :
    (∑ i, (s.pc i).stale tokens) ≤ Fintype.card ι := by
  calc (∑ i, (s.pc i).stale tokens) ≤ ∑ _i : ι, 1 :=
        Finset.sum_le_sum fun i _ => (s.pc i).stale_le_one tokens
    _ = Fintype.card ι := by rw [Finset.sum_const_nat fun _ _ => rfl, Nat.mul_one, Finset.card_univ]

omit [DecidableEq ι] in
theorem work_initial_le (bucket : TokenBucket) :
    (initial (ι := ι) bucket).work ≤ Fintype.card ι * (6 + 2 * Fintype.card ι) := by
  have hstale : (∑ i : ι, ((initial (ι := ι) bucket).pc i).stale bucket.tokens) = 0 :=
    Finset.sum_eq_zero fun _ _ => rfl
  have hleft : (∑ i : ι, (((initial (ι := ι) bucket).pc i).opsLeft
        + Fintype.card ι * ((initial (ι := ι) bucket).pc i).changesLeft))
      = Fintype.card ι * (6 + Fintype.card ι * 2) := by
    exact Finset.sum_const_nat fun _ _ => rfl
  show _ + (∑ i : ι, ((initial (ι := ι) bucket).pc i).stale bucket.tokens) ≤ _
  rw [hstale, hleft, Nat.add_zero, Nat.mul_comm 2]

/-- The operation is a spurious failure. -/
def spuriousFailures (_ : Callers ι) (label : ι × AtomicOp) : Nat := label.2.isSpurious.toNat

theorem work_step (h : CallersStep s label s') :
    s'.work + 1 ≤ s.work + s.spuriousFailures label := by
  obtain ⟨pc, hstep, hpc⟩ := callersStep_eq h
  have hleft := sum_update_add (fun pc => pc.opsLeft + Fintype.card ι * pc.changesLeft) s.pc label.1
    pc
  rw [← hpc] at hleft
  unfold work
  rcases allowStep_progress hstep with ⟨hops, hchanges⟩ | ⟨htokens, hchanges, hops⟩
  · -- every other call may have to load the tokens again
    have hmul := Nat.mul_le_mul_left (Fintype.card ι) hchanges
    rw [Nat.mul_add, Nat.mul_one] at hmul
    have hstale := sum_stale_le s' s'.bucket.tokens
    omega
  · have hmul := Nat.mul_le_mul_left (Fintype.card ι) hchanges
    have hstale := sum_update_add (AllowPc.stale s.bucket.tokens) s.pc label.1 pc
    rw [← hpc] at hstale
    rw [htokens]
    have hspurious : s.spuriousFailures label = label.2.isSpurious.toNat := rfl
    omega

end Callers

omit [Fintype ι] in
/-- A call that has not returned can perform its next operation, in any state of
the bucket and of the other calls, and no exchange has to fail for that. -/
theorem exists_callersStep (s : Callers ι) {i : ι} (h : ∀ granted, s.pc i ≠ .done granted) :
    ∃ op s', op.isSpurious = false ∧ CallersStep s (i, op) s' := by
  have hnext : ∃ op pc bucket, op.isSpurious = false ∧
      allowStep (s.pc i) s.bucket op = some (pc, bucket) := by
    cases hpc : s.pc i with
    | start => exact ⟨.readClock 0, _, _, rfl, rfl⟩
    | loadReset now => exact ⟨.loadReset, _, _, rfl, rfl⟩
    | storeReset now => exact ⟨.storeReset, _, _, rfl, rfl⟩
    | storeTokens => exact ⟨.storeTokens, _, _, rfl, rfl⟩
    | loadTokens => exact ⟨.loadTokens, _, _, rfl, rfl⟩
    | loop tokens =>
        by_cases hzero : tokens = 0
        · exact ⟨.leaveLoop, _, _, rfl, if_pos hzero⟩
        · by_cases hsame : s.bucket.tokens = tokens
          · refine ⟨.compareExchange false, .done true, s.bucket.take, rfl, ?_⟩
            rw [allowStep, if_pos (Nat.pos_of_ne_zero hzero), if_pos ⟨hsame, rfl⟩]
          · refine ⟨.compareExchange false, .loop s.bucket.tokens, s.bucket, rfl, ?_⟩
            rw [allowStep, if_pos (Nat.pos_of_ne_zero hzero), if_neg fun h => hsame h.1]
    | done granted => exact absurd hpc (h granted)
  obtain ⟨op, pc, bucket, hop, hstep⟩ := hnext
  refine ⟨op, ⟨bucket, Function.update s.pc i pc⟩, hop, ?_⟩
  rw [CallersStep, callersStep, hstep]

/-- **Every call returns.**  In every schedule of any number of calls on one
bucket, the operations performed are at most `n * (6 + 2 * n)` and the exchanges
that have failed spuriously; and as long as a call has not returned, it can go
on, whatever the others do. -/
theorem allow_returns (bucket : TokenBucket) {π : List ((ι × AtomicOp) × Callers ι)}
    (hπ : Execution CallersStep (Callers.initial bucket) π) :
    π.length ≤ Fintype.card ι * (6 + 2 * Fintype.card ι)
        + totalAlong Callers.spuriousFailures (Callers.initial bucket) π ∧
      ∀ i, (∃ granted, (final (Callers.initial bucket) π).pc i = .done granted) ∨
        ∃ op s', op.isSpurious = false ∧
          CallersStep (final (Callers.initial bucket) π) (i, op) s' := by
  constructor
  · have hle : π.length + (final (Callers.initial bucket) π).work
        ≤ (Callers.initial (ι := ι) bucket).work
          + totalAlong Callers.spuriousFailures (Callers.initial bucket) π :=
      hπ.length_le (I := fun _ => True) Callers.work (fun _ _ _ _ _ => trivial)
        (fun _ _ _ h _ => Callers.work_step h) trivial
    have hinitial := Callers.work_initial_le (ι := ι) bucket
    omega
  · intro i
    by_cases hdone : ∃ granted, (final (Callers.initial bucket) π).pc i = .done granted
    · exact .inl hdone
    · exact .inr (exists_callersStep _ fun granted h => hdone ⟨granted, h⟩)

/-- Two calls for one token: the second one loses the exchange and is denied. -/
theorem allow_returns_contended :
    let s : Callers Bool := .initial (.new 1 0)
    ∃ π, Execution CallersStep s π ∧ π.length = 10 ∧
      π.length ≤ 2 * (6 + 2 * 2) + totalAlong Callers.spuriousFailures s π := by
  intro s
  have hrun : ∃ π, follow callersStep s
      [(true, .readClock 0), (false, .readClock 0), (true, .loadReset), (false, .loadReset),
        (true, .loadTokens), (false, .loadTokens), (true, .compareExchange true),
        (true, .compareExchange false), (false, .compareExchange false),
        (false, .leaveLoop)] = some π :=
    ⟨_, rfl⟩
  obtain ⟨π, hfollow⟩ := hrun
  obtain ⟨hπ, hlabels⟩ := execution_of_follow hfollow
  have hten : π.length = 10 := by
    rw [← List.length_map Prod.fst, hlabels]
    rfl
  exact ⟨π, hπ, hten, (allow_returns (.new 1 0) hπ).1⟩

end KubeDepod
