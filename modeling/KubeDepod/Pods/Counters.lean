/-
KubeDepod/Pods/Counters.lean

The metric counters under any number of concurrent runs of `reconcile_pod`.

The runs are interleaved effect by effect, and every reply an effect can have
is possible: any policies, clock, CEL oracle, limiter and API server.  A run
counts a match before the one outcome the match can have, and a deletion or a
denial ends it (`wp_reconcilePod`).  Because `fetch_add` is one step, each
counter is the sum of what the single runs have added, and the two
inequalities between counters follow from those of each run
(`counters_consistent`).
-/
import KubeDepod.Controller.Reference
import KubeDepod.Lib.Execution
import KubeDepod.Lib.Parties
import Mathlib.Algebra.Order.BigOperators.Group.Finset

namespace KubeDepod

open Effects Lts Parties

/-! ### What one run counts -/

/-- The increments that a run has made of each counter. -/
abbrev Counts := Counter → Nat

def Counts.after (counts : Counts) : PodEffect → Counts
  | .increment counter => fun c => if c = counter then counts c + 1 else counts c
  | _ => counts

/-- Every match has at most one outcome, and every run at most one of the two
that end it. -/
structure Counts.Consistent (counts : Counts) : Prop where
  matched : counts .podsDeleted + counts .rateLimited + counts .evaluationErrors
    ≤ counts .policyMatches
  evaluated : counts .podsDeleted + counts .rateLimited ≤ counts .podsEvaluated

/-- The run has not ended, and every match so far has had its outcome. -/
structure Counts.Looping (counts : Counts) : Prop where
  deleted : counts .podsDeleted = 0
  limited : counts .rateLimited = 0
  errors : counts .evaluationErrors ≤ counts .policyMatches
  evaluated : 0 < counts .podsEvaluated

/-- The run has not ended, and one match may still have its outcome. -/
structure Counts.Matched (counts : Counts) : Prop where
  deleted : counts .podsDeleted = 0
  limited : counts .rateLimited = 0
  errors : counts .evaluationErrors < counts .policyMatches
  evaluated : 0 < counts .podsEvaluated

/-- All replies are possible; an effect is allowed if the counts are consistent
after it. -/
def countProtocol : Protocol PodEffect.Reply Counts where
  allowed e counts := (counts.after e).Consistent
  reply e counts _ counts' := counts' = counts.after e

namespace Counts

variable {counts : Counts}

theorem Looping.consistent (h : counts.Looping) : counts.Consistent := by
  constructor
  · rw [h.deleted, h.limited]
    have := h.errors
    omega
  · rw [h.deleted, h.limited]
    exact Nat.zero_le _

theorem Matched.looping (h : counts.Matched) : counts.Looping :=
  ⟨h.deleted, h.limited, Nat.le_of_lt h.errors, h.evaluated⟩

theorem Matched.consistent (h : counts.Matched) : counts.Consistent := h.looping.consistent

/-- A match is counted. -/
theorem Looping.match_ (h : counts.Looping) :
    (counts.after (.increment .policyMatches)).Matched :=
  ⟨h.deleted, h.limited, Nat.lt_succ_of_le h.errors, h.evaluated⟩

/-- Its outcome is an error. -/
theorem Matched.error (h : counts.Matched) :
    (counts.after (.increment .evaluationErrors)).Looping :=
  ⟨h.deleted, h.limited, h.errors, h.evaluated⟩

/-- Its outcome is a deletion. -/
theorem Matched.delete (h : counts.Matched) :
    (counts.after (.increment .podsDeleted)).Consistent := by
  obtain ⟨hdeleted, hlimited, herrors, hevaluated⟩ := h
  constructor
  · show counts .podsDeleted + 1 + counts .rateLimited + counts .evaluationErrors
      ≤ counts .policyMatches
    omega
  · show counts .podsDeleted + 1 + counts .rateLimited ≤ counts .podsEvaluated
    omega

/-- Its outcome is a denial. -/
theorem Matched.limit (h : counts.Matched) :
    (counts.after (.increment .rateLimited)).Consistent := by
  obtain ⟨hdeleted, hlimited, herrors, hevaluated⟩ := h
  constructor
  · show counts .podsDeleted + (counts .rateLimited + 1) + counts .evaluationErrors
      ≤ counts .policyMatches
    omega
  · show counts .podsDeleted + (counts .rateLimited + 1) ≤ counts .podsEvaluated
    omega

end Counts

variable {counts : Counts} {pod : Pod} {policy : DepodPolicy}

/-- An effect that counts nothing. -/
theorem wp_countsNothing {α : Type} {e : PodEffect} {k : e.Reply → PodProg α}
    {post : α → Counts → Prop} (hafter : counts.after e = counts) (hcounts : counts.Consistent)
    (hk : ∀ r, wp countProtocol (k r) post counts) :
    wp countProtocol (perform e >>= k) post counts := by
  refine ⟨?_, fun r counts' hr => ?_⟩
  · show (counts.after e).Consistent
    rwa [hafter]
  · obtain rfl : counts' = counts.after e := hr
    rw [hafter]
    exact hk r

/-- An outcome is counted. -/
theorem wp_increment {α : Type} {counter : Counter} {k : Unit → PodProg α}
    {post : α → Counts → Prop}
    (hafter : (counts.after (.increment counter)).Consistent)
    (hk : wp countProtocol (k ()) post (counts.after (.increment counter))) :
    wp countProtocol (perform (.increment counter) >>= k) post counts := by
  refine ⟨hafter, fun _ counts' hr => ?_⟩
  obtain rfl : counts' = counts.after (.increment counter) := hr
  exact hk

/-- The condition is met, or the match may have had an error as its outcome. -/
theorem wp_evaluateWhen (ttlRequeue : Option Nat) (h : counts.Matched) :
    wp countProtocol (evaluateWhen pod policy ttlRequeue)
      (fun r counts' => if r.1 then counts'.Matched else counts'.Looping) counts := by
  have herror : ∀ r : Bool × Option Nat, r.1 = false →
      wp countProtocol (incrementEvaluationErrors >>= fun _ => return r)
        (fun r counts' => if r.1 then counts'.Matched else counts'.Looping) counts := by
    intro r hr
    refine wp_increment h.error.consistent ?_
    show if r.1 then _ else _
    rw [hr]
    exact h.error
  rw [evaluateWhen]
  rcases policy.spec.when_.conditionType with - | -
  · -- CEL: without an expression, or with one that fails, the outcome is an error
    rcases policy.spec.when_.expression with - | expr
    · exact herror _ rfl
    · refine wp_countsNothing rfl h.consistent fun r => ?_
      rcases r with e | conditionResult
      · cases e <;> exact herror _ rfl
      · cases conditionResult
        · exact h.looping
        · exact h
  · -- built-in: only a missing TTL is an error
    rcases policy.spec.when_.ttlSeconds with - | ttlSeconds
    · exact herror _ rfl
    · refine wp_countsNothing rfl h.consistent fun now => ?_
      split
      · exact h
      · split
        · split <;> exact h.looping
        · exact h.looping

/-- A run that goes on after the action has counted an error at most. -/
def AfterAction (result : EarlyReturn) (counts : Counts) : Prop :=
  match result with
  | none => counts.Looping
  | some _ => counts.Consistent

/-- Both arms ask the limits first; a denial is counted and ends the run. -/
theorem wp_askLimits {granted : PodProg EarlyReturn} (h : counts.Matched)
    (hgranted : wp countProtocol granted AfterAction counts) :
    wp countProtocol (do
      let globalAllowed ← perform .allowGlobal
      let policyAllowed ←
        perform (.allowPolicy policy.nameAny policy.spec.limits.maxDeletesPerMinute)
      if !globalAllowed || !policyAllowed then do
        incrementRateLimited
        return some (.ok (.requeue (Duration.fromSecs 10)))
      else granted) AfterAction counts := by
  refine wp_countsNothing rfl h.consistent fun globalAllowed => ?_
  refine wp_countsNothing rfl h.consistent fun policyAllowed => ?_
  split
  · exact wp_increment h.limit h.limit
  · exact hgranted

theorem wp_deleteArm (h : counts.Matched) :
    wp countProtocol (deleteArm pod policy) AfterAction counts := by
  rw [deleteArm]
  split
  · exact h.looping
  · refine wp_askLimits h (wp_countsNothing rfl h.consistent fun reply => ?_)
    rcases reply with e | _
    · exact wp_increment h.error.consistent h.error
    · exact wp_increment h.delete h.delete

theorem wp_evictArm (h : counts.Matched) :
    wp countProtocol (evictArm pod policy) AfterAction counts := by
  rw [evictArm]
  split
  · exact h.looping
  · refine wp_askLimits h (wp_countsNothing rfl h.consistent fun serialised => ?_)
    rcases serialised with e | _
    · -- the error is returned with `?`, and the match has no outcome
      exact h.consistent
    · refine wp_countsNothing rfl h.consistent fun reply => ?_
      rcases reply with e | ⟨- | statusStr⟩
      · exact wp_increment h.error.consistent h.error
      · exact wp_increment h.delete h.delete
      · dsimp only
        split
        · exact wp_increment h.delete h.delete
        · exact wp_increment h.error.consistent h.error

theorem wp_executeThen (h : counts.Matched) :
    wp countProtocol (executeThen pod policy) AfterAction counts := by
  rw [executeThen]
  rcases policy.spec.then_.actionType with - | -
  · exact wp_deleteArm h
  · exact wp_evictArm h

/-- The loop, from any point of it. -/
theorem wp_reconcilePolicies (periodicResyncInterval : Option Duration)
    (policies : List DepodPolicy) (ttlRequeue : Option Nat) (h : counts.Looping) :
    wp countProtocol (reconcilePolicies periodicResyncInterval pod policies ttlRequeue)
      (fun _ counts' => counts'.Consistent) counts := by
  induction policies generalizing ttlRequeue counts with
  | nil => exact h.consistent
  | cons policy policies ih =>
      rw [reconcilePolicies]
      split
      · exact ih ttlRequeue h
      · split
        · exact ih ttlRequeue h
        · refine wp_increment h.match_.consistent (wp_bind.mpr ?_)
          refine wp_mono ?_ (wp_evaluateWhen ttlRequeue h.match_)
          rintro ⟨conditionMet, ttlRequeue⟩ counts' hcondition
          cases conditionMet with
          | false => exact ih ttlRequeue hcondition
          | true =>
              have hmatched : counts'.Matched := hcondition
              show wp _ (if isNamespaceProtected pod.namespaceOrDefault
                policy.spec.limits.protectSystemNamespaces
                policy.spec.limits.excludedNamespaces then _ else _) _ _
              -- a protected namespace: the match stays without an outcome
              split
              · exact ih ttlRequeue hmatched.looping
              · refine wp_bind.mpr (wp_mono ?_ (wp_executeThen hmatched))
                rintro (- | result) counts'' hafter
                · exact ih ttlRequeue hafter
                · exact hafter

/-- **The counts of a run are consistent after each of its effects.** -/
theorem wp_reconcilePod (periodicResyncInterval : Option Duration) (pod : Pod) :
    wp countProtocol (reconcilePod periodicResyncInterval pod)
      (fun _ counts => counts.Consistent) (fun _ => 0) := by
  have hevaluated : (Counts.after (fun _ => 0) (.increment .podsEvaluated)).Looping :=
    ⟨rfl, rfl, Nat.le_refl _, Nat.one_pos⟩
  refine wp_increment hevaluated.consistent ?_
  refine wp_countsNothing rfl hevaluated.consistent fun policies => ?_
  exact wp_reconcilePolicies periodicResyncInterval policies none hevaluated

/-! ### Any number of runs -/

/-- What is left of a run, and what it has counted. -/
structure PodReconciler where
  program : PodProg (Except Error Action)
  counts : Counts

/-- The counters that all runs share, and the runs. -/
structure PodReconcilers (ι : Type) where
  metrics : Metrics
  runs : ι → PodReconciler

def Metrics.after (m : Metrics) : PodEffect → Metrics
  | .increment counter => m.increment counter
  | _ => m

/-- All counters are zero and no run has done anything yet. -/
def PodReconcilers.initial {ι : Type} (periodicResyncInterval : Option Duration) (pods : ι → Pod) :
    PodReconcilers ι where
  metrics := .new
  runs := fun i => ⟨reconcilePod periodicResyncInterval (pods i), fun _ => 0⟩

/-- Run `i` performs its next effect, with any reply. -/
inductive PodReconcilersStep {ι : Type} [DecidableEq ι] :
    PodReconcilers ι → ι × PodEffect → PodReconcilers ι → Prop
  | effect {s : PodReconcilers ι} {i : ι} {e : PodEffect}
      {k : e.Reply → PodProg (Except Error Action)} (r : e.Reply)
      (hnext : (s.runs i).program = .op e k) :
      PodReconcilersStep s (i, e)
        ⟨s.metrics.after e, Function.update s.runs i ⟨k r, (s.runs i).counts.after e⟩⟩

/-- The next effect of run `i`, answered by `answer i`. -/
def answeredStep {ι : Type} [DecidableEq ι] (answer : ι → (e : PodEffect) → e.Reply)
    (s : PodReconcilers ι) (label : ι × PodEffect) : Option (PodReconcilers ι) :=
  match (s.runs label.1).program with
  | .op e k =>
      if e = label.2 then
        some ⟨s.metrics.after e,
          Function.update s.runs label.1 ⟨k (answer label.1 e), (s.runs label.1).counts.after e⟩⟩
      else none
  | .pure _ => none

theorem podReconcilersStep_of_answered {ι : Type} [DecidableEq ι]
    {answer : ι → (e : PodEffect) → e.Reply} {s s' : PodReconcilers ι} {label : ι × PodEffect}
    (h : answeredStep answer s label = some s') : PodReconcilersStep s label s' := by
  obtain ⟨i, e⟩ := label
  rw [answeredStep] at h
  split at h
  case h_1 e' k hnext =>
    split_ifs at h with he
    obtain rfl : e' = e := he
    cases h
    exact .effect (answer i e') hnext
  case h_2 => cases h

/-- The counts of the run are consistent and will be, and what it goes on to do
belongs to a run that is alone. -/
structure PodReconciler.Sound (periodicResyncInterval : Option Duration) (pod : Pod)
    (run : PodReconciler) : Prop where
  consistent : run.counts.Consistent
  remaining : wp countProtocol run.program (fun _ counts => counts.Consistent) run.counts
  alone : ∀ result counts, Exec countProtocol run.program run.counts result counts →
    Exec countProtocol (reconcilePod periodicResyncInterval pod) (fun _ => 0) result counts

variable {periodicResyncInterval : Option Duration}

theorem initial_sound (periodicResyncInterval : Option Duration) (pod : Pod) :
    PodReconciler.Sound periodicResyncInterval pod
      ⟨reconcilePod periodicResyncInterval pod, fun _ => 0⟩ where
  consistent := ⟨Nat.le_refl _, Nat.le_refl _⟩
  remaining := wp_reconcilePod periodicResyncInterval pod
  alone := fun _ _ h => h

/-- One effect of a run, with any reply. -/
theorem PodReconciler.Sound.effect {run : PodReconciler} (h : run.Sound periodicResyncInterval pod)
    {e : PodEffect} {k : e.Reply → PodProg (Except Error Action)} (hnext : run.program = .op e k)
    (r : e.Reply) : PodReconciler.Sound periodicResyncInterval pod ⟨k r, run.counts.after e⟩ := by
  have hwp := h.remaining
  rw [hnext] at hwp
  obtain ⟨hallowed, hk⟩ := hwp
  refine ⟨hallowed, hk r _ rfl, fun result counts hexec => h.alone result counts ?_⟩
  rw [hnext]
  exact .op rfl hexec

namespace PodReconcilers

variable {ι : Type} [Fintype ι] {pods : ι → Pod}

/-- The increments of a counter, over all runs. -/
def total (s : PodReconcilers ι) (counter : Counter) : Nat := ∑ i, (s.runs i).counts counter

/-- The increments of all counters. -/
def increments (s : PodReconcilers ι) : Nat :=
  s.total .podsEvaluated + s.total .podsDeleted + s.total .policyMatches
    + s.total .evaluationErrors + s.total .rateLimited

/-- The counters hold the sums over the runs. -/
structure Summed (periodicResyncInterval : Option Duration) (pods : ι → Pod)
    (s : PodReconcilers ι) : Prop where
  sums : ∀ counter, s.metrics.value counter = UInt64.ofNat (s.total counter)
  sound : ∀ i, (s.runs i).Sound periodicResyncInterval (pods i)

theorem initial_summed :
    (initial periodicResyncInterval pods).Summed periodicResyncInterval pods where
  sums := by
    intro counter
    have hzero : (initial periodicResyncInterval pods).total counter = 0 :=
      Finset.sum_eq_zero fun _ _ => rfl
    rw [hzero]
    rfl
  sound := fun i => initial_sound periodicResyncInterval (pods i)

/-- Below `2^64` the counters are the sums. -/
theorem Summed.toNat_value {s : PodReconcilers ι} (hs : s.Summed periodicResyncInterval pods)
    (hbound : s.increments < 2 ^ 64) (counter : Counter) :
    (s.metrics.value counter).toNat = s.total counter := by
  rw [hs.sums counter]
  apply UInt64.toNat_ofNat_of_lt
  have hle : s.total counter ≤ s.increments := by
    unfold increments
    cases counter <;> omega
  exact Nat.lt_of_le_of_lt hle hbound

variable [DecidableEq ι]

theorem counts_after (counts : Counts) (e : PodEffect) (counter : Counter) :
    counts.after e counter = counts counter + if e = .increment counter then 1 else 0 := by
  cases e with
  | increment c =>
      show (if counter = c then _ else _) = _
      by_cases h : counter = c
      · rw [if_pos h, if_pos (by rw [h])]
      · rw [if_neg h, if_neg (fun heq => h (PodEffect.increment.inj heq).symm)]
        rfl
  | _ => rfl

theorem value_after (m : Metrics) (e : PodEffect) (counter : Counter) :
    (m.after e).value counter
      = m.value counter + UInt64.ofNat (if e = .increment counter then 1 else 0) := by
  cases e with
  | increment c =>
      show (if counter = c then _ else _) = _
      by_cases h : counter = c
      · rw [if_pos h, if_pos (by rw [h])]
        rfl
      · rw [if_neg h, if_neg (fun heq => h (PodEffect.increment.inj heq).symm)]
        exact (UInt64.add_zero _).symm
  | _ => exact (UInt64.add_zero _).symm

/-- **One effect of one run** keeps the sums. -/
theorem Summed.step {s s' : PodReconcilers ι} {label : ι × PodEffect}
    (h : PodReconcilersStep s label s') (hs : s.Summed periodicResyncInterval pods) :
    s'.Summed periodicResyncInterval pods := by
  cases h with
  | @effect i e k r hnext =>
      constructor
      · intro counter
        have hsum := sum_update_add (fun run : PodReconciler => run.counts counter) s.runs i
          ⟨k r, (s.runs i).counts.after e⟩
        simp only [counts_after] at hsum
        have htotal : total ⟨s.metrics.after e,
              Function.update s.runs i ⟨k r, (s.runs i).counts.after e⟩⟩ counter
            = s.total counter + if e = .increment counter then 1 else 0 := by
          -- only run `i` has changed its count
          show (∑ j, (Function.update s.runs i
            ⟨k r, (s.runs i).counts.after e⟩ j).counts counter) = (∑ j, _) + _
          omega
        show (s.metrics.after e).value counter = _
        rw [value_after, hs.sums, htotal, UInt64.ofNat_add]
      · apply (Function.forall_update_iff s.runs fun j run =>
          run.Sound periodicResyncInterval (pods j)).mpr
        exact ⟨(hs.sound i).effect hnext r, fun j _ => hs.sound j⟩

end PodReconcilers

open PodReconcilers

/-- **The counters stay consistent.**  In every interleaving of any number of
runs of `reconcile_pod`, on any pods and with any replies of policies, clock,
CEL oracle, limiter and API server, as long as fewer than `2^64` increments
have been made: deletions, denials and errors together are at most the
matches, and deletions and denials together at most the evaluations; each
counter is the sum of the increments of the single runs; and once a run has
finished, its increments are those of a run that is alone. -/
theorem counters_consistent {ι : Type} [DecidableEq ι] [Fintype ι]
    (periodicResyncInterval : Option Duration) (pods : ι → Pod)
    {π : List ((ι × PodEffect) × PodReconcilers ι)}
    (hπ : Execution PodReconcilersStep (initial periodicResyncInterval pods) π) :
    ∀ s ∈ states (initial periodicResyncInterval pods) π, s.increments < 2 ^ 64 →
      (s.metrics.value .podsDeleted).toNat + (s.metrics.value .rateLimited).toNat
          + (s.metrics.value .evaluationErrors).toNat
        ≤ (s.metrics.value .policyMatches).toNat ∧
      (s.metrics.value .podsDeleted).toNat + (s.metrics.value .rateLimited).toNat
        ≤ (s.metrics.value .podsEvaluated).toNat ∧
      (∀ counter, (s.metrics.value counter).toNat = ∑ i, (s.runs i).counts counter) ∧
      ∀ i result, (s.runs i).program = .pure result →
        Exec countProtocol (reconcilePod periodicResyncInterval (pods i)) (fun _ => 0) result
          (s.runs i).counts := by
  intro s hs hbound
  have hsummed : s.Summed periodicResyncInterval pods :=
    hπ.invariant (fun _ _ _ hstep hs => hs.step hstep) initial_summed s hs
  refine ⟨?_, ?_, hsummed.toNat_value hbound, fun i result hdone => ?_⟩
  · rw [hsummed.toNat_value hbound, hsummed.toNat_value hbound, hsummed.toNat_value hbound,
      hsummed.toNat_value hbound]
    simp only [total, ← Finset.sum_add_distrib]
    exact Finset.sum_le_sum fun i _ => (hsummed.sound i).consistent.matched
  · rw [hsummed.toNat_value hbound, hsummed.toNat_value hbound, hsummed.toNat_value hbound]
    simp only [total, ← Finset.sum_add_distrib]
    exact Finset.sum_le_sum fun i _ => (hsummed.sound i).consistent.evaluated
  · apply (hsummed.sound i).alone result
    rw [hdone]
    exact .pure

/-- Two runs under one policy, effect by effect in turn: one deletes its pod, the
other one is denied. -/
theorem counters_consistent_two :
    let s : PodReconcilers Bool := initial none fun _ => optedInPod "web-0" "4e1f"
    ∃ π, Execution PodReconcilersStep s π ∧
      let value := fun counter => ((final s π).metrics.value counter).toNat
      value .podsEvaluated = 2 ∧ value .policyMatches = 2 ∧ value .podsDeleted = 1 ∧
        value .rateLimited = 1 ∧
        value .podsDeleted + value .rateLimited + value .evaluationErrors
          ≤ value .policyMatches ∧
        value .podsDeleted + value .rateLimited ≤ value .podsEvaluated := by
  intro s
  let pod := optedInPod "web-0" "4e1f"
  -- the limits grant what the run `true` asks, and deny the run `false`
  let answer := answersWith [celPolicy "cleanup" "true"]
  let both (e : PodEffect) : List (Bool × PodEffect) := [(true, e), (false, e)]
  have hrun : ∃ π, follow (answeredStep answer) s
      (both (.increment .podsEvaluated) ++ both .loadPolicies ++ both (.increment .policyMatches) ++
        both (.evaluate "true" pod "cleanup") ++ both .allowGlobal ++
        both (.allowPolicy "cleanup" none) ++
        [(true, .delete "default" "web-0" ⟨none⟩), (false, .increment .rateLimited),
          (true, .increment .podsDeleted)]) = some π ∧
      (final s π).increments < 2 ^ 64 ∧
      ((final s π).metrics.value .podsEvaluated).toNat = 2 ∧
      ((final s π).metrics.value .policyMatches).toNat = 2 ∧
      ((final s π).metrics.value .podsDeleted).toNat = 1 ∧
      ((final s π).metrics.value .rateLimited).toNat = 1 :=
    ⟨_, rfl, by decide +kernel, by decide +kernel, by decide +kernel, by decide +kernel,
      by decide +kernel⟩
  obtain ⟨π, hfollow, hbound, hevaluated, hmatches, hdeleted, hlimited⟩ := hrun
  have hπ : Execution PodReconcilersStep s π :=
    (execution_of_follow hfollow).1.mono fun _ _ _ => podReconcilersStep_of_answered
  obtain ⟨hmatched, hended, -⟩ := counters_consistent none _ hπ _ (final_mem_states s π) hbound
  exact ⟨π, hπ, hevaluated, hmatches, hdeleted, hlimited, hmatched, hended⟩

end KubeDepod
