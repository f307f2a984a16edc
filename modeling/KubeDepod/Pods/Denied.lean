/-
KubeDepod/Pods/Denied.lean

What a denied deletion costs.

Both arms of `reconcile_pod` ask the global limit and then the limit of the
policy, and each question takes a token if there is one; a token taken is not
given back when the other limit denies.  `denied_deletion_costs` is a policy
that is over its limit and takes the global tokens of all others.
`deniedRun_spec` finds the two questions at the end of every denied run, and
`denied_costsNothing_iff` says when they cost nothing.
-/
import KubeDepod.Controller.Limited
import KubeDepod.Pods.Termination

namespace KubeDepod

open Lts

/-! ### One bucket over time -/

namespace TokenBucket

variable {b : TokenBucket} {asked u : Nat}

theorem tokensAt_of_current (h : u < b.lastReset + 60) : b.tokensAt u = b.tokens := by
  rw [tokensAt, ready, if_neg (by omega)]

theorem tokensAt_of_expired (h : b.lastReset + 60 ≤ u) : b.tokensAt u = b.maxPerMinute := by
  rw [tokensAt, ready, if_pos (by omega)]
  rfl

theorem tokensAt_le (b : TokenBucket) (u : Nat) : b.tokensAt u ≤ b.maxPerMinute := by
  have hle := (b.ready u).tokens_le
  rwa [ready_maxPerMinute] at hle

/-- The window in which a question is asked is not over. -/
theorem lt_ready_lastReset (b : TokenBucket) (asked : Nat) :
    asked < (b.ready asked).lastReset + 60 := by
  unfold ready
  split_ifs with hexpired
  · show asked < asked + 60
    omega
  · omega

/-- A refill that was due does not show later, nor ever if it gave no tokens. -/
theorem tokensAt_ready (h : asked ≤ u ∨ b.tokensAt asked = 0) :
    (b.ready asked).tokensAt u = b.tokensAt u := by
  by_cases hexpired : b.lastReset + 60 ≤ asked
  · have hready : b.ready asked = b.reset asked := if_pos (by omega)
    rcases h with hle | hzero
    · rw [tokensAt_of_expired (b := b) (by omega), hready]
      by_cases hlater : asked + 60 ≤ u
      · exact tokensAt_of_expired hlater
      · exact tokensAt_of_current (show u < asked + 60 by omega)
    · rw [tokensAt_of_expired hexpired] at hzero
      have hbefore := b.tokensAt_le u
      have hafter := (b.ready asked).tokensAt_le u
      rw [ready_maxPerMinute] at hafter
      omega
  · have hready : b.ready asked = b := if_neg (by omega)
    rw [hready]

/-- A question at `asked` takes no token, or one of a window that is over by
`t`. -/
def Spares (b : TokenBucket) (asked t : Nat) : Prop :=
  b.tokensAt asked = 0 ∨ (b.ready asked).lastReset + 60 ≤ t

/-- A question does not show from `t` on exactly if it took no token, or if the
window it took the token in is over by then. -/
theorem tokensAt_allow_later_iff (b : TokenBucket) (asked t : Nat) :
    (∀ u, t ≤ u → (b.allow asked).2.tokensAt u = b.tokensAt u) ↔ b.Spares asked t := by
  obtain ⟨hmax, hreset, htokens⟩ := consume_spec (b.ready asked)
  have hgranted := b.allow_granted_iff asked
  rw [allow_eq_ready_consume] at hgranted ⊢
  have hasked : b.tokensAt asked = (b.ready asked).tokens := rfl
  have hwindow := b.lt_ready_lastReset asked
  constructor
  · intro hsame
    rw [Spares, Classical.or_iff_not_imp_right, Nat.not_le]
    intro hcurrent
    -- look while the window is not over, but not before the question
    have hmax : max t asked < (b.ready asked).lastReset + 60 := by omega
    have hsame := hsame (max t asked) (by omega)
    rw [← tokensAt_ready (b := b) (.inl (show asked ≤ max t asked by omega)),
      tokensAt_of_current hmax, tokensAt_of_current (by rw [hreset]; exact hmax)] at hsame
    rcases hreply : (b.ready asked).consume.1 with - | -
    · rw [hreply] at hgranted
      exact Nat.eq_zero_of_not_pos fun hpos => Bool.false_ne_true (hgranted.mpr hpos)
    · rw [hreply, Bool.toNat_true] at htokens
      omega
  · intro hfree u hu
    have hready : asked ≤ u ∨ b.tokensAt asked = 0 := by
      rcases hfree with hzero | hover
      · exact .inr hzero
      · left
        omega
    rw [← tokensAt_ready hready]
    by_cases hexpired : (b.ready asked).lastReset + 60 ≤ u
    · rw [tokensAt_of_expired hexpired, tokensAt_of_expired (by rw [hreset]; exact hexpired),
        hmax]
    · have hzero : b.tokensAt asked = 0 := by
        rcases hfree with hzero | hover
        · exact hzero
        · omega
      rw [tokensAt_of_current (Nat.not_le.mp hexpired),
        tokensAt_of_current (by rw [hreset]; exact Nat.not_le.mp hexpired)]
      omega

end TokenBucket

/-! ### One attempt -/

/-- The two questions asked before an action: the global limit at `asked`,
then the policy's at `now`, after creating a bucket at `created` if needed. -/
structure Attempt where
  policyName : String
  maxPerMinute : Option Int32
  asked : Nat
  created : Nat
  now : Nat

/-- Both limits are asked, whatever the first one replies. -/
def RateLimiter.attempt (l : RateLimiter) (a : Attempt) : Bool × RateLimiter :=
  let global := l.allowGlobal a.asked
  let policy := global.2.allowPolicy a.policyName a.maxPerMinute a.created a.now
  (global.1 && policy.1, policy.2)

/-- From `t` on, every bucket has the tokens it has in the other limiter, a
refill that is due included. -/
def SameTokens (t : Nat) (l l' : RateLimiter) : Prop :=
  ∀ u, t ≤ u → l'.globalLimiter.tokensAt u = l.globalLimiter.tokensAt u ∧
    ∀ policyName, (l'.policyLimiters policyName).map (fun b => b.tokensAt u)
      = (l.policyLimiters policyName).map fun b => b.tokensAt u

/-- The attempt costs nothing from `t` on: there is no token in the global
bucket; and the policy has no limit, or a bucket of that limit with no token in
it.  A token of a window that is over by `t` does not count. -/
def RateLimiter.Spares (l : RateLimiter) (a : Attempt) (t : Nat) : Prop :=
  l.globalLimiter.Spares a.asked t ∧
    (hasBucket a.maxPerMinute = false ∨
      ∃ b, l.policyLimiters a.policyName = some b ∧ b.maxPerMinute = limitOf a.maxPerMinute ∧
        b.Spares a.now t)

namespace RateLimiter

variable {l : RateLimiter} {a : Attempt}

/-- The bucket of a policy shows the question about its limit, unless there
was no token in it. -/
theorem policyBucket_later_iff (l : RateLimiter) (a : Attempt) (t : Nat) :
    (∀ u, t ≤ u →
        some (((l.policyBucket a.policyName (limitOf a.maxPerMinute) a.created).allow
            a.now).2.tokensAt u)
          = (l.policyLimiters a.policyName).map fun b => b.tokensAt u) ↔
      ∃ b, l.policyLimiters a.policyName = some b ∧ b.maxPerMinute = limitOf a.maxPerMinute ∧
        b.Spares a.now t := by
  unfold policyBucket
  rcases hmap : l.policyLimiters a.policyName with - | b
  · refine iff_of_false (fun h => ?_) (by simp)
    cases h t (Nat.le_refl _)
  · by_cases hmax : b.maxPerMinute = limitOf a.maxPerMinute
    · simp only [hmax, ne_eq, not_true, if_false, Option.map_some, Option.some.injEq]
      rw [TokenBucket.tokensAt_allow_later_iff]
      constructor
      · exact fun hspares => ⟨b, rfl, hmax, hspares⟩
      · rintro ⟨_, rfl, -, hspares⟩
        exact hspares
    · -- a bucket of another limit is replaced: this shows once both are refilled,
      -- because a refill fills up to the limit
      simp only [hmax, ne_eq, not_false_eq_true, if_true, Option.map_some, Option.some.injEq]
      refine iff_of_false (fun h => ?_) (by rintro ⟨_, rfl, heq, -⟩; exact hmax heq)
      let c := ((TokenBucket.new (limitOf a.maxPerMinute) a.created).allow a.now).2
      have hlater := h (t + c.lastReset + b.lastReset + 60) (by omega)
      rw [TokenBucket.tokensAt_of_expired (show c.lastReset + 60 ≤ _ by omega),
        TokenBucket.tokensAt_of_expired (by omega), TokenBucket.allow_maxPerMinute] at hlater
      exact hmax hlater.symm

/-- The question about the policy's limit shows in the policy's bucket only. -/
theorem policyTokens_later_iff (l : RateLimiter) (a : Attempt) (t : Nat) :
    (∀ u, t ≤ u → ∀ name,
        ((l.allowPolicy a.policyName a.maxPerMinute a.created a.now).2.policyLimiters name).map
            (fun b => b.tokensAt u)
          = (l.policyLimiters name).map fun b => b.tokensAt u) ↔
      hasBucket a.maxPerMinute = false ∨
        ∃ b, l.policyLimiters a.policyName = some b ∧
          b.maxPerMinute = limitOf a.maxPerMinute ∧ b.Spares a.now t := by
  rcases hlimited : hasBucket a.maxPerMinute with - | -
  · simp [allowPolicy_of_unlimited hlimited]
  · rw [allowPolicy_of_limited hlimited, or_iff_right (by simp), ← policyBucket_later_iff]
    constructor
    · intro h u hu
      have hname := h u hu a.policyName
      rwa [insert_policyLimiters_self] at hname
    · intro h u hu name
      by_cases hname : name = a.policyName
      · rw [hname, insert_policyLimiters_self]
        exact h u hu
      · rw [insert_policyLimiters_of_ne hname]

theorem allowPolicy_globalLimiter (l : RateLimiter) (policyName : String)
    (maxPerMinute : Option Int32) (created now : Nat) :
    (l.allowPolicy policyName maxPerMinute created now).2.globalLimiter = l.globalLimiter := by
  rcases hlimited : hasBucket maxPerMinute with - | -
  · rw [allowPolicy_of_unlimited hlimited]
  · rw [allowPolicy_of_limited hlimited]
    rfl

/-- **One attempt costs nothing exactly if it finds both buckets empty**, up to
a missing limit and a window that is over. -/
theorem sameTokens_attempt_iff (l : RateLimiter) (a : Attempt) (t : Nat) :
    SameTokens t l (l.attempt a).2 ↔ l.Spares a t := by
  have hglobal : (l.attempt a).2.globalLimiter = (l.globalLimiter.allow a.asked).2 :=
    allowPolicy_globalLimiter ..
  unfold SameTokens Spares
  rw [hglobal, ← TokenBucket.tokensAt_allow_later_iff]
  have hpolicy := policyTokens_later_iff (l.allowGlobal a.asked).2 a t
  constructor
  · intro hsame
    exact ⟨fun u hu => (hsame u hu).1, hpolicy.mp fun u hu => (hsame u hu).2⟩
  · rintro ⟨hg, hp⟩ u hu
    exact ⟨hg u hu, hpolicy.mpr hp u hu⟩

end RateLimiter

/-! ### Denied runs -/

/-- A limiter query that was denied. -/
def PodEvent.isDenied : PodEvent → Bool
  | .allowGlobal reply => !reply
  | .allowPolicy _ _ reply => !reply
  | .delete _ _ _ _ => false
  | .evict _ _ _ _ => false

variable {env : PodEnv} {pod : Pod} {n : Nat} {policy : DepodPolicy}
  {fallback : Action} {policies : List DepodPolicy}

theorem PodEvent.isDenied_of_isCall {e : PodEvent} (h : e.isCall = true) :
    e.isDenied = false := by
  cases e with
  | delete _ _ _ _ | evict _ _ _ _ => rfl
  | allowGlobal _ | allowPolicy _ _ _ => cases h

/-- An attempt that is granted leaves no denied query behind. -/
theorem attempt_isDenied (h : bothGrant env n = true) :
    ∀ e ∈ (attempt env pod n policy).1, e.isDenied = false := by
  have hqueries : ∀ e ∈ queries env n policy, e.isDenied = false := by
    simp only [bothGrant, Bool.and_eq_true] at h
    simp [queries, PodEvent.isDenied, h.1, h.2]
  rw [bothGrant] at h
  simp only [attempt, h, if_true]
  rcases hcall : callOf env pod (n + 2) policy with err | call
  · exact hqueries
  · intro e he
    rcases List.mem_append.mp he with he | he
    · exact hqueries e he
    · rw [List.mem_singleton.mp he]
      exact PodEvent.isDenied_of_isCall (callOf_isCall hcall)

/-- A denied query ends the run: it is one of the last two requests, made for
one policy. -/
theorem serve_denied (h : ∃ e ∈ (serve env pod fallback n policies).1, e.isDenied = true) :
    ∃ earlier policy, policy ∈ policies ∧
      (serve env pod fallback n policies).1
        = earlier ++ queries env (n + earlier.length) policy ∧
      bothGrant env (n + earlier.length) = false := by
  induction policies generalizing n with
  | nil =>
      obtain ⟨e, he, -⟩ := h
      cases he
  | cons policy policies ih =>
      rcases hgranted : bothGrant env n with - | -
      · -- this policy's queries are the last events
        refine ⟨[], policy, List.mem_cons_self .., ?_, hgranted⟩
        rw [serve_cons, attempt_of_denied hgranted]
        exact List.append_nil _
      · obtain ⟨e, he, hdenied⟩ := h
        rw [serve_cons] at he ⊢
        rcases List.mem_append.mp he with he | he
        · rw [attempt_isDenied hgranted e he] at hdenied
          cases hdenied
        · -- the call failed, and a later policy was denied
          rcases hresult : (attempt env pod n policy).2 with - | result
          · rw [hresult] at he
            obtain ⟨earlier, policy', hmem, hlog, hnone⟩ := ih ⟨e, he, hdenied⟩
            refine ⟨(attempt env pod n policy).1 ++ earlier, policy',
              List.mem_cons_of_mem _ hmem, ?_, ?_⟩
            · rw [List.length_append, ← Nat.add_assoc]
              exact (congrArg _ hlog).trans (List.append_assoc ..).symm
            · rw [List.length_append, ← Nat.add_assoc]
              exact hnone
          · rw [hresult] at he
            cases he

/-- The attempt made for a policy as the `n`-th and the following request. -/
def attemptFor (readings : Nat → LimiterReading) (n : Nat) (policy : DepodPolicy) : Attempt where
  policyName := policy.nameAny
  maxPerMinute := policy.spec.limits.maxDeletesPerMinute
  asked := (readings n).now
  created := (readings (n + 1)).created
  now := (readings (n + 1)).now

/-- Every denied run ends with one denied attempt, made on the limiter that the
earlier requests of the run have left. -/
theorem deniedRun_spec (periodicResyncInterval : Option Duration) (env : PodEnv)
    (readings : Nat → LimiterReading) (pod : Pod) (metrics : Metrics) (l : RateLimiter) :
    let run := runLimited periodicResyncInterval env readings pod metrics l
    (∃ e ∈ run.2.1.log, e.isDenied = true) →
      ∃ earlier policy before,
        run.2.1.log = earlier ++ queries { env with limiter := repliesOf run.2.1.log }
          earlier.length policy ∧
        Answers readings 0 l earlier before ∧
        (before.attempt (attemptFor readings earlier.length policy)).1 = false ∧
        run.2.2 = (before.attempt (attemptFor readings earlier.length policy)).2 := by
  intro run hdenied
  obtain ⟨hanswers, href⟩ := runLimited_spec periodicResyncInterval env readings pod metrics l
  have hlog : run.2.1.log = _ := congrArg Prod.fst href
  obtain ⟨earlier, policy, -, hserve, hnone⟩ := serve_denied (hlog ▸ hdenied)
  rw [Nat.zero_add] at hserve hnone
  have hsplit : run.2.1.log = _ := hlog.trans hserve
  have hearlier : Answers readings 0 l run.2.1.log run.2.2 := hanswers
  rw [hsplit, answers_append, Nat.zero_add] at hearlier
  -- the limiter as the earlier events leave it gave the last two replies
  obtain ⟨before, hearlier, hglobal, hpolicy, hend⟩ := hearlier
  refine ⟨earlier, policy, before, hsplit, hearlier, ?_, hend⟩
  rw [bothGrant, hglobal, hpolicy] at hnone
  exact hnone

/-! ### Any number of denied attempts -/

/-- The limiter, and the latest clock reading. -/
structure LimiterState where
  limiter : RateLimiter
  time : Nat

/-- A denied attempt. -/
def DeniedStep (s : LimiterState) (a : Attempt) (s' : LimiterState) : Prop :=
  (s.limiter.attempt a).1 = false ∧ s' = ⟨(s.limiter.attempt a).2, max s.time a.now⟩

/-- The attempt costs nothing from its last clock reading on. -/
def SparingStep (s : LimiterState) (a : Attempt) : Prop :=
  s.limiter.Spares a (max s.time a.now)

/-- One more denied attempt leaves the tokens of `l` exactly if it costs
nothing. -/
theorem sameTokens_step_iff {l : RateLimiter} {s s' : LimiterState} {a : Attempt}
    (h : DeniedStep s a s') (hs : SameTokens s.time l s.limiter) :
    SameTokens s'.time l s'.limiter ↔ SparingStep s a := by
  obtain ⟨-, rfl⟩ := h
  rw [SparingStep, ← RateLimiter.sameTokens_attempt_iff]
  have hle : s.time ≤ max s.time a.now := Nat.le_max_left ..
  constructor
  · intro hsame u hu
    obtain ⟨hg, hp⟩ := hs u (Nat.le_trans hle hu)
    obtain ⟨hg', hp'⟩ := hsame u hu
    exact ⟨hg'.trans hg.symm, fun name => (hp' name).trans (hp name).symm⟩
  · intro hsame u hu
    obtain ⟨hg, hp⟩ := hs u (Nat.le_trans hle hu)
    obtain ⟨hg', hp'⟩ := hsame u hu
    exact ⟨hg'.trans hg, fun name => (hp' name).trans (hp name)⟩

/-! ### What denied deletions cost -/

/-- The limiter after the policy `strict` has used up its limit of one. -/
def strictUsedUp : RateLimiter :=
  ((RateLimiter.new 20 0).allowPolicy "strict" (some 1) 0 0).2

/-- The policy's limit denies, and a global token is gone. -/
theorem denied_deletion_costs :
    ¬ ∀ (periodicResyncInterval : Option Duration) (env : PodEnv)
      (readings : Nat → LimiterReading) (pod : Pod) (metrics : Metrics) (l : RateLimiter),
      let run := runLimited periodicResyncInterval env readings pod metrics l
      ∀ earlier before, (∃ g p policyName maxPerMinute, run.2.1.log
          = earlier ++ [.allowGlobal g, .allowPolicy policyName maxPerMinute p] ∧
            (g && p) = false) →
        Answers readings 0 l earlier before →
        SameTokens (readings (earlier.length + 1)).now before run.2.2 := by
  intro h
  have hsame := h none (acceptingEnv [limitedPolicy "default" "strict" "true"])
    (fun _ => ⟨1, 1⟩) (optedInPod "web-0" "4e1f") .new strictUsedUp
    [] strictUsedUp ⟨true, false, "strict", some 1, rfl, rfl⟩ rfl
  have htokens := (hsame 1 (Nat.le_refl 1)).1
  have hcount : 19 = 20 := htokens
  exact absurd hcount (by decide)

/-- **What a denied deletion costs.**  A denied run leaves every bucket the
tokens it would have had without the last two questions if and only if they
found no token to take; and any number of denied attempts leaves the tokens of
the first state in every state exactly if none of them found one. -/
theorem denied_costsNothing_iff (periodicResyncInterval : Option Duration) (env : PodEnv)
    (readings : Nat → LimiterReading) (pod : Pod) (metrics : Metrics) (l : RateLimiter)
    (hdenied : ∃ e ∈ (runLimited periodicResyncInterval env readings pod metrics l).2.1.log,
      e.isDenied = true)
    {s : LimiterState} {π : List (Attempt × LimiterState)} (hπ : Execution DeniedStep s π) :
    (let run := runLimited periodicResyncInterval env readings pod metrics l
      ∃ earlier policy before,
        run.2.1.log = earlier ++ queries { env with limiter := repliesOf run.2.1.log }
          earlier.length policy ∧
        Answers readings 0 l earlier before ∧
        (SameTokens (readings (earlier.length + 1)).now before run.2.2 ↔
          before.Spares (attemptFor readings earlier.length policy)
            (readings (earlier.length + 1)).now)) ∧
      ((∀ x ∈ states s π, SameTokens x.time s.limiter x.limiter) ↔
        StepsMeet SparingStep s π) := by
  constructor
  · intro run
    obtain ⟨earlier, policy, before, hlog, hanswers, -, hend⟩ :=
      deniedRun_spec periodicResyncInterval env readings pod metrics l hdenied
    refine ⟨earlier, policy, before, hlog, hanswers, ?_⟩
    rw [show run.2.2 = _ from hend]
    exact RateLimiter.sameTokens_attempt_iff ..
  · exact hπ.invariant_iff (I := fun x => SameTokens x.time s.limiter x.limiter)
      (fun _ _ _ hstep hs => sameTokens_step_iff hstep hs)
      fun u _ => ⟨rfl, fun _ => rfl⟩

/-- The run that takes a global token for a policy over its limit, and one more
such attempt. -/
theorem denied_costsNothing_iff_strict :
    let readings : Nat → LimiterReading := fun _ => ⟨1, 1⟩
    let env := acceptingEnv [limitedPolicy "default" "strict" "true"]
    let run := runLimited none env readings (optedInPod "web-0" "4e1f") .new strictUsedUp
    let s : LimiterState := ⟨strictUsedUp, 1⟩
    let a : Attempt := ⟨"strict", some 1, 1, 1, 1⟩
    let s' : LimiterState := ⟨(strictUsedUp.attempt a).2, 1⟩
    (∃ earlier policy before,
      run.2.1.log = earlier ++ queries { env with limiter := repliesOf run.2.1.log }
        earlier.length policy ∧
      Answers readings 0 strictUsedUp earlier before ∧
      (SameTokens 1 before run.2.2 ↔
        before.Spares (attemptFor readings earlier.length policy) 1)) ∧
      ((∀ x ∈ states s [(a, s')], SameTokens x.time s.limiter x.limiter) ↔
        StepsMeet SparingStep s [(a, s')]) :=
  denied_costsNothing_iff none _ _ _ _ _
    ⟨.allowPolicy "strict" (some 1) false, List.mem_cons_of_mem _ (List.mem_cons_self ..), rfl⟩
    ⟨⟨rfl, rfl⟩, trivial⟩

end KubeDepod
