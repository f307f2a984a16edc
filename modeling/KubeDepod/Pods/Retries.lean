/-
KubeDepod/Pods/Retries.lean

Whether a denied deletion is made in the end.

A denied run comes back after ten seconds and asks both limits again, so a pod
that no other pod competes with polls two fixed-window counters together, six
times in a window of each.  A question takes a token even if the other limit
denies, so both counters grant the first polls of their own windows, whatever
the other one does.  If the limits together exceed six, they meet within two
windows; otherwise the windows can lie so that they never do, and the pod
comes back for ever (`denials_end_iff`).
-/
import KubeDepod.Pods.PolicyOrder
import KubeDepod.RateLimiter.Window

namespace KubeDepod

open Lts

/-! ### The counter of a bucket -/

namespace TokenBucket

/-- The fixed-window counter that describes the bucket. -/
def counter (b : TokenBucket) : FixedWindow := ⟨b.lastReset, b.maxPerMinute - b.tokens⟩

theorem counts_counter (b : TokenBucket) : Counts b.maxPerMinute b b.counter :=
  ⟨rfl, rfl, Nat.add_sub_cancel' b.tokens_le⟩

theorem Counts.counter_eq {limit : Nat} {b : TokenBucket} {c : FixedWindow}
    (h : Counts limit b c) : b.counter = c := by
  obtain ⟨start, count⟩ := c
  obtain ⟨hlimit, hstart, htokens⟩ := h
  have htokens : b.tokens + count = limit := htokens
  have hcount : b.maxPerMinute - b.tokens = count := by omega
  rw [counter, hcount, hstart]

/-- A call of the bucket is a request of its counter. -/
theorem allow_counter (b : TokenBucket) (now : Nat) :
    (b.allow now).1 = (b.counter.request b.maxPerMinute 60 now).1 ∧
      (b.allow now).2.counter = (b.counter.request b.maxPerMinute 60 now).2 := by
  obtain ⟨hreply, hnext⟩ := allow_counts b.counts_counter now
  exact ⟨hreply, hnext.counter_eq⟩

theorem allow_lastReset_le {b : TokenBucket} {now t : Nat} (hb : b.lastReset ≤ t)
    (hnow : now ≤ t) : (b.allow now).2.lastReset ≤ t := by
  rw [allow_eq_ready_consume, (consume_spec _).2.1, ready]
  split_ifs
  · exact hnow
  · exact hb

end TokenBucket

/-! ### One denied run -/

/-- In this environment the policy is the only one to act on the pod. -/
def PodEnv.ActsAlone (env : PodEnv) (pod : Pod) (policy : DepodPolicy) : Prop :=
  eligiblePolicies env.oracle pod (stamp pod env.clock 0 env.policies) = [policy]

/-- The attempt made for the policy, all of it at one clock reading. -/
def DepodPolicy.attemptAt (policy : DepodPolicy) (now : Nat) : Attempt :=
  attemptFor (fun _ => ⟨now, now⟩) 0 policy

variable {periodicResyncInterval : Option Duration} {env : PodEnv} {pod : Pod}
  {policy : DepodPolicy}

/-- The run is denied exactly if the attempt is, and then it returns with the
limiter as the attempt left it. -/
theorem runLimited_alone (periodicResyncInterval : Option Duration)
    (h : env.ActsAlone pod policy) (metrics : Metrics) (l : RateLimiter) (now : Nat) :
    let run := runLimited periodicResyncInterval env (fun _ => ⟨now, now⟩) pod metrics l
    ((∃ e ∈ run.2.1.log, e.isDenied = true) ↔ (l.attempt (policy.attemptAt now)).1 = false) ∧
      ((l.attempt (policy.attemptAt now)).1 = false →
        run.1 = .ok (.requeue (Duration.fromSecs 10)) ∧
          run.2.2 = (l.attempt (policy.attemptAt now)).2) := by
  intro run
  obtain ⟨hanswers, href⟩ :=
    runLimited_spec periodicResyncInterval env (fun _ => ⟨now, now⟩) pod metrics l
  let env' : PodEnv := { env with limiter := repliesOf run.2.1.log }
  have halone : env'.ActsAlone pod policy := h
  have hlog : run.2.1.log = (reference periodicResyncInterval env' pod).1 := congrArg Prod.fst href
  have hresult : run.1 = (reference periodicResyncInterval env' pod).2 := congrArg Prod.snd href
  rw [reference, halone] at hlog hresult
  -- the limiter gave the two replies that the log begins with
  have hgrants : bothGrant env' 0 = (l.attempt (policy.attemptAt now)).1 := by
    obtain ⟨rest, hfirst⟩ := exists_serve_eq_queries_append env'
    have hgives : Answers (fun _ => ⟨now, now⟩) 0 l run.2.1.log run.2.2 := hanswers
    rw [hlog, hfirst] at hgives
    obtain ⟨hglobal, hpolicy, -⟩ := hgives
    rw [bothGrant, hglobal, hpolicy]
    rfl
  rw [← hgrants]
  rcases hboth : bothGrant env' 0 with - | -
  · rw [serve_cons, attempt_of_denied hboth] at hlog
    rw [serve_cons_result, attempt_of_denied hboth] at hresult
    have hlog : run.2.1.log = queries env' 0 policy := hlog.trans (List.append_nil _)
    have hgives : Answers (fun _ => ⟨now, now⟩) 0 l run.2.1.log run.2.2 := hanswers
    rw [hlog] at hgives
    refine ⟨iff_of_true ?_ rfl, fun _ => ⟨hresult, hgives.2.2⟩⟩
    rw [bothGrant, Bool.and_eq_false_iff] at hboth
    rw [hlog]
    rcases hboth with hglobal | hpolicy
    · exact ⟨.allowGlobal _, List.mem_cons_self .., by rw [PodEvent.isDenied, hglobal]; rfl⟩
    · exact ⟨.allowPolicy _ _ _, List.mem_cons_of_mem _ (List.mem_cons_self ..),
        by rw [PodEvent.isDenied, hpolicy]; rfl⟩
  · refine ⟨iff_of_false ?_ Bool.true_eq_false.mp, fun hdenied =>
      absurd hdenied.symm Bool.false_ne_true⟩
    rintro ⟨e, he, hdenied⟩
    have hnone : ∀ e ∈ (attempt env' pod 0 policy).1, e.isDenied = false := attempt_isDenied hboth
    rw [hlog, serve_cons, List.mem_append] at he
    rcases he with he | he
    · rw [hnone e he] at hdenied
      cases hdenied
    · -- there is no further policy to serve
      split at he
      · cases he
      · cases he

/-- The run at the time of `s` is denied, and the next one comes after the
delay that it returns. -/
def RetryStep (periodicResyncInterval : Option Duration) (pod : Pod) (policy : DepodPolicy)
    (s : LimiterState) (env : PodEnv) (s' : LimiterState) : Prop :=
  env.ActsAlone pod policy ∧
    let run := runLimited periodicResyncInterval env (fun _ => ⟨s.time, s.time⟩) pod .new s.limiter
    (∃ e ∈ run.2.1.log, e.isDenied = true) ∧
      ∃ delay, run.1 = .ok (.requeue (Duration.fromSecs delay)) ∧
        s' = ⟨run.2.2, s.time + delay⟩

/-- One more denied run is one more denied attempt, ten seconds before the
next. -/
theorem retryStep_iff (h : env.ActsAlone pod policy) {s s' : LimiterState} :
    RetryStep periodicResyncInterval pod policy s env s' ↔
      (s.limiter.attempt (policy.attemptAt s.time)).1 = false ∧
        s' = ⟨(s.limiter.attempt (policy.attemptAt s.time)).2, s.time + 10⟩ := by
  obtain ⟨hiff, hdenied⟩ := runLimited_alone periodicResyncInterval h .new s.limiter s.time
  constructor
  · rintro ⟨-, hlog, delay, hresult, rfl⟩
    have hfalse := hiff.mp hlog
    obtain ⟨hten, hlimiter⟩ := hdenied hfalse
    have hdelay : Duration.fromSecs delay = Duration.fromSecs 10 := by
      have heq := hresult.symm.trans hten
      injection heq with heq
      injection heq
    have hnanos : delay * 1000000000 = 10 * 1000000000 := congrArg Duration.nanos hdelay
    refine ⟨hfalse, ?_⟩
    rw [hlimiter, show delay = 10 by omega]
  · rintro ⟨hfalse, rfl⟩
    obtain ⟨hten, hlimiter⟩ := hdenied hfalse
    exact ⟨h, hiff.mpr hfalse, 10, hten, by rw [hlimiter]⟩

/-! ### Two counters polled together -/

/-- The polls of a window that the policy's own limit grants; without a limit
all six. -/
def DepodPolicy.quota (policy : DepodPolicy) : Nat := if policy.isLimited then policy.limit else 6

theorem DepodPolicy.quota_pos (policy : DepodPolicy) : 0 < policy.quota := by
  rw [quota]
  split
  case isTrue hlimited => exact limitOf_pos hlimited
  case isFalse => decide

/-- The bucket that the next attempt for the policy uses. -/
def RateLimiter.nextBucket (l : RateLimiter) (policy : DepodPolicy) (now : Nat) : TokenBucket :=
  l.policyBucket policy.nameAny policy.limit now

namespace RateLimiter

variable {l : RateLimiter} {policy : DepodPolicy} {now p q n : Nat}

/-- Of its own bucket the policy sees only the counter, and without a limit
nothing at all. -/
def Sees (l : RateLimiter) (policy : DepodPolicy) (now : Nat) (P : FixedWindow → Prop) : Prop :=
  policy.isLimited = true → P (l.nextBucket policy now).counter

/-- Poll number `p` of the window of the global bucket, and `q` of the policy's. -/
structure AtPolls (l : RateLimiter) (policy : DepodPolicy) (now p q : Nat) : Prop where
  global : FixedWindow.AtPoll l.globalLimiter.maxPerMinute 10 6 l.globalLimiter.counter now p
  own : l.Sees policy now fun c => FixedWindow.AtPoll policy.limit 10 6 c now q
  own_lt : q < 6

/-- Both buckets get there within `n` polls. -/
structure SettlesIn (l : RateLimiter) (policy : DepodPolicy) (now n : Nat) : Prop where
  global : FixedWindow.Settles l.globalLimiter.maxPerMinute 10 6 l.globalLimiter.counter now n
  own : l.Sees policy now fun c => FixedWindow.Settles policy.limit 10 6 c now n

/-- What an attempt for the policy does to the two buckets. -/
theorem attempt_spec (l : RateLimiter) (policy : DepodPolicy) (now next : Nat) :
    (l.attempt (policy.attemptAt now)).1
        = ((l.globalLimiter.allow now).1 &&
          (!policy.isLimited || ((l.nextBucket policy now).allow now).1)) ∧
      (l.attempt (policy.attemptAt now)).2.globalLimiter = (l.globalLimiter.allow now).2 ∧
      (policy.isLimited = true →
        (l.attempt (policy.attemptAt now)).2.nextBucket policy next
          = ((l.nextBucket policy now).allow now).2) := by
  have hglobal : (l.attempt (policy.attemptAt now)).2.globalLimiter
      = (l.globalLimiter.allow now).2 := allowPolicy_globalLimiter ..
  let asked := (l.allowGlobal now).2.allowPolicy policy.nameAny
    policy.spec.limits.maxDeletesPerMinute now now
  have hattempt : l.attempt (policy.attemptAt now) = ((l.allowGlobal now).1 && asked.1, asked.2) :=
    rfl
  rcases hlimited : policy.isLimited with - | -
  · refine ⟨?_, hglobal, fun h => absurd h Bool.false_ne_true⟩
    have hfree : asked = _ := allowPolicy_of_unlimited hlimited now now
    rw [hattempt, hfree]
    rfl
  · have hown : asked = _ := allowPolicy_of_limited hlimited now now
    have hmax : ((l.nextBucket policy now).allow now).2.maxPerMinute = policy.limit := by
      rw [TokenBucket.allow_maxPerMinute]
      exact policyBucket_maxPerMinute ..
    refine ⟨?_, hglobal, fun _ => ?_⟩
    · rw [hattempt, hown]
      rfl
    · rw [hattempt, hown]
      exact policyBucket_insert_self hmax next

/-- Both buckets are polled by an attempt, and it is granted exactly if both
grant the poll. -/
theorem AtPolls.attempt (h : l.AtPolls policy now p q) :
    ((l.attempt (policy.attemptAt now)).1 = true ↔
        p < l.globalLimiter.maxPerMinute ∧ q < policy.quota) ∧
      (l.attempt (policy.attemptAt now)).2.AtPolls policy (now + 10) ((p + 1) % 6)
        ((q + 1) % 6) := by
  obtain ⟨hattempt, hglobal, hown⟩ := l.attempt_spec policy now (now + 10)
  obtain ⟨hreply, hnext⟩ := h.global.request (by decide)
  obtain ⟨hreplyEq, hnextEq⟩ := l.globalLimiter.allow_counter now
  have hmax : (l.globalLimiter.allow now).2.maxPerMinute = l.globalLimiter.maxPerMinute :=
    TokenBucket.allow_maxPerMinute ..
  constructor
  · rw [hattempt, Bool.and_eq_true, hreplyEq, hreply, DepodPolicy.quota]
    refine and_congr_right fun _ => ?_
    rcases hlimited : policy.isLimited with - | -
    · exact iff_of_true rfl h.own_lt
    · obtain ⟨hreply', -⟩ := (h.own hlimited).request (by decide)
      rw [Bool.not_true, Bool.false_or, if_pos rfl, (TokenBucket.allow_counter _ now).1,
        nextBucket, policyBucket_maxPerMinute]
      exact hreply'
  · refine ⟨?_, fun hlimited => ?_, Nat.mod_lt _ (by decide)⟩
    · rw [hglobal, hmax, hnextEq]
      exact hnext
    · have hnextOwn := ((h.own hlimited).request (by decide)).2
      rw [hown hlimited, (TokenBucket.allow_counter _ now).2, nextBucket,
        policyBucket_maxPerMinute]
      exact hnextOwn

theorem SettlesIn.attempt (h : l.SettlesIn policy now (n + 1)) :
    (l.attempt (policy.attemptAt now)).2.SettlesIn policy (now + 10) n := by
  obtain ⟨-, hglobal, hown⟩ := l.attempt_spec policy now (now + 10)
  refine ⟨?_, fun hlimited => ?_⟩
  · rw [hglobal, TokenBucket.allow_maxPerMinute, (TokenBucket.allow_counter _ now).2]
    exact h.global.request (by decide) (by decide)
  · have hnextOwn := (h.own hlimited).request (by decide) (by decide)
    rw [hown hlimited, (TokenBucket.allow_counter _ now).2, nextBucket,
      policyBucket_maxPerMinute]
    exact hnextOwn

theorem SettlesIn.atPolls (h : l.SettlesIn policy now 0) :
    ∃ p q, l.AtPolls policy now p q := by
  obtain ⟨p, hp⟩ := h.global.atPoll (by decide)
  rcases hlimited : policy.isLimited with - | -
  · exact ⟨p, 0, hp, fun h => absurd (hlimited.symm.trans h) Bool.false_ne_true, by decide⟩
  · obtain ⟨q, hq⟩ := (h.own hlimited).atPoll (by decide)
    exact ⟨p, q, hp, fun _ => hq, hq.1⟩

end RateLimiter

/-! ### Chains of denied runs -/

variable {s s' : LimiterState} {p q n : Nat} {π : List (PodEnv × LimiterState)}

/-- The attempt of a denied run, and its limit. -/
theorem RetryStep.attempt (h : RetryStep periodicResyncInterval pod policy s env s') :
    (s.limiter.attempt (policy.attemptAt s.time)).1 = false ∧
      s' = ⟨(s.limiter.attempt (policy.attemptAt s.time)).2, s.time + 10⟩ ∧
      s'.limiter.globalLimiter.maxPerMinute = s.limiter.globalLimiter.maxPerMinute := by
  obtain ⟨hfalse, hs'⟩ := (retryStep_iff h.1).mp h
  obtain ⟨-, hglobal, -⟩ := s.limiter.attempt_spec policy s.time s.time
  refine ⟨hfalse, hs', ?_⟩
  rw [hs']
  show (s.limiter.attempt (policy.attemptAt s.time)).2.globalLimiter.maxPerMinute = _
  rw [hglobal, TokenBucket.allow_maxPerMinute]

/-- If both counters grant a poll, there are no more denied runs than polls
before it. -/
theorem length_le_of_both (hπ : Execution (RetryStep periodicResyncInterval pod policy) s π)
    (hs : s.limiter.AtPolls policy s.time p q) {k : Nat}
    (hboth : (p + k) % 6 < s.limiter.globalLimiter.maxPerMinute ∧ (q + k) % 6 < policy.quota) :
    π.length ≤ k := by
  induction π generalizing s p q k with
  | nil => exact Nat.zero_le k
  | cons x π ih =>
      obtain ⟨env, s'⟩ := x
      obtain ⟨hstep, hπ⟩ := hπ
      obtain ⟨hfalse, rfl, hmax⟩ := hstep.attempt
      obtain ⟨hgranted, hnext⟩ := hs.attempt
      cases k with
      | zero =>
          -- this very run is granted
          rw [Nat.add_zero, Nat.add_zero, Nat.mod_eq_of_lt hs.global.1,
            Nat.mod_eq_of_lt hs.own_lt] at hboth
          rw [hgranted.mpr hboth] at hfalse
          cases hfalse
      | succ k =>
          refine Nat.succ_le_succ (ih hπ hnext ?_)
          rw [hmax, Nat.mod_add_mod, Nat.mod_add_mod]
          rw [Nat.add_right_comm p 1 k, Nat.add_right_comm q 1 k]
          exact hboth

/-- As long as the counters need to settle, and one window more. -/
theorem length_le_of_settles (hπ : Execution (RetryStep periodicResyncInterval pod policy) s π)
    (hs : s.limiter.SettlesIn policy s.time n) (hglobal : 0 < s.limiter.globalLimiter.maxPerMinute)
    (hmeet : 6 < s.limiter.globalLimiter.maxPerMinute + policy.quota) : π.length ≤ n + 5 := by
  induction n generalizing s π with
  | zero =>
      obtain ⟨p, q, hpolls⟩ := hs.atPolls
      obtain ⟨k, hk, hboth⟩ := FixedWindow.exists_both_grant hglobal policy.quota_pos hmeet
        hpolls.global.1 hpolls.own_lt
      exact Nat.le_trans (length_le_of_both hπ hpolls hboth) (by omega)
  | succ n ih =>
      cases π with
      | nil => exact Nat.zero_le _
      | cons x π =>
          obtain ⟨env, s'⟩ := x
          obtain ⟨hstep, hπ⟩ := hπ
          obtain ⟨-, rfl, hmax⟩ := hstep.attempt
          rw [List.length_cons, Nat.add_right_comm n 1 5]
          refine Nat.succ_le_succ (ih hπ hs.attempt ?_ ?_)
          · rw [hmax]
            exact hglobal
          · rw [hmax]
            exact hmeet

/-- If no poll is ever granted by both, the denied runs do not end. -/
theorem exists_retries (henv : env.ActsAlone pod policy)
    (hs : s.limiter.AtPolls policy s.time p q)
    (hnever : ∀ k, ¬ ((p + k) % 6 < s.limiter.globalLimiter.maxPerMinute ∧
      (q + k) % 6 < policy.quota)) (n : Nat) :
    ∃ π, Execution (RetryStep periodicResyncInterval pod policy) s π ∧ π.length = n := by
  induction n generalizing s p q with
  | zero => exact ⟨[], trivial, rfl⟩
  | succ n ih =>
      obtain ⟨hgranted, hnext⟩ := hs.attempt
      have hfalse : (s.limiter.attempt (policy.attemptAt s.time)).1 = false := by
        rw [← Bool.not_eq_true, hgranted]
        have hnow := hnever 0
        rwa [Nat.add_zero, Nat.add_zero, Nat.mod_eq_of_lt hs.global.1,
          Nat.mod_eq_of_lt hs.own_lt] at hnow
      have hstep : RetryStep periodicResyncInterval pod policy s env
          ⟨(s.limiter.attempt (policy.attemptAt s.time)).2, s.time + 10⟩ :=
        (retryStep_iff henv).mpr ⟨hfalse, rfl⟩
      obtain ⟨-, -, hmax⟩ := hstep.attempt
      obtain ⟨π, hπ, hlength⟩ := ih (s := ⟨_, s.time + 10⟩) hnext fun k => by
        rw [hmax, Nat.mod_add_mod, Nat.mod_add_mod, Nat.add_assoc, Nat.add_assoc, Nat.add_comm 1 k]
        exact hnever (k + 1)
      exact ⟨(env, _) :: π, ⟨hstep, hπ⟩, congrArg (· + 1) hlength⟩

/-! ### Limiters with a past -/

namespace RateLimiter

/-- The limiter after the attempts of a history. -/
def afterAttempts (l : RateLimiter) (history : List Attempt) : RateLimiter :=
  history.foldl (fun l a => (l.attempt a).2) l

/-- No window begins after `t`. -/
def BegunBy (l : RateLimiter) (t : Nat) : Prop :=
  l.globalLimiter.lastReset ≤ t ∧
    ∀ policyName b, l.policyLimiters policyName = some b → b.lastReset ≤ t

end RateLimiter

/-- All readings of the attempt lie before `t`. -/
def Attempt.ReadBy (a : Attempt) (t : Nat) : Prop := a.asked ≤ t ∧ a.created ≤ t ∧ a.now ≤ t

namespace RateLimiter

variable {l : RateLimiter} {policyName : String} {limit created t : Nat}

theorem BegunBy.policyBucket (h : l.BegunBy t) (hcreated : created ≤ t) :
    (l.policyBucket policyName limit created).lastReset ≤ t := by
  unfold RateLimiter.policyBucket
  split
  case h_1 b hb =>
    split_ifs
    · exact hcreated
    · exact h.2 policyName b hb
  case h_2 => exact hcreated

theorem BegunBy.attempt (h : l.BegunBy t) {a : Attempt} (ha : a.ReadBy t) :
    (l.attempt a).2.BegunBy t := by
  obtain ⟨hasked, hcreated, hnow⟩ := ha
  have hglobal : (l.allowGlobal a.asked).2.BegunBy t :=
    ⟨TokenBucket.allow_lastReset_le h.1 hasked, h.2⟩
  rcases hlimited : hasBucket a.maxPerMinute with - | -
  · rw [RateLimiter.attempt, allowPolicy_of_unlimited hlimited]
    exact hglobal
  · rw [RateLimiter.attempt, allowPolicy_of_limited hlimited]
    refine ⟨hglobal.1, fun policyName b hb => ?_⟩
    by_cases hname : policyName = a.policyName
    · rw [hname, insert_policyLimiters_self] at hb
      obtain rfl := Option.some.inj hb
      exact TokenBucket.allow_lastReset_le (hglobal.policyBucket hcreated) hnow
    · rw [insert_policyLimiters_of_ne hname] at hb
      exact hglobal.2 policyName b hb

/-- After any history the windows begin in the past, and the global limit is the
configured one. -/
theorem afterAttempts_spec (h : l.BegunBy t) {history : List Attempt}
    (hhistory : ∀ a ∈ history, a.ReadBy t) :
    (l.afterAttempts history).BegunBy t ∧
      (l.afterAttempts history).globalLimiter.maxPerMinute = l.globalLimiter.maxPerMinute := by
  induction history generalizing l with
  | nil => exact ⟨h, rfl⟩
  | cons a history ih =>
      have hnext := h.attempt (hhistory a (List.mem_cons_self ..))
      obtain ⟨hbegun, hmax⟩ := ih hnext fun a ha => hhistory a (List.mem_cons_of_mem _ ha)
      have hglobal : (l.attempt a).2.globalLimiter = (l.globalLimiter.allow a.asked).2 :=
        allowPolicy_globalLimiter ..
      refine ⟨hbegun, hmax.trans ?_⟩
      rw [hglobal, TokenBucket.allow_maxPerMinute]

/-- Six polls are enough to settle. -/
theorem BegunBy.settlesIn (h : l.BegunBy t) (policy : DepodPolicy) : l.SettlesIn policy t 6 where
  global := FixedWindow.settles_of_le h.1 ..
  own := fun _ => FixedWindow.settles_of_le (h.policyBucket (Nat.le_refl t)) ..

end RateLimiter

/-- An attempt at reading zero for a policy without a limit. -/
def Attempt.unlimited : Attempt where
  policyName := "unlimited"
  maxPerMinute := none
  asked := 0
  created := 0
  now := 0

/-- Such attempts use up the first window of the global limit and nothing
else. -/
theorem RateLimiter.afterAttempts_unlimited {l : RateLimiter} {count k limit : Nat}
    (hmax : l.globalLimiter.maxPerMinute = limit) (hcounter : l.globalLimiter.counter = ⟨0, count⟩)
    (hk : count + k ≤ limit) :
    let l' := l.afterAttempts (List.replicate k .unlimited)
    l'.globalLimiter.maxPerMinute = limit ∧ l'.globalLimiter.counter = ⟨0, count + k⟩ ∧
      l'.policyLimiters = l.policyLimiters := by
  induction k generalizing l count with
  | zero => exact ⟨hmax, hcounter, rfl⟩
  | succ k ih =>
      have hnext : (l.attempt .unlimited).2.globalLimiter.counter = ⟨0, count + 1⟩ := by
        show (l.globalLimiter.allow 0).2.counter = _
        rw [(l.globalLimiter.allow_counter 0).2, hmax, hcounter, FixedWindow.request,
          FixedWindow.roll_of_current (show 0 < 0 + 60 by decide), FixedWindow.grant,
          if_pos (show count < limit by omega)]
      have hmaxNext : (l.attempt .unlimited).2.globalLimiter.maxPerMinute = limit :=
        (TokenBucket.allow_maxPerMinute ..).trans hmax
      obtain ⟨hlimit, hcount, hpolicies⟩ := ih hmaxNext hnext (by omega)
      refine ⟨hlimit, hcount.trans ?_, hpolicies⟩
      rw [Nat.add_assoc, Nat.add_comm 1 k]

/-- The limiter and the time at which the two windows lie end to end: the global
tokens are gone by the first poll of the policy's window. -/
theorem exists_atPolls_apart (policy : DepodPolicy) {limit : Nat} (hlimit : limit < 6) :
    let l := (RateLimiter.new limit 0).afterAttempts (List.replicate limit .unlimited)
    l.globalLimiter.maxPerMinute = limit ∧ l.AtPolls policy (limit * 10) limit 0 := by
  intro l
  have hcounter : (RateLimiter.new limit 0).globalLimiter.counter = ⟨0, 0⟩ := by
    rw [TokenBucket.counter]
    exact congrArg (FixedWindow.mk 0) (Nat.sub_self limit)
  obtain ⟨hmax, hcount, hpolicies⟩ :=
    RateLimiter.afterAttempts_unlimited (k := limit) rfl hcounter
      (Nat.le_of_eq (Nat.zero_add limit))
  have hmax : l.globalLimiter.maxPerMinute = limit := hmax
  have hfresh : l.nextBucket policy (limit * 10) = .new policy.limit (limit * 10) := by
    have hnone : l.policyLimiters policy.nameAny = none := congrFun hpolicies policy.nameAny
    rw [RateLimiter.nextBucket, RateLimiter.policyBucket, hnone]
  refine ⟨hmax, ?_, fun _ => ?_, by decide⟩
  · refine ⟨hlimit, .inl ⟨?_, ?_⟩⟩
    · rw [hcount, Nat.zero_add]
    · rw [hcount, hmax, Nat.zero_add, Nat.min_self]
  · refine ⟨by decide, .inl ⟨?_, ?_⟩⟩
    · rw [hfresh, Nat.zero_mul]
      rfl
    · rw [hfresh, Nat.min_zero]
      exact Nat.sub_self _

/-- **When the denials of a lone pod end.**  Take a pod on which one policy acts,
and no other attempts while it waits.  If the limits together exceed the six
polls of a window, at most eleven runs in a row are denied, whatever the limiter
went through before.  Otherwise there are a history and a time from which every
run is denied, for ever. -/
theorem denials_end_iff (periodicResyncInterval : Option Duration) (henv : env.ActsAlone pod policy)
    (globalMaxPerMinute : Nat) :
    let Retries (created : Nat) (history : List Attempt) (now : Nat) :=
      Execution (RetryStep periodicResyncInterval pod policy)
        ⟨(RateLimiter.new globalMaxPerMinute created).afterAttempts history, now⟩
    (0 < globalMaxPerMinute ∧ 6 < globalMaxPerMinute + policy.quota →
      ∀ created history now, created ≤ now → (∀ a ∈ history, a.ReadBy now) →
        ∀ π, Retries created history now π → π.length ≤ 11) ∧
    (¬ (0 < globalMaxPerMinute ∧ 6 < globalMaxPerMinute + policy.quota) →
      ∃ created history now, created ≤ now ∧ (∀ a ∈ history, a.ReadBy now) ∧
        ∀ n, ∃ π, Retries created history now π ∧ π.length = n) := by
  intro Retries
  constructor
  · rintro ⟨hglobal, hmeet⟩ created history now hcreated hhistory π hπ
    have hnew : (RateLimiter.new globalMaxPerMinute created).BegunBy now :=
      ⟨hcreated, fun _ _ => nofun⟩
    obtain ⟨hbegun, hmax⟩ := RateLimiter.afterAttempts_spec hnew hhistory
    have hmax : ((RateLimiter.new globalMaxPerMinute created).afterAttempts
        history).globalLimiter.maxPerMinute = globalMaxPerMinute := hmax
    exact length_le_of_settles hπ (hbegun.settlesIn policy) (hmax.symm ▸ hglobal)
      (hmax.symm ▸ hmeet)
  · intro hapart
    have hpos := policy.quota_pos
    have hlimit : globalMaxPerMinute < 6 := by omega
    obtain ⟨hmax, hpolls⟩ := exists_atPolls_apart policy hlimit
    refine ⟨0, List.replicate globalMaxPerMinute .unlimited, globalMaxPerMinute * 10, Nat.zero_le _,
      fun a ha => ?_, fun n => exists_retries henv hpolls (fun k => ?_) n⟩
    · rw [List.eq_of_mem_replicate ha]
      exact ⟨Nat.zero_le _, Nat.zero_le _, Nat.zero_le _⟩
    · rw [hmax]
      rcases Nat.eq_zero_or_pos globalMaxPerMinute with rfl | hglobal
      · exact fun h => Nat.not_lt_zero _ h.1
      · exact FixedWindow.never_both_grant (by omega) k

/-- With limits of three and one the pod can wait for ever. -/
theorem denials_end_iff_limited :
    let Retries (created : Nat) (history : List Attempt) (now : Nat) :=
      Execution (RetryStep none (optedInPod "web-0" "4e1f")
        (limitedPolicy "default" "strict" "true"))
        ⟨(RateLimiter.new 3 created).afterAttempts history, now⟩
    ∃ created history now, created ≤ now ∧ (∀ a ∈ history, a.ReadBy now) ∧
      ∀ n, ∃ π, Retries created history now π ∧ π.length = n := by
  let policy := limitedPolicy "default" "strict" "true"
  have halone : (acceptingEnv [policy]).ActsAlone (optedInPod "web-0" "4e1f") policy := rfl
  exact (denials_end_iff none halone 3).2 (by decide)

end KubeDepod
