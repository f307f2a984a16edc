/-
KubeDepod/RateLimiter/Budgets.lean

The calls of `allow_policy` made for two policies, one after another in any
order.

The map of buckets is keyed by the policy's name, while a policy is one of
its namespace.  Two policies of one name therefore share a bucket, and if their
limits differ each call of one throws the bucket of the other away.  Policies
with different names have budgets of their own, and only they
(`separateBudgets_iff`).
-/
import KubeDepod.RateLimiter
import KubeDepod.Policies.Store

namespace KubeDepod

/-! ### The calls for a policy -/

/-- A call of `allow_policy` for a policy, with its clock readings: `created`
if it creates a bucket, then `now`. -/
structure AllowCall where
  policy : DepodPolicy
  created : Nat
  now : Nat

namespace RateLimiter

/-- `allow_policy(&policy.name_any(), policy.spec.limits.max_deletes_per_minute)` -/
def allowFor (l : RateLimiter) (call : AllowCall) : Bool × RateLimiter :=
  l.allowPolicy call.policy.nameAny call.policy.spec.limits.maxDeletesPerMinute
    call.created call.now

/-- The bucket that the call uses. -/
def bucketFor (l : RateLimiter) (call : AllowCall) : TokenBucket :=
  l.policyBucket call.policy.nameAny call.policy.limit call.created

end RateLimiter

/-- A call with its reply, and whether it refilled the bucket. -/
structure AllowReply where
  call : AllowCall
  refilled : Bool
  granted : Bool

namespace RateLimiter

/-- The replies to a sequence of calls. -/
def policyReplies : RateLimiter → List AllowCall → List AllowReply
  | _, [] => []
  | l, call :: calls =>
      ⟨call, decide (60 ≤ call.now - (l.bucketFor call).lastReset), (l.allowFor call).1⟩ ::
        policyReplies (l.allowFor call).2 calls

/-- The limiter after them. -/
def afterCalls (l : RateLimiter) (calls : List AllowCall) : RateLimiter :=
  calls.foldl (fun l call => (l.allowFor call).2) l

end RateLimiter

/-- The call is made for the policy with this key. -/
def AllowCall.isFor (key : PolicyKey) (call : AllowCall) : Bool := call.policy.key == key

/-- The replies to the calls of one policy. -/
def RateLimiter.ownReplies (l : RateLimiter) (policy : DepodPolicy) (calls : List AllowCall) :
    List AllowReply :=
  (l.policyReplies calls).filter fun r => r.call.isFor policy.key

/-- The policy's replies are those of the run without all other calls. -/
def Unaffected (policy : DepodPolicy) (l : RateLimiter) (calls : List AllowCall) : Prop :=
  l.ownReplies policy calls = l.policyReplies (calls.filter (AllowCall.isFor policy.key))

/-- Unless a call after its first refills its bucket, the policy gets at most
its limit. -/
def WithinLimit (policy : DepodPolicy) (l : RateLimiter) (calls : List AllowCall) : Prop :=
  (∀ r ∈ (l.ownReplies policy calls).tail, r.refilled = false) →
    (l.ownReplies policy calls).countP AllowReply.granted ≤ policy.limit

/-- Whatever the calls for the two policies and their order, each policy is
unaffected by the other and stays within its limit. -/
def SeparateBudgets (l : RateLimiter) (p q : DepodPolicy) : Prop :=
  ∀ calls : List AllowCall, (∀ call ∈ calls, call.policy = p ∨ call.policy = q) →
    (Unaffected p l calls ∧ WithinLimit p l calls) ∧ Unaffected q l calls ∧ WithinLimit q l calls

namespace RateLimiter

variable {l l' : RateLimiter} {call : AllowCall} {p q : DepodPolicy} {calls : List AllowCall}

/-! ### What one call does to the buckets -/

theorem allowFor_of_limited (h : call.policy.isLimited = true) :
    l.allowFor call
      = (((l.bucketFor call).allow call.now).1,
          l.insert call.policy.nameAny ((l.bucketFor call).allow call.now).2) :=
  allowPolicy_of_limited h call.created call.now

theorem allowFor_of_unlimited (h : call.policy.isLimited = false) :
    l.allowFor call = (true, l) :=
  allowPolicy_of_unlimited h call.created call.now

/-- A call leaves the buckets of other names. -/
theorem allowFor_of_ne {name : String} (h : name ≠ call.policy.nameAny) :
    (l.allowFor call).2.policyLimiters name = l.policyLimiters name := by
  rcases hlimited : call.policy.isLimited with - | -
  · rw [allowFor_of_unlimited hlimited]
  · rw [allowFor_of_limited hlimited]
    exact insert_policyLimiters_of_ne h _

/-- A call reads and writes the bucket of its name only. -/
theorem allowFor_congr
    (h : l.policyLimiters call.policy.nameAny = l'.policyLimiters call.policy.nameAny) :
    l.bucketFor call = l'.bucketFor call ∧ (l.allowFor call).1 = (l'.allowFor call).1 ∧
      (l.allowFor call).2.policyLimiters call.policy.nameAny
        = (l'.allowFor call).2.policyLimiters call.policy.nameAny := by
  have hbucket : l.bucketFor call = l'.bucketFor call := by
    simp only [bucketFor, policyBucket, h]
  refine ⟨hbucket, ?_⟩
  rcases hlimited : call.policy.isLimited with - | -
  · rw [allowFor_of_unlimited hlimited, allowFor_of_unlimited hlimited]
    exact ⟨rfl, h⟩
  · rw [allowFor_of_limited hlimited, allowFor_of_limited hlimited, hbucket]
    exact ⟨rfl, by simp⟩

/-! ### Different names -/

theorem isFor_of_name_ne (h : call.policy.nameAny ≠ p.nameAny) :
    call.isFor p.key = false := by
  rw [AllowCall.isFor, beq_eq_false_iff_ne]
  exact fun hkey => h (congrArg Prod.snd hkey)

/-- Two limiters that agree on the policy's bucket reply alike to its calls,
whatever other names are asked for in between. -/
theorem ownReplies_eq
    (hcalls : ∀ call ∈ calls, call.policy = p ∨ call.policy.nameAny ≠ p.nameAny)
    (h : l.policyLimiters p.nameAny = l'.policyLimiters p.nameAny) :
    l.ownReplies p calls = l'.policyReplies (calls.filter (AllowCall.isFor p.key)) := by
  induction calls generalizing l l' with
  | nil => rfl
  | cons call calls ih =>
      rw [ownReplies, policyReplies]
      simp only [ownReplies] at ih
      have hrest := fun c hc => hcalls c (List.mem_cons_of_mem call hc)
      rcases hcalls call (List.mem_cons_self ..) with hp | hne
      · -- a call for the policy: the same reply, and the buckets still agree
        have hfor : call.isFor p.key = true := by
          rw [AllowCall.isFor, hp, beq_self_eq_true]
        rw [← hp] at h
        obtain ⟨hbucket, hreply, hafter⟩ := allowFor_congr h
        simp only [List.filter_cons, hfor, if_true, policyReplies, hbucket, hreply]
        rw [hp] at hafter
        rw [ih hrest hafter]
      · have hfor : call.isFor p.key = false := isFor_of_name_ne hne
        simp only [List.filter_cons, hfor, Bool.false_eq_true, if_false]
        exact ih hrest ((allowFor_of_ne (Ne.symm hne)).trans h)

/-- The tokens left to the policy when no refill is due. -/
def tokensLeft (l : RateLimiter) (policy : DepodPolicy) : Nat :=
  (l.policyBucket policy.nameAny policy.limit 0).tokens

theorem policyBucket_tokens (policyName : String) (limit created : Nat) :
    (l.policyBucket policyName limit created).tokens
      = (l.policyBucket policyName limit 0).tokens := by
  unfold policyBucket
  split
  · split_ifs <;> rfl
  · rfl

/-- A call leaves the tokens of its bucket, a refill included, less the one it
grants. -/
theorem tokensLeft_allowFor (hp : call.policy.isLimited = true) :
    (l.allowFor call).2.tokensLeft call.policy + (l.allowFor call).1.toNat
      = ((l.bucketFor call).ready call.now).tokens := by
  have hmax : ((l.bucketFor call).allow call.now).2.maxPerMinute = call.policy.limit := by
    rw [TokenBucket.allow_maxPerMinute]
    exact policyBucket_maxPerMinute ..
  obtain ⟨-, -, htokens⟩ := TokenBucket.consume_spec ((l.bucketFor call).ready call.now)
  rw [allowFor_of_limited hp, tokensLeft, policyBucket_insert_self hmax,
    TokenBucket.allow_eq_ready_consume]
  exact htokens

theorem countP_granted_cons (call : AllowCall) (refilled granted : Bool)
    (replies : List AllowReply) :
    (⟨call, refilled, granted⟩ :: replies).countP AllowReply.granted
      = replies.countP AllowReply.granted + granted.toNat := by
  rw [List.countP_cons]
  cases granted <;> rfl

/-- Without a refill every grant costs one of the tokens left. -/
theorem countP_granted_le (hp : p.isLimited = true) (hown : ∀ call ∈ calls, call.policy = p)
    (hrefill : ∀ r ∈ l.policyReplies calls, r.refilled = false) :
    (l.policyReplies calls).countP AllowReply.granted ≤ l.tokensLeft p := by
  induction calls generalizing l with
  | nil => exact Nat.zero_le _
  | cons call calls ih =>
      obtain rfl := hown call (List.mem_cons_self ..)
      rw [policyReplies] at hrefill ⊢
      have hrest := ih (fun c hc => hown c (List.mem_cons_of_mem call hc))
        (l := (l.allowFor call).2) (fun r hr => hrefill r (List.mem_cons_of_mem _ hr))
      -- no refill is due, so the call finds the tokens that were left
      have hcurrent := of_decide_eq_false (hrefill _ (List.mem_cons_self ..))
      have htokens := tokensLeft_allowFor (l := l) hp
      rw [TokenBucket.ready, if_neg hcurrent] at htokens
      have hbefore : (l.bucketFor call).tokens = l.tokensLeft call.policy :=
        policyBucket_tokens ..
      rw [countP_granted_cons]
      omega

/-- A window: the call that refills, if any, and the calls after it. -/
theorem withinLimit (hp : p.isLimited = true)
    (hcalls : ∀ call ∈ calls, call.policy = p ∨ call.policy.nameAny ≠ p.nameAny) :
    WithinLimit p l calls := by
  intro hrefill
  have hown : ∀ call ∈ calls.filter (AllowCall.isFor p.key), call.policy = p := by
    intro call hcall
    obtain ⟨hmem, hfor⟩ := List.mem_filter.mp hcall
    refine (hcalls call hmem).resolve_right fun hne => ?_
    rw [isFor_of_name_ne hne] at hfor
    cases hfor
  rw [ownReplies_eq hcalls rfl] at hrefill ⊢
  generalize calls.filter (AllowCall.isFor p.key) = ownCalls at hown hrefill ⊢
  cases ownCalls with
  | nil => exact Nat.zero_le _
  | cons call rest =>
      obtain rfl := hown call (List.mem_cons_self ..)
      have hrest := countP_granted_le (l := (l.allowFor call).2) hp
        (fun c hc => hown c (List.mem_cons_of_mem call hc)) hrefill
      have htokens := tokensLeft_allowFor (l := l) hp
      -- refilled or not, the first call finds at most the limit
      have hfull := ((l.bucketFor call).ready call.now).tokens_le
      rw [TokenBucket.ready_maxPerMinute] at hfull
      have hmax : (l.bucketFor call).maxPerMinute = call.policy.limit :=
        policyBucket_maxPerMinute ..
      rw [policyReplies, countP_granted_cons]
      omega

/-! ### One name -/

/-- A call for a policy at one clock reading. -/
def callAt (policy : DepodPolicy) (now : Nat) : AllowCall := ⟨policy, now, now⟩

/-- What a call for the policy at `now` finds. -/
def tokensFor (l : RateLimiter) (policy : DepodPolicy) (now : Nat) : Nat :=
  (l.policyBucket policy.nameAny policy.limit now).tokensAt now

theorem allowFor_callAt_iff (hp : p.isLimited = true) (now : Nat) :
    (l.allowFor (callAt p now)).1 = true ↔ 0 < l.tokensFor p now := by
  rw [allowFor_of_limited hp]
  exact TokenBucket.allow_granted_iff ..

/-- A call for a policy with the same name and limit takes from the same
bucket. -/
theorem tokensFor_of_limit_eq (hq : q.isLimited = true) (hname : q.nameAny = p.nameAny)
    (hlimit : q.limit = p.limit) (now : Nat) :
    (l.allowFor (callAt q now)).2.tokensFor p now = l.tokensFor p now - 1 := by
  rw [allowFor_of_limited hq, tokensFor, tokensFor]
  show TokenBucket.tokensAt
    ((l.insert q.nameAny _).policyBucket p.nameAny p.limit now) now = _
  rw [hname, policyBucket_insert_self]
  · show TokenBucket.tokensAt
      ((l.policyBucket q.nameAny q.limit now).allow now).2 now = _
    rw [TokenBucket.tokensAt_allow, hname, hlimit]
  · rw [TokenBucket.allow_maxPerMinute]
    exact (policyBucket_maxPerMinute ..).trans hlimit

/-- A call for a policy with the same name and another limit throws the bucket
away. -/
theorem tokensFor_of_limit_ne (hq : q.isLimited = true) (hname : q.nameAny = p.nameAny)
    (hlimit : q.limit ≠ p.limit) (now : Nat) :
    (l.allowFor (callAt q now)).2.tokensFor p now = p.limit := by
  rw [allowFor_of_limited hq, tokensFor]
  show TokenBucket.tokensAt
    ((l.insert q.nameAny _).policyBucket p.nameAny p.limit now) now = _
  rw [hname, policyBucket_insert_of_limit_ne]
  · simp [TokenBucket.tokensAt, TokenBucket.ready, TokenBucket.new]
  · rw [TokenBucket.allow_maxPerMinute]
    exact fun h => hlimit ((policyBucket_maxPerMinute ..).symm.trans h)

theorem tokensFor_afterCalls (hp : p.isLimited = true) (n now : Nat) :
    (l.afterCalls (List.replicate n (callAt p now))).tokensFor p now
      = l.tokensFor p now - n := by
  induction n generalizing l with
  | zero => rfl
  | succ n ih =>
      show ((l.allowFor (callAt p now)).2.afterCalls (List.replicate n (callAt p now))).tokensFor
        p now = _
      rw [ih, tokensFor_of_limit_eq hp rfl rfl]
      omega

/-- At some time the policy's bucket is full. -/
theorem exists_tokensFor_eq (l : RateLimiter) (p : DepodPolicy) :
    ∃ now, l.tokensFor p now = p.limit := by
  let b := l.policyBucket p.nameAny p.limit 0
  refine ⟨b.lastReset + 60, ?_⟩
  rw [tokensFor, policyBucket]
  split
  case h_1 limiter hmap =>
    split_ifs with hne
    · simp [TokenBucket.tokensAt, TokenBucket.ready, TokenBucket.new]
    · have hb : b = limiter := by simp only [b, policyBucket, hmap, if_neg hne]
      rw [hb, TokenBucket.tokensAt, TokenBucket.ready, if_pos (by omega)]
      exact not_not.mp hne
  case h_2 => simp [TokenBucket.tokensAt, TokenBucket.ready, TokenBucket.new]

theorem policyReplies_concat (l : RateLimiter) (calls : List AllowCall) (call : AllowCall) :
    ∃ refilled, l.policyReplies (calls ++ [call]) = l.policyReplies calls ++
      [⟨call, refilled, ((l.afterCalls calls).allowFor call).1⟩] := by
  induction calls generalizing l with
  | nil => exact ⟨_, rfl⟩
  | cons c calls ih =>
      obtain ⟨refilled, h⟩ := ih (l.allowFor c).2
      exact ⟨refilled, congrArg (_ :: ·) h⟩

/-- If the policy is unaffected, it finds a token after the calls exactly if it
would find one after its own calls alone. -/
theorem tokensFor_of_unaffected (hp : p.isLimited = true) {now : Nat}
    (h : Unaffected p l (calls ++ [callAt p now])) :
    0 < (l.afterCalls calls).tokensFor p now ↔
      0 < (l.afterCalls (calls.filter (AllowCall.isFor p.key))).tokensFor p now := by
  have hfor : (callAt p now).isFor p.key = true := beq_self_eq_true _
  obtain ⟨_, hrun⟩ := policyReplies_concat l calls (callAt p now)
  obtain ⟨_, halone⟩ := policyReplies_concat l (calls.filter (AllowCall.isFor p.key))
    (callAt p now)
  rw [Unaffected, ownReplies, List.filter_append, hrun, List.filter_append] at h
  simp only [List.filter_cons, hfor, if_true, List.filter_nil] at h
  rw [halone] at h
  have hlast := List.singleton_inj.mp (List.append_inj_right' h rfl)
  have hreply : ((l.afterCalls calls).allowFor (callAt p now)).1 = _ :=
    congrArg AllowReply.granted hlast
  rw [← allowFor_callAt_iff hp, ← allowFor_callAt_iff hp, hreply]

theorem filter_isFor_replicate (n now : Nat) :
    (List.replicate n (callAt p now)).filter (AllowCall.isFor p.key)
      = List.replicate n (callAt p now) := by
  rw [List.filter_replicate, if_pos]
  exact beq_self_eq_true _

/-- One call of a policy with the same name and limit leaves `p` one token
less: its last call is denied. -/
theorem not_unaffected_of_limit_eq (hp : p.isLimited = true) (hq : q.isLimited = true)
    (hname : q.nameAny = p.nameAny) (hlimit : q.limit = p.limit)
    {now : Nat} (hother : ¬ (callAt q now).isFor p.key = true)
    (hfull : l.tokensFor p now = p.limit) :
    ¬ Unaffected p l (callAt q now :: List.replicate (p.limit - 1) (callAt p now)
      ++ [callAt p now]) := by
  intro h
  have hpos : 0 < p.limit := limitOf_pos hp
  have htokens := tokensFor_of_unaffected hp h
  have hafter : (l.afterCalls
      (callAt q now :: List.replicate (p.limit - 1) (callAt p now))).tokensFor p now = 0 := by
    show ((l.allowFor (callAt q now)).2.afterCalls
      (List.replicate (p.limit - 1) (callAt p now))).tokensFor p now = 0
    rw [tokensFor_afterCalls hp, tokensFor_of_limit_eq hq hname hlimit]
    omega
  rw [hafter, List.filter_cons_of_neg hother, filter_isFor_replicate,
    tokensFor_afterCalls hp] at htokens
  omega

/-- One call of a policy with the same name and another limit gives `p`, which
has used its bucket up, a new one: its last call is granted. -/
theorem not_unaffected_of_limit_ne (hp : p.isLimited = true) (hq : q.isLimited = true)
    (hname : q.nameAny = p.nameAny) (hlimit : q.limit ≠ p.limit)
    {now : Nat} (hother : ¬ (callAt q now).isFor p.key = true)
    (hfull : l.tokensFor p now = p.limit) :
    ¬ Unaffected p l (List.replicate p.limit (callAt p now) ++ [callAt q now]
      ++ [callAt p now]) := by
  intro h
  have hpos : 0 < p.limit := limitOf_pos hp
  have htokens := tokensFor_of_unaffected hp h
  have hafter : (l.afterCalls
      (List.replicate p.limit (callAt p now) ++ [callAt q now])).tokensFor p now = p.limit := by
    rw [afterCalls, List.foldl_append]
    exact tokensFor_of_limit_ne hq hname hlimit now
  rw [hafter, List.filter_append, filter_isFor_replicate, List.filter_cons_of_neg hother,
    List.filter_nil, List.append_nil, tokensFor_afterCalls hp] at htokens
  omega

/-- Two policies of one name affect each other, from any state of the limiter. -/
theorem not_separateBudgets (l : RateLimiter) (hkey : p.key ≠ q.key)
    (hp : p.isLimited = true) (hq : q.isLimited = true) (hname : p.nameAny = q.nameAny) :
    ¬ SeparateBudgets l p q := by
  intro h
  obtain ⟨now, hfull⟩ := exists_tokensFor_eq l p
  have hother : ¬ (callAt q now).isFor p.key = true := by
    rw [AllowCall.isFor, beq_iff_eq]
    exact fun heq => hkey heq.symm
  by_cases hlimit : q.limit = p.limit
  · refine not_unaffected_of_limit_eq hp hq hname.symm hlimit hother hfull (h _ ?_).1.1
    intro c hc
    simp only [List.cons_append, List.mem_cons, List.mem_append, List.mem_replicate,
      List.not_mem_nil, or_false] at hc
    rcases hc with rfl | ⟨-, rfl⟩ | rfl
    · exact .inr rfl
    · exact .inl rfl
    · exact .inl rfl
  · refine not_unaffected_of_limit_ne hp hq hname.symm hlimit hother hfull (h _ ?_).1.1
    intro c hc
    simp only [List.append_assoc, List.cons_append, List.nil_append, List.mem_cons,
      List.mem_append, List.mem_replicate, List.not_mem_nil, or_false] at hc
    rcases hc with ⟨-, rfl⟩ | rfl | rfl
    · exact .inl rfl
    · exact .inr rfl
    · exact .inl rfl

end RateLimiter

/-! ### Separate budgets -/

/-- Two policies named `cleanup`: the call for the one in `staging` takes the
token of the one in `default`. -/
theorem shared_name_shares_budget :
    ¬ ∀ (p q : DepodPolicy), p.key ≠ q.key → p.isLimited = true → q.isLimited = true →
      ∀ l : RateLimiter, SeparateBudgets l p q := by
  intro h
  let p := limitedPolicy "default" "cleanup" "true"
  let q := limitedPolicy "staging" "cleanup" "true"
  have hrun := (h p q (by decide) rfl rfl (.new 20 0)
    [RateLimiter.callAt q 0, RateLimiter.callAt p 0] (by simp [RateLimiter.callAt])).1.1
  have hgranted := congrArg (List.map AllowReply.granted) hrun
  have hdenied : [false] = [true] := hgranted
  exact absurd hdenied (by decide)

/-- **Budgets are separate exactly for different names.**  Two policies with
positive limits are unaffected by each other's calls, and stay within their
limits between two refills, in every interleaving and from every state of the
limiter, if and only if their names differ. -/
theorem separateBudgets_iff (l : RateLimiter) {p q : DepodPolicy} (hkey : p.key ≠ q.key)
    (hp : p.isLimited = true) (hq : q.isLimited = true) :
    SeparateBudgets l p q ↔ p.nameAny ≠ q.nameAny := by
  constructor
  · exact fun h hname => RateLimiter.not_separateBudgets l hkey hp hq hname h
  · intro hname calls hcalls
    have hforp : ∀ c ∈ calls, c.policy = p ∨ c.policy.nameAny ≠ p.nameAny := by
      intro c hc
      rcases hcalls c hc with hc | rfl
      · exact .inl hc
      · exact .inr hname.symm
    have hforq : ∀ c ∈ calls, c.policy = q ∨ c.policy.nameAny ≠ q.nameAny := by
      intro c hc
      rcases hcalls c hc with rfl | hc
      · exact .inr hname
      · exact .inl hc
    exact ⟨⟨RateLimiter.ownReplies_eq hforp rfl, RateLimiter.withinLimit hp hforp⟩,
      RateLimiter.ownReplies_eq hforq rfl, RateLimiter.withinLimit hq hforq⟩

theorem separateBudgets_iff_names :
    SeparateBudgets (.new 20 0) (limitedPolicy "default" "cleanup" "true")
        (limitedPolicy "default" "sweep" "true") ↔
      (limitedPolicy "default" "cleanup" "true").nameAny
        ≠ (limitedPolicy "default" "sweep" "true").nameAny :=
  separateBudgets_iff (.new 20 0) (by decide) rfl rfl

end KubeDepod
