/-
KubeDepod/Pods/PolicyOrder.lean

Whether the order of the policies in the cache decides what happens to a pod.

The cache is filled in the iteration order of the reflector's map, so the
order is arbitrary.  A run ends at the first eligible policy that is denied or
whose call is accepted.  With an API server that accepts every call this is
the very first one (`acceptsCall_iff_head`), and so the order decides as soon as
one eligible policy is over its own limit and another is not
(`order_decides`, `orderIrrelevant_iff`).
-/
import KubeDepod.Pods.Denied

namespace KubeDepod

/-! ### The first eligible policy -/

/-- The API server accepts every call. -/
structure PodEnv.CallsSucceed (env : PodEnv) : Prop where
  delete : ∀ n, env.deleteReply n = .ok ()
  evict : ∀ n, ∃ status, env.evictReply n = .ok status ∧
    (status.status = none ∨ status.status = some "Success")

variable {env : PodEnv} {pod : Pod} {policy : DepodPolicy} {policies : List DepodPolicy}
  {fallback : Action} {n : Nat}

/-- If the call can be made, it is accepted. -/
theorem accepted_of_callsSucceed (h : env.CallsSucceed) {call : PodEvent}
    (hcall : callOf env pod n policy = .ok call) : call.accepted = true := by
  rw [callOf] at hcall
  cases haction : policy.spec.then_.actionType with
  | delete =>
      rw [haction] at hcall
      cases hcall
      rw [h.delete]
      rfl
  | evict =>
      rw [haction] at hcall
      rcases hbytes : env.toVec (evictionOf pod policy) with e | ⟨⟩
      · rw [hbytes] at hcall
        cases hcall
      · rw [hbytes] at hcall
        cases hcall
        obtain ⟨⟨status⟩, hreply, hstatus⟩ := h.evict n
        rw [hreply]
        rcases hstatus with rfl | rfl
        · rfl
        · rfl

/-- The queries for the first policy come first. -/
theorem exists_serve_eq_queries_append (env : PodEnv) :
    ∃ rest, (serve env pod fallback n (policy :: policies)).1 = queries env n policy ++ rest := by
  rw [serve_cons]
  rcases hgranted : bothGrant env n with - | -
  · rw [attempt_of_denied hgranted]
    exact ⟨_, rfl⟩
  · obtain ⟨call, hevents, -⟩ := attempt_of_granted pod policy hgranted
    rw [hevents, List.append_assoc]
    exact ⟨_, rfl⟩

/-- The first policy served decides the run. -/
theorem serve_accepted_iff (h : env.CallsSucceed) :
    (∃ e ∈ (serve env pod fallback n (policy :: policies)).1, e.accepted = true) ↔
      bothGrant env n = true ∧ env.serialises pod policy = true := by
  have hqueries : ¬ ∃ e ∈ queries env n policy ++ [], e.accepted = true := by
    rintro ⟨e, he, haccepted⟩
    rw [List.append_nil] at he
    rw [not_accepted_of_mem_queries he] at haccepted
    cases haccepted
  rw [serve_cons]
  rcases hgranted : bothGrant env n with - | -
  · rw [attempt_of_denied hgranted]
    exact iff_of_false hqueries fun h => Bool.false_ne_true h.1
  · have hserialises := callOf_isOk env pod (n + 2) policy
    rcases hcall : callOf env pod (n + 2) policy with e | call
    · rw [hcall] at hserialises
      rw [attempt_of_error hgranted hcall, ← hserialises]
      exact iff_of_false hqueries fun h => Bool.false_ne_true h.2
    · rw [hcall] at hserialises
      rw [attempt_of_call hgranted hcall, ← hserialises]
      refine iff_of_true ⟨call, ?_, accepted_of_callsSucceed h hcall⟩ ⟨rfl, rfl⟩
      exact List.mem_append_left _ (List.mem_append_right _ (List.mem_singleton_self call))

/-! ### One fixed clock reading -/

/-- With one clock reading, the eligible policies are a filter of the snapshot. -/
theorem eligiblePolicies_of_clock {time : DateTime} (hclock : ∀ n, env.clock n = time)
    (policies : List DepodPolicy) :
    eligiblePolicies env.oracle pod (stamp pod env.clock 0 policies)
      = policies.filter fun policy => eligible env.oracle pod (policy, time) := by
  rw [stamp_of_clock hclock, eligiblePolicies, List.filter_map, List.map_map]
  exact List.map_id _

/-- The policy's own limit grants a deletion at `now`. -/
def RateLimiter.grantsOwn (l : RateLimiter) (now : Nat) (policy : DepodPolicy) : Bool :=
  !policy.isLimited || decide (0 < (l.policyBucket policy.nameAny policy.limit now).tokensAt now)

theorem allowPolicy_granted (l : RateLimiter) (now : Nat) (policy : DepodPolicy) :
    (l.allowPolicy policy.nameAny policy.spec.limits.maxDeletesPerMinute now now).1
      = l.grantsOwn now policy := by
  rw [RateLimiter.grantsOwn]
  rcases hlimited : policy.isLimited with - | -
  · rw [RateLimiter.allowPolicy_of_unlimited hlimited]
    rfl
  · rw [RateLimiter.allowPolicy_of_limited hlimited, Bool.not_true, Bool.false_or]
    apply Bool.eq_iff_iff.mpr
    rw [decide_eq_true_iff]
    exact TokenBucket.allow_granted_iff _ now

/-- The run on the policies in the given order, at one fixed clock reading,
leads to an accepted call. -/
def AcceptsCall (periodicResyncInterval : Option Duration) (env : PodEnv) (pod : Pod)
    (metrics : Metrics) (l : RateLimiter) (now : Nat) (order : List DepodPolicy) : Prop :=
  ∃ e ∈ (runLimited periodicResyncInterval { env with policies := order } (fun _ => ⟨now, now⟩)
    pod metrics l).2.1.log, e.accepted = true

variable {periodicResyncInterval : Option Duration} {metrics : Metrics} {l : RateLimiter}
  {time : DateTime} {now : Nat}

/-- **The first eligible policy decides**: its action is granted by both
limits and its request serialises. -/
theorem acceptsCall_iff_head (hcalls : env.CallsSucceed) (hclock : ∀ n, env.clock n = time)
    (order : List DepodPolicy) :
    AcceptsCall periodicResyncInterval env pod metrics l now order ↔
      ∃ policy ∈ (order.filter fun policy => eligible env.oracle pod (policy, time)).head?,
        0 < l.globalLimiter.tokensAt now ∧
          (l.grantsOwn now policy && env.serialises pod policy) = true := by
  obtain ⟨hanswers, href⟩ := runLimited_spec periodicResyncInterval
    { env with policies := order } (fun _ => ⟨now, now⟩) pod metrics l
  have hlog := congrArg Prod.fst href
  unfold AcceptsCall
  generalize runLimited periodicResyncInterval { env with policies := order }
    (fun _ => ⟨now, now⟩) pod metrics l = run at hanswers hlog ⊢
  let env' : PodEnv := { env with policies := order, limiter := repliesOf run.2.1.log }
  have hcalls' : env'.CallsSucceed := ⟨hcalls.delete, hcalls.evict⟩
  have helig : eligiblePolicies env'.oracle pod (stamp pod env'.clock 0 env'.policies) = _ :=
    @eligiblePolicies_of_clock env' pod time hclock order
  have hserve : run.2.1.log = (serve env' pod _ 0
      (eligiblePolicies env'.oracle pod (stamp pod env'.clock 0 env'.policies))).1 := hlog
  rw [helig] at hserve
  show (∃ e ∈ run.2.1.log, e.accepted = true) ↔
    ∃ policy ∈ (order.filter fun policy => eligible env'.oracle pod (policy, time)).head?, _
  rcases hfilter : order.filter fun policy => eligible env'.oracle pod (policy, time)
    with - | ⟨policy, rest⟩
  · rw [hfilter] at hserve
    rw [hserve]
    simp [serve]
  · rw [hfilter] at hserve
    -- the log tells what the limiter replied to the first two queries
    obtain ⟨rest', hfirst⟩ := exists_serve_eq_queries_append env'
    rw [hserve, hfirst] at hanswers
    obtain ⟨hglobal, hpolicy, -⟩ := hanswers
    have hgrants : bothGrant env' 0
        = ((l.allowGlobal now).1 && l.grantsOwn now policy) := by
      rw [bothGrant, hglobal, hpolicy]
      exact congrArg _ (allowPolicy_granted (l.allowGlobal now).2 now policy)
    rw [hserve, serve_accepted_iff hcalls', hgrants]
    simp only [List.head?_cons, Option.mem_some_iff, Bool.and_eq_true, and_assoc,
      exists_eq_left', ← TokenBucket.allow_granted_iff]
    rfl

/-! ### Other orders -/

/-- Two runs on the same policies agree, whatever their orders. -/
def OrderIrrelevant (periodicResyncInterval : Option Duration) (env : PodEnv) (pod : Pod)
    (metrics : Metrics) (l : RateLimiter) (now : Nat) (policies : List DepodPolicy) : Prop :=
  ∀ order order' : List DepodPolicy, order.Perm policies → order'.Perm policies →
    (AcceptsCall periodicResyncInterval env pod metrics l now order ↔
      AcceptsCall periodicResyncInterval env pod metrics l now order')

/-- `web-0` is deleted if the unlimited policy comes first, and left alone if
the one that is over its limit does. -/
theorem order_decides :
    ¬ ∀ (periodicResyncInterval : Option Duration) (env : PodEnv) (pod : Pod)
      (metrics : Metrics) (l : RateLimiter) (time : DateTime) (now : Nat)
      (policies : List DepodPolicy),
      env.CallsSucceed → (∀ e, env.toVec e = .ok ()) → (∀ n, env.clock n = time) →
      OrderIrrelevant periodicResyncInterval env pod metrics l now policies := by
  intro h
  let strict := limitedPolicy "default" "strict" "true"
  let free := celPolicy "free" "true"
  have hcalls : (acceptingEnv []).CallsSucceed := ⟨fun _ => rfl, fun _ => ⟨_, rfl, .inl rfl⟩⟩
  have horders := h none (acceptingEnv []) (optedInPod "web-0" "4e1f") .new strictUsedUp
    .unixEpoch 1 [strict, free] hcalls (fun _ => rfl) (fun _ => rfl) [free, strict]
    [strict, free] (List.Perm.swap ..) (List.Perm.refl _)
  have hclock : ∀ n, (acceptingEnv []).clock n = .unixEpoch := fun _ => rfl
  rw [acceptsCall_iff_head hcalls hclock, acceptsCall_iff_head hcalls hclock] at horders
  obtain ⟨policy, hhead, -, hgrants⟩ := horders.mp ⟨free, rfl, by decide, rfl⟩
  obtain rfl : strict = policy := Option.some.inj hhead
  exact absurd hgrants (by decide)

/-- With a policy that is to act put first, that policy decides. -/
theorem acceptsCall_cons_iff (hcalls : env.CallsSucceed) (hclock : ∀ n, env.clock n = time)
    (htokens : 0 < l.globalLimiter.tokensAt now)
    (heligible : eligible env.oracle pod (policy, time) = true) (rest : List DepodPolicy) :
    AcceptsCall periodicResyncInterval env pod metrics l now (policy :: rest) ↔
      (l.grantsOwn now policy && env.serialises pod policy) = true := by
  rw [acceptsCall_iff_head hcalls hclock, List.filter_cons_of_pos (by exact heligible),
    List.head?_cons]
  constructor
  · rintro ⟨_, ⟨⟩, -, hgood⟩
    exact hgood
  · intro hgood
    exact ⟨policy, rfl, htokens, hgood⟩

/-- If the policies that are to act agree, any one of them decides. -/
theorem acceptsCall_iff_any (hcalls : env.CallsSucceed) (hclock : ∀ n, env.clock n = time)
    {policies order : List DepodPolicy} (horder : order.Perm policies)
    (hagree : ∀ p ∈ policies, ∀ q ∈ policies, eligible env.oracle pod (p, time) = true →
      eligible env.oracle pod (q, time) = true →
      (l.grantsOwn now p && env.serialises pod p) = (l.grantsOwn now q && env.serialises pod q)) :
    AcceptsCall periodicResyncInterval env pod metrics l now order ↔
      ∃ p ∈ policies, eligible env.oracle pod (p, time) = true ∧
        0 < l.globalLimiter.tokensAt now ∧
        (l.grantsOwn now p && env.serialises pod p) = true := by
  rw [acceptsCall_iff_head hcalls hclock]
  constructor
  · rintro ⟨p, hp, htokens, hgood⟩
    obtain ⟨hmem, hep⟩ := List.mem_filter.mp (List.mem_of_mem_head? hp)
    exact ⟨p, horder.mem_iff.mp hmem, hep, htokens, hgood⟩
  · rintro ⟨p, hp, hep, htokens, hgood⟩
    have hmem : p ∈ order.filter fun policy => eligible env.oracle pod (policy, time) :=
      List.mem_filter.mpr ⟨horder.mem_iff.mpr hp, hep⟩
    obtain ⟨q, hq⟩ := Option.isSome_iff_exists.mp
      (List.isSome_head?.mpr (List.ne_nil_of_mem hmem))
    obtain ⟨hqmem, heq⟩ := List.mem_filter.mp (List.mem_of_mem_head? hq)
    refine ⟨q, hq, htokens, ?_⟩
    rw [hagree q (horder.mem_iff.mp hqmem) p hp heq hep]
    exact hgood

/-- **When the order does not matter.**  With an API server that accepts every
call and one clock reading, two runs on the same policies in any two orders
agree on whether the pod goes exactly if the global bucket is empty, or the
policies that are to act on the pod agree: for all of them or for none of them
the own limit grants the action and the request serialises. -/
theorem orderIrrelevant_iff (periodicResyncInterval : Option Duration) (env : PodEnv) (pod : Pod)
    (metrics : Metrics) (l : RateLimiter) (time : DateTime) (now : Nat)
    (policies : List DepodPolicy) (hcalls : env.CallsSucceed)
    (hclock : ∀ n, env.clock n = time) :
    OrderIrrelevant periodicResyncInterval env pod metrics l now policies ↔
      l.globalLimiter.tokensAt now = 0 ∨
        ∀ p ∈ policies, ∀ q ∈ policies, eligible env.oracle pod (p, time) = true →
          eligible env.oracle pod (q, time) = true →
          (l.grantsOwn now p && env.serialises pod p)
            = (l.grantsOwn now q && env.serialises pod q) := by
  constructor
  · intro hsame
    rw [Classical.or_iff_not_imp_left]
    intro htokens p hp q hq hep heq
    have htokens := Nat.pos_of_ne_zero htokens
    -- put the policy in question first
    rw [Bool.eq_iff_iff,
      ← acceptsCall_cons_iff hcalls hclock htokens hep (policies.erase p),
      ← acceptsCall_cons_iff hcalls hclock htokens heq (policies.erase q)]
    exact hsame _ _ (List.perm_cons_erase hp).symm (List.perm_cons_erase hq).symm
  · rintro (hempty | hagree) order order' horder horder'
    · -- without a global token no run accepts a call
      have hnone : ∀ order, ¬ AcceptsCall periodicResyncInterval env pod metrics l now order := by
        intro order haccepts
        obtain ⟨_, -, htokens, -⟩ := (acceptsCall_iff_head hcalls hclock order).mp haccepts
        omega
      exact iff_of_false (hnone order) (hnone order')
    · rw [acceptsCall_iff_any hcalls hclock horder hagree,
        acceptsCall_iff_any hcalls hclock horder' hagree]

/-- Two policies without a limit of their own. -/
theorem orderIrrelevant_iff_unlimited :
    OrderIrrelevant none (acceptingEnv []) (optedInPod "web-0" "4e1f") .new strictUsedUp 1
      [celPolicy "free" "true", celPolicy "other" "true"] := by
  refine (orderIrrelevant_iff none (acceptingEnv []) _ _ _ .unixEpoch 1 _
    ⟨fun _ => rfl, fun _ => ⟨_, rfl, .inl rfl⟩⟩ fun _ => rfl).mpr (.inr ?_)
  intro p hp q hq _ _
  have hgrants : ∀ p ∈ [celPolicy "free" "true", celPolicy "other" "true"],
      (strictUsedUp.grantsOwn 1 p &&
        (acceptingEnv []).serialises (optedInPod "web-0" "4e1f") p) = true := by
    decide
  rw [hgrants p hp, hgrants q hq]

end KubeDepod
