/-
KubeDepod/Controller/Reference.lean

What one run of `reconcile_pod` does, stated without its loop.

`PodEnv` fixes everything the run can learn from outside: the policy
snapshot, the clock readings, the CEL verdicts, the limiter's replies and the
API server's answers.  Against it the run is deterministic and leaves a log
of its limiter queries and API calls.

The reference first selects the *eligible* policies of the snapshot, each
judged on its own with the clock reading taken for it, and then serves them
one after another (`serve`): ask both limits; stop if one denies; issue the
call; stop if it is accepted.  `does_reconcilePolicies` shows by induction over
the snapshot that the loop computes this, whatever it has accumulated before.
-/
import KubeDepod.Controller.ReconcilePod

namespace KubeDepod

open Effects

/-! ### Metrics -/

/-- `Metrics`: five `AtomicU64`, incremented by `fetch_add(1)`. -/
structure Metrics where
  value : Counter → UInt64

/-- `Metrics::new`. -/
def Metrics.new : Metrics := ⟨fun _ => 0⟩

def Metrics.increment (m : Metrics) (counter : Counter) : Metrics :=
  ⟨fun c => if c = counter then m.value c + 1 else m.value c⟩

/-! ### The environment of a run -/

/-- A limiter query or an API call, with its answer. -/
inductive PodEvent where
  | allowGlobal (reply : Bool)
  | allowPolicy (policyName : String) (maxPerMinute : Option Int32) (reply : Bool)
  | delete (ns name : String) (dp : DeleteParams) (reply : Except Error Unit)
  | evict (ns name : String) (body : Eviction) (reply : Except Error Status)

/-- The API server accepted the call.  An eviction answered with a status
other than `Success` was not accepted. -/
def PodEvent.accepted : PodEvent → Bool
  | .delete _ _ _ (.ok _) => true
  | .evict _ _ _ (.ok status) =>
      match status.status with
      | some statusStr => statusStr == "Success"
      | none => true
  | _ => false

/-- Everything a run learns from outside.  `clock n` is the reading taken
after `n` earlier readings; `limiter n`, `deleteReply n` and `evictReply n`
answer a request made after `n` earlier limiter queries and API calls. -/
structure PodEnv where
  policies : List DepodPolicy
  clock : Nat → DateTime
  oracle : String → Pod → Except Error Bool
  limiter : Nat → Bool
  toVec : Eviction → Except Error Unit
  deleteReply : Nat → Except Error Unit
  evictReply : Nat → Except Error Status

/-- The state of a run. -/
structure PodRun where
  metrics : Metrics
  clockReads : Nat
  log : List PodEvent

def PodRun.record (s : PodRun) (event : PodEvent) : PodRun :=
  { s with log := s.log ++ [event] }

/-- The environment's answer to each effect. -/
def PodEnv.handler (env : PodEnv) : (e : PodEffect) → PodRun → e.Reply × PodRun
  | .increment counter, s => ((), { s with metrics := s.metrics.increment counter })
  | .loadPolicies, s => (env.policies, s)
  | .now, s => (env.clock s.clockReads, { s with clockReads := s.clockReads + 1 })
  | .evaluate expr pod _, s => (env.oracle expr pod, s)
  | .allowGlobal, s =>
      let reply := env.limiter s.log.length
      (reply, s.record (.allowGlobal reply))
  | .allowPolicy policyName maxPerMinute, s =>
      let reply := env.limiter s.log.length
      (reply, s.record (.allowPolicy policyName maxPerMinute reply))
  | .toVec eviction, s => (env.toVec eviction, s)
  | .delete ns name dp, s =>
      let reply := env.deleteReply s.log.length
      (reply, s.record (.delete ns name dp reply))
  | .createEviction ns name body, s =>
      let reply := env.evictReply s.log.length
      (reply, s.record (.evict ns name body reply))

/-- One run of `reconcile_pod`. -/
def runPod (periodicResyncInterval : Option Duration) (env : PodEnv) (pod : Pod)
    (metrics : Metrics) : Except Error Action × PodRun :=
  (reconcilePod periodicResyncInterval pod).run env.handler ⟨metrics, 0, []⟩

/-! ### The reference -/

/-- The policy is considered for the pod at all. -/
def considered (pod : Pod) (policy : DepodPolicy) : Bool :=
  matchesPolicy pod policy &&
    checkTrigger pod policy.spec.trigger.annotationKey policy.spec.trigger.annotationValues

/-- The run reads the clock for the policy. -/
def readsClock (pod : Pod) (policy : DepodPolicy) : Bool :=
  considered pod policy && policy.spec.when_.conditionType == .builtin &&
    policy.spec.when_.ttlSeconds.isSome

/-- Each policy of the snapshot with the clock reading the run takes for it,
after `n` earlier readings. -/
def stamp (pod : Pod) (clock : Nat → DateTime) :
    Nat → List DepodPolicy → List (DepodPolicy × DateTime)
  | _, [] => []
  | n, policy :: policies =>
      (policy, clock n) ::
        stamp pod clock (if readsClock pod policy then n + 1 else n) policies

/-- The policy's condition; errors and missing fields count as false. -/
def conditionHolds (oracle : String → Pod → Except Error Bool) (pod : Pod)
    (policy : DepodPolicy) (now : DateTime) : Bool :=
  match policy.spec.when_.conditionType with
  | .builtin =>
      match policy.spec.when_.ttlSeconds with
      | some ttlSeconds => evaluateTtlCondition pod ttlSeconds now
      | none => false
  | .cel =>
      match policy.spec.when_.expression with
      | some expr => (oracle expr pod).toOption == some true
      | none => false

/-- The policy is to act on the pod. -/
def eligible (oracle : String → Pod → Except Error Bool) (pod : Pod)
    (entry : DepodPolicy × DateTime) : Bool :=
  considered pod entry.1 && conditionHolds oracle pod entry.1 entry.2 &&
    !isNamespaceProtected pod.namespaceOrDefault entry.1.spec.limits.protectSystemNamespaces
      entry.1.spec.limits.excludedNamespaces &&
    !entry.1.spec.then_.dryRun

/-- The eligible policies of a snapshot, in snapshot order. -/
def eligiblePolicies (oracle : String → Pod → Except Error Bool) (pod : Pod)
    (entries : List (DepodPolicy × DateTime)) : List DepodPolicy :=
  (entries.filter (eligible oracle pod)).map Prod.fst

/-- The call an eligible policy leads to, as the `n`-th request of the run. -/
def callOf (env : PodEnv) (pod : Pod) (n : Nat) (policy : DepodPolicy) :
    Except Error PodEvent :=
  match policy.spec.then_.actionType with
  | .delete =>
      .ok (.delete pod.namespaceOrDefault pod.nameAny
        ⟨policy.spec.then_.gracePeriodSeconds.map fun g => g.toUInt64.toUInt32⟩
        (env.deleteReply n))
  | .evict =>
      match env.toVec (evictionOf pod policy) with
      | .error e => .error e
      | .ok _ =>
          .ok (.evict pod.namespaceOrDefault pod.nameAny (evictionOf pod policy)
            (env.evictReply n))

/-- One eligible policy, served after `n` earlier requests: the requests made
and, if the run ends here, what it returns. -/
def attempt (env : PodEnv) (pod : Pod) (n : Nat) (policy : DepodPolicy) :
    List PodEvent × EarlyReturn :=
  let queries := [.allowGlobal (env.limiter n),
    .allowPolicy policy.nameAny policy.spec.limits.maxDeletesPerMinute (env.limiter (n + 1))]
  if env.limiter n && env.limiter (n + 1) then
    match callOf env pod (n + 2) policy with
    | .ok call => (queries ++ [call], if call.accepted then some (.ok .awaitChange) else none)
    | .error e => (queries, some (.error e))
  else
    (queries, some (.ok (.requeue (Duration.fromSecs 10))))

/-- Serve the eligible policies in order until one ends the run. -/
def serve (env : PodEnv) (pod : Pod) (fallback : Action) :
    Nat → List DepodPolicy → List PodEvent × Except Error Action
  | _, [] => ([], .ok fallback)
  | n, policy :: policies =>
      match attempt env pod n policy with
      | (events, some result) => (events, result)
      | (events, none) =>
          let rest := serve env pod fallback (n + events.length) policies
          (events ++ rest.1, rest.2)

/-- The delay after which a considered built-in policy will be due. -/
def pendingTtl (pod : Pod) (entry : DepodPolicy × DateTime) : Option Nat :=
  if readsClock pod entry.1 then
    entry.1.spec.when_.ttlSeconds.bind fun ttlSeconds =>
      if evaluateTtlCondition pod ttlSeconds entry.2 then none
      else calculateTtlRequeue pod ttlSeconds entry.2
  else
    none

/-- The whole run: its requests and its result. -/
def reference (periodicResyncInterval : Option Duration) (env : PodEnv) (pod : Pod) :
    List PodEvent × Except Error Action :=
  let entries := stamp pod env.clock 0 env.policies
  serve env pod
    (actionAfterLoop periodicResyncInterval (entries.filterMap (pendingTtl pod)).min?)
    0 (eligiblePolicies env.oracle pod entries)

/-- One clock reading for the whole run. -/
theorem stamp_of_clock {env : PodEnv} {pod : Pod} {time : DateTime}
    (hclock : ∀ n, env.clock n = time) (n : Nat) (policies : List DepodPolicy) :
    stamp pod env.clock n policies = policies.map fun policy => (policy, time) := by
  induction policies generalizing n with
  | nil => rfl
  | cons policy policies ih => rw [stamp, hclock, ih, List.map_cons]

theorem mem_of_mem_stamp {pod : Pod} {clock : Nat → DateTime} {n : Nat}
    {policies : List DepodPolicy} {entry : DepodPolicy × DateTime}
    (h : entry ∈ stamp pod clock n policies) : entry.1 ∈ policies := by
  induction policies generalizing n with
  | nil => cases h
  | cons policy policies ih =>
      rcases List.mem_cons.mp h with rfl | h
      · exact List.mem_cons_self ..
      · exact List.mem_cons_of_mem _ (ih h)

/-! ### What a piece of the program does -/

@[simp] theorem Metrics.increment_value (m : Metrics) (counter c : Counter) :
    (m.increment counter).value c = if c = counter then m.value c + 1 else m.value c := rfl

/-- How many of the requests are accepted calls. -/
def acceptedCalls (events : List PodEvent) : Nat := events.countP PodEvent.accepted

@[simp] theorem acceptedCalls_nil : acceptedCalls [] = 0 := rfl

@[simp] theorem acceptedCalls_cons (event : PodEvent) (events : List PodEvent) :
    acceptedCalls (event :: events)
      = acceptedCalls events + if event.accepted then 1 else 0 := by
  simp [acceptedCalls, List.countP_cons]

@[simp] theorem acceptedCalls_append (events events' : List PodEvent) :
    acceptedCalls (events ++ events') = acceptedCalls events + acceptedCalls events' := by
  simp [acceptedCalls]

/-- From `s`, the program returns `a`, makes the requests `events`, leaves the
clock at reading `reads`, and counts one deletion per accepted call. -/
structure Does {α : Type} (env : PodEnv) (p : PodProg α) (s : PodRun) (a : α)
    (events : List PodEvent) (reads : Nat) : Prop where
  returns : (p.run env.handler s).1 = a
  clockReads : (p.run env.handler s).2.clockReads = reads
  log : (p.run env.handler s).2.log = s.log ++ events
  deleted : (p.run env.handler s).2.metrics.value .podsDeleted
    = s.metrics.value .podsDeleted + UInt64.ofNat (acceptedCalls events)

variable {env : PodEnv} {pod : Pod} {policy : DepodPolicy}

theorem Does.pure {α : Type} (a : α) (s : PodRun) :
    Does env (Pure.pure a) s a [] s.clockReads := by
  constructor <;> simp

theorem Does.bind {α β : Type} {p : PodProg α} {f : α → PodProg β} {s : PodRun} {a : α} {b : β}
    {events events' : List PodEvent} {reads reads' : Nat} (hp : Does env p s a events reads)
    (hf : Does env (f a) (p.run env.handler s).2 b events' reads') :
    Does env (p >>= f) s b (events ++ events') reads' := by
  constructor
  · rw [Prog.run_bind, hp.returns, hf.returns]
  · rw [Prog.run_bind, hp.returns, hf.clockReads]
  · rw [Prog.run_bind, hp.returns, hf.log, hp.log, List.append_assoc]
  · rw [Prog.run_bind, hp.returns, hf.deleted, hp.deleted, acceptedCalls_append,
      UInt64.ofNat_add, UInt64.add_assoc]

theorem does_incrementPolicyMatches (env : PodEnv) (s : PodRun) :
    Does env incrementPolicyMatches s () [] s.clockReads := by
  constructor <;> simp [incrementPolicyMatches, KubeDepod.perform, PodEnv.handler]

/-! ### The condition block -/

/-- The loop's accumulator after one more pending delay. -/
def keepMin (ttlRequeue : Option Nat) : Option Nat → Option Nat
  | none => ttlRequeue
  | some ttlLeft => some (ttlRequeue.elim ttlLeft fun current => min current ttlLeft)

/-- The condition block gives the verdict and the accumulator of the
reference, makes no request and reads the clock at most once. -/
theorem does_evaluateWhen (env : PodEnv) (hc : considered pod policy = true)
    (ttlRequeue : Option Nat) (s : PodRun) :
    Does env (evaluateWhen pod policy ttlRequeue) s
      (conditionHolds env.oracle pod policy (env.clock s.clockReads),
        keepMin ttlRequeue (pendingTtl pod (policy, env.clock s.clockReads)))
      [] (if readsClock pod policy then s.clockReads + 1 else s.clockReads) := by
  unfold evaluateWhen conditionHolds pendingTtl readsClock
  rcases hct : policy.spec.when_.conditionType with - | -
  · -- CEL: the oracle's verdict; every error counts as false
    rcases hex : policy.spec.when_.expression with - | expr
    · constructor <;>
        simp [incrementEvaluationErrors, perform, PodEnv.handler, keepMin]
    · rcases ho : env.oracle expr pod with e | verdict
      · cases e <;> constructor <;>
          simp [incrementEvaluationErrors, perform, PodEnv.handler, ho, keepMin,
            Except.toOption]
      · constructor <;> simp [perform, PodEnv.handler, ho, keepMin, Except.toOption]
  · -- Builtin: one clock reading decides the verdict and the pending delay
    rcases httl : policy.spec.when_.ttlSeconds with - | ttlSeconds
    · constructor <;>
        simp [incrementEvaluationErrors, perform, PodEnv.handler, keepMin]
    · rcases hmet : evaluateTtlCondition pod ttlSeconds (env.clock s.clockReads) with - | -
      · rcases hleft : calculateTtlRequeue pod ttlSeconds (env.clock s.clockReads)
          with - | ttlLeft
        · constructor <;> simp [hc, perform, PodEnv.handler, hmet, hleft, keepMin]
        · cases ttlRequeue <;> constructor <;>
            simp [hc, perform, PodEnv.handler, hmet, hleft, keepMin]
      · constructor <;> simp [hc, perform, PodEnv.handler, hmet, keepMin]

/-! ### The action block -/

/-- A dry run makes no request. -/
theorem does_executeThen_dryRun (env : PodEnv) (pod : Pod)
    (hdry : policy.spec.then_.dryRun = true) (s : PodRun) :
    Does env (executeThen pod policy) s none [] s.clockReads := by
  unfold executeThen
  cases policy.spec.then_.actionType <;> constructor <;> simp [deleteArm, evictArm, hdry]

/-- Both arms do what `attempt` says. -/
theorem does_executeThen (env : PodEnv) (pod : Pod)
    (hdry : policy.spec.then_.dryRun = false) (s : PodRun) :
    Does env (executeThen pod policy) s (attempt env pod s.log.length policy).2
      (attempt env pod s.log.length policy).1 s.clockReads := by
  unfold executeThen attempt callOf
  rcases hg : env.limiter s.log.length with - | -
  · -- the global limit denies
    cases policy.spec.then_.actionType <;> constructor <;>
      simp [deleteArm, evictArm, hdry, perform, PodEnv.handler, PodRun.record,
        incrementRateLimited, hg, PodEvent.accepted]
  rcases hp : env.limiter (s.log.length + 1) with - | -
  · -- the policy limit denies
    cases policy.spec.then_.actionType <;> constructor <;>
      simp [deleteArm, evictArm, hdry, perform, PodEnv.handler, PodRun.record,
        incrementRateLimited, hg, hp, PodEvent.accepted]
  rcases hact : policy.spec.then_.actionType with - | -
  · -- delete
    rcases hr : env.deleteReply (s.log.length + 2) with e | ⟨⟩ <;> constructor <;>
      simp [deleteArm, hdry, perform, PodEnv.handler, PodRun.record,
        incrementEvaluationErrors, incrementPodsDeleted, hg, hp, hr, PodEvent.accepted]
  · -- evict
    rcases hv : env.toVec (evictionOf pod policy) with e | ⟨⟩
    · constructor <;>
        simp [evictArm, hdry, perform, PodEnv.handler, PodRun.record, hg, hp, hv,
          PodEvent.accepted]
    · rcases hr : env.evictReply (s.log.length + 2) with e | ⟨- | statusStr⟩
      · constructor <;>
          simp [evictArm, hdry, perform, PodEnv.handler, PodRun.record,
            incrementEvaluationErrors, hg, hp, hv, hr, PodEvent.accepted]
      · constructor <;>
          simp [evictArm, hdry, perform, PodEnv.handler, PodRun.record,
            incrementPodsDeleted, hg, hp, hv, hr, PodEvent.accepted]
      · by_cases hs : statusStr = "Success" <;> constructor <;>
          simp [evictArm, hdry, perform, PodEnv.handler, PodRun.record,
            incrementEvaluationErrors, incrementPodsDeleted, hg, hp, hv, hr, hs,
            PodEvent.accepted]

/-! ### The loop -/

/-- The accumulator after the whole snapshot. -/
def finalTtl (pod : Pod) (entries : List (DepodPolicy × DateTime)) (ttlRequeue : Option Nat) :
    Option Nat :=
  (entries.map (pendingTtl pod)).foldl keepMin ttlRequeue

theorem foldl_keepMin_some (delays : List (Option Nat)) (current : Nat) :
    delays.foldl keepMin (some current)
      = some ((delays.filterMap id).foldl min current) := by
  induction delays generalizing current with
  | nil => rfl
  | cons delay delays ih =>
      cases delay with
      | none => exact ih current
      | some ttlLeft => exact ih (min current ttlLeft)

/-- From an empty accumulator the loop computes the minimum. -/
theorem finalTtl_none (pod : Pod) (entries : List (DepodPolicy × DateTime)) :
    finalTtl pod entries none = (entries.filterMap (pendingTtl pod)).min? := by
  unfold finalTtl
  induction entries with
  | nil => rfl
  | cons entry entries ih =>
      rcases h : pendingTtl pod entry with - | ttlLeft
      · simpa [h, keepMin] using ih
      · rw [List.map_cons, List.foldl_cons, h]
        show List.foldl keepMin (some ttlLeft) _ = _
        rw [foldl_keepMin_some, List.filterMap_map, List.filterMap_cons_some h]
        rfl

/-- What the loop makes of the policies still ahead of it. -/
def served (periodicResyncInterval : Option Duration) (env : PodEnv) (pod : Pod)
    (policies : List DepodPolicy) (ttlRequeue : Option Nat) (reads requests : Nat) :
    List PodEvent × Except Error Action :=
  let entries := stamp pod env.clock reads policies
  serve env pod (actionAfterLoop periodicResyncInterval (finalTtl pod entries ttlRequeue))
    requests (eligiblePolicies env.oracle pod entries)

variable {periodicResyncInterval : Option Duration} {policies : List DepodPolicy}
variable {ttlRequeue : Option Nat} {reads requests : Nat}

/-- A policy that is not eligible makes no request; it may read the clock and
leave a pending delay. -/
theorem served_cons_of_not_eligible
    (h : eligible env.oracle pod (policy, env.clock reads) = false) :
    served periodicResyncInterval env pod (policy :: policies) ttlRequeue reads requests
      = served periodicResyncInterval env pod policies
          (keepMin ttlRequeue (pendingTtl pod (policy, env.clock reads)))
          (if readsClock pod policy then reads + 1 else reads) requests := by
  simp [served, stamp, eligiblePolicies, h, finalTtl]

/-- An eligible policy is served first. -/
theorem served_cons_of_eligible
    (h : eligible env.oracle pod (policy, env.clock reads) = true) :
    served periodicResyncInterval env pod (policy :: policies) ttlRequeue reads requests
      = match attempt env pod requests policy with
        | (events, some result) => (events, result)
        | (events, none) =>
            let rest := served periodicResyncInterval env pod policies
              (keepMin ttlRequeue (pendingTtl pod (policy, env.clock reads)))
              (if readsClock pod policy then reads + 1 else reads)
              (requests + events.length)
            (events ++ rest.1, rest.2) := by
  simp [served, stamp, eligiblePolicies, h, finalTtl, serve]

theorem pendingTtl_of_not_considered (h : considered pod policy = false) (now : DateTime) :
    pendingTtl pod (policy, now) = none := by
  simp [pendingTtl, readsClock, h]

/-- The loop body behind the two `continue`s, once the condition is known. -/
def afterCondition (periodicResyncInterval : Option Duration) (pod : Pod)
    (policy : DepodPolicy) (policies : List DepodPolicy) :
    Bool × Option Nat → PodProg (Except Error Action) := fun (conditionMet, ttlRequeue) =>
  if !conditionMet then
    reconcilePolicies periodicResyncInterval pod policies ttlRequeue
  else if isNamespaceProtected pod.namespaceOrDefault
      policy.spec.limits.protectSystemNamespaces
      policy.spec.limits.excludedNamespaces then
    reconcilePolicies periodicResyncInterval pod policies ttlRequeue
  else
    executeThen pod policy >>= fun
      | some result => return result
      | none => reconcilePolicies periodicResyncInterval pod policies ttlRequeue

theorem reconcilePolicies_cons_of_considered (hc : considered pod policy = true) :
    reconcilePolicies periodicResyncInterval pod (policy :: policies) ttlRequeue
      = incrementPolicyMatches >>= fun _ =>
          evaluateWhen pod policy ttlRequeue >>=
            afterCondition periodicResyncInterval pod policy policies := by
  simp only [considered, Bool.and_eq_true] at hc
  simp only [reconcilePolicies, hc.1, hc.2]
  rfl

theorem reconcilePolicies_cons_of_not_considered (hc : considered pod policy = false) :
    reconcilePolicies periodicResyncInterval pod (policy :: policies) ttlRequeue
      = reconcilePolicies periodicResyncInterval pod policies ttlRequeue := by
  simp only [considered, Bool.and_eq_false_iff] at hc
  rcases hc with hc | hc <;> simp [reconcilePolicies, hc]

/-- The rest of the loop body, from a state `t` in which the condition of the
first policy has been decided; `ih` says what the rest of the loop does. -/
theorem does_afterCondition (hc : considered pod policy = true)
    (ih : ∀ (ttlRequeue : Option Nat) (s : PodRun), ∃ reads,
      Does env (reconcilePolicies periodicResyncInterval pod policies ttlRequeue) s
        (served periodicResyncInterval env pod policies ttlRequeue s.clockReads s.log.length).2
        (served periodicResyncInterval env pod policies ttlRequeue s.clockReads s.log.length).1
        reads)
    (ttlRequeue : Option Nat) (t : PodRun)
    (ht : t.clockReads = if readsClock pod policy then reads + 1 else reads) :
    ∃ reads', Does env
      (afterCondition periodicResyncInterval pod policy policies
        (conditionHolds env.oracle pod policy (env.clock reads),
          keepMin ttlRequeue (pendingTtl pod (policy, env.clock reads)))) t
      (served periodicResyncInterval env pod (policy :: policies) ttlRequeue reads
        t.log.length).2
      (served periodicResyncInterval env pod (policy :: policies) ttlRequeue reads
        t.log.length).1 reads' := by
  have ih := ih (keepMin ttlRequeue (pendingTtl pod (policy, env.clock reads)))
  rcases he : eligible env.oracle pod (policy, env.clock reads) with - | -
  · rw [served_cons_of_not_eligible he, ← ht]
    rcases hcond : conditionHolds env.oracle pod policy (env.clock reads) with - | -
    · simpa [afterCondition] using ih t
    rcases hprot : isNamespaceProtected pod.namespaceOrDefault
        policy.spec.limits.protectSystemNamespaces
        policy.spec.limits.excludedNamespaces with - | -
    · -- met and unprotected, so not eligible only as a dry run
      have hdry : policy.spec.then_.dryRun = true := by
        simpa [eligible, hc, hcond, hprot] using he
      have hx := does_executeThen_dryRun env pod hdry t
      obtain ⟨reads', hrest⟩ := ih ((executeThen pod policy).run env.handler t).2
      rw [hx.clockReads, hx.log, List.append_nil] at hrest
      simp only [afterCondition, hprot]
      exact ⟨reads', hx.bind hrest⟩
    · simpa [afterCondition, hprot] using ih t
  · rw [served_cons_of_eligible he]
    simp only [eligible, hc, Bool.true_and, Bool.and_eq_true, Bool.not_eq_true'] at he
    obtain ⟨⟨hcond, hprot⟩, hdry⟩ := he
    have hx := does_executeThen env pod hdry t
    simp only [afterCondition, hcond, hprot]
    rcases ha : attempt env pod t.log.length policy with ⟨events, - | result⟩
    · -- the call failed: the loop goes on
      rw [ha] at hx
      obtain ⟨reads', hrest⟩ := ih ((executeThen pod policy).run env.handler t).2
      rw [hx.clockReads, hx.log, ht, List.length_append] at hrest
      exact ⟨reads', hx.bind hrest⟩
    · rw [ha] at hx
      have hret := hx.bind (f := fun
        | some result => return result
        | none => reconcilePolicies periodicResyncInterval pod policies
            (keepMin ttlRequeue (pendingTtl pod (policy, env.clock reads))))
        (Does.pure result ((executeThen pod policy).run env.handler t).2)
      rw [List.append_nil] at hret
      exact ⟨_, hret⟩

/-- **The loop computes the reference**, from any point of the snapshot and
with anything accumulated so far. -/
theorem does_reconcilePolicies (periodicResyncInterval : Option Duration) (env : PodEnv)
    (pod : Pod) (policies : List DepodPolicy) (ttlRequeue : Option Nat) (s : PodRun) :
    ∃ reads, Does env (reconcilePolicies periodicResyncInterval pod policies ttlRequeue) s
      (served periodicResyncInterval env pod policies ttlRequeue s.clockReads s.log.length).2
      (served periodicResyncInterval env pod policies ttlRequeue s.clockReads s.log.length).1
      reads := by
  induction policies generalizing ttlRequeue s with
  | nil => exact ⟨_, Does.pure _ s⟩
  | cons policy policies ih =>
      rcases hc : considered pod policy with - | -
      · -- not matched or not triggered: `continue`
        have hne : eligible env.oracle pod (policy, env.clock s.clockReads) = false := by
          simp [eligible, hc]
        rw [reconcilePolicies_cons_of_not_considered hc, served_cons_of_not_eligible hne,
          pendingTtl_of_not_considered hc]
        simpa [readsClock, hc, keepMin] using ih ttlRequeue s
      · -- the counter, then the condition block, then the rest of the body
        have hm := does_incrementPolicyMatches env s
        have hw := does_evaluateWhen env hc ttlRequeue
          (incrementPolicyMatches.run env.handler s).2
        rw [hm.clockReads] at hw
        obtain ⟨reads, hrest⟩ := does_afterCondition hc ih ttlRequeue _ hw.clockReads
        rw [hw.log, hm.log, List.append_nil, List.append_nil] at hrest
        rw [reconcilePolicies_cons_of_considered hc]
        exact ⟨reads, by simpa using hm.bind (hw.bind hrest)⟩

/-! ### The whole run -/

/-- One run makes the requests of the reference, returns its result, and
counts a deletion exactly for each accepted call. -/
theorem runPod_spec (periodicResyncInterval : Option Duration) (env : PodEnv) (pod : Pod)
    (metrics : Metrics) :
    (runPod periodicResyncInterval env pod metrics).1
        = (reference periodicResyncInterval env pod).2 ∧
      (runPod periodicResyncInterval env pod metrics).2.log
        = (reference periodicResyncInterval env pod).1 ∧
      (runPod periodicResyncInterval env pod metrics).2.metrics.value .podsDeleted
        = metrics.value .podsDeleted
          + UInt64.ofNat (acceptedCalls (reference periodicResyncInterval env pod).1) := by
  obtain ⟨reads, h⟩ := does_reconcilePolicies periodicResyncInterval env pod env.policies none
    ⟨metrics.increment .podsEvaluated, 0, []⟩
  have href : served periodicResyncInterval env pod env.policies none 0 0
      = reference periodicResyncInterval env pod := by
    simp only [served, reference, finalTtl_none]
  have hrun : runPod periodicResyncInterval env pod metrics
      = (reconcilePolicies periodicResyncInterval pod env.policies none).run env.handler
          ⟨metrics.increment .podsEvaluated, 0, []⟩ := rfl
  rw [List.length_nil, href] at h
  rw [hrun]
  exact ⟨h.returns, by simpa using h.log, by simpa using h.deleted⟩

/-- **`reconcile_pod` is its reference.**  For every pod, snapshot, clock, CEL
oracle, limiter and API server, the limiter queries and API calls of a run are
those of serving the eligible policies in snapshot order, and so is the
result. -/
theorem reconcilePod_eq_reference (periodicResyncInterval : Option Duration) (env : PodEnv)
    (pod : Pod) (metrics : Metrics) :
    let run := runPod periodicResyncInterval env pod metrics
    (run.2.log, run.1) = reference periodicResyncInterval env pod := by
  obtain ⟨hresult, hlog, -⟩ := runPod_spec periodicResyncInterval env pod metrics
  exact Prod.ext hlog hresult

end KubeDepod
