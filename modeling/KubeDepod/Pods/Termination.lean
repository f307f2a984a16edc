/-
KubeDepod/Pods/Termination.lean

One pod, from its first version to its last, under repeated runs of
`reconcile_pod`.

The API server keeps a pod whose deletion it has accepted until the grace
period is over, and the watch goes on delivering its versions.
`reconcile_pod` does not look at the deletion timestamp: `terminating_pod_charged`
is a pod that is deleted and charged twice.  What one run can take from the
limiter depends on the first eligible policy alone (`serve_takesToken`), and
this decides when a pod is charged once (`chargedOnce_iff`).
-/
import KubeDepod.Controller.Reference
import KubeDepod.RateLimiter
import KubeDepod.Lib.Execution

namespace KubeDepod

open Lts

/-! ### Tokens -/

/-- The limiter took a token from one of its buckets. -/
def PodEvent.takesToken : PodEvent → Bool
  | .allowGlobal reply => reply
  | .allowPolicy _ maxPerMinute reply => hasBucket maxPerMinute && reply
  | .delete _ _ _ _ => false
  | .evict _ _ _ _ => false

/-- The two queries made for a policy after `n` earlier requests take a token. -/
def takesTokenFor (env : PodEnv) (n : Nat) (policy : DepodPolicy) : Bool :=
  env.limiter n || hasBucket policy.spec.limits.maxDeletesPerMinute && env.limiter (n + 1)

/-- A run in this environment takes no token for the pod: no policy is to act
on it, or the first one that is gets none. -/
def Quiet (env : PodEnv) (pod : Pod) : Prop :=
  ∀ policy ∈ (eligiblePolicies env.oracle pod (stamp pod env.clock 0 env.policies)).head?,
    takesTokenFor env 0 policy = false

/-! ### The requests of one run -/

/-- A delete or evict call. -/
def PodEvent.isCall : PodEvent → Bool
  | .delete _ _ _ _ => true
  | .evict _ _ _ _ => true
  | _ => false

/-- The request for the policy's action serialises; a delete has no body. -/
def PodEnv.serialises (env : PodEnv) (pod : Pod) (policy : DepodPolicy) : Bool :=
  match policy.spec.then_.actionType with
  | .delete => true
  | .evict => (env.toVec (evictionOf pod policy)).isOk

/-- The queries of `attempt`. -/
def queries (env : PodEnv) (n : Nat) (policy : DepodPolicy) : List PodEvent :=
  [.allowGlobal (env.limiter n),
    .allowPolicy policy.nameAny policy.spec.limits.maxDeletesPerMinute (env.limiter (n + 1))]

variable {env : PodEnv} {pod : Pod} {n : Nat} {policy : DepodPolicy} {e : PodEvent}

theorem not_accepted_of_mem_queries (h : e ∈ queries env n policy) : e.accepted = false := by
  simp only [queries, List.mem_cons, List.not_mem_nil, or_false] at h
  rcases h with rfl | rfl
  · rfl
  · rfl

theorem exists_queries_takesToken :
    (∃ e ∈ queries env n policy, e.takesToken = true) ↔ takesTokenFor env n policy = true := by
  simp [queries, PodEvent.takesToken, takesTokenFor]

/-- Both limits grant the deletion. -/
def bothGrant (env : PodEnv) (n : Nat) : Bool := env.limiter n && env.limiter (n + 1)

theorem takesTokenFor_of_bothGrant (h : bothGrant env n = true) :
    takesTokenFor env n policy = true := by
  simp only [bothGrant, Bool.and_eq_true] at h
  rw [takesTokenFor, h.1, Bool.true_or]

/-- A denied policy is queried for, and the run ends. -/
theorem attempt_of_denied (h : bothGrant env n = false) :
    attempt env pod n policy
      = (queries env n policy, some (.ok (.requeue (Duration.fromSecs 10)))) := by
  rw [bothGrant] at h
  simp only [attempt, h]
  rfl

theorem attempt_of_call (hgranted : bothGrant env n = true) {call : PodEvent}
    (hcall : callOf env pod (n + 2) policy = .ok call) :
    attempt env pod n policy = (queries env n policy ++ [call],
      if call.accepted then some (.ok .awaitChange) else none) := by
  rw [bothGrant] at hgranted
  simp only [attempt, hgranted, if_true, hcall]
  rfl

theorem attempt_of_error (hgranted : bothGrant env n = true) {e : Error}
    (hcall : callOf env pod (n + 2) policy = .error e) :
    attempt env pod n policy = (queries env n policy, some (.error e)) := by
  rw [bothGrant] at hgranted
  simp only [attempt, hgranted, if_true, hcall]
  rfl

/-- The call can be made exactly if its request serialises. -/
theorem callOf_isOk (env : PodEnv) (pod : Pod) (n : Nat) (policy : DepodPolicy) :
    (callOf env pod n policy).isOk = env.serialises pod policy := by
  unfold callOf PodEnv.serialises
  cases policy.spec.then_.actionType with
  | delete => rfl
  | evict => cases env.toVec (evictionOf pod policy) <;> rfl

theorem exists_call_of_serialises (h : env.serialises pod policy = true) (n : Nat) :
    ∃ call, callOf env pod n policy = .ok call := by
  rcases hcall : callOf env pod n policy with e | call
  · rw [← callOf_isOk env pod n, hcall] at h
    cases h
  · exact ⟨call, rfl⟩

/-- What `callOf` builds is a call. -/
theorem callOf_isCall {call : PodEvent} (h : callOf env pod n policy = .ok call) :
    call.isCall = true := by
  rw [callOf] at h
  split at h
  · cases h
    rfl
  · split at h
    · cases h
    · cases h
      rfl

theorem PodEvent.takesToken_of_isCall (h : e.isCall = true) : e.takesToken = false := by
  cases e with
  | delete _ _ _ _ | evict _ _ _ _ => rfl
  | allowGlobal _ | allowPolicy _ _ _ => cases h

/-- A granted policy leads to at most one call after the queries; if it is
accepted, the run ends. -/
theorem attempt_of_granted (pod : Pod) (policy : DepodPolicy) (h : bothGrant env n = true) :
    ∃ call : Option PodEvent, (attempt env pod n policy).1 = queries env n policy ++ call.toList ∧
      ∀ e ∈ call, e.takesToken = false ∧
        (e.accepted = true → (attempt env pod n policy).2 = some (.ok .awaitChange)) := by
  rw [bothGrant] at h
  simp only [attempt, h, if_true]
  rcases hcall : callOf env pod (n + 2) policy with err | call
  · exact ⟨none, by simp [queries], by simp⟩
  · refine ⟨some call, rfl, ?_⟩
    rintro e ⟨⟩
    refine ⟨PodEvent.takesToken_of_isCall (callOf_isCall hcall), fun haccepted => ?_⟩
    show (if call.accepted then _ else _) = _
    rw [haccepted, if_pos rfl]

theorem attempt_takesToken (env : PodEnv) (pod : Pod) (n : Nat) (policy : DepodPolicy) :
    (∃ e ∈ (attempt env pod n policy).1, e.takesToken = true)
      ↔ takesTokenFor env n policy = true := by
  rw [← exists_queries_takesToken]
  rcases hgranted : bothGrant env n with - | -
  · rw [attempt_of_denied hgranted]
  · obtain ⟨call, hevents, hcall⟩ := attempt_of_granted pod policy hgranted
    rw [hevents]
    constructor
    · rintro ⟨e, he, htoken⟩
      rcases List.mem_append.mp he with he | he
      · exact ⟨e, he, htoken⟩
      · rw [(hcall e (Option.mem_toList.mp he)).1] at htoken
        cases htoken
    · rintro ⟨e, he, htoken⟩
      exact ⟨e, List.mem_append_left _ he, htoken⟩

/-- An accepted call is the last request for its policy, was granted, and ends
the run. -/
theorem attempt_accepted (env : PodEnv) (pod : Pod) (n : Nat) (policy : DepodPolicy) :
    ((attempt env pod n policy).1.Pairwise fun e _ => e.accepted = false) ∧
      ∀ e ∈ (attempt env pod n policy).1, e.accepted = true →
        bothGrant env n = true ∧ (attempt env pod n policy).2 = some (.ok .awaitChange) := by
  have hqueries : (queries env n policy).Pairwise fun e _ => e.accepted = false :=
    List.pairwise_pair.mpr rfl
  rcases hgranted : bothGrant env n with - | -
  · rw [attempt_of_denied hgranted]
    refine ⟨hqueries, fun e he haccepted => ?_⟩
    rw [not_accepted_of_mem_queries he] at haccepted
    cases haccepted
  · obtain ⟨call, hevents, hcall⟩ := attempt_of_granted pod policy hgranted
    rw [hevents]
    constructor
    · refine List.pairwise_append.mpr ⟨hqueries, ?_, fun e he _ _ => ?_⟩
      · cases call with
        | none => exact List.Pairwise.nil
        | some call => exact List.pairwise_singleton _ call
      · exact not_accepted_of_mem_queries he
    · intro e he haccepted
      rcases List.mem_append.mp he with he | he
      · rw [not_accepted_of_mem_queries he] at haccepted
        cases haccepted
      · exact ⟨rfl, (hcall e (Option.mem_toList.mp he)).2 haccepted⟩

variable {fallback : Action} {policies : List DepodPolicy}

theorem serve_cons :
    (serve env pod fallback n (policy :: policies)).1
      = (attempt env pod n policy).1 ++
        match (attempt env pod n policy).2 with
        | some _ => []
        | none =>
            (serve env pod fallback (n + (attempt env pod n policy).1.length) policies).1 := by
  rcases h : attempt env pod n policy with ⟨events, - | result⟩
  · simp [serve, h]
  · simp [serve, h]

theorem serve_cons_result :
    (serve env pod fallback n (policy :: policies)).2
      = match (attempt env pod n policy).2 with
        | some result => result
        | none =>
            (serve env pod fallback (n + (attempt env pod n policy).1.length) policies).2 := by
  rcases h : attempt env pod n policy with ⟨events, - | result⟩
  · simp [serve, h]
  · simp [serve, h]

/-- An attempt after which the run goes on was granted. -/
theorem bothGrant_of_goesOn (h : (attempt env pod n policy).2 = none) :
    bothGrant env n = true := by
  rcases hgranted : bothGrant env n with - | -
  · rw [attempt_of_denied hgranted] at h
    cases h
  · rfl

/-- Serving the eligible policies takes a token exactly if the first one gets
one: a run that goes on to a second policy was granted the first. -/
theorem serve_takesToken :
    (∃ e ∈ (serve env pod fallback n policies).1, e.takesToken = true)
      ↔ ∃ policy ∈ policies.head?, takesTokenFor env n policy = true := by
  cases policies with
  | nil => simp [serve]
  | cons policy policies =>
      have hfirst := attempt_takesToken env pod n policy
      rw [serve_cons]
      constructor
      · rintro ⟨e, he, htoken⟩
        refine ⟨policy, rfl, ?_⟩
        rcases List.mem_append.mp he with he | he
        · exact hfirst.mp ⟨e, he, htoken⟩
        · rcases hresult : (attempt env pod n policy).2 with - | result
          · exact takesTokenFor_of_bothGrant (bothGrant_of_goesOn hresult)
          · rw [hresult] at he
            cases he
      · rintro ⟨_, ⟨⟩, htoken⟩
        obtain ⟨e, he, htoken⟩ := hfirst.mpr htoken
        exact ⟨e, List.mem_append_left _ he, htoken⟩

/-- An accepted call ends the run, and took a token. -/
theorem serve_accepted :
    ((serve env pod fallback n policies).1.Pairwise fun e _ => e.accepted = false) ∧
      ((∃ e ∈ (serve env pod fallback n policies).1, e.accepted = true) →
        ∃ e ∈ (serve env pod fallback n policies).1, e.takesToken = true) := by
  induction policies generalizing n with
  | nil => exact ⟨List.Pairwise.nil, fun ⟨_, he, _⟩ => nomatch he⟩
  | cons policy policies ih =>
      obtain ⟨hlast, hends⟩ := attempt_accepted env pod n policy
      rw [serve_takesToken, serve_cons]
      rcases hresult : (attempt env pod n policy).2 with - | result
      · -- none accepted so far, and granted: the rest decides
        have hgranted := bothGrant_of_goesOn hresult
        refine ⟨List.pairwise_append.mpr ⟨hlast, ih.1, fun e he _ _ => ?_⟩, fun _ => ?_⟩
        · rw [Bool.eq_false_iff]
          intro haccepted
          rw [hresult] at hends
          cases (hends e he haccepted).2
        · exact ⟨policy, rfl, takesTokenFor_of_bothGrant hgranted⟩
      · rw [List.append_nil]
        refine ⟨hlast, ?_⟩
        rintro ⟨e, he, haccepted⟩
        exact ⟨policy, rfl, takesTokenFor_of_bothGrant (hends e he haccepted).1⟩

/-! ### A pod and its runs -/

/-- Another version of the same pod: a deletion timestamp, once set, stays. -/
def Pod.IsVersionOf (version pod : Pod) : Prop :=
  version.metadata.uid = pod.metadata.uid ∧ version.metadata.name = pod.metadata.name ∧
    version.metadata.namespace_ = pod.metadata.namespace_ ∧
    (pod.metadata.deletionTimestamp.isSome = true →
      version.metadata.deletionTimestamp.isSome = true)

instance (version pod : Pod) : Decidable (version.IsVersionOf pod) :=
  inferInstanceAs (Decidable (_ ∧ _ ∧ _ ∧ _))

/-- What the API server makes of a pod whose deletion it accepts. -/
def Pod.terminating (pod : Pod) (deletionTimestamp : DateTime) : Pod :=
  { pod with
    metadata :=
      { pod.metadata with
        deletionTimestamp := some (pod.metadata.deletionTimestamp.getD deletionTimestamp) } }

/-- A pod at the API server; the version of it that the watch delivered last;
the counters; and all requests made for the pod so far. -/
structure Incarnation where
  object : Pod
  watched : Pod
  metrics : Metrics
  requests : List PodEvent

/-- The steps: others modify the pod, the watch delivers its current version,
and a run of `reconcile_pod` takes place on the version delivered last.  There
is never more than one run on a pod at a time; `env` is the run's environment,
`deletionTimestamp` what the server sets if it accepts the run's call. -/
inductive IncarnationLabel where
  | modify (version : Pod)
  | watch
  | reconcile (env : PodEnv) (deletionTimestamp : DateTime)

namespace Incarnation

def initial (pod : Pod) (metrics : Metrics) : Incarnation := ⟨pod, pod, metrics, []⟩

/-- The server has accepted a call for the pod. -/
def Accepted (s : Incarnation) : Prop := ∃ e ∈ s.requests, e.accepted = true

end Incarnation

def incarnationStep (periodicResyncInterval : Option Duration) (s : Incarnation) :
    IncarnationLabel → Option Incarnation
  | .modify version =>
      if version.IsVersionOf s.object then some { s with object := version } else none
  | .watch => some { s with watched := s.object }
  | .reconcile env deletionTimestamp =>
      -- the run sees the version watched, the server acts on the object
      let run := (runPod periodicResyncInterval env s.watched s.metrics).2
      some
        { s with
          object :=
            if run.log.any PodEvent.accepted then s.object.terminating deletionTimestamp
            else s.object
          metrics := run.metrics
          requests := s.requests ++ run.log }

def IncarnationStep (periodicResyncInterval : Option Duration) (s : Incarnation)
    (label : IncarnationLabel) (s' : Incarnation) : Prop :=
  incarnationStep periodicResyncInterval s label = some s'

/-- What a step can do, to the counter of deletions and to the requests. -/
inductive IncarnationCase (s : Incarnation) : IncarnationLabel → Incarnation → Prop
  | unchanged {label : IncarnationLabel} {s' : Incarnation}
      (hlabel : ∀ env deletionTimestamp, label ≠ .reconcile env deletionTimestamp)
      (hmetrics : s'.metrics = s.metrics) (hrequests : s'.requests = s.requests) :
      IncarnationCase s label s'
  | run {env : PodEnv} {deletionTimestamp : DateTime} {s' : Incarnation} {log : List PodEvent}
      (hrequests : s'.requests = s.requests ++ log)
      (hdeleted : s'.metrics.value .podsDeleted
        = s.metrics.value .podsDeleted + UInt64.ofNat (acceptedCalls log))
      (hlast : log.Pairwise fun e _ => e.accepted = false)
      (hpaid : (∃ e ∈ log, e.accepted = true) → ∃ e ∈ log, e.takesToken = true)
      (hquiet : Quiet env s.watched ↔ ∀ e ∈ log, e.takesToken = false) :
      IncarnationCase s (.reconcile env deletionTimestamp) s'

variable {periodicResyncInterval : Option Duration} {s s' : Incarnation}
  {label : IncarnationLabel}

theorem incarnationStep_cases (h : IncarnationStep periodicResyncInterval s label s') :
    IncarnationCase s label s' := by
  rw [IncarnationStep] at h
  cases label with
  | modify version =>
      rw [incarnationStep] at h
      split at h
      · obtain rfl := Option.some.inj h
        exact .unchanged (fun _ _ => nofun) rfl rfl
      · cases h
  | watch =>
      obtain rfl := Option.some.inj h
      exact .unchanged (fun _ _ => nofun) rfl rfl
  | reconcile env deletionTimestamp =>
      obtain rfl := Option.some.inj h
      obtain ⟨-, hlog, hdeleted⟩ := runPod_spec periodicResyncInterval env s.watched s.metrics
      refine .run (congrArg (s.requests ++ ·) hlog) hdeleted serve_accepted.1
        serve_accepted.2 ?_
      have htoken : (∃ e ∈ (reference periodicResyncInterval env s.watched).1,
          e.takesToken = true) ↔ _ := serve_takesToken
      have hnone := not_congr htoken
      simp only [not_exists, not_and, Bool.not_eq_true] at hnone
      exact hnone.symm

/-! ### Charged once -/

namespace Incarnation

/-- At most one call was accepted, the counter of deletions grew by at most
one, and no token was taken after an accepted call. -/
structure ChargedOnce (metrics : Metrics) (s : Incarnation) : Prop where
  accepted : acceptedCalls s.requests ≤ 1
  counted : s.metrics.value .podsDeleted = metrics.value .podsDeleted ∨
    s.metrics.value .podsDeleted = metrics.value .podsDeleted + 1
  charged : s.requests.Pairwise fun e e' => e.accepted = true → e'.takesToken = false

/-- The counter grew by the calls accepted. -/
def Counted (metrics : Metrics) (s : Incarnation) : Prop :=
  s.metrics.value .podsDeleted
    = metrics.value .podsDeleted + UInt64.ofNat (acceptedCalls s.requests)

/-- Once a call has been accepted for the pod, a run takes no token for it. -/
def QuietOnceAccepted (s : Incarnation) : IncarnationLabel → Prop
  | .modify _ => True
  | .watch => True
  | .reconcile env _ => s.Accepted → Quiet env s.watched

variable {metrics : Metrics}

theorem acceptedCalls_eq_zero {events : List PodEvent}
    (h : ¬ ∃ e ∈ events, e.accepted = true) : acceptedCalls events = 0 :=
  List.countP_eq_zero.mpr fun e he haccepted => h ⟨e, he, haccepted⟩

theorem acceptedCalls_le_one {events : List PodEvent}
    (h : events.Pairwise fun e _ => e.accepted = false) : acceptedCalls events ≤ 1 := by
  induction h with
  | nil => exact Nat.zero_le 1
  | @cons e events hfirst _ ih =>
      rw [acceptedCalls_cons]
      cases events with
      | nil =>
          rw [acceptedCalls_nil]
          split <;> omega
      | cons e' events =>
          -- another request follows, so this one is not the accepted call
          rw [hfirst e' (List.mem_cons_self ..)]
          exact ih

theorem Counted.step (h : IncarnationStep periodicResyncInterval s label s')
    (hs : s.Counted metrics) : s'.Counted metrics := by
  rw [Counted] at hs ⊢
  cases incarnationStep_cases h with
  | unchanged hlabel hmetrics hrequests => rw [hmetrics, hrequests, hs]
  | run hrequests hdeleted hlast hpaid hquiet =>
      rw [hdeleted, hrequests, hs, acceptedCalls_append, UInt64.ofNat_add, UInt64.add_assoc]

/-- The counter follows from the accepted calls. -/
theorem chargedOnce_of_counted (hs : s.Counted metrics) (haccepted : acceptedCalls s.requests ≤ 1)
    (hcharged : s.requests.Pairwise fun e e' => e.accepted = true → e'.takesToken = false) :
    s.ChargedOnce metrics := by
  refine ⟨haccepted, ?_, hcharged⟩
  rw [Counted] at hs
  rcases Nat.le_one_iff_eq_zero_or_eq_one.mp haccepted with hzero | hone
  · left
    rw [hs, hzero]
    exact UInt64.add_zero _
  · right
    rw [hs, hone]
    rfl

/-- One step from a pod charged at most once. -/
theorem ChargedOnce.step_iff (h : IncarnationStep periodicResyncInterval s label s')
    (hcounted : s.Counted metrics) (hs : s.ChargedOnce metrics) :
    s'.ChargedOnce metrics ↔ s.QuietOnceAccepted label := by
  have hcounted' := hcounted.step h
  cases incarnationStep_cases h with
  | unchanged hlabel hmetrics hrequests =>
      have hok : s.QuietOnceAccepted label := by
        cases label with
        | modify version => trivial
        | watch => trivial
        | reconcile env deletionTimestamp => exact absurd rfl (hlabel env deletionTimestamp)
      refine iff_of_true (chargedOnce_of_counted hcounted' ?_ ?_) hok
      · rw [hrequests]
        exact hs.accepted
      · rw [hrequests]
        exact hs.charged
  | @run env deletionTimestamp _ log hrequests hdeleted hlast hpaid hquiet =>
      constructor
      · -- a token taken after an accepted call would show
        rintro hs' ⟨e, he, haccepted⟩
        apply hquiet.mpr
        intro e' he'
        have hcharged := hs'.charged
        rw [hrequests] at hcharged
        exact (List.pairwise_append.mp hcharged).2.2 e he e' he' haccepted
      · intro hok
        apply chargedOnce_of_counted hcounted'
        · rw [hrequests, acceptedCalls_append]
          by_cases haccepted : s.Accepted
          · -- no token, hence no accepted call in this run
            have hnone : acceptedCalls log = 0 := by
              apply acceptedCalls_eq_zero
              intro hcall
              obtain ⟨e, he, htoken⟩ := hpaid hcall
              rw [hquiet.mp (hok haccepted) e he] at htoken
              cases htoken
            rw [hnone]
            exact hs.accepted
          · rw [acceptedCalls_eq_zero haccepted, Nat.zero_add]
            exact acceptedCalls_le_one hlast
        · rw [hrequests]
          refine List.pairwise_append.mpr ⟨hs.charged, ?_, ?_⟩
          · refine hlast.imp fun hfalse haccepted => ?_
            rw [hfalse] at haccepted
            cases haccepted
          · intro e he e' he' haccepted
            exact hquiet.mp (hok ⟨e, he, haccepted⟩) e' he'

theorem initial_counted (pod : Pod) : (initial pod metrics).Counted metrics :=
  (UInt64.add_zero _).symm

theorem initial_chargedOnce (pod : Pod) : (initial pod metrics).ChargedOnce metrics :=
  chargedOnce_of_counted (initial_counted pod) (Nat.zero_le 1) List.Pairwise.nil

end Incarnation

/-! ### A terminating pod -/

open Incarnation

/-- Every call is granted and accepted. -/
def acceptingEnv (policies : List DepodPolicy) : PodEnv where
  policies := policies
  clock := fun _ => .unixEpoch
  oracle := fun _ _ => .ok true
  limiter := fun _ => true
  toVec := fun _ => .ok ()
  deleteReply := fun _ => .ok ()
  evictReply := fun _ => .ok ⟨none⟩

/-- `web-0` is deleted; the version with the deletion timestamp arrives; the
next run finds the policies `later`. -/
def terminatingPod (later : List DepodPolicy) : List IncarnationLabel :=
  [.reconcile (acceptingEnv [celPolicy "cleanup" "true"]) .unixEpoch, .watch,
    .reconcile (acceptingEnv later) .unixEpoch]

/-- The second run is on a version that carries the deletion timestamp, and
deletes the pod again. -/
theorem terminating_pod_charged :
    ¬ ∀ (periodicResyncInterval : Option Duration) (pod : Pod) (metrics : Metrics)
      (π : List (IncarnationLabel × Incarnation)),
      Execution (IncarnationStep periodicResyncInterval) (initial pod metrics) π →
      ∀ x ∈ states (initial pod metrics) π, x.ChargedOnce metrics := by
  intro h
  have hrun : ∃ π, follow (incarnationStep none) (initial (optedInPod "web-0" "4e1f") .new)
        (terminatingPod [celPolicy "cleanup" "true"]) = some π ∧
      acceptedCalls (final (initial (optedInPod "web-0" "4e1f") .new) π).requests = 2 :=
    ⟨_, rfl, rfl⟩
  obtain ⟨π, hfollow, htwo⟩ := hrun
  have honce := h none _ _ π (execution_of_follow hfollow).1 _ (final_mem_states _ π)
  have hle := honce.accepted
  rw [htwo] at hle
  exact absurd hle (by decide)

/-- **When a pod is charged once.**  In every run over the versions of one pod,
with every snapshot of policies, clock, CEL oracle, limiter and API server:
the pod is deleted and charged at most once exactly if each run after the
accepted call finds no policy that is to act on the pod, or takes no token for
the first one that is. -/
theorem chargedOnce_iff {pod : Pod} {metrics : Metrics}
    {π : List (IncarnationLabel × Incarnation)}
    (hπ : Execution (IncarnationStep periodicResyncInterval) (initial pod metrics) π) :
    (∀ x ∈ states (initial pod metrics) π, x.ChargedOnce metrics)
      ↔ StepsMeet QuietOnceAccepted (initial pod metrics) π := by
  have hcounted := hπ.invariant (I := Counted metrics) (fun _ _ _ h hs => hs.step h)
    (initial_counted pod)
  have hstep : ∀ s label s', IncarnationStep periodicResyncInterval s label s' →
      s.Counted metrics ∧ s.ChargedOnce metrics →
      (s'.Counted metrics ∧ s'.ChargedOnce metrics ↔ s.QuietOnceAccepted label) := by
    intro s label s' h hs
    rw [and_iff_right (hs.1.step h)]
    exact hs.2.step_iff h hs.1
  rw [← hπ.invariant_iff hstep ⟨initial_counted pod, initial_chargedOnce pod⟩]
  exact forall₂_congr fun x hx => (and_iff_right (hcounted x hx)).symm

/-- The policy is gone when the terminating version arrives. -/
theorem chargedOnce_iff_policyGone :
    ∃ π, follow (incarnationStep none) (initial (optedInPod "web-0" "4e1f") .new)
        (terminatingPod []) = some π ∧
      ∀ x ∈ states (initial (optedInPod "web-0" "4e1f") .new) π, x.ChargedOnce .new := by
  have hrun : ∃ x y z, follow (incarnationStep none)
      (initial (optedInPod "web-0" "4e1f") .new) (terminatingPod [])
        = some [(.reconcile _ _, x), (.watch, y), (.reconcile _ _, z)] := ⟨_, _, _, rfl⟩
  obtain ⟨x, y, z, hfollow⟩ := hrun
  refine ⟨_, hfollow, (chargedOnce_iff (execution_of_follow hfollow).1).mpr ?_⟩
  refine ⟨fun haccepted => ?_, trivial, fun _ => ?_, trivial⟩
  · obtain ⟨e, he, -⟩ := haccepted
    cases he
  · intro policy hpolicy
    cases hpolicy

end KubeDepod
