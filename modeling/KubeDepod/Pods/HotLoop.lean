/-
KubeDepod/Pods/HotLoop.lean

How soon a pod comes back, for any configuration.

A run that returns an action waits for a change, for ten seconds after a denied
query, for a pending TTL, or for the resync interval.  The delay of a TTL has a
floor of one second; the interval has none and is whatever the environment
says (`noHotLoop_iff`).
-/
import KubeDepod.Config
import KubeDepod.Controller.Ages
import KubeDepod.Pods.Termination

namespace KubeDepod

variable {env : PodEnv} {pod : Pod} {n : Nat} {policy : DepodPolicy}
  {policies : List DepodPolicy} {fallback action : Action}
  {periodicResyncInterval : Option Duration}

/-! ### The actions a run can return -/

/-- The action does not bring the pod back within the second. -/
def Action.Waits : Action → Prop
  | .awaitChange => True
  | .requeue delay => (Duration.fromSecs 1).nanos ≤ delay.nanos

theorem attempt_waits (h : (attempt env pod n policy).2 = some (.ok action)) : action.Waits := by
  rcases hgranted : bothGrant env n with - | -
  · -- ten seconds after a denied query
    rw [attempt_of_denied hgranted] at h
    obtain rfl := Except.ok.inj (Option.some.inj h)
    show (Duration.fromSecs 1).nanos ≤ (Duration.fromSecs 10).nanos
    decide
  · rcases hcall : callOf env pod (n + 2) policy with e | call
    · rw [attempt_of_error hgranted hcall] at h
      cases h
    · rw [attempt_of_call hgranted hcall] at h
      rcases haccepted : call.accepted with - | -
      · rw [haccepted] at h
        cases h
      · rw [haccepted] at h
        obtain rfl := Except.ok.inj (Option.some.inj h)
        trivial

/-- Serving the policies ends in an action that waits, or in the one after the
loop. -/
theorem serve_waits (h : (serve env pod fallback n policies).2 = .ok action) :
    action.Waits ∨ action = fallback := by
  induction policies generalizing n with
  | nil => exact .inr (Except.ok.inj h).symm
  | cons policy policies ih =>
      rw [serve_cons_result] at h
      rcases hresult : (attempt env pod n policy).2 with - | result
      · rw [hresult] at h
        exact ih h
      · rw [hresult] at h
        have hresult' : result = .ok action := h
        rw [hresult'] at hresult
        exact .inl (attempt_waits hresult)

theorem calculateTtlRequeue_pos {ttl : Int64} {now : DateTime} {ttlLeft : Nat}
    (h : calculateTtlRequeue pod ttl now = some ttlLeft) : 1 ≤ ttlLeft := by
  rcases hcreated : pod.metadata.creationTimestamp with - | created
  · rw [calculateTtlRequeue, hcreated] at h
    cases h
  · rw [calculateTtlRequeue_eq_max hcreated] at h
    have hmax := Option.some.inj h
    omega

theorem pendingTtl_pos {entry : DepodPolicy × DateTime} {ttlLeft : Nat}
    (h : pendingTtl pod entry = some ttlLeft) : 1 ≤ ttlLeft := by
  unfold pendingTtl at h
  split_ifs at h with hreads
  obtain ⟨ttl, -, hleft⟩ := Option.bind_eq_some_iff.mp h
  split_ifs at hleft with hmet
  exact calculateTtlRequeue_pos hleft

/-- After the loop the run waits for a TTL, for the resync or for a change. -/
theorem actionAfterLoop_waits {ttlRequeue : Option Nat}
    (httl : ∀ ttlLeft, ttlRequeue = some ttlLeft → 1 ≤ ttlLeft)
    (hinterval : ∀ interval, periodicResyncInterval = some interval →
      (Duration.fromSecs 1).nanos ≤ interval.nanos) :
    (actionAfterLoop periodicResyncInterval ttlRequeue).Waits := by
  cases ttlRequeue with
  | some ttlLeft => exact Nat.mul_le_mul_right _ (httl ttlLeft rfl)
  | none =>
      cases periodicResyncInterval with
      | some interval => exact hinterval interval rfl
      | none => trivial

/-- **Every action waits, if the resync interval does.** -/
theorem runPod_waits (metrics : Metrics)
    (hinterval : ∀ interval, periodicResyncInterval = some interval →
      (Duration.fromSecs 1).nanos ≤ interval.nanos)
    (h : (runPod periodicResyncInterval env pod metrics).1 = .ok action) : action.Waits := by
  obtain ⟨hresult, -⟩ := runPod_spec periodicResyncInterval env pod metrics
  rw [hresult] at h
  rcases serve_waits h with hwaits | rfl
  · exact hwaits
  · refine actionAfterLoop_waits (fun ttlLeft hmin => ?_) hinterval
    obtain ⟨hmem, -⟩ := List.min?_eq_some_iff.mp hmin
    obtain ⟨entry, -, hpending⟩ := List.mem_filterMap.mp hmem
    exact pendingTtl_pos hpending

/-! ### Any configuration -/

/-- The policies are valid, and no `ttl - age` of theirs overflows. -/
structure PodEnv.Validated (env : PodEnv) (pod : Pod) : Prop where
  valid : ∀ policy ∈ env.policies, policy.spec.isValid = true
  ttlFits : ∀ policy ∈ env.policies, ∀ ttl, policy.spec.when_.ttlSeconds = some ttl →
    ∀ created, pod.metadata.creationTimestamp = some created →
    ∀ n, (ttl - ((env.clock n).sub created).numSeconds).toInt
      = ttl.toInt - ((env.clock n).sub created).numSeconds.toInt

/-- With the context that `main` builds from the environment variables, every
action that a run returns waits. -/
def NoHotLoop (vars : Environment) : Prop :=
  ∀ now, let ctx := Context.ofConfig (Config.fromEnv vars) now
    ∀ (env : PodEnv) (pod : Pod) (metrics : Metrics), env.Validated pod →
      ∀ action, (runPod ctx.periodicResyncInterval env pod metrics).1 = .ok action → action.Waits

/-- A pod under no policy comes back after the resync interval. -/
theorem NoHotLoop.interval_waits {vars : Environment} (h : NoHotLoop vars) {interval : Duration}
    (hinterval : (Config.fromEnv vars).periodicResyncInterval = some interval) :
    (Duration.fromSecs 1).nanos ≤ interval.nanos := by
  have hvalidated : (acceptingEnv []).Validated epochPod :=
    ⟨fun _ hmem => absurd hmem List.not_mem_nil, fun _ hmem => absurd hmem List.not_mem_nil⟩
  have href : (reference (some interval) (acceptingEnv []) epochPod).2
      = .ok (.requeue interval) := rfl
  have hresult := (runPod_spec (some interval) (acceptingEnv []) epochPod .new).1
  rw [href, ← hinterval] at hresult
  have hwaits : (Action.requeue interval).Waits := h 0 _ _ _ hvalidated _ hresult
  exact hwaits

/-- `RESYNC_INTERVAL_SECONDS=0`. -/
def zeroResync : Environment := fun name =>
  if name = "RESYNC_INTERVAL_SECONDS" then some "0" else none

theorem zero_interval_is_hot : ¬ ∀ vars : Environment, NoHotLoop vars := by
  intro h
  have hinterval : (Config.fromEnv zeroResync).periodicResyncInterval
      = some (Duration.fromSecs 0) := by decide
  exact absurd ((h zeroResync).interval_waits hinterval) (by decide)

/-- **When the resync makes no hot loop.**  For every setting of the environment
variables: with the context that `main` builds from it, every run of
`reconcile_pod` that returns an action waits for a change or for a second at
least, exactly if the resync is off or its interval is not a text of zeros. -/
theorem noHotLoop_iff (vars : Environment) : NoHotLoop vars ↔ ¬ vars.ZeroInterval := by
  rw [← resyncInterval_lt_iff]
  constructor
  · rintro h ⟨interval, hinterval, hless⟩
    have hwaits := h.interval_waits hinterval
    omega
  · intro hnone now ctx env pod metrics _ action
    refine runPod_waits metrics fun interval hinterval => ?_
    by_contra hless
    exact hnone ⟨interval, hinterval, Nat.not_le.mp hless⟩

end KubeDepod
