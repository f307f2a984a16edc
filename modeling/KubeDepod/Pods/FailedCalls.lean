/-
KubeDepod/Pods/FailedCalls.lean

Whether a pod comes back after its deletion has failed.

A call that is not accepted only ends the loop body: the run goes on with the
next policy, and what it returns in the end is computed from the pending TTLs
and the resync interval, which know nothing of the failure.  A denied policy
requeues the pod for ten seconds and a request that cannot be serialised for a
minute; a failed call alone leaves it waiting for a change
(`failed_delete_awaits_change`, `failedRun_requeues_iff`).
-/
import KubeDepod.Pods.Termination

namespace KubeDepod

variable {env : PodEnv} {pod : Pod} {n : Nat} {policy : DepodPolicy}
  {policies : List DepodPolicy} {fallback : Action} {periodicResyncInterval : Option Duration}

/-! ### The action after a run -/

/-- What the controller does after the run: an error goes to the error policy. -/
def resultingAction : Except Error Action → Action
  | .ok action => action
  | .error _ => errorPolicyPod

/-- The pod is evaluated again after some delay. -/
def Requeues (result : Except Error Action) : Prop :=
  ∃ delay, resultingAction result = .requeue delay

theorem requeues_actionAfterLoop_iff (delays : List Nat) :
    Requeues (.ok (actionAfterLoop periodicResyncInterval delays.min?)) ↔
      periodicResyncInterval.isSome = true ∨ delays ≠ [] := by
  rcases hmin : delays.min? with - | least
  · have hnil : delays = [] := List.min?_eq_none_iff.mp hmin
    cases periodicResyncInterval with
    | none =>
        refine iff_of_false ?_ (by simp [hnil])
        rintro ⟨delay, hdelay⟩
        cases hdelay
    | some interval => exact iff_of_true ⟨interval, rfl⟩ (.inl rfl)
  · refine iff_of_true ⟨Duration.fromSecs least, rfl⟩ (.inr ?_)
    rintro rfl
    cases hmin

/-! ### Failed attempts -/

/-- The policy, asked for after `n` requests, ends the run without a call: a
limit denies it, or its request cannot be serialised. -/
def endsBeforeCall (env : PodEnv) (pod : Pod) (n : Nat) (policy : DepodPolicy) : Bool :=
  !bothGrant env n || !env.serialises pod policy

/-- A policy that ends the run without a call leads to a requeue. -/
theorem attempt_of_endsBeforeCall (h : endsBeforeCall env pod n policy = true) :
    ∃ result, (attempt env pod n policy).2 = some result ∧ Requeues result := by
  rcases hgranted : bothGrant env n with - | -
  · rw [attempt_of_denied hgranted]
    exact ⟨_, rfl, _, rfl⟩
  · rw [endsBeforeCall, hgranted, Bool.not_true, Bool.false_or, Bool.not_eq_true'] at h
    rcases hcall : callOf env pod (n + 2) policy with e | call
    · rw [attempt_of_error hgranted hcall]
      exact ⟨_, rfl, _, rfl⟩
    · rw [← callOf_isOk env pod (n + 2), hcall] at h
      cases h

/-- Any other policy makes its call as the third request, and the run goes on
if the call is not accepted. -/
theorem attempt_of_failed (h : endsBeforeCall env pod n policy = false)
    (hfailed : ∀ e ∈ (attempt env pod n policy).1, e.accepted = false) :
    (attempt env pod n policy).2 = none ∧ (attempt env pod n policy).1.length = 3 := by
  rw [endsBeforeCall, Bool.or_eq_false_iff, Bool.not_eq_false', Bool.not_eq_false'] at h
  obtain ⟨hgranted, hserialises⟩ := h
  obtain ⟨call, hcall⟩ := exists_call_of_serialises hserialises (n + 2)
  rw [attempt_of_call hgranted hcall] at hfailed ⊢
  have hnot := hfailed call (List.mem_append_right _ (List.mem_singleton_self call))
  rw [hnot]
  exact ⟨rfl, rfl⟩

/-! ### Failed runs -/

/-- Some policy ends the run before its call, if all the calls before it fail;
each of these takes three requests. -/
def endsBeforeSomeCall (env : PodEnv) (pod : Pod) : Nat → List DepodPolicy → Bool
  | _, [] => false
  | n, policy :: policies =>
      endsBeforeCall env pod n policy || endsBeforeSomeCall env pod (n + 3) policies

/-- A run without accepted call requeues early, or returns what the loop ends
with. -/
theorem serve_requeues_iff
    (hfailed : ∀ e ∈ (serve env pod fallback n policies).1, e.accepted = false) :
    Requeues (serve env pod fallback n policies).2 ↔
      endsBeforeSomeCall env pod n policies = true ∨ Requeues (.ok fallback) := by
  induction policies generalizing n with
  | nil =>
      rw [endsBeforeSomeCall, serve]
      exact ⟨.inr, fun h => h.resolve_left Bool.false_ne_true⟩
  | cons policy policies ih =>
      rw [serve_cons] at hfailed
      rw [endsBeforeSomeCall]
      rcases hends : endsBeforeCall env pod n policy with - | -
      · -- the call is made and fails
        obtain ⟨hnone, hlength⟩ := attempt_of_failed hends
          fun e he => hfailed e (List.mem_append_left _ he)
        rw [hnone, hlength] at hfailed
        rw [serve_cons_result, hnone, hlength, Bool.false_or]
        exact ih fun e he => hfailed e (List.mem_append_right _ he)
      · obtain ⟨result, hresult, hrequeues⟩ := attempt_of_endsBeforeCall hends
        rw [serve_cons_result, hresult]
        exact iff_of_true hrequeues (.inl rfl)

/-- The run makes a delete or evict call, and none of its calls is accepted. -/
def AllCallsFail (log : List PodEvent) : Prop :=
  (∃ e ∈ log, e.isCall = true) ∧ ∀ e ∈ log, e.accepted = false

/-- Every call is granted, and the API server rejects every deletion. -/
def rejectingEnv (policies : List DepodPolicy) : PodEnv :=
  { acceptingEnv policies with deleteReply := fun _ => .error (.kubeError "internal error") }

/-- The rejected deletion of `web-0`. -/
theorem rejected_run (periodicResyncInterval : Option Duration) :
    let run := runPod periodicResyncInterval (rejectingEnv [celPolicy "cleanup" "true"])
      (optedInPod "web-0" "4e1f") .new
    AllCallsFail run.2.log ∧ run.1 = .ok (actionAfterLoop periodicResyncInterval none) := by
  intro run
  obtain ⟨hresult, hlog, -⟩ := runPod_spec periodicResyncInterval
    (rejectingEnv [celPolicy "cleanup" "true"]) (optedInPod "web-0" "4e1f") .new
  have href : reference periodicResyncInterval (rejectingEnv [celPolicy "cleanup" "true"])
      (optedInPod "web-0" "4e1f")
      = ([.allowGlobal true, .allowPolicy "cleanup" none true,
          .delete "default" "web-0" ⟨none⟩ (.error (.kubeError "internal error"))],
        .ok (actionAfterLoop periodicResyncInterval none)) := rfl
  rw [hresult, hlog, href]
  refine ⟨⟨⟨_, List.mem_of_mem_getLast? rfl, rfl⟩, ?_⟩, rfl⟩
  simp [PodEvent.accepted]

/-- Without a resync interval, `web-0` is left alone after the rejection. -/
theorem failed_delete_awaits_change :
    ¬ ∀ (periodicResyncInterval : Option Duration) (env : PodEnv) (pod : Pod)
      (metrics : Metrics), AllCallsFail (runPod periodicResyncInterval env pod metrics).2.log →
      Requeues (runPod periodicResyncInterval env pod metrics).1 := by
  intro h
  obtain ⟨hfailed, hresult⟩ := rejected_run none
  obtain ⟨delay, hdelay⟩ := h none _ _ _ hfailed
  rw [hresult] at hdelay
  cases hdelay

/-- **When a failed action is retried.**  For every pod, snapshot, clock, CEL
oracle, limiter, API server and configuration: a run whose calls all fail
requeues the pod exactly if there is a resync interval, or a TTL is pending, or
some eligible policy ends the run before its own call. -/
theorem failedRun_requeues_iff (periodicResyncInterval : Option Duration) (env : PodEnv)
    (pod : Pod) (metrics : Metrics)
    (hfailed : AllCallsFail (runPod periodicResyncInterval env pod metrics).2.log) :
    Requeues (runPod periodicResyncInterval env pod metrics).1 ↔
      let entries := stamp pod env.clock 0 env.policies
      periodicResyncInterval.isSome = true ∨ entries.filterMap (pendingTtl pod) ≠ [] ∨
        endsBeforeSomeCall env pod 0 (eligiblePolicies env.oracle pod entries) = true := by
  obtain ⟨hresult, hlog, -⟩ := runPod_spec periodicResyncInterval env pod metrics
  rw [hlog] at hfailed
  rw [hresult, reference, serve_requeues_iff hfailed.2, requeues_actionAfterLoop_iff]
  rw [or_comm, or_assoc]

/-- With a resync interval of a minute. -/
theorem failedRun_requeues_iff_resync :
    let env := rejectingEnv [celPolicy "cleanup" "true"]
    let pod := optedInPod "web-0" "4e1f"
    Requeues (runPod (some (Duration.fromSecs 60)) env pod .new).1 ↔
      let entries := stamp pod env.clock 0 env.policies
      (some (Duration.fromSecs 60)).isSome = true ∨
        entries.filterMap (pendingTtl pod) ≠ [] ∨
        endsBeforeSomeCall env pod 0 (eligiblePolicies env.oracle pod entries) = true :=
  failedRun_requeues_iff _ _ _ _ (rejected_run _).1

end KubeDepod
