/-
KubeDepod/Pods/SystemNamespaces.lean

Pods in the namespaces that the documentation promises to leave alone.

The guard sits behind matching and evaluation and covers both actions: a pod
in a namespace that `is_system_namespace` knows is eligible under no policy
that protects the system namespaces.  Its list names the control plane
components but not `kube-depod`, the operator's own namespace, which the
README and the chart promise too (`operator_pod_deleted`,
`untouched_iff`).
-/
import KubeDepod.Pods.Termination

namespace KubeDepod

open Lts

/-- The system namespaces of the documentation. -/
def documentedNamespaces : List String :=
  ["kube-system", "kube-public", "kube-node-lease", "kube-depod"]

/-! ### Calls and tokens -/

variable {env : PodEnv} {pod : Pod} {n : Nat} {policy : DepodPolicy}
  {policies : List DepodPolicy} {fallback : Action}

/-- A call is made only after both limits have given a token. -/
theorem serve_call
    (h : ∃ e ∈ (serve env pod fallback n policies).1, e.isCall = true) :
    ∃ e ∈ (serve env pod fallback n policies).1, e.takesToken = true := by
  rw [serve_takesToken]
  cases policies with
  | nil =>
      obtain ⟨e, he, -⟩ := h
      cases he
  | cons policy policies =>
      refine ⟨policy, rfl, ?_⟩
      rcases hgranted : bothGrant env n with - | -
      · -- denied: the run ends with the two queries
        obtain ⟨e, he, hcall⟩ := h
        rw [serve_cons, attempt_of_denied hgranted] at he
        simp only [queries, List.append_nil, List.mem_cons, List.not_mem_nil, or_false] at he
        rcases he with rfl | rfl
        · cases hcall
        · cases hcall
      · exact takesTokenFor_of_bothGrant hgranted

/-- No call is made and no token is taken in a quiet run, and only there. -/
theorem quiet_iff_untouched (periodicResyncInterval : Option Duration) (env : PodEnv)
    (pod : Pod) (metrics : Metrics) :
    (∀ e ∈ (runPod periodicResyncInterval env pod metrics).2.log,
        e.isCall = false ∧ e.takesToken = false) ↔ Quiet env pod := by
  obtain ⟨-, hlog, -⟩ := runPod_spec periodicResyncInterval env pod metrics
  have htoken : (∃ e ∈ (reference periodicResyncInterval env pod).1, e.takesToken = true) ↔ _ :=
    serve_takesToken
  have hquiet : Quiet env pod ↔
      ¬ ∃ e ∈ (reference periodicResyncInterval env pod).1, e.takesToken = true := by
    rw [htoken]
    simp only [Quiet, not_exists, not_and, Bool.not_eq_true]
  rw [hlog, hquiet]
  constructor
  · rintro h ⟨e, he, htaken⟩
    rw [(h e he).2] at htaken
    cases htaken
  · intro hnone e he
    constructor
    · rw [Bool.eq_false_iff]
      intro hcall
      exact hnone (serve_call ⟨e, he, hcall⟩)
    · rw [Bool.eq_false_iff]
      intro htaken
      exact hnone ⟨e, he, htaken⟩

/-! ### The guard -/

/-- The guard covers every policy that protects the system namespaces. -/
theorem eligiblePolicies_of_isSystemNamespace
    (hns : isSystemNamespace pod.namespaceOrDefault = true)
    (hprotect : ∀ policy ∈ env.policies, policy.spec.limits.protectSystemNamespaces = true) :
    eligiblePolicies env.oracle pod (stamp pod env.clock 0 env.policies) = [] := by
  rw [eligiblePolicies, List.map_eq_nil_iff, List.filter_eq_nil_iff]
  intro entry hentry
  have hguard : isNamespaceProtected pod.namespaceOrDefault
      entry.1.spec.limits.protectSystemNamespaces
      entry.1.spec.limits.excludedNamespaces = true := by
    simp only [isNamespaceProtected, hprotect _ (mem_of_mem_stamp hentry), hns, Bool.and_self,
      if_true]
  rw [eligible, hguard, Bool.not_true, Bool.and_false, Bool.false_and]
  exact Bool.false_ne_true

/-! ### Runs on a pod of one namespace -/

/-- All requests made for a pod so far. -/
structure PodHistory where
  metrics : Metrics
  requests : List PodEvent

/-- One run: its environment and the version of the pod. -/
structure PodReconcile where
  env : PodEnv
  pod : Pod

namespace PodReconcile

/-- The policies that are to act on the pod, in the order of the loop. -/
def eligible (run : PodReconcile) : List DepodPolicy :=
  eligiblePolicies run.env.oracle run.pod (stamp run.pod run.env.clock 0 run.env.policies)

/-- No policy is to act on the pod. -/
def NoneEligible (run : PodReconcile) : Prop := run.eligible = []

/-- The first policy that is to act on the pod gets a token from neither limit:
the global one denies, and so does its own if it has one. -/
def FirstGetsNone (run : PodReconcile) : Prop :=
  ∃ policy rest, run.eligible = policy :: rest ∧ run.env.limiter 0 = false ∧
    (hasBucket policy.spec.limits.maxDeletesPerMinute = true → run.env.limiter 1 = false)

theorem quiet_iff (run : PodReconcile) :
    Quiet run.env run.pod ↔ run.NoneEligible ∨ run.FirstGetsNone := by
  rw [Quiet, NoneEligible, FirstGetsNone, ← eligible]
  rcases run.eligible with - | ⟨policy, rest⟩
  · simp
  · simp [takesTokenFor]

end PodReconcile

/-- A run on a pod of the namespace, under policies that all protect the
system namespaces. -/
def ProtectedRun (periodicResyncInterval : Option Duration) (ns : String) (s : PodHistory)
    (run : PodReconcile) (s' : PodHistory) : Prop :=
  run.pod.namespaceOrDefault = ns ∧
    (∀ policy ∈ run.env.policies, policy.spec.limits.protectSystemNamespaces = true) ∧
    s' = ⟨(runPod periodicResyncInterval run.env run.pod s.metrics).2.metrics,
      s.requests ++ (runPod periodicResyncInterval run.env run.pod s.metrics).2.log⟩

/-- No call was issued and no token taken. -/
def PodHistory.Untouched (s : PodHistory) : Prop :=
  ∀ e ∈ s.requests, e.isCall = false ∧ e.takesToken = false

variable {periodicResyncInterval : Option Duration} {ns : String} {s s' : PodHistory}
  {run : PodReconcile}

/-- One more run. -/
theorem untouched_step_iff (h : ProtectedRun periodicResyncInterval ns s run s')
    (hs : s.Untouched) : s'.Untouched ↔ Quiet run.env run.pod := by
  obtain ⟨-, -, rfl⟩ := h
  rw [← quiet_iff_untouched periodicResyncInterval run.env run.pod s.metrics]
  constructor
  · intro hs' e he
    exact hs' e (List.mem_append_right _ he)
  · intro hrun e he
    rcases List.mem_append.mp he with he | he
    · exact hs e he
    · exact hrun e he

/-- A policy that deletes every pod that has opted in, outside the system
namespaces. -/
def protectingPolicy : DepodPolicy :=
  { celPolicy "cleanup" "true" with
    spec :=
      { (celPolicy "cleanup" "true").spec with limits := { protectSystemNamespaces := true } } }

/-- A pod of the operator. -/
def operatorPod (ns : String) : Pod :=
  { optedInPod "kube-depod-0" "77aa" with
    metadata := { (optedInPod "kube-depod-0" "77aa").metadata with namespace_ := some ns } }

/-- The operator deletes its own pod. -/
theorem operator_pod_deleted :
    ¬ ∀ (periodicResyncInterval : Option Duration) (ns : String) (metrics : Metrics)
      (π : List (PodReconcile × PodHistory)), ns ∈ documentedNamespaces →
      Execution (ProtectedRun periodicResyncInterval ns) ⟨metrics, []⟩ π →
      ∀ x ∈ states ⟨metrics, []⟩ π, x.Untouched := by
  intro h
  let env := acceptingEnv [protectingPolicy]
  let pod := operatorPod "kube-depod"
  have hstep : ProtectedRun none "kube-depod" ⟨.new, []⟩ ⟨env, pod⟩
      ⟨(runPod none env pod .new).2.metrics, (runPod none env pod .new).2.log⟩ := by
    refine ⟨rfl, fun policy hpolicy => ?_, rfl⟩
    obtain rfl := List.mem_singleton.mp hpolicy
    rfl
  have huntouched := h none "kube-depod" .new [(⟨env, pod⟩, _)] (by decide) ⟨hstep, trivial⟩ _
    (List.mem_cons_of_mem _ (List.mem_singleton_self _))
  obtain ⟨-, htoken⟩ := huntouched (.allowGlobal true) (List.mem_cons_self ..)
  cases htoken

/-- **When the documented namespaces are left alone.**  For a pod of one of
the four namespaces, policies that all protect the system namespaces, and
every clock, CEL oracle, limiter and API server: over any sequence of runs, no
call is issued and no token taken for the pod exactly if in every run no policy
is to act on the pod or the first one that is gets no token.  Outside the
operator's own namespace no policy ever is. -/
theorem untouched_iff {metrics : Metrics} {π : List (PodReconcile × PodHistory)}
    (hns : ns ∈ documentedNamespaces)
    (hπ : Execution (ProtectedRun periodicResyncInterval ns) ⟨metrics, []⟩ π) :
    ((∀ x ∈ states ⟨metrics, []⟩ π, x.Untouched) ↔
        StepsMeet (fun _ run => run.NoneEligible ∨ run.FirstGetsNone) ⟨metrics, []⟩ π) ∧
      (ns ≠ "kube-depod" → StepsMeet (fun _ run => run.NoneEligible) ⟨metrics, []⟩ π) := by
  constructor
  · refine hπ.invariant_iff (I := PodHistory.Untouched) (fun s run s' hstep hs => ?_)
      (fun e he => nomatch he)
    exact (untouched_step_iff hstep hs).trans run.quiet_iff
  · intro hne
    -- the guard knows the other three
    have hsystem : isSystemNamespace ns = true := by
      simp only [documentedNamespaces, List.mem_cons, List.not_mem_nil, or_false] at hns
      rcases hns with rfl | rfl | rfl | rfl
      · rfl
      · rfl
      · rfl
      · exact absurd rfl hne
    refine hπ.stepsMeet fun _ run _ hstep => ?_
    obtain ⟨hrun, hprotect, -⟩ := hstep
    exact eligiblePolicies_of_isSystemNamespace (by rw [hrun, hsystem]) hprotect

/-- The same pod in `kube-system`. -/
theorem untouched_iff_kubeSystem :
    let s : PodHistory := ⟨.new, []⟩
    let env := acceptingEnv [protectingPolicy]
    let pod := operatorPod "kube-system"
    let s' : PodHistory := ⟨(runPod none env pod .new).2.metrics, (runPod none env pod .new).2.log⟩
    ∀ x ∈ states s [((⟨env, pod⟩ : PodReconcile), s')], x.Untouched := by
  intro s env pod s'
  have hπ : Execution (ProtectedRun none "kube-system") s [(⟨env, pod⟩, s')] := by
    refine ⟨⟨rfl, fun policy hpolicy => ?_, rfl⟩, trivial⟩
    obtain rfl := List.mem_singleton.mp hpolicy
    rfl
  obtain ⟨hiff, hguard⟩ := untouched_iff (by decide) hπ
  exact hiff.mpr ((hguard (by decide)).mono fun _ _ => .inl)

end KubeDepod
