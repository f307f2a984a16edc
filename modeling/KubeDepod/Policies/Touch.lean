/-
KubeDepod/Policies/Touch.lean

Which pods a call of `reconcile_policy` touches.

The function has two copies of list, filter and patch: one on `Api::all`, for
a policy without a namespace restriction, and one on an `Api::namespaced` for
each namespace listed.  Both list and filter alike, but a patch on `Api::all`
has no namespace in its path, and so it addresses no pod.  The two paths agree
only where there is nothing to touch (`all_namespaces_untouched`,
`sameTouches_iff`).

All API calls succeed here.  The label selector of a listing is evaluated by
the API server and is a parameter, `selects`.
-/
import KubeDepod.Policies.Cache

namespace KubeDepod

open Effects

variable {cel : CelEngine}

/-! ### The cluster and the paths of requests -/

/-- The pods of a cluster and its namespaces. -/
structure Cluster where
  pods : List Pod
  namespaces : List String
  nodup : namespaces.Nodup
  named : ∀ pod ∈ pods, pod.metadata.name.isSome = true
  placed : ∀ pod ∈ pods, ∃ ns ∈ namespaces, pod.metadata.namespace_ = some ns

/-- The listing of this `Api` is about the pod. -/
def PodApi.covers : PodApi → Pod → Bool
  | .all, _ => true
  | .namespaced ns, pod => pod.metadata.namespace_ == some ns

/-- The namespace and the name in the path of a request. -/
structure RequestPath where
  namespace_ : Option String
  name : String
deriving DecidableEq

/-- `Api::all` puts no namespace into the path, `Api::namespaced` does. -/
def PodApi.path : PodApi → String → RequestPath
  | .all, name => ⟨none, name⟩
  | .namespaced ns, name => ⟨some ns, name⟩

/-- The path of a pod. -/
def Pod.path (pod : Pod) : RequestPath := ⟨some pod.namespaceOrDefault, pod.nameAny⟩

/-! ### The API server -/

/-- A listing: the pods in scope that the label selector selects. -/
def Cluster.selected (cluster : Cluster) (selects : String → Pod → Bool) (api : PodApi)
    (labels : Option String) : List Pod :=
  cluster.pods.filter fun pod => api.covers pod && labels.all fun labels => selects labels pod

/-- The replies an effect can have when all API calls succeed. -/
def Cluster.Permits (cel : CelEngine) (cluster : Cluster) (selects : String → Pod → Bool) :
    (e : PolicyEffect) → e.Reply → Prop
  | .validate expr, r => r = cel.verdict expr
  | .nowText, _ => True
  | .patchStatus _ _ _, r => r = .ok ()
  | .storeState, _ => True
  | .publish _, _ => True
  | .listPods api labels, r =>
      ∃ pods, r = .ok pods ∧ pods.Perm (cluster.selected selects api labels)
  | .patchPod _ _ _, r => r = .ok ()

/-- The paths patched so far, after one more effect. -/
def pathsAfter (paths : List RequestPath) : PolicyEffect → List RequestPath
  | .patchPod api name _ => paths ++ [api.path name]
  | _ => paths

/-- The state is the list of the paths patched so far. -/
def touchProtocol (cel : CelEngine) (cluster : Cluster) (selects : String → Pod → Bool) :
    Protocol PolicyEffect.Reply (List RequestPath) where
  allowed _ _ := True
  reply e paths r paths' := cluster.Permits cel selects e r ∧ paths' = pathsAfter paths e

/-- A call for the policy can patch these paths. -/
def Touches (cel : CelEngine) (cluster : Cluster) (selects : String → Pod → Bool)
    (operatorPodName : String) (policy : DepodPolicy) (paths : List RequestPath) : Prop :=
  ∃ result, Exec (touchProtocol cel cluster selects) (reconcilePolicy operatorPodName policy)
    [] result paths

/-- The pod has the labels of the policy's selector. -/
def Pod.CarriesLabels (pod : Pod) (policy : DepodPolicy) : Prop :=
  ∀ podSelector, policy.spec.match_.podSelector = some podSelector →
    ∀ entry ∈ podSelector.matchLabels.entries, pod.labels.get entry.1 = some entry.2

/-- An equality-based selector selects the pods that have its labels. -/
def SelectsCarriers (selects : String → Pod → Bool) (cluster : Cluster) (policy : DepodPolicy) :
    Prop :=
  ∀ labels, labelSelector policy = some labels →
    ∀ pod ∈ cluster.pods, pod.CarriesLabels policy → selects labels pod = true

/-! ### What is touched -/

/-- The pod has opted in and matches. -/
def triggers (policy : DepodPolicy) (pod : Pod) : Bool :=
  checkTrigger pod policy.spec.trigger.annotationKey policy.spec.trigger.annotationValues &&
    matchesPolicy pod policy

variable {cluster : Cluster} {selects : String → Pod → Bool} {policy : DepodPolicy}
  {operatorPodName : String} {paths : List RequestPath}

theorem carriesLabels_of_matchesPolicy {pod : Pod} (h : matchesPolicy pod policy = true) :
    pod.CarriesLabels policy := by
  intro podSelector hselector entry hentry
  simp only [matchesPolicy, hselector, Bool.and_eq_true, Bool.or_eq_true] at h
  rcases h.2 with hempty | hall
  · have hnil : podSelector.matchLabels.entries = [] := List.isEmpty_iff.mp hempty
    rw [hnil] at hentry
    cases hentry
  · exact beq_iff_eq.mp (List.all_eq_true.mp hall entry hentry)

/-- The label selector leaves out no pod that the filter would keep. -/
theorem mem_podsToTrigger (h : SelectsCarriers selects cluster policy) {api : PodApi}
    {pods : List Pod} (hpods : pods.Perm (cluster.selected selects api (labelSelector policy)))
    {pod : Pod} :
    pod ∈ podsToTrigger policy pods ↔
      pod ∈ cluster.pods ∧ api.covers pod = true ∧ triggers policy pod = true := by
  rw [podsToTrigger, List.mem_filter, hpods.mem_iff, Cluster.selected, List.mem_filter,
    Bool.and_eq_true, and_assoc]
  refine and_congr_right fun hpod => ?_
  -- a pod that matches the policy carries the labels of its selector
  constructor
  · rintro ⟨⟨hcovers, -⟩, htriggers⟩
    exact ⟨hcovers, htriggers⟩
  · rintro ⟨hcovers, htriggers⟩
    have hmatches := (Bool.and_eq_true_iff.mp htriggers).2
    refine ⟨⟨hcovers, ?_⟩, htriggers⟩
    rcases hlabels : labelSelector policy with - | labels
    · rfl
    · exact h labels hlabels pod hpod (carriesLabels_of_matchesPolicy hmatches)

theorem wp_touchPods (api : PodApi) (patch : TouchPatch) (pods : List Pod)
    (paths : List RequestPath) :
    wp (touchProtocol cel cluster selects) (touchPods api patch pods)
      (fun _ paths' => paths' = paths ++ pods.map fun pod => api.path pod.nameAny) paths := by
  induction pods generalizing paths with
  | nil => exact (List.append_nil paths).symm
  | cons pod pods ih =>
      refine ⟨trivial, fun r s hr => ?_⟩
      obtain ⟨-, rfl⟩ := hr
      refine wp_mono (fun _ s hs => ?_) (ih _)
      rw [hs, pathsAfter, List.append_assoc]
      rfl

/-- The path belongs to the touched pods of one listing. -/
def TouchedThrough (cluster : Cluster) (policy : DepodPolicy) (api : PodApi)
    (path : RequestPath) : Prop :=
  ∃ pod ∈ cluster.pods, api.covers pod = true ∧ triggers policy pod = true ∧
    api.path pod.nameAny = path

theorem mem_map_podsToTrigger (h : SelectsCarriers selects cluster policy) {api : PodApi}
    {pods : List Pod} (hpods : pods.Perm (cluster.selected selects api (labelSelector policy)))
    {path : RequestPath} :
    path ∈ (podsToTrigger policy pods).map (fun pod => api.path pod.nameAny) ↔
      TouchedThrough cluster policy api path := by
  rw [List.mem_map, TouchedThrough]
  refine exists_congr fun pod => ?_
  rw [mem_podsToTrigger h hpods, and_assoc, and_assoc]

theorem wp_touchNamespaces (h : SelectsCarriers selects cluster policy) (patch : TouchPatch)
    (namespaces : List String) (paths : List RequestPath) :
    wp (touchProtocol cel cluster selects) (touchNamespaces policy patch namespaces)
      (fun _ paths' => ∀ path, path ∈ paths' ↔ path ∈ paths ∨
        ∃ ns ∈ namespaces, TouchedThrough cluster policy (.namespaced ns) path) paths := by
  induction namespaces generalizing paths with
  | nil =>
      intro path
      simp
  | cons ns namespaces ih =>
      refine ⟨trivial, fun r s hr => ?_⟩
      obtain ⟨⟨pods, rfl, hpods⟩, rfl⟩ := hr
      show wp _ (touchPods (.namespaced ns) patch (podsToTrigger policy pods) >>=
        fun _ => touchNamespaces policy patch namespaces) _ _
      refine wp_bind.mpr (wp_mono (fun _ s hs => ?_) (wp_touchPods ..))
      refine wp_mono (fun _ s' hs' path => ?_) (ih s)
      rw [hs', hs, List.mem_append, mem_map_podsToTrigger h hpods, or_assoc]
      simp

theorem respectsReports_touchProtocol (paths : List RequestPath) :
    RespectsReports cel (touchProtocol cel cluster selects) (· = paths) where
  allowed := fun _ _ _ _ => trivial
  keeps := by
    rintro e s r _ hreport rfl ⟨-, rfl⟩
    cases e with
    | patchPod _ _ _ => exact hreport.elim
    | validate _ => rfl
    | nowText => rfl
    | patchStatus _ _ _ => rfl
    | storeState => rfl
    | publish _ => rfl
    | listPods _ _ => rfl
  verdict := by
    rintro expr s r _ ⟨hr, -⟩
    exact hr

/-- The calls for a valid policy touch what the listings of its namespaces, or
the one listing of all, let through. -/
theorem Touches.mem_iff (h : Touches cel cluster selects operatorPodName policy paths)
    (hvalid : cel.valid policy = true) (hselects : SelectsCarriers selects cluster policy)
    (path : RequestPath) :
    path ∈ paths ↔
      if (policyNamespaces policy).isEmpty then TouchedThrough cluster policy .all path
      else ∃ ns ∈ policyNamespaces policy,
        TouchedThrough cluster policy (.namespaced ns) path := by
  obtain ⟨result, hexec⟩ := h
  revert path
  apply hexec.of_wp
  refine (respectsReports_touchProtocol []).wp_call_of_valid hvalid rfl ?_ ?_
  · rintro _ rfl
    refine ⟨trivial, fun state s hs => ⟨trivial, fun _ s' hs' => ?_⟩⟩
    obtain ⟨-, rfl⟩ := hs
    obtain ⟨-, rfl⟩ := hs'
    rfl
  rintro now _ rfl
  rw [touch]
  split
  · refine ⟨trivial, fun r s hr => ?_⟩
    obtain ⟨⟨pods, rfl, hpods⟩, rfl⟩ := hr
    show wp _ (touchPods .all _ (podsToTrigger policy pods) >>= _) _ _
    refine wp_bind.mpr (wp_mono (fun _ s hs => ?_) (wp_touchPods ..))
    intro path
    rw [hs]
    exact mem_map_podsToTrigger hselects hpods
  · refine wp_bind.mpr (wp_mono (fun _ s hs => ?_) (wp_touchNamespaces hselects ..))
    intro path
    rw [hs]
    simp

/-- The API server that answers at once, in the order of the cluster. -/
def Cluster.plainAnswer (cel : CelEngine) (cluster : Cluster) (selects : String → Pod → Bool) :
    (e : PolicyEffect) → e.Reply
  | .validate expr => cel.verdict expr
  | .nowText => "2024-01-01T00:00:00+00:00"
  | .patchStatus _ _ _ => .ok ()
  | .storeState => []
  | .publish _ => ()
  | .listPods api labels => .ok (cluster.selected selects api labels)
  | .patchPod _ _ _ => .ok ()

theorem Cluster.permits_plainAnswer (cel : CelEngine) (cluster : Cluster)
    (selects : String → Pod → Bool) (e : PolicyEffect) :
    cluster.Permits cel selects e (cluster.plainAnswer cel selects e) := by
  cases e with
  | listPods api labels => exact ⟨_, rfl, List.Perm.refl _⟩
  | validate expr => exact rfl
  | patchStatus _ _ _ => exact rfl
  | patchPod _ _ _ => exact rfl
  | storeState => trivial
  | publish _ => trivial
  | nowText => trivial

theorem exists_touches (cel : CelEngine) (cluster : Cluster) (selects : String → Pod → Bool)
    (operatorPodName : String) (policy : DepodPolicy) :
    ∃ paths, Touches cel cluster selects operatorPodName policy paths :=
  ⟨_, _, exec_run (P := touchProtocol cel cluster selects)
    (h := fun e paths => (cluster.plainAnswer cel selects e, pathsAfter paths e))
    (fun e _ => ⟨cluster.permits_plainAnswer cel selects e, rfl⟩) _ []⟩

/-! ### The two paths -/

/-- The same policy, restricted to the namespaces listed. -/
def DepodPolicy.restrictedTo (policy : DepodPolicy) (namespaces : List String) : DepodPolicy :=
  { policy with
    spec :=
      { policy.spec with
        match_ := { policy.spec.match_ with namespaceSelector := some ⟨namespaces⟩ } } }

theorem Cluster.namespaceOrDefault (cluster : Cluster) {pod : Pod} (hpod : pod ∈ cluster.pods) :
    pod.metadata.namespace_ = some pod.namespaceOrDefault ∧
      pod.namespaceOrDefault ∈ cluster.namespaces := by
  obtain ⟨ns, hns, hpod⟩ := cluster.placed pod hpod
  have hdefault : pod.namespaceOrDefault = ns := by
    rw [Pod.namespaceOrDefault, hpod]
    rfl
  rw [hdefault]
  exact ⟨hpod, hns⟩

/-- In the cluster, the list of all namespaces restricts nothing. -/
theorem triggers_restrictedTo (hall : policyNamespaces policy = []) {pod : Pod}
    (hpod : pod ∈ cluster.pods) :
    triggers (policy.restrictedTo cluster.namespaces) pod = triggers policy pod := by
  have hns := (cluster.namespaceOrDefault hpod).2
  have hselector : ∀ nsSelector, policy.spec.match_.namespaceSelector = some nsSelector →
      nsSelector.matchNames = [] := by
    intro nsSelector hselector
    rwa [policyNamespaces, hselector] at hall
  rcases hsome : policy.spec.match_.namespaceSelector with - | nsSelector
  · simp [triggers, matchesPolicy, DepodPolicy.restrictedTo, hsome, hns]
  · simp [triggers, matchesPolicy, DepodPolicy.restrictedTo, hsome, hselector _ hsome, hns]

/-- The path is that of a pod that has opted in and matches. -/
def PathOfTriggered (cluster : Cluster) (policy : DepodPolicy) (path : RequestPath) : Prop :=
  ∃ pod ∈ cluster.pods, triggers policy pod = true ∧ pod.path = path

theorem pathOfTriggered_iff (hall : policyNamespaces policy = []) (path : RequestPath) :
    (∃ ns ∈ cluster.namespaces,
        TouchedThrough cluster (policy.restrictedTo cluster.namespaces) (.namespaced ns) path) ↔
      PathOfTriggered cluster policy path := by
  constructor
  · rintro ⟨ns, -, pod, hpod, hcovers, htriggers, hpath⟩
    rw [triggers_restrictedTo hall hpod] at htriggers
    refine ⟨pod, hpod, htriggers, ?_⟩
    -- the listing is that of the pod's own namespace
    have hns : some ns = some pod.namespaceOrDefault := by
      rw [← (cluster.namespaceOrDefault hpod).1]
      exact (beq_iff_eq.mp hcovers).symm
    rw [← hpath, Pod.path, ← hns]
    rfl
  · rintro ⟨pod, hpod, htriggers, hpath⟩
    obtain ⟨hns, hmem⟩ := cluster.namespaceOrDefault hpod
    refine ⟨pod.namespaceOrDefault, hmem, pod, hpod, ?_, ?_, hpath⟩
    · rw [PodApi.covers, hns, beq_self_eq_true]
    · rwa [triggers_restrictedTo hall hpod]

/-- A policy restricted to all namespaces touches the pods that it matches and
that have opted in, each by namespace and name. -/
theorem Touches.restricted_mem_iff (hall : policyNamespaces policy = [])
    (h : Touches cel cluster selects operatorPodName (policy.restrictedTo cluster.namespaces) paths)
    (hvalid : cel.valid policy = true) (hselects : SelectsCarriers selects cluster policy)
    (path : RequestPath) : path ∈ paths ↔ PathOfTriggered cluster policy path := by
  rw [h.mem_iff hvalid hselects, ← pathOfTriggered_iff hall]
  show (if cluster.namespaces.isEmpty then _ else _) ↔ _
  rcases hnamespaces : cluster.namespaces with - | ⟨ns, rest⟩
  · -- no namespaces, so no pods
    have hnone : ∀ pod, pod ∉ cluster.pods := by
      intro pod hpod
      have hmem := (cluster.namespaceOrDefault hpod).2
      rw [hnamespaces] at hmem
      cases hmem
    refine iff_of_false ?_ ?_
    · rintro ⟨pod, hpod, -⟩
      exact hnone pod hpod
    · rintro ⟨_, hmem, -⟩
      cases hmem
  · exact Iff.rfl

/-- A policy without restriction patches paths without a namespace. -/
theorem Touches.all_mem_iff (hall : policyNamespaces policy = [])
    (h : Touches cel cluster selects operatorPodName policy paths)
    (hvalid : cel.valid policy = true) (hselects : SelectsCarriers selects cluster policy)
    (path : RequestPath) :
    path ∈ paths ↔
      ∃ pod ∈ cluster.pods, triggers policy pod = true ∧ ⟨none, pod.nameAny⟩ = path := by
  rw [h.mem_iff hvalid hselects, hall]
  show TouchedThrough cluster policy .all path ↔ _
  refine exists_congr fun pod => and_congr_right fun _ => ?_
  exact and_iff_right rfl

/-- The call for a policy touches the pods that it matches and that have opted
in; so does the call for the policy restricted to all namespaces; and every
patch has the namespace and the name of such a pod in its path. -/
def SameTouches (cel : CelEngine) (cluster : Cluster) (selects : String → Pod → Bool)
    (operatorPodName : String) (policy : DepodPolicy) : Prop :=
  ∀ paths paths', Touches cel cluster selects operatorPodName policy paths →
    Touches cel cluster selects operatorPodName (policy.restrictedTo cluster.namespaces) paths' →
    (∀ path, path ∈ paths ↔ PathOfTriggered cluster policy path) ∧
      (∀ path, path ∈ paths ↔ path ∈ paths') ∧
      ∀ path ∈ paths ++ paths', PathOfTriggered cluster policy path

/-- A cluster with one pod. -/
def onePodCluster : Cluster where
  pods := [optedInPod "web-0" "4e1f"]
  namespaces := ["default"]
  nodup := List.nodup_singleton _
  named := by
    intro pod hpod
    obtain rfl := List.mem_singleton.mp hpod
    rfl
  placed := by
    intro pod hpod
    obtain rfl := List.mem_singleton.mp hpod
    exact ⟨"default", List.mem_singleton_self _, rfl⟩

/-- The patch for `web-0` does not say in which namespace it is. -/
theorem all_namespaces_untouched :
    ¬ ∀ (cel : CelEngine) (cluster : Cluster) (selects : String → Pod → Bool)
      (operatorPodName : String) (policy : DepodPolicy), cel.valid policy = true →
      policyNamespaces policy = [] → SelectsCarriers selects cluster policy →
      SameTouches cel cluster selects operatorPodName policy := by
  intro h
  let cel : CelEngine := ⟨Unit, fun _ => .ok ()⟩
  let policy := ttlPolicy "cleanup" 3600
  have hvalid : cel.valid policy = true := by decide
  have hselects : SelectsCarriers (fun _ _ => true) onePodCluster policy := fun _ _ _ _ _ => rfl
  obtain ⟨paths, hpaths⟩ := exists_touches cel onePodCluster (fun _ _ => true) "operator" policy
  obtain ⟨paths', hpaths'⟩ := exists_touches cel onePodCluster (fun _ _ => true) "operator"
    (policy.restrictedTo onePodCluster.namespaces)
  obtain ⟨htouched, -, -⟩ := h cel _ _ _ policy hvalid rfl hselects paths paths' hpaths hpaths'
  have hmem : (⟨none, "web-0"⟩ : RequestPath) ∈ paths :=
    (hpaths.all_mem_iff rfl hvalid hselects _).mpr
      ⟨optedInPod "web-0" "4e1f", List.mem_singleton_self _, by decide, rfl⟩
  obtain ⟨pod, -, -, hpath⟩ := (htouched _).mp hmem
  cases hpath

/-- **Where the two paths touch the same pods.**  For every cluster and every
valid policy without a namespace restriction: restricted to all namespaces it
touches exactly the pods that it matches and that have opted in, and without
the restriction it does so exactly if there are none. -/
theorem sameTouches_iff (hvalid : cel.valid policy = true)
    (hall : policyNamespaces policy = []) (hselects : SelectsCarriers selects cluster policy) :
    (∀ paths,
        Touches cel cluster selects operatorPodName (policy.restrictedTo cluster.namespaces) paths →
        ∀ path, path ∈ paths ↔ PathOfTriggered cluster policy path) ∧
      (SameTouches cel cluster selects operatorPodName policy ↔
        ∀ pod ∈ cluster.pods, triggers policy pod = false) := by
  refine ⟨fun paths h => h.restricted_mem_iff hall hvalid hselects, ?_, ?_⟩
  · -- a pod to touch gives a path without a namespace, which is no pod's path
    intro hsame pod hpod
    obtain ⟨paths, hpaths⟩ := exists_touches cel cluster selects operatorPodName policy
    obtain ⟨paths', hpaths'⟩ := exists_touches cel cluster selects operatorPodName
      (policy.restrictedTo cluster.namespaces)
    obtain ⟨htouched, -, -⟩ := hsame paths paths' hpaths hpaths'
    rw [Bool.eq_false_iff]
    intro htriggers
    have hmem : (⟨none, pod.nameAny⟩ : RequestPath) ∈ paths :=
      (hpaths.all_mem_iff hall hvalid hselects _).mpr ⟨pod, hpod, htriggers, rfl⟩
    obtain ⟨other, -, -, hpath⟩ := (htouched _).mp hmem
    cases hpath
  · intro hnone paths paths' hpaths hpaths'
    have hno : ∀ path, ¬ PathOfTriggered cluster policy path := by
      rintro path ⟨pod, hpod, htriggers, -⟩
      rw [hnone pod hpod] at htriggers
      cases htriggers
    have hempty : ∀ path, path ∉ paths := by
      intro path hmem
      obtain ⟨pod, hpod, htriggers, -⟩ := (hpaths.all_mem_iff hall hvalid hselects _).mp hmem
      rw [hnone pod hpod] at htriggers
      cases htriggers
    have hempty' : ∀ path, path ∉ paths' := fun path hmem =>
      hno path ((hpaths'.restricted_mem_iff hall hvalid hselects _).mp hmem)
    refine ⟨fun path => iff_of_false (hempty path) (hno path),
      fun path => iff_of_false (hempty path) (hempty' path), fun path hmem => ?_⟩
    rcases List.mem_append.mp hmem with hmem | hmem
    · exact absurd hmem (hempty path)
    · exact absurd hmem (hempty' path)

/-- For the one pod of the cluster. -/
theorem sameTouches_iff_onePod :
    let cel : CelEngine := ⟨Unit, fun _ => .ok ()⟩
    SameTouches cel onePodCluster (fun _ _ => true) "operator" (ttlPolicy "cleanup" 3600) ↔
      ∀ pod ∈ onePodCluster.pods, triggers (ttlPolicy "cleanup" 3600) pod = false :=
  (sameTouches_iff (by decide) rfl fun _ _ _ _ _ => rfl).2

end KubeDepod
