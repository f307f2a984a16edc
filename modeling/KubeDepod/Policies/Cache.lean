/-
KubeDepod/Policies/Cache.lean

What one call of `reconcile_policy` does to the policy cache.

`PolicyState` is the part of the context that the call reads and writes: the
reflector's store, the cached policies and the CEL evaluator.
`policyProtocol` says how the effects of the call act on it; the clock, the
API server and the pods are left open, so that a statement about every
execution is a statement about all their answers.

A call for a valid policy replaces the cache by the spec-valid policies of the
store, and a call for an invalid one leaves it alone (`reconcilePolicy_spec`).
-/
import KubeDepod.Controller.ReconcilePolicy
import KubeDepod.Policies.Store

namespace KubeDepod

open Effects

variable {cel : CelEngine}

/-! ### The state of the context -/

/-- `ctx.policy_store`, `ctx.policies` and `ctx.evaluator`. -/
structure PolicyState (cel : CelEngine) where
  store : PolicyStore
  cache : List DepodPolicy
  evaluator : CelEvaluator cel

namespace PolicyState

/-- The replies an effect can have.  The store's `state()` lists its objects
in the order of a hash map. -/
def Permits (s : PolicyState cel) : (e : PolicyEffect) → e.Reply → Prop
  | .validate expr, r => r = (s.evaluator.validate expr).1
  | .storeState, r => r.Perm s.store.entries
  | .nowText, _ => True
  | .patchStatus _ _ _, _ => True
  | .publish _, _ => True
  | .listPods _ _, _ => True
  | .patchPod _ _ _, _ => True

/-- The state after an effect. -/
def after (s : PolicyState cel) : PolicyEffect → PolicyState cel
  | .validate expr => { s with evaluator := (s.evaluator.validate expr).2 }
  | .publish policies => { s with cache := policies }
  | _ => s

end PolicyState

/-- How the effects of `reconcile_policy` act on the context. -/
def policyProtocol (cel : CelEngine) : Protocol PolicyEffect.Reply (PolicyState cel) where
  allowed _ _ := True
  reply e s r s' := s.Permits e r ∧ s' = s.after e

/-- The whole call, from state to state. -/
def ReconcilesPolicy (operatorPodName : String) (policy : DepodPolicy) (s s' : PolicyState cel) :
    Prop :=
  ∃ result, Exec (policyProtocol cel) (reconcilePolicy operatorPodName policy) s result s'

/-! ### The effects outside the cache refresh -/

/-- The effect neither reads the store nor writes the cache. -/
def PolicyEffect.IsQuiet : PolicyEffect → Prop
  | .storeState => False
  | .publish _ => False
  | _ => True

/-- The effect belongs to the validation or to a status report. -/
def PolicyEffect.IsReport : PolicyEffect → Prop
  | .validate _ => True
  | .nowText => True
  | .patchStatus _ _ _ => True
  | _ => False

theorem PolicyEffect.IsReport.isQuiet {e : PolicyEffect} (h : e.IsReport) : e.IsQuiet := by
  cases e with
  | storeState => exact h.elim
  | publish _ => exact h.elim
  | validate _ => trivial
  | nowText => trivial
  | patchStatus _ _ _ => trivial
  | listPods _ _ => trivial
  | patchPod _ _ _ => trivial

theorem report_uses (policy : DepodPolicy) (reported : PolicyCondition → Bool)
    (condition : String → PolicyCondition) :
    (report policy reported condition).Uses PolicyEffect.IsReport := by
  rw [report]
  split
  · exact ⟨trivial, fun _ => ⟨trivial, fun _ => trivial⟩⟩
  · exact trivial

/-- The effect lists or touches pods. -/
def PolicyEffect.IsTouch : PolicyEffect → Prop
  | .listPods _ _ => True
  | .patchPod _ _ _ => True
  | _ => False

theorem PolicyEffect.IsTouch.isQuiet {e : PolicyEffect} (h : e.IsTouch) : e.IsQuiet := by
  cases e with
  | listPods _ _ => trivial
  | patchPod _ _ _ => trivial
  | validate _ => exact h.elim
  | nowText => exact h.elim
  | patchStatus _ _ _ => exact h.elim
  | storeState => exact h.elim
  | publish _ => exact h.elim

theorem touchPods_uses (api : PodApi) (patch : TouchPatch) (pods : List Pod) :
    (touchPods api patch pods).Uses PolicyEffect.IsTouch := by
  induction pods with
  | nil => exact trivial
  | cons pod pods ih => exact ⟨trivial, fun _ => ih⟩

theorem touchNamespaces_uses (policy : DepodPolicy) (patch : TouchPatch)
    (namespaces : List String) :
    (touchNamespaces policy patch namespaces).Uses PolicyEffect.IsTouch := by
  induction namespaces with
  | nil => exact trivial
  | cons ns namespaces ih =>
      refine ⟨trivial, fun r => ?_⟩
      rcases r with e | pods
      · exact ih
      · exact (touchPods_uses ..).bind fun _ => ih

/-- The listings and the touches, which end the call. -/
def touch (policy : DepodPolicy) (patch : TouchPatch) : PolicyProg (Except Error Action) :=
  if (policyNamespaces policy).isEmpty then do
    match ← request (.listPods .all (labelSelector policy)) with
    | .error _ => return .ok (.requeue (Duration.fromSecs 60))
    | .ok pods => do
        touchPods .all patch (podsToTrigger policy pods)
        return .ok .awaitChange
  else do
    touchNamespaces policy patch (policyNamespaces policy)
    return .ok .awaitChange

theorem afterRefresh_eq (operatorPodName : String) (policy : DepodPolicy) :
    afterRefresh operatorPodName policy
      = (do
        reportReady policy
        let now ← request .nowText
        touch policy ⟨operatorPodName, policy.nameAny, now⟩) := rfl

theorem touch_uses (policy : DepodPolicy) (patch : TouchPatch) :
    (touch policy patch).Uses PolicyEffect.IsTouch := by
  rw [touch]
  split
  · refine ⟨trivial, fun r => ?_⟩
    rcases r with e | pods
    · exact trivial
    · exact (touchPods_uses ..).bind fun _ => trivial
  · exact (touchNamespaces_uses ..).bind fun _ => trivial

theorem afterRefresh_uses (operatorPodName : String) (policy : DepodPolicy) :
    (afterRefresh operatorPodName policy).Uses PolicyEffect.IsQuiet := by
  rw [afterRefresh_eq]
  refine ((report_uses ..).mono fun _ => PolicyEffect.IsReport.isQuiet).bind
    fun _ => ⟨trivial, fun now => ?_⟩
  exact (touch_uses ..).mono fun _ => PolicyEffect.IsTouch.isQuiet

/-! ### The validation under any protocol -/

/-- Under `P`, the effects outside the refresh are allowed in the states of `I`
and stay there, and `validate` answers with the compiler's verdict. -/
structure RespectsQuiet {σ : Type} (cel : CelEngine) (P : Protocol PolicyEffect.Reply σ)
    (I : σ → Prop) : Prop where
  allowed : ∀ e s, e.IsQuiet → I s → P.allowed e s
  keeps : ∀ e s r s', e.IsQuiet → I s → P.reply e s r s' → I s'
  verdict : ∀ expr s r s', P.reply (.validate expr) s r s' → r = cel.verdict expr

/-- The same for the effects of the validation and of a status report. -/
structure RespectsReports {σ : Type} (cel : CelEngine) (P : Protocol PolicyEffect.Reply σ)
    (I : σ → Prop) : Prop where
  allowed : ∀ e s, e.IsReport → I s → P.allowed e s
  keeps : ∀ e s r s', e.IsReport → I s → P.reply e s r s' → I s'
  verdict : ∀ expr s r s', P.reply (.validate expr) s r s' → r = cel.verdict expr

section
variable {σ : Type} {P : Protocol PolicyEffect.Reply σ} {I : σ → Prop}

theorem RespectsQuiet.wp {α : Type} {p : PolicyProg α} {s : σ} (h : RespectsQuiet cel P I)
    (hp : p.Uses PolicyEffect.IsQuiet) (hs : I s) : Effects.wp P p (fun _ => I) s :=
  wp_of_uses hp h.allowed h.keeps hs

theorem RespectsReports.wp {α : Type} {p : PolicyProg α} {s : σ} (h : RespectsReports cel P I)
    (hp : p.Uses PolicyEffect.IsReport) (hs : I s) : Effects.wp P p (fun _ => I) s :=
  wp_of_uses hp h.allowed h.keeps hs

theorem RespectsQuiet.respectsReports (h : RespectsQuiet cel P I) : RespectsReports cel P I where
  allowed := fun e s he => h.allowed e s he.isQuiet
  keeps := fun e s r s' he => h.keeps e s r s' he.isQuiet
  verdict := h.verdict

/-- The two validations together decide `CelEngine.valid`. -/
theorem RespectsReports.wp_checkPolicy {s : σ} (h : RespectsReports cel P I)
    (policy : DepodPolicy) (hs : I s) :
    Effects.wp P (checkPolicy policy) (fun checked s' => checked = cel.valid policy ∧ I s') s := by
  rw [checkPolicy, CelEngine.valid, DepodPolicySpec.isValid, CelEngine.accepts]
  rcases hspec : policy.spec.validate with e | _
  · -- the spec is invalid: the report, then `false`
    refine wp_bind.mpr (wp_mono (fun _ t ht => ?_) (h.wp (report_uses ..) hs))
    exact ⟨rfl, ht⟩
  rcases hexpr : policy.spec.when_.expression with - | expr
  · exact ⟨rfl, hs⟩
  rcases htype : policy.spec.when_.conditionType with - | -
  · -- CEL: the compiler's verdict decides
    refine ⟨h.allowed _ s trivial hs, fun r t hr => ?_⟩
    have ht : I t := h.keeps _ s r t trivial hs hr
    have hverdict : r = cel.verdict expr := h.verdict expr s r t hr
    rw [CelEngine.verdict] at hverdict
    rcases hcompile : cel.compile expr with e | program
    · rw [hcompile] at hverdict
      subst hverdict
      show Effects.wp _ (reportInvalidCel policy _ >>= fun _ => pure false) _ _
      refine wp_bind.mpr (wp_mono (fun _ u hu => ?_) (h.wp (report_uses ..) ht))
      exact ⟨by simp [Except.isOk, Except.toBool, hcompile], hu⟩
    · rw [hcompile] at hverdict
      subst hverdict
      exact ⟨by simp [Except.isOk, Except.toBool, hcompile], ht⟩
  · exact ⟨rfl, hs⟩

/-- A call for a valid policy: between the reports there is only the refresh,
and after them only the listings and the touches. -/
theorem RespectsReports.wp_call_of_valid {s : σ} {policy : DepodPolicy} {operatorPodName : String}
    {post : Except Error Action → σ → Prop} (h : RespectsReports cel P I)
    (hvalid : cel.valid policy = true) (hs : I s)
    (hrefresh : ∀ s, I s → Effects.wp P refreshCache (fun _ => I) s)
    (htouch : ∀ now s, I s →
      Effects.wp P (touch policy ⟨operatorPodName, policy.nameAny, now⟩) post s) :
    Effects.wp P (reconcilePolicy operatorPodName policy) post s := by
  rw [reconcilePolicy, wp_bind]
  refine wp_mono ?_ (h.wp_checkPolicy policy hs)
  rintro checked s ⟨rfl, hs⟩
  rw [hvalid, if_pos rfl, wp_bind]
  refine wp_mono (fun _ s hs => ?_) (hrefresh s hs)
  rw [afterRefresh_eq, wp_bind]
  refine wp_mono (fun _ s hs => ?_) (h.wp (report_uses ..) hs)
  -- the clock reading for the patch
  refine ⟨h.allowed _ s trivial hs, fun now s' hnow => ?_⟩
  exact htouch now s' (h.keeps _ s now s' trivial hs hnow)

end

/-! ### The whole call -/

/-- The store and the cache are as in `s`. -/
def SameCache (s s' : PolicyState cel) : Prop :=
  s'.store = s.store ∧ s'.cache = s.cache

/-- An effect outside the refresh keeps store and cache. -/
theorem sameCache_after (s : PolicyState cel) {e : PolicyEffect} (hquiet : e.IsQuiet) :
    SameCache s (s.after e) := by
  cases e with
  | storeState => exact hquiet.elim
  | publish _ => exact hquiet.elim
  | validate _ => exact ⟨rfl, rfl⟩
  | nowText => exact ⟨rfl, rfl⟩
  | patchStatus _ _ _ => exact ⟨rfl, rfl⟩
  | listPods _ _ => exact ⟨rfl, rfl⟩
  | patchPod _ _ _ => exact ⟨rfl, rfl⟩

theorem respectsQuiet_policyProtocol (s : PolicyState cel) :
    RespectsQuiet cel (policyProtocol cel) (SameCache s) where
  allowed := by
    intro _ _ _ _
    trivial
  keeps := by
    rintro e t r _ hquiet ht ⟨-, rfl⟩
    obtain ⟨hstore, hcache⟩ := sameCache_after t hquiet
    exact ⟨hstore.trans ht.1, hcache.trans ht.2⟩
  verdict := by
    rintro expr t r _ ⟨hr, -⟩
    exact hr.trans (t.evaluator.validate_eq expr)

/-- The cache after a call: the spec-valid policies of the store if the policy
is valid, otherwise what it was.  The store does not change. -/
theorem reconcilePolicy_spec {operatorPodName : String} {policy : DepodPolicy}
    {s s' : PolicyState cel} (h : ReconcilesPolicy operatorPodName policy s s') :
    s'.store = s.store ∧
      if cel.valid policy then
        ∃ state : List DepodPolicy, state.Perm s.store.entries ∧
          s'.cache = state.filter fun q => q.spec.isValid
      else
        s'.cache = s.cache := by
  obtain ⟨result, hexec⟩ := h
  apply hexec.of_wp
  rw [reconcilePolicy, wp_bind]
  have hquiet := respectsQuiet_policyProtocol s
  refine wp_mono ?_ (hquiet.respectsReports.wp_checkPolicy policy ⟨rfl, rfl⟩)
  rintro checked t ⟨rfl, hstore, hcache⟩
  split
  · -- the refresh, then effects that keep what it published
    refine ⟨trivial, fun state u ⟨hstate, hu⟩ => ⟨trivial, fun _ v ⟨_, hv⟩ => ?_⟩⟩
    subst hu hv
    rw [PolicyState.Permits, hstore] at hstate
    refine wp_mono (fun _ w hw => ?_)
      ((respectsQuiet_policyProtocol _).wp (afterRefresh_uses ..) ⟨rfl, rfl⟩)
    exact ⟨hw.1.trans hstore, state, hstate, hw.2⟩
  · exact ⟨hstore, hcache⟩

/-- An API server that accepts every patch and lists no pods. -/
def PolicyState.plainAnswer (s : PolicyState cel) : (e : PolicyEffect) → e.Reply
  | .validate expr => (s.evaluator.validate expr).1
  | .nowText => "2024-01-01T00:00:00+00:00"
  | .patchStatus _ _ _ => .ok ()
  | .storeState => s.store.entries
  | .publish _ => ()
  | .listPods _ _ => .ok []
  | .patchPod _ _ _ => .ok ()

theorem PolicyState.permits_plainAnswer (s : PolicyState cel) (e : PolicyEffect) :
    s.Permits e (s.plainAnswer e) := by
  cases e with
  | validate expr => exact rfl
  | storeState => exact List.Perm.refl _
  | nowText => trivial
  | patchStatus _ _ _ => trivial
  | publish _ => trivial
  | listPods _ _ => trivial
  | patchPod _ _ _ => trivial

/-- A call can always run to its end. -/
theorem exists_reconcilesPolicy (operatorPodName : String) (policy : DepodPolicy)
    (s : PolicyState cel) : ∃ s', ReconcilesPolicy operatorPodName policy s s' :=
  ⟨_, _, exec_run (P := policyProtocol cel) (h := fun e s => (s.plainAnswer e, s.after e))
    (fun e s => ⟨s.permits_plainAnswer e, rfl⟩) _ s⟩

end KubeDepod
