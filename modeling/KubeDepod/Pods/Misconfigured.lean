/-
KubeDepod/Pods/Misconfigured.lean

The branches for misconfigured policies are never reached.

The cache holds spec-valid policies only, from the empty cache on and whatever
the order of store changes and calls (`specValid_of_execution`).  For a
spec-valid policy the branches that warn of a missing field are dead, the TTL
is positive and the grace period is not negative; and the `unwrap` in the log
statement stands behind a delay that only a pod with a creation time has
(`Occurs.safelyMarked`).
-/
import KubeDepod.Controller.Traced
import KubeDepod.Policies.Validity

namespace KubeDepod

open Effects Lts Prog

/-! ### Safe marks -/

/-- What a mark may be in a run on validated policies. -/
def PodMark.IsSafe : PodMark → Prop
  | .missingTtlSeconds => False
  | .missingExpression => False
  | .ttlUsed ttlSeconds => 0 < ttlSeconds
  | .creationUnwrapped creationTimestamp => creationTimestamp.isSome = true
  | .graceSent gracePeriodSeconds => ∀ grace ∈ gracePeriodSeconds, 0 ≤ grace

/-- Effects are not restricted, marks have to be safe. -/
def SafelyMarked : PodEffect ⊕ PodMark → Prop
  | .inl _ => True
  | .inr m => m.IsSafe

/-- A run on the cached policies: everything else that it learns from outside is
arbitrary, and a mark that is not safe is forbidden. -/
def markProtocol (cache : List DepodPolicy) :
    Protocol (Marked PodEffect.Reply PodMark) Unit where
  allowed e _ := SafelyMarked e
  reply
    | .inl .loadPolicies, _, policies, _ => policies = cache
    | _, _, _, _ => True

/-- No run of `reconcile_pod` on this cache comes to a branch for misconfigured
policies, uses a TTL that is not positive, unwraps an absent creation time, or
sends a negative grace period. -/
def NeverMisconfigured (cache : List DepodPolicy) : Prop :=
  ∀ (periodicResyncInterval : Option Duration) (pod : Pod),
    wp (markProtocol cache) (tracedReconcilePod periodicResyncInterval pod) (fun _ _ => True) ()

/-! ### One run -/

variable {policy : DepodPolicy}

/-- What a valid policy leads to is safe. -/
theorem Occurs.safelyMarked {pod : Pod} {e : PodEffect ⊕ PodMark} (he : Occurs pod policy e)
    (h : policy.spec.isValid = true) : SafelyMarked e := by
  cases he with
  | ttlUsed htype httl => exact ttl_pos_of_isValid h httl
  | creationUnwrapped hcreated => rfl
  | missingTtlSeconds htype httl =>
      obtain ⟨ttlSeconds, hsome, -⟩ := ttl_of_isValid h htype
      rw [httl] at hsome
      cases hsome
  | missingExpression htype hexpr =>
      obtain ⟨expr, hsome⟩ := expression_of_isValid h htype
      rw [hexpr] at hsome
      cases hsome
  | graceSent => exact fun _ hgrace => grace_nonneg_of_isValid h (Option.mem_def.mp hgrace)
  | _ => trivial

theorem neverMisconfigured_of_valid {cache : List DepodPolicy}
    (h : ∀ policy ∈ cache, policy.spec.isValid = true) : NeverMisconfigured cache := by
  intro periodicResyncInterval pod
  refine ⟨trivial, fun _ _ _ => ⟨trivial, fun policies _ hpolicies => ?_⟩⟩
  obtain rfl : policies = cache := hpolicies
  have huses : (tracedReconcilePolicies periodicResyncInterval pod policies none).Uses
      SafelyMarked := by
    refine (tracedReconcilePolicies_uses ..).mono ?_
    rintro e ⟨policy, hpolicy, he⟩
    exact he.safelyMarked (h policy hpolicy)
  exact wp_of_uses huses (fun _ _ hsafe _ => hsafe) (fun _ _ _ _ _ _ _ => trivial) trivial

/-! ### The cache over runs -/

variable {cel : CelEngine} {operatorPodName : String} {s s' : PolicyState cel}

/-- Every cached policy passes `spec.validate()`. -/
def SpecValid (s : PolicyState cel) : Prop := ∀ q ∈ s.cache, q.spec.isValid = true

/-- A call publishes spec-valid policies or leaves the cache alone. -/
theorem specValid_step {label : CacheLabel} (hstep : CacheStep operatorPodName s label s')
    (hs : SpecValid s) : SpecValid s' := by
  cases label with
  | storeChange store =>
      obtain rfl : s' = _ := hstep
      exact hs
  | reconcile policy =>
      obtain ⟨-, hcache⟩ := reconcilePolicy_spec hstep
      split at hcache
      · obtain ⟨state, -, hcache⟩ := hcache
        intro q hq
        rw [hcache] at hq
        exact (List.mem_filter.mp hq).2
      · rw [SpecValid, hcache]
        exact hs

theorem specValid_of_execution {π : List (CacheLabel × PolicyState cel)} (hempty : s.cache = [])
    (hπ : Execution (CacheStep operatorPodName) s π) : ∀ x ∈ states s π, SpecValid x := by
  refine hπ.invariant (I := SpecValid) (fun _ _ _ hstep hs => specValid_step hstep hs) ?_
  intro q hq
  rw [hempty] at hq
  cases hq

/-- **Validated policies never reach the misconfiguration branches.**  In every
state reached from the empty cache by store changes and calls of
`reconcile_policy`, and for every pod, clock, limiter, CEL oracle and API
server: no run on the cache of that state leaves a mark that is not safe.  The
marks are those of `reconcile_pod` itself. -/
theorem misconfiguration_unreached {π : List (CacheLabel × PolicyState cel)}
    (hempty : s.cache = []) (hπ : Execution (CacheStep operatorPodName) s π) :
    (∀ periodicResyncInterval pod, (tracedReconcilePod periodicResyncInterval pod).erase
      = reconcilePod periodicResyncInterval pod) ∧
    ∀ x ∈ states s π, NeverMisconfigured x.cache :=
  ⟨erase_tracedReconcilePod,
    fun x hx => neverMisconfigured_of_valid (specValid_of_execution hempty hπ x hx)⟩

/-- After a call with a sound and an uncompiled policy in the store. -/
theorem misconfiguration_unreached_mixed :
    let s : PolicyState strictCel := ⟨.empty, [], .new⟩
    ∃ s', ReconcilesPolicy "operator" (ttlPolicy "sound" 3600) { s with store := mixedStore } s' ∧
      NeverMisconfigured s'.cache := by
  intro s
  obtain ⟨s', hcall⟩ := exists_reconcilesPolicy "operator" (ttlPolicy "sound" 3600)
    { s with store := mixedStore }
  let π := [(CacheLabel.storeChange mixedStore, { s with store := mixedStore }),
    (CacheLabel.reconcile (ttlPolicy "sound" 3600), s')]
  have hπ : Execution (CacheStep "operator") s π := ⟨rfl, hcall, trivial⟩
  have hmem : s' ∈ states s π := by simp [π]
  exact ⟨s', hcall, (misconfiguration_unreached rfl hπ).2 s' hmem⟩

end KubeDepod
