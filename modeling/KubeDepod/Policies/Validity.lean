/-
KubeDepod/Policies/Validity.lean

Which versions of which policies a call of `reconcile_policy` leaves in the
cache.

The validity of a policy is checked in two places: `checkPolicy` looks at the
spec and the expression of the policy at hand and returns before the cache is
touched; the refresh looks at the specs only, of all the policies in the
store.  Two properties one would expect of the cache fail because of this:

* a policy edited into an invalid one stays in the cache in its last cached
  version (`outdated_version_stays`, `onlyCurrent_iff`);
* a policy whose expression does not compile enters the cache when another
  policy is reconciled (`uncompiled_policy_enters`,
  `cacheValid_iff_refreshesCompiled`).
-/
import KubeDepod.Policies.Cache
import KubeDepod.Lib.Execution

namespace KubeDepod

open Effects Lts

variable {cel : CelEngine}

/-! ### A policy edited into an invalid one -/

/-- The cache holds no version of the policy but the current one, and that one
only if it is valid. -/
def OnlyCurrent (s : PolicyState cel) (policy : DepodPolicy) : Prop :=
  ∀ q ∈ s.cache, q.key = policy.key → q = policy ∧ cel.valid policy = true

/-- A TTL edited from one hour to zero: the call for the edited policy leaves
the hour in force. -/
theorem outdated_version_stays :
    ¬ ∀ (cel : CelEngine) (operatorPodName : String) (policy : DepodPolicy)
      (s s' : PolicyState cel), s.store.get policy.key = some policy →
      ReconcilesPolicy operatorPodName policy s s' → OnlyCurrent s' policy := by
  intro h
  let cel : CelEngine := ⟨Unit, fun _ => .ok ()⟩
  let s : PolicyState cel :=
    ⟨PolicyStore.empty.insert (ttlPolicy "cleanup" 0), [ttlPolicy "cleanup" 3600], .new⟩
  obtain ⟨s', hcall⟩ := exists_reconcilesPolicy "operator" (ttlPolicy "cleanup" 0) s
  have hcache : s'.cache = [ttlPolicy "cleanup" 3600] := (reconcilePolicy_spec hcall).2
  have hold := h cel _ _ s s' rfl hcall (ttlPolicy "cleanup" 3600)
    (by rw [hcache]; exact List.mem_singleton_self _) rfl
  exact absurd hold.2 (by decide)

/-- **What a call leaves of older versions.**  After a call for the version
that the store holds, the cache holds no other version of the policy, and none
if it is invalid, exactly if the policy is valid or the cache held no version
of it before. -/
theorem onlyCurrent_iff {operatorPodName : String} {policy : DepodPolicy} {s s' : PolicyState cel}
    (hcurrent : s.store.get policy.key = some policy)
    (hcall : ReconcilesPolicy operatorPodName policy s s') :
    OnlyCurrent s' policy ↔
      cel.valid policy = true ∨ ∀ q ∈ s.cache, q.key ≠ policy.key := by
  obtain ⟨-, hcache⟩ := reconcilePolicy_spec hcall
  rcases hvalid : cel.valid policy with - | -
  · -- invalid: the cache is what it was
    simp only [hvalid] at hcache
    have hcache : s'.cache = s.cache := hcache
    rw [OnlyCurrent, hcache, hvalid]
    constructor
    · intro h
      refine .inr fun q hq hkey => ?_
      exact Bool.false_ne_true (h q hq hkey).2
    · rintro (h | h) q hq hkey
      · exact absurd h Bool.false_ne_true
      · exact absurd hkey (h q hq)
  · -- valid: whatever has the key comes from the store
    simp only [hvalid] at hcache
    obtain ⟨state, hstate, hcache⟩ := hcache
    refine iff_of_true (fun q hq hkey => ?_) (.inl rfl)
    rw [hcache, List.mem_filter] at hq
    have hstored : q ∈ s.store.entries := hstate.mem_iff.mp hq.1
    have hget := s.store.get_eq_some_iff.mpr ⟨hstored, hkey⟩
    rw [hcurrent] at hget
    exact ⟨(Option.some.inj hget).symm, hvalid⟩

theorem onlyCurrent_iff_shortened :
    let cel : CelEngine := ⟨Unit, fun _ => .ok ()⟩
    let s : PolicyState cel :=
      ⟨PolicyStore.empty.insert (ttlPolicy "cleanup" 60), [ttlPolicy "cleanup" 3600], .new⟩
    ∃ s', ReconcilesPolicy "operator" (ttlPolicy "cleanup" 60) s s' ∧
      (OnlyCurrent s' (ttlPolicy "cleanup" 60) ↔
        cel.valid (ttlPolicy "cleanup" 60) = true ∨
          ∀ q ∈ s.cache, q.key ≠ (ttlPolicy "cleanup" 60).key) := by
  intro cel s
  obtain ⟨s', hcall⟩ := exists_reconcilesPolicy "operator" (ttlPolicy "cleanup" 60) s
  exact ⟨s', hcall, onlyCurrent_iff rfl hcall⟩

/-! ### The validity of what is cached -/

/-- A store change, or a whole call for some policy. -/
inductive CacheLabel where
  | storeChange (store : PolicyStore)
  | reconcile (policy : DepodPolicy)

def CacheStep (operatorPodName : String) (s : PolicyState cel) :
    CacheLabel → PolicyState cel → Prop
  | .storeChange store, s' => s' = { s with store := store }
  | .reconcile policy, s' => ReconcilesPolicy operatorPodName policy s s'

/-- Every cached policy passes `spec.validate()` and, if its condition is a
CEL one, has an expression that the evaluator accepts. -/
def CacheValid (s : PolicyState cel) : Prop :=
  ∀ q ∈ s.cache, q.spec.validate.isOk = true ∧
    (q.spec.when_.conditionType = .cel →
      ∃ expr, q.spec.when_.expression = some expr ∧ (s.evaluator.validate expr).1.isOk = true)

/-- A call that refreshes the cache is made only while the expressions of all
the store's spec-valid policies compile. -/
def RefreshesCompiled (s : PolicyState cel) : CacheLabel → Prop
  | .storeChange _ => True
  | .reconcile policy => cel.valid policy = true →
      ∀ q ∈ s.store.entries, q.spec.isValid = true → cel.accepts q = true

theorem CelEvaluator.validate_isOk (ev : CelEvaluator cel) (expr : String) :
    (ev.validate expr).1.isOk = (cel.compile expr).isOk := by
  rw [ev.validate_eq, CelEngine.verdict]
  rcases cel.compile expr with e | program <;> rfl

/-- A spec-valid CEL policy has an expression. -/
theorem expression_of_isValid {q : DepodPolicy} (h : q.spec.isValid = true)
    (htype : q.spec.when_.conditionType = .cel) : ∃ expr, q.spec.when_.expression = some expr := by
  rcases hexpr : q.spec.when_.expression with - | expr
  · have hwhen := validateWhen_of_isValid h
    rw [validateWhen, htype, hexpr] at hwhen
    cases hwhen
  · exact ⟨expr, rfl⟩

/-- For a spec-valid policy, the evaluator's verdict is `accepts`. -/
theorem accepts_iff {q : DepodPolicy} (h : q.spec.isValid = true) (ev : CelEvaluator cel) :
    cel.accepts q = true ↔
      (q.spec.when_.conditionType = .cel →
        ∃ expr, q.spec.when_.expression = some expr ∧ (ev.validate expr).1.isOk = true) := by
  rcases htype : q.spec.when_.conditionType with - | -
  · obtain ⟨expr, hexpr⟩ := expression_of_isValid h htype
    simp [CelEngine.accepts, htype, hexpr, ev.validate_isOk]
  · refine iff_of_true ?_ (fun h => by cases h)
    rw [CelEngine.accepts, htype]
    cases q.spec.when_.expression <;> rfl

theorem cacheValid_iff_forall {s : PolicyState cel} :
    CacheValid s ↔ ∀ q ∈ s.cache, cel.valid q = true := by
  refine forall₂_congr fun q _ => ?_
  rw [CelEngine.valid, Bool.and_eq_true]
  exact and_congr_right fun h => (accepts_iff h s.evaluator).symm

/-- One step from a valid cache. -/
theorem cacheValid_step {operatorPodName : String} {s s' : PolicyState cel} {label : CacheLabel}
    (hstep : CacheStep operatorPodName s label s') (hs : CacheValid s) :
    CacheValid s' ↔ RefreshesCompiled s label := by
  cases label with
  | storeChange store =>
      obtain rfl : s' = _ := hstep
      exact iff_of_true hs trivial
  | reconcile policy =>
      obtain ⟨-, hcache⟩ := reconcilePolicy_spec hstep
      rw [cacheValid_iff_forall] at hs ⊢
      rcases hvalid : cel.valid policy with - | -
      · simp only [hvalid] at hcache
        rw [show s'.cache = s.cache from hcache]
        refine iff_of_true hs fun h => ?_
        rw [hvalid] at h
        exact absurd h Bool.false_ne_true
      · simp only [hvalid] at hcache
        obtain ⟨state, hstate, hcache⟩ := hcache
        constructor
        · intro h _ q hq hspec
          have hcached : q ∈ s'.cache := by
            rw [hcache, List.mem_filter, hstate.mem_iff]
            exact ⟨hq, hspec⟩
          have hboth := h q hcached
          rw [CelEngine.valid, Bool.and_eq_true] at hboth
          exact hboth.2
        · intro h q hq
          rw [hcache, List.mem_filter, hstate.mem_iff] at hq
          rw [CelEngine.valid, Bool.and_eq_true]
          exact ⟨hq.2, h hvalid q hq.1 hq.2⟩

/-- A compiler that rejects the empty comparison. -/
def strictCel : CelEngine where
  Program := Unit
  compile := fun expr => if expr = "pod.age >" then .error "unexpected end of input" else .ok ()

/-- A store with a sound policy and one whose expression does not compile. -/
def mixedStore : PolicyStore :=
  (PolicyStore.empty.insert (ttlPolicy "sound" 3600)).insert (celPolicy "broken" "pod.age >")

/-- A policy whose expression does not compile is cached as soon as another
policy is reconciled. -/
theorem uncompiled_policy_enters :
    ¬ ∀ (cel : CelEngine) (operatorPodName : String) (s : PolicyState cel)
      (π : List (CacheLabel × PolicyState cel)), s.cache = [] →
      Execution (CacheStep operatorPodName) s π → ∀ x ∈ states s π, CacheValid x := by
  intro h
  let s : PolicyState strictCel := ⟨mixedStore, [], .new⟩
  obtain ⟨s', hcall⟩ := exists_reconcilesPolicy "operator" (ttlPolicy "sound" 3600) s
  obtain ⟨state, hstate, hcache⟩ := (reconcilePolicy_spec hcall).2
  have hvalid := h strictCel "operator" s [(.reconcile (ttlPolicy "sound" 3600), s')] rfl
    ⟨hcall, trivial⟩ s' (by simp)
  have hbroken : celPolicy "broken" "pod.age >" ∈ s'.cache := by
    rw [hcache, List.mem_filter, hstate.mem_iff]
    exact ⟨List.mem_cons_self .., by decide⟩
  exact absurd (cacheValid_iff_forall.mp hvalid _ hbroken) (by decide)

/-- **When the cache holds only valid policies.**  In a run of store changes
and calls from the empty cache, every cached policy is valid in every state
exactly if each call for a valid policy finds a store whose spec-valid
policies all compile. -/
theorem cacheValid_iff_refreshesCompiled {operatorPodName : String} {s : PolicyState cel}
    {π : List (CacheLabel × PolicyState cel)} (hempty : s.cache = [])
    (hπ : Execution (CacheStep operatorPodName) s π) :
    (∀ x ∈ states s π, CacheValid x) ↔ StepsMeet RefreshesCompiled s π := by
  apply hπ.invariant_iff
  · intro s label s' hstep hs
    exact cacheValid_step hstep hs
  · intro q hq
    rw [hempty] at hq
    cases hq

theorem cacheValid_iff_refreshesCompiled_mixed :
    let s : PolicyState strictCel := ⟨.empty, [], .new⟩
    ∃ s', ReconcilesPolicy "operator" (ttlPolicy "sound" 3600) { s with store := mixedStore } s' ∧
      let π := [(CacheLabel.storeChange mixedStore, { s with store := mixedStore }),
        (CacheLabel.reconcile (ttlPolicy "sound" 3600), s')]
      ((∀ x ∈ states s π, CacheValid x) ↔ StepsMeet RefreshesCompiled s π) := by
  intro s
  obtain ⟨s', hcall⟩ := exists_reconcilesPolicy "operator" (ttlPolicy "sound" 3600)
    { s with store := mixedStore }
  exact ⟨s', hcall, cacheValid_iff_refreshesCompiled rfl ⟨rfl, hcall, trivial⟩⟩

end KubeDepod
