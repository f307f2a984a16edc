/-
KubeDepod/Pods/Provenance.lean

Where a delete or an eviction comes from.

The two controllers run together: the policy side (`Policies/Operator.lean`)
fills the cache, and any number of runs of `reconcile_pod` read it, all
interleaved effect by effect.  A run finds in the cache what is there at that
moment, and its clock reads the time of the step.  The compiled programs are no
part of this state: the evaluator answers as a fresh compilation, which is what
it does whatever the shared cache holds (`cache_transparent`).  Every other
reply is free.

For the statements alone, each run keeps the effects it has performed with
their replies, and the state keeps the policies that users have applied.

A run sends a call only with a warrant from what it has been told
(`wp_warrant_reconcilePod`): the policy was in the cache that it loaded, the
last reply before the two questions to the limits said that its condition
holds, and both were granted.  What the cache tells it goes back to a policy
that a user has applied (`Stems.step`): the reflector, the refreshes and the
status patches on the way change nothing but the status.  So every call is
justified by such a policy (`calls_justified`).
-/
import KubeDepod.Pods.Rate
import KubeDepod.Policies.Operator
import KubeDepod.Engine.SharedCache

namespace KubeDepod

open Effects Lts Parties

/-! ### What a run has been told -/

/-- An effect that a run has performed, when, and the reply. -/
structure Performed where
  time : DateTime
  effect : PodEffect
  reply : effect.Reply

/-- The reply says that the condition of the policy holds for the pod: a clock
reading at which the TTL is over, or the verdict `true` of the CEL program. -/
inductive ConditionTold (pod : Pod) (policy : DepodPolicy) : Performed → Prop
  | builtin {ttlSeconds : Int64} {time now : DateTime}
      (htype : policy.spec.when_.conditionType = .builtin)
      (httl : policy.spec.when_.ttlSeconds = some ttlSeconds)
      (hover : evaluateTtlCondition pod ttlSeconds now = true) :
      ConditionTold pod policy ⟨time, .now, now⟩
  | cel {expr : String} {time : DateTime} (htype : policy.spec.when_.conditionType = .cel)
      (hexpr : policy.spec.when_.expression = some expr) :
      ConditionTold pod policy ⟨time, .evaluate expr pod policy.nameAny, .ok true⟩

/-- What a load of the cache found there. -/
def Performed.loaded : Performed → Option (List DepodPolicy)
  | ⟨_, .loadPolicies, policies⟩ => some policies
  | _ => none

/-- The cache was loaded once, with `policies` in it. -/
def Loaded (policies : List DepodPolicy) (log : List Performed) : Prop :=
  log.filterMap Performed.loaded = [policies]

/-- The loop has come to the action of the policy; `told` is the reply that said
that the condition holds. -/
structure Chosen (pod : Pod) (policy : DepodPolicy) (told : Performed) (log : List Performed) :
    Prop where
  listed : ∃ policies, Loaded policies log ∧ policy ∈ policies
  matches_ : matchesPolicy pod policy = true
  trigger :
    checkTrigger pod policy.spec.trigger.annotationKey policy.spec.trigger.annotationValues = true
  condition : ConditionTold pod policy told
  unprotected : isNamespaceProtected pod.namespaceOrDefault
    policy.spec.limits.protectSystemNamespaces policy.spec.limits.excludedNamespaces = false

/-- The call is the one that the policy asks for, and both limits have just
granted it, right after the condition was found true. -/
inductive Granted (pod : Pod) (policy : DepodPolicy) (told : Performed) :
    PodEffect → List Performed → Prop
  | delete {global own : DateTime} {log : List Performed}
      (haction : policy.spec.then_.actionType = .delete) :
      Granted pod policy told
        (.delete pod.namespaceOrDefault pod.nameAny
          ⟨policy.spec.then_.gracePeriodSeconds.map fun g => g.toUInt64.toUInt32⟩)
        (⟨own, .allowPolicy policy.nameAny policy.spec.limits.maxDeletesPerMinute, true⟩ ::
          ⟨global, .allowGlobal, true⟩ :: told :: log)
  | evict {global own serialised : DateTime} {log : List Performed}
      (haction : policy.spec.then_.actionType = .evict) :
      Granted pod policy told
        (.createEviction pod.namespaceOrDefault pod.nameAny (evictionOf pod policy))
        (⟨serialised, .toVec (evictionOf pod policy), .ok ()⟩ ::
          ⟨own, .allowPolicy policy.nameAny policy.spec.limits.maxDeletesPerMinute, true⟩ ::
          ⟨global, .allowGlobal, true⟩ :: told :: log)

/-- What a run must have been told to send `call` for the policy. -/
structure Warrant (pod : Pod) (policy : DepodPolicy) (told : Performed) (call : PodEffect)
    (log : List Performed) : Prop where
  chosen : Chosen pod policy told log
  live : policy.spec.then_.dryRun = false
  granted : Granted pod policy told call log

variable {pod : Pod} {policy : DepodPolicy} {policies : List DepodPolicy}
variable {told : Performed} {log log' : List Performed}

theorem Granted.told_mem {call : PodEffect} (h : Granted pod policy told call log) :
    told ∈ log := by
  cases h with
  | delete haction => simp
  | evict haction => simp

theorem Loaded.exists_mem (h : Loaded policies log) :
    ∃ entry ∈ log, entry.loaded = some policies := by
  have hmem : policies ∈ log.filterMap Performed.loaded := by
    rw [h]
    exact List.mem_singleton_self policies
  exact List.mem_filterMap.mp hmem

theorem Loaded.cons (h : Loaded policies log) {entry : Performed} (hentry : entry.loaded = none) :
    Loaded policies (entry :: log) :=
  (List.filterMap_cons_none hentry).trans h

theorem Chosen.cons (h : Chosen pod policy told log) {entry : Performed}
    (hentry : entry.loaded = none) : Chosen pod policy told (entry :: log) where
  listed := h.listed.imp fun _ hlisted => ⟨hlisted.1.cons hentry, hlisted.2⟩
  matches_ := h.matches_
  trigger := h.trigger
  condition := h.condition
  unprotected := h.unprotected

/-! ### One run -/

/-- A call needs a warrant; what is performed is kept. -/
def warrantProtocol (pod : Pod) : Protocol PodEffect.Reply (List Performed) where
  allowed e log := e.isCall = true → ∃ policy told, Warrant pod policy told e log
  reply e log r log' := ∃ time, log' = ⟨time, e, r⟩ :: log

/-- An effect that is no call may always be performed. -/
theorem wp_warrant_perform {α : Type} {e : PodEffect} (he : e.isCall = false)
    {k : e.Reply → PodProg α} {post : α → List Performed → Prop}
    (hk : ∀ r time, wp (warrantProtocol pod) (k r) post (⟨time, e, r⟩ :: log)) :
    wp (warrantProtocol pod) (perform e >>= k) post log := by
  refine ⟨fun hcall => absurd (he.symm.trans hcall) Bool.false_ne_true, ?_⟩
  rintro r _ ⟨time, rfl⟩
  exact hk r time

/-- A call is performed under a warrant. -/
theorem wp_warrant_call {α : Type} {e : PodEffect} {k : e.Reply → PodProg α}
    {post : α → List Performed → Prop} (hwarrant : Warrant pod policy told e log)
    (hk : ∀ r time, wp (warrantProtocol pod) (k r) post (⟨time, e, r⟩ :: log)) :
    wp (warrantProtocol pod) (perform e >>= k) post log := by
  refine ⟨fun _ => ⟨policy, told, hwarrant⟩, ?_⟩
  rintro r _ ⟨time, rfl⟩
  exact hk r time

/-- A condition that is met was told by the last reply. -/
theorem wp_warrant_evaluateWhen (ttlRequeue : Option Nat) (hloaded : Loaded policies log) :
    wp (warrantProtocol pod) (evaluateWhen pod policy ttlRequeue)
      (fun result log' => Loaded policies log' ∧
        (result.1 = true → ∃ told ∈ log'.head?, ConditionTold pod policy told)) log := by
  have herror : ∀ log, Loaded policies log →
      wp (warrantProtocol pod) (incrementEvaluationErrors >>= fun _ =>
          (pure (false, ttlRequeue) : PodProg (Bool × Option Nat)))
        (fun result log' => Loaded policies log' ∧
          (result.1 = true → ∃ told ∈ log'.head?, ConditionTold pod policy told)) log := by
    intro log hloaded
    exact wp_warrant_perform rfl fun _ _ =>
      ⟨hloaded.cons rfl, fun hmet => absurd hmet Bool.false_ne_true⟩
  rw [evaluateWhen]
  rcases htype : policy.spec.when_.conditionType with - | -
  · rcases hexpr : policy.spec.when_.expression with - | expr
    · exact herror log hloaded
    · refine wp_warrant_perform rfl fun verdict time => ?_
      rcases verdict with e | conditionResult
      · cases e <;> exact herror _ (hloaded.cons rfl)
      · refine ⟨hloaded.cons rfl, ?_⟩
        rintro rfl
        exact ⟨_, rfl, .cel htype hexpr⟩
  · rcases httl : policy.spec.when_.ttlSeconds with - | ttlSeconds
    · exact herror log hloaded
    · refine wp_warrant_perform rfl fun now time => ?_
      split
      case isTrue hover =>
        exact ⟨hloaded.cons rfl, fun _ => ⟨_, rfl, .builtin htype httl hover⟩⟩
      case isFalse =>
        split
        · split <;> exact ⟨hloaded.cons rfl, fun hmet => absurd hmet Bool.false_ne_true⟩
        · exact ⟨hloaded.cons rfl, fun hmet => absurd hmet Bool.false_ne_true⟩

/-- The two questions; what follows them has both grants before it. -/
theorem wp_warrant_askLimits {granted : PodProg EarlyReturn} (hloaded : Loaded policies log)
    (hgranted : ∀ global own, wp (warrantProtocol pod) granted (fun _ => Loaded policies)
      (⟨own, .allowPolicy policy.nameAny policy.spec.limits.maxDeletesPerMinute, true⟩ ::
        ⟨global, .allowGlobal, true⟩ :: log)) :
    wp (warrantProtocol pod) (do
      let globalAllowed ← perform .allowGlobal
      let policyAllowed ←
        perform (.allowPolicy policy.nameAny policy.spec.limits.maxDeletesPerMinute)
      if !globalAllowed || !policyAllowed then do
        incrementRateLimited
        return some (.ok (.requeue (Duration.fromSecs 10)))
      else granted) (fun _ => Loaded policies) log := by
  refine wp_warrant_perform rfl fun globalAllowed global => ?_
  refine wp_warrant_perform rfl fun policyAllowed own => ?_
  have hloaded' : Loaded policies
      (⟨own, .allowPolicy policy.nameAny policy.spec.limits.maxDeletesPerMinute, policyAllowed⟩ ::
        ⟨global, .allowGlobal, globalAllowed⟩ :: log) := (hloaded.cons rfl).cons rfl
  cases globalAllowed with
  | false => exact wp_warrant_perform rfl fun _ _ => hloaded'.cons rfl
  | true =>
      cases policyAllowed with
      | false => exact wp_warrant_perform rfl fun _ _ => hloaded'.cons rfl
      | true => exact hgranted global own

theorem wp_warrant_deleteArm (haction : policy.spec.then_.actionType = .delete)
    (hchosen : Chosen pod policy told (told :: log)) (hloaded : Loaded policies (told :: log)) :
    wp (warrantProtocol pod) (deleteArm pod policy) (fun _ => Loaded policies) (told :: log) := by
  rw [deleteArm]
  split
  case isTrue => exact hloaded
  case isFalse hdry =>
    refine wp_warrant_askLimits hloaded fun global own => ?_
    have hloaded' : Loaded policies
        (⟨own, .allowPolicy policy.nameAny policy.spec.limits.maxDeletesPerMinute, true⟩ ::
          ⟨global, .allowGlobal, true⟩ :: told :: log) := (hloaded.cons rfl).cons rfl
    refine wp_warrant_call ⟨?_, Bool.eq_false_iff.mpr hdry, .delete haction⟩ fun reply time => ?_
    · exact (hchosen.cons rfl).cons rfl
    · cases reply <;> exact wp_warrant_perform rfl fun _ _ => (hloaded'.cons rfl).cons rfl

theorem wp_warrant_evictArm (haction : policy.spec.then_.actionType = .evict)
    (hchosen : Chosen pod policy told (told :: log)) (hloaded : Loaded policies (told :: log)) :
    wp (warrantProtocol pod) (evictArm pod policy) (fun _ => Loaded policies) (told :: log) := by
  rw [evictArm]
  split
  case isTrue => exact hloaded
  case isFalse hdry =>
    refine wp_warrant_askLimits hloaded fun global own => ?_
    have hloaded' : Loaded policies
        (⟨own, .allowPolicy policy.nameAny policy.spec.limits.maxDeletesPerMinute, true⟩ ::
          ⟨global, .allowGlobal, true⟩ :: told :: log) := (hloaded.cons rfl).cons rfl
    refine wp_warrant_perform rfl fun bytes serialised => ?_
    rcases bytes with e | ⟨⟩
    · exact hloaded'.cons rfl
    · refine wp_warrant_call ⟨?_, Bool.eq_false_iff.mpr hdry, .evict haction⟩
        fun reply time => ?_
      · exact ((hchosen.cons rfl).cons rfl).cons rfl
      · have hloaded'' : Loaded policies
            (⟨time, .createEviction pod.namespaceOrDefault pod.nameAny (evictionOf pod policy),
                reply⟩ ::
              ⟨serialised, .toVec (evictionOf pod policy), .ok ()⟩ ::
              ⟨own, .allowPolicy policy.nameAny policy.spec.limits.maxDeletesPerMinute, true⟩ ::
              ⟨global, .allowGlobal, true⟩ :: told :: log) := (hloaded'.cons rfl).cons rfl
        rcases reply with e | ⟨- | statusStr⟩
        · exact wp_warrant_perform rfl fun _ _ => hloaded''.cons rfl
        · exact wp_warrant_perform rfl fun _ _ => hloaded''.cons rfl
        · dsimp only
          split <;> exact wp_warrant_perform rfl fun _ _ => hloaded''.cons rfl

/-- The loop, over any part of what was loaded. -/
theorem wp_warrant_reconcilePolicies (periodicResyncInterval : Option Duration)
    (rest : List DepodPolicy) (ttlRequeue : Option Nat) (hrest : rest ⊆ policies)
    (hloaded : Loaded policies log) :
    wp (warrantProtocol pod) (reconcilePolicies periodicResyncInterval pod rest ttlRequeue)
      (fun _ => Loaded policies) log := by
  induction rest generalizing ttlRequeue log with
  | nil => exact hloaded
  | cons policy rest ih =>
      obtain ⟨hlisted, hrest⟩ := List.cons_subset.mp hrest
      rw [reconcilePolicies]
      split
      case isTrue => exact ih ttlRequeue hrest hloaded
      case isFalse hmatches =>
        split
        case isTrue => exact ih ttlRequeue hrest hloaded
        case isFalse htrigger =>
          refine wp_warrant_perform rfl fun _ matched => ?_
          refine wp_bind.mpr (wp_mono ?_ (wp_warrant_evaluateWhen ttlRequeue (hloaded.cons rfl)))
          rintro ⟨conditionMet, ttlRequeue⟩ log' ⟨hloaded', hcondition⟩
          dsimp only
          split
          case isTrue => exact ih ttlRequeue hrest hloaded'
          case isFalse hmet =>
            split
            case isTrue => exact ih ttlRequeue hrest hloaded'
            case isFalse hprotected =>
              obtain ⟨told, hhead, htold⟩ := hcondition (by simpa using hmet)
              obtain ⟨log, rfl⟩ := List.head?_eq_some_iff.mp hhead
              have hchosen : Chosen pod policy told (told :: log) :=
                { listed := ⟨policies, hloaded', hlisted⟩
                  matches_ := by simpa using hmatches
                  trigger := by simpa using htrigger
                  condition := htold
                  unprotected := Bool.eq_false_iff.mpr hprotected }
              have hthen : wp (warrantProtocol pod) (executeThen pod policy)
                  (fun _ => Loaded policies) (told :: log) := by
                rw [executeThen]
                rcases haction : policy.spec.then_.actionType with - | -
                · exact wp_warrant_deleteArm haction hchosen hloaded'
                · exact wp_warrant_evictArm haction hchosen hloaded'
              refine wp_bind.mpr (wp_mono ?_ hthen)
              rintro (- | result) log'' hloaded''
              · exact ih ttlRequeue hrest hloaded''
              · exact hloaded''

/-- **A run sends no call without a warrant**, whatever the replies are. -/
theorem wp_warrant_reconcilePod (periodicResyncInterval : Option Duration) (pod : Pod) :
    wp (warrantProtocol pod) (reconcilePod periodicResyncInterval pod) (fun _ _ => True) [] := by
  refine wp_warrant_perform rfl fun _ evaluated => ?_
  refine wp_warrant_perform rfl fun policies loaded => ?_
  refine wp_mono (fun _ _ _ => trivial)
    (wp_warrant_reconcilePolicies periodicResyncInterval policies none (List.Subset.refl _) ?_)
  rfl

/-! ### Where a policy comes from -/

/-- A user has applied this policy, up to the status that it carries now. -/
def StemsFrom (applied : List DepodPolicy) (policy : DepodPolicy) : Prop :=
  ∃ q ∈ applied, policy.metadata = q.metadata ∧ policy.spec = q.spec

theorem StemsFrom.mono {applied applied' : List DepodPolicy} (h : StemsFrom applied policy)
    (happlied : applied ⊆ applied') : StemsFrom applied' policy :=
  h.imp fun _ hq => ⟨happlied hq.1, hq.2⟩

/-- A change only brings policies that stem from what users have applied. -/
def PolicyChange.StemsFrom (applied : List DepodPolicy) : PolicyChange → Prop
  | .applied policy => KubeDepod.StemsFrom applied policy
  | .deleted _ => True

def PolicyStore.StemsFrom (applied : List DepodPolicy) (store : PolicyStore) : Prop :=
  ∀ q ∈ store.entries, KubeDepod.StemsFrom applied q

theorem PolicyStore.StemsFrom.apply {applied : List DepodPolicy} {store : PolicyStore}
    (h : store.StemsFrom applied) {c : PolicyChange} (hc : c.StemsFrom applied) :
    (store.apply c).StemsFrom applied := by
  cases c with
  | applied policy =>
      intro q hq
      rcases store.mem_insert.mp hq with rfl | ⟨hmem, -⟩
      · exact hc
      · exact h q hmem
  | deleted key => exact fun q hq => h q (store.mem_remove.mp hq).1

section
variable {cel : CelEngine} {ι : Type}

/-- What the API server holds, what is under way to the reflector, and every
version that its store has had, stems from what users have applied. -/
structure Stems (applied : List DepodPolicy) (s : Operator cel ι) : Prop where
  cluster : s.cluster.StemsFrom applied
  queued : ∀ c ∈ s.reflectorQueue, c.StemsFrom applied
  past : ∀ v, (s.reconcilers.past v).StemsFrom applied

namespace Stems

variable {applied applied' : List DepodPolicy} {s s' : Operator cel ι}

theorem initial : Stems [] (.initial : Operator cel ι) where
  cluster := fun _ hq => nomatch hq
  queued := fun _ hc => nomatch hc
  past := fun _ _ hq => nomatch hq

theorem mono (hs : Stems applied s) (happlied : applied ⊆ applied') : Stems applied' s where
  cluster := fun q hq => (hs.cluster q hq).mono happlied
  queued := by
    rintro (policy | key) hc
    · exact StemsFrom.mono (hs.queued _ hc) happlied
    · trivial
  past := fun v q hq => (hs.past v q hq).mono happlied

theorem change (hs : Stems applied s) {c : PolicyChange} (hc : c.StemsFrom applied) :
    Stems applied (s.change c) where
  cluster := hs.cluster.apply hc
  queued := by
    intro c' hc'
    rcases List.mem_append.mp hc' with hc' | hc'
    · exact hs.queued c' hc'
    · rw [List.mem_singleton.mp hc']
      exact hc
  past := hs.past

/-- The cache, too, and it holds spec-valid policies only. -/
theorem of_mem_cache (hs : Stems applied s) (hsound : s.reconcilers.Sound)
    (hpolicy : policy ∈ s.cache) : StemsFrom applied policy ∧ policy.spec.isValid = true := by
  have hmem := hsound.cache.mem_iff.mp hpolicy
  rw [List.mem_filter] at hmem
  exact ⟨hs.past _ policy hmem.1, hmem.2⟩

variable [DecidableEq ι] {operatorPodName : String}

/-- A step of the calls leaves the versions, unless the store changes. -/
theorem past_eq {r r' : Reconcilers cel ι} {label : ReconcilersLabel ι}
    (h : ReconcilersStep operatorPodName r label r')
    (hlabel : ∀ store, label ≠ .storeChange store) : r'.past = r.past := by
  cases reconcilersStep_cases h with
  | storeChange store => exact absurd rfl (hlabel store)
  | start hnone => rfl
  | effect hcall hpermits => rfl
  | finish hcall => rfl

theorem withReconcilers (hs : Stems applied s) {label : ReconcilersLabel ι}
    {r : Reconcilers cel ι} (scheduled : List PolicyKey)
    (hstep : ReconcilersStep operatorPodName s.reconcilers label r)
    (hlabel : ∀ store, label ≠ .storeChange store) :
    Stems applied { s with scheduled := scheduled, reconcilers := r } where
  cluster := hs.cluster
  queued := hs.queued
  past := by
    show ∀ v, (r.past v).StemsFrom applied
    rw [past_eq hstep hlabel]
    exact hs.past

end Stems

/-- What users have applied after a step. -/
def appliedAfter (applied : List DepodPolicy) : OperatorLabel ι → List DepodPolicy
  | .apply policy => policy :: applied
  | _ => applied

theorem subset_appliedAfter (applied : List DepodPolicy) (label : OperatorLabel ι) :
    applied ⊆ appliedAfter applied label := by
  cases label with
  | apply policy => exact List.subset_cons_self policy applied
  | delete key => exact List.Subset.refl _
  | reflect => exact List.Subset.refl _
  | deliver => exact List.Subset.refl _
  | start i key => exact List.Subset.refl _
  | skip key => exact List.Subset.refl _
  | effect i answer => exact List.Subset.refl _
  | finish i => exact List.Subset.refl _

/-- **Only users bring new specs.**  A status patch leaves the spec and the
metadata of the object that it patches. -/
theorem Stems.step [DecidableEq ι] [Fintype ι] {operatorPodName : String}
    {applied : List DepodPolicy} {s s' : Operator cel ι} {label : OperatorLabel ι}
    (h : OperatorStep operatorPodName s label s') (hsound : s.reconcilers.Sound)
    (hs : Stems applied s) : Stems (appliedAfter applied label) s' := by
  cases operatorStep_cases h with
  | apply policy =>
      refine (hs.mono (List.subset_cons_self policy applied)).change ?_
      exact ⟨policy, List.mem_cons_self .., rfl, rfl⟩
  | delete key => exact hs.change (c := .deleted key) trivial
  | @reflect c queue hqueue =>
      have hc : c.StemsFrom applied := hs.queued c (by rw [hqueue]; exact List.mem_cons_self ..)
      have hstore : s.store.StemsFrom applied := by
        have hcurrent := hs.past s.reconcilers.version
        rw [hsound.past_version] at hcurrent
        exact hcurrent
      refine ⟨hs.cluster, fun c' hc' => hs.queued c' ?_, fun v => ?_⟩
      · rw [hqueue]
        exact List.mem_cons_of_mem _ hc'
      · show PolicyStore.StemsFrom applied
          (Function.update s.reconcilers.past (s.reconcilers.version + 1) (s.store.apply c) v)
        by_cases hv : v = s.reconcilers.version + 1
        · rw [hv, Function.update_self]
          exact hstore.apply hc
        · rw [Function.update_of_ne hv]
          exact hs.past v
  | deliver hqueue => exact ⟨hs.cluster, hs.queued, hs.past⟩
  | start hidle hknown hstep => exact hs.withReconcilers _ hstep fun _ => nofun
  | skip hknown => exact ⟨hs.cluster, hs.queued, hs.past⟩
  | effect hstep => exact hs.withReconcilers _ hstep fun _ => nofun
  | patch hstep hstored =>
      have hpolicy := hs.cluster _ ((PolicyStore.get_eq_some_iff _).mp hstored).1
      exact (hs.withReconcilers s.scheduled hstep fun _ => nofun).change hpolicy
  | finish hstep => exact hs.withReconcilers _ hstep fun _ => nofun

end

/-! ### The two controllers -/

/-- A run of `reconcile_pod` in flight: what it is called for, what is left of
it, and what it has performed, the latest first. -/
structure PodCall where
  pod : Pod
  program : PodProg (Except Error Action)
  log : List Performed

/-- The policy side, the runs of the pod side, and the policies that users have
applied. -/
structure Controllers (cel : CelEngine) (ι κ : Type) where
  operator : Operator cel ι
  runs : κ → Option PodCall
  applied : List DepodPolicy

/-- The policy side takes a step; a run starts, performs its next effect at a
time of the clock, or returns. -/
inductive ControllersLabel (ι κ : Type) where
  | operator (label : OperatorLabel ι)
  | start (j : κ) (pod : Pod)
  | effect (j : κ) (time : DateTime) (answer : (e : PodEffect) → e.Reply)
  | finish (j : κ)

section
variable {cel : CelEngine} {conv : CelConversion} {ι κ : Type}

namespace Controllers

def initial : Controllers cel ι κ := ⟨.initial, fun _ => none, []⟩

/-- The replies that an effect can have at a time. -/
def Admits (rt : CelRuntime cel conv) (s : Controllers cel ι κ) (time : DateTime) :
    (e : PodEffect) → e.Reply → Prop
  | .loadPolicies, r => r = s.operator.cache
  | .now, r => r = time
  | .evaluate expr pod _, r => r = rt.evaluateFresh expr pod time
  | .increment _, _ => True
  | .allowGlobal, _ => True
  | .allowPolicy _ _, _ => True
  | .toVec _, _ => True
  | .delete _ _ _, _ => True
  | .createEviction _ _ _, _ => True

instance (rt : CelRuntime cel conv) (s : Controllers cel ι κ) (time : DateTime) (e : PodEffect)
    (r : e.Reply) : Decidable (s.Admits rt time e r) :=
  match e, r with
  | .loadPolicies, r => inferInstanceAs (Decidable (r = s.operator.cache))
  | .now, r => inferInstanceAs (Decidable (r = time))
  | .evaluate expr pod _, r => inferInstanceAs (Decidable (r = rt.evaluateFresh expr pod time))
  | .increment _, _ => .isTrue trivial
  | .allowGlobal, _ => .isTrue trivial
  | .allowPolicy _ _, _ => .isTrue trivial
  | .toVec _, _ => .isTrue trivial
  | .delete _ _ _, _ => .isTrue trivial
  | .createEviction _ _ _, _ => .isTrue trivial

end Controllers

variable [DecidableEq κ]

def Controllers.setRun (s : Controllers cel ι κ) (j : κ) (run : Option PodCall) :
    Controllers cel ι κ :=
  { s with runs := Function.update s.runs j run }

variable [DecidableEq ι] [Fintype ι]

def controllersStep (rt : CelRuntime cel conv) (operatorPodName : String)
    (periodicResyncInterval : Option Duration) (s : Controllers cel ι κ) :
    ControllersLabel ι κ → Option (Controllers cel ι κ)
  | .operator label =>
      (operatorStep operatorPodName s.operator label).map fun operator =>
        { s with operator := operator, applied := appliedAfter s.applied label }
  | .start j pod =>
      match s.runs j with
      | none => some (s.setRun j (some ⟨pod, reconcilePod periodicResyncInterval pod, []⟩))
      | some _ => none
  | .effect j time answer =>
      match s.runs j with
      | some ⟨pod, .op e k, log⟩ =>
          if s.Admits rt time e (answer e) then
            some (s.setRun j (some ⟨pod, k (answer e), ⟨time, e, answer e⟩ :: log⟩))
          else
            none
      | some ⟨_, .pure _, _⟩ => none
      | none => none
  | .finish j =>
      match s.runs j with
      | some ⟨_, .pure _, _⟩ => some (s.setRun j none)
      | some ⟨_, .op _ _, _⟩ => none
      | none => none

def ControllersStep (rt : CelRuntime cel conv) (operatorPodName : String)
    (periodicResyncInterval : Option Duration) (s : Controllers cel ι κ)
    (label : ControllersLabel ι κ) (s' : Controllers cel ι κ) : Prop :=
  controllersStep rt operatorPodName periodicResyncInterval s label = some s'

/-- What a step can do. -/
inductive ControllersCase (rt : CelRuntime cel conv) (operatorPodName : String)
    (periodicResyncInterval : Option Duration) (s : Controllers cel ι κ) :
    ControllersLabel ι κ → Controllers cel ι κ → Prop
  | operator {label : OperatorLabel ι} {operator : Operator cel ι}
      (hstep : OperatorStep operatorPodName s.operator label operator) :
      ControllersCase rt operatorPodName periodicResyncInterval s (.operator label)
        { s with operator := operator, applied := appliedAfter s.applied label }
  | start {j : κ} {pod : Pod} :
      ControllersCase rt operatorPodName periodicResyncInterval s (.start j pod)
        (s.setRun j (some ⟨pod, reconcilePod periodicResyncInterval pod, []⟩))
  | effect {j : κ} {time : DateTime} {answer : (e : PodEffect) → e.Reply} {pod : Pod}
      {e : PodEffect} {k : e.Reply → PodProg (Except Error Action)} {log : List Performed}
      (hrun : s.runs j = some ⟨pod, .op e k, log⟩) (hadmits : s.Admits rt time e (answer e)) :
      ControllersCase rt operatorPodName periodicResyncInterval s (.effect j time answer)
        (s.setRun j (some ⟨pod, k (answer e), ⟨time, e, answer e⟩ :: log⟩))
  | finish {j : κ} :
      ControllersCase rt operatorPodName periodicResyncInterval s (.finish j)
        (s.setRun j none)

variable {rt : CelRuntime cel conv} {operatorPodName : String}
variable {periodicResyncInterval : Option Duration} {s s' : Controllers cel ι κ}
variable {label : ControllersLabel ι κ}

theorem controllersStep_cases
    (h : ControllersStep rt operatorPodName periodicResyncInterval s label s') :
    ControllersCase rt operatorPodName periodicResyncInterval s label s' := by
  rw [ControllersStep] at h
  cases label with
  | operator label =>
      obtain ⟨operator, hstep, rfl⟩ := Option.map_eq_some_iff.mp h
      exact .operator hstep
  | start j pod =>
      rw [controllersStep] at h
      split at h
      case h_1 => cases h; exact .start
      case h_2 => cases h
  | effect j time answer =>
      rw [controllersStep] at h
      split at h
      case h_1 pod e k log hrun =>
        split_ifs at h with hadmits
        cases h
        exact .effect hrun hadmits
      case h_2 => cases h
      case h_3 => cases h
  | finish j =>
      rw [controllersStep] at h
      split at h
      case h_1 => cases h; exact .finish
      case h_2 => cases h
      case h_3 => cases h

/-! ### What a run has performed -/

/-- What is known of an effect that was performed: a loaded policy stems from
what users have applied and is spec-valid, and the clock and the evaluator spoke
of the time it was performed at. -/
def Performed.Genuine (rt : CelRuntime cel conv) (applied : List DepodPolicy) :
    Performed → Prop
  | ⟨_, .loadPolicies, policies⟩ =>
      ∀ q ∈ policies, StemsFrom applied q ∧ q.spec.isValid = true
  | ⟨time, .now, now⟩ => now = time
  | ⟨time, .evaluate expr pod _, verdict⟩ => verdict = rt.evaluateFresh expr pod time
  | _ => True

omit [DecidableEq ι] [Fintype ι] [DecidableEq κ] in
theorem Performed.Genuine.mono {applied applied' : List DepodPolicy} {entry : Performed}
    (h : entry.Genuine rt applied) (happlied : applied ⊆ applied') : entry.Genuine rt applied' := by
  obtain ⟨time, e, reply⟩ := entry
  cases e with
  | loadPolicies => exact fun q hq => ⟨(h q hq).1.mono happlied, (h q hq).2⟩
  | now => exact h
  | evaluate expr pod name => exact h
  | increment _ => trivial
  | allowGlobal => trivial
  | allowPolicy _ _ => trivial
  | toVec _ => trivial
  | delete _ _ _ => trivial
  | createEviction _ _ _ => trivial

omit [DecidableEq ι] [Fintype ι] [DecidableEq κ] in
theorem Performed.Genuine.of_loaded {applied : List DepodPolicy} {entry : Performed}
    (h : entry.Genuine rt applied) (hloaded : entry.loaded = some policies) :
    ∀ q ∈ policies, StemsFrom applied q ∧ q.spec.isValid = true := by
  obtain ⟨time, e, reply⟩ := entry
  cases e with
  | loadPolicies =>
      obtain rfl : reply = policies := Option.some.inj hloaded
      exact h
  | now => exact nomatch hloaded
  | evaluate _ _ _ => exact nomatch hloaded
  | increment _ => exact nomatch hloaded
  | allowGlobal => exact nomatch hloaded
  | allowPolicy _ _ => exact nomatch hloaded
  | toVec _ => exact nomatch hloaded
  | delete _ _ _ => exact nomatch hloaded
  | createEviction _ _ _ => exact nomatch hloaded

/-- The run keeps to the warrants, and what it was told is genuine. -/
structure PodCall.Sound (rt : CelRuntime cel conv) (applied : List DepodPolicy) (run : PodCall) :
    Prop where
  program : wp (warrantProtocol run.pod) run.program (fun _ _ => True) run.log
  genuine : ∀ entry ∈ run.log, entry.Genuine rt applied

structure Controllers.Sound (rt : CelRuntime cel conv) (s : Controllers cel ι κ) : Prop where
  reconcilers : s.operator.reconcilers.Sound
  stems : Stems s.applied s.operator
  runs : ∀ j run, s.runs j = some run → run.Sound rt s.applied

omit [DecidableEq ι] [Fintype ι] [DecidableEq κ] in
theorem Controllers.initial_sound : (initial : Controllers cel ι κ).Sound rt where
  reconcilers := Reconcilers.initial_sound
  stems := .initial
  runs := fun _ _ hrun => nomatch hrun

omit [DecidableEq ι] [Fintype ι] [DecidableEq κ] in
theorem Controllers.Sound.genuine (hs : s.Sound rt) {time : DateTime} {e : PodEffect}
    {r : e.Reply} (h : s.Admits rt time e r) : Performed.Genuine rt s.applied ⟨time, e, r⟩ := by
  cases e with
  | loadPolicies =>
      obtain rfl := h
      exact fun q hq => hs.stems.of_mem_cache hs.reconcilers hq
  | now => exact h
  | evaluate expr pod name => exact h
  | increment _ => trivial
  | allowGlobal => trivial
  | allowPolicy _ _ => trivial
  | toVec _ => trivial
  | delete _ _ _ => trivial
  | createEviction _ _ _ => trivial

theorem Controllers.Sound.step
    (h : ControllersStep rt operatorPodName periodicResyncInterval s label s')
    (hs : s.Sound rt) : s'.Sound rt := by
  cases controllersStep_cases h with
  | @operator label operator hstep =>
      refine ⟨?_, hs.stems.step hstep hs.reconcilers, fun j run hrun => ?_⟩
      · show operator.reconcilers.Sound
        rcases reconcilers_step hstep with hsame | ⟨label', hstep'⟩
        · rw [hsame]
          exact hs.reconcilers
        · exact (hs.reconcilers.step hstep').1
      · obtain ⟨hprogram, hgenuine⟩ := hs.runs j run hrun
        exact ⟨hprogram, fun entry hentry =>
          (hgenuine entry hentry).mono (subset_appliedAfter s.applied label)⟩
  | @start j pod =>
      refine ⟨hs.reconcilers, hs.stems, present_update hs.runs fun run hrun => ?_⟩
      obtain rfl := Option.some.inj hrun
      exact ⟨wp_warrant_reconcilePod periodicResyncInterval pod, fun _ hentry => nomatch hentry⟩
  | @effect j time answer pod e k log hrun hadmits =>
      refine ⟨hs.reconcilers, hs.stems, present_update hs.runs fun run hrun' => ?_⟩
      obtain rfl := Option.some.inj hrun'
      obtain ⟨hprogram, hgenuine⟩ := hs.runs j _ hrun
      refine ⟨hprogram.2 _ _ ⟨time, rfl⟩, fun entry hentry => ?_⟩
      rcases List.mem_cons.mp hentry with rfl | hentry
      · exact hs.genuine hadmits
      · exact hgenuine entry hentry
  | finish =>
      exact ⟨hs.reconcilers, hs.stems, present_update hs.runs fun run => nofun⟩

/-! ### Every call is justified -/

/-- The condition of the policy holds for the pod at a time. -/
def CelRuntime.ConditionHolds (rt : CelRuntime cel conv) (policy : DepodPolicy) (pod : Pod)
    (time : DateTime) : Prop :=
  match policy.spec.when_.conditionType with
  | .builtin =>
      ∃ ttlSeconds, policy.spec.when_.ttlSeconds = some ttlSeconds ∧
        evaluateTtlCondition pod ttlSeconds time = true
  | .cel =>
      ∃ expr, policy.spec.when_.expression = some expr ∧
        rt.evaluateFresh expr pod time = .ok true

/-- Why `call` is sent: a policy in the cache that the run has loaded, which a
user has applied and which is spec-valid, matches the pod, whose trigger the pod
carries; `told` said that its condition holds, and it did at that time; it does
not protect the namespace and is no dry run; and `call` is what it asks for,
granted by both limits right after `told`. -/
structure Justified (rt : CelRuntime cel conv) (applied : List DepodPolicy) (run : PodCall)
    (policy : DepodPolicy) (told : Performed) (call : PodEffect) : Prop where
  listed : ∃ policies, Loaded policies run.log ∧ policy ∈ policies
  stems : StemsFrom applied policy
  valid : policy.spec.isValid = true
  matches_ : matchesPolicy run.pod policy = true
  trigger : checkTrigger run.pod policy.spec.trigger.annotationKey
    policy.spec.trigger.annotationValues = true
  seen : ConditionTold run.pod policy told
  condition : rt.ConditionHolds policy run.pod told.time
  unprotected : isNamespaceProtected run.pod.namespaceOrDefault
    policy.spec.limits.protectSystemNamespaces policy.spec.limits.excludedNamespaces = false
  live : policy.spec.then_.dryRun = false
  granted : Granted run.pod policy told call run.log

omit [DecidableEq ι] [Fintype ι] [DecidableEq κ] in
/-- What a genuine reply says of the condition is true. -/
theorem ConditionTold.holds {applied : List DepodPolicy} (h : ConditionTold pod policy told)
    (hgenuine : told.Genuine rt applied) : rt.ConditionHolds policy pod told.time := by
  cases h with
  | @builtin ttlSeconds time now htype httl hover =>
      obtain rfl : now = time := hgenuine
      rw [CelRuntime.ConditionHolds, htype]
      exact ⟨ttlSeconds, httl, hover⟩
  | @cel expr time htype hexpr =>
      have hverdict : .ok true = rt.evaluateFresh expr pod time := hgenuine
      rw [CelRuntime.ConditionHolds, htype]
      exact ⟨expr, hexpr, hverdict.symm⟩

omit [DecidableEq ι] [Fintype ι] [DecidableEq κ] in
theorem Warrant.justified {applied : List DepodPolicy} {run : PodCall} {call : PodEffect}
    (h : Warrant run.pod policy told call run.log) (hrun : run.Sound rt applied) :
    Justified rt applied run policy told call := by
  obtain ⟨policies, hloaded, hlisted⟩ := h.chosen.listed
  obtain ⟨entry, hentry, hfound⟩ := hloaded.exists_mem
  obtain ⟨hstems, hvalid⟩ := (hrun.genuine entry hentry).of_loaded hfound policy hlisted
  exact
    { listed := h.chosen.listed
      stems := hstems
      valid := hvalid
      matches_ := h.chosen.matches_
      trigger := h.chosen.trigger
      seen := h.chosen.condition
      condition := h.chosen.condition.holds (hrun.genuine told h.granted.told_mem)
      unprotected := h.chosen.unprotected
      live := h.live
      granted := h.granted }

/-- **Every call is justified.**  In every interleaving of users, watch
deliveries, `reconcile_policy` calls and `reconcile_pod` runs, whatever the API
server, the limits and the clock answer: a run that is about to send a delete or
an eviction does so for a policy that it has found in the cache and that a user
has applied, and for every reason that the policy states. -/
theorem calls_justified (rt : CelRuntime cel conv) (operatorPodName : String)
    (periodicResyncInterval : Option Duration)
    {π : List (ControllersLabel ι κ × Controllers cel ι κ)}
    (hπ : Execution (ControllersStep rt operatorPodName periodicResyncInterval) .initial π) :
    ∀ s ∈ states .initial π, ∀ j run, s.runs j = some run →
      ∀ call k, run.program = .op call k → call.isCall = true →
        ∃ policy told, Justified rt s.applied run policy told call := by
  intro s hs j run hrun call k hprogram hcall
  have hsound : s.Sound rt :=
    hπ.invariant (I := Controllers.Sound rt) (fun _ _ _ h => Controllers.Sound.step h)
      Controllers.initial_sound s hs
  have hrunSound := hsound.runs j run hrun
  have hwp := hrunSound.program
  rw [hprogram] at hwp
  obtain ⟨policy, told, hwarrant⟩ := hwp.1 hcall
  exact ⟨policy, told, hwarrant.justified hrunSound⟩

/-- A policy is applied and cached, and a run comes to delete its pod. -/
theorem calls_justified_delete :
    let delete : PodEffect := .delete "default" "web-0" ⟨none⟩
    ∃ (s : Controllers literalEngine Unit Unit) (run : PodCall)
      (k : delete.Reply → PodProg (Except Error Action)),
      s.runs () = some run ∧ run.program = .op delete k ∧
        ∃ policy told, Justified literalRuntime s.applied run policy told delete := by
  intro delete
  let policy := celPolicy "cleanup" "true"
  let answer := answersFrom (PolicyStore.empty.insert policy)
  let effect : ControllersLabel Unit Unit := .effect () .unixEpoch (answersWith [policy] true)
  have hrun : ∃ π run k, follow (controllersStep literalRuntime "operator" none) .initial
      [.operator (.apply policy), .operator .reflect, .operator .deliver,
        .operator (.start () policy.key), .operator (.effect () answer),
        .operator (.effect () answer), .operator (.effect () answer),
        .start () epochPod, effect, effect, effect, effect, effect, effect] = some π ∧
      (final .initial π).runs () = some run ∧ run.program = .op delete k :=
    ⟨_, _, _, rfl, rfl, rfl⟩
  obtain ⟨π, run, k, hfollow, hlast, hprogram⟩ := hrun
  refine ⟨final .initial π, run, k, hlast, hprogram, ?_⟩
  exact calls_justified literalRuntime "operator" none (execution_of_follow hfollow).1 _
    (final_mem_states _ π) () run hlast delete k hprogram rfl

end

end KubeDepod
