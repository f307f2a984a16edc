/-
KubeDepod/Policies/Operator.lean

The operator's policy side as a whole: the API server's policies, the two
watch streams that `main` starts over them, and the `reconcile_policy` calls
of the controller.

The reflector's stream fills `policy_store`, which the calls read.  The
controller's stream fills a store of the controller's own and schedules a call
for every applied object, not for a deleted one; a call is made for the object
as the controller's store has it, and never two at once for one key.  The
streams carry the same changes in the same order, each with a delay of its
own.  An accepted status patch is a further change.

Two invariants that hold of every run are proved here: the calls are sound
(`reconcilers_sound`), and if only valid policies are applied, only valid ones
are stored and called for (`AppliedValid.step`).
-/
import KubeDepod.Policies.Refresh

namespace KubeDepod

open Effects Lts Parties

variable {cel : CelEngine} {ι : Type}

/-! ### The state -/

/-- The API server's policies, what is under way to the reflector and to the
controller, the controller's store, the keys for which a call is due, and the
calls with the context they share. -/
structure Operator (cel : CelEngine) (ι : Type) where
  cluster : PolicyStore
  reflectorQueue : List PolicyChange
  controllerQueue : List PolicyChange
  known : PolicyStore
  scheduled : List PolicyKey
  reconcilers : Reconcilers cel ι

namespace Operator

def initial : Operator cel ι where
  cluster := .empty
  reflectorQueue := []
  controllerQueue := []
  known := .empty
  scheduled := []
  reconcilers := .initial

/-- `ctx.policy_store`. -/
def store (s : Operator cel ι) : PolicyStore := s.reconcilers.context.store

/-- `ctx.policies`. -/
def cache (s : Operator cel ι) : List DepodPolicy := s.reconcilers.context.cache

/-- A policy changes at the API server. -/
def change (s : Operator cel ι) (c : PolicyChange) : Operator cel ι :=
  { s with
    cluster := s.cluster.apply c
    reflectorQueue := s.reflectorQueue ++ [c]
    controllerQueue := s.controllerQueue ++ [c] }

/-- The keys for which a call is due, with `key` among them once. -/
def schedule (scheduled : List PolicyKey) (key : PolicyKey) : List PolicyKey :=
  if scheduled.contains key then scheduled else scheduled ++ [key]

theorem mem_schedule {scheduled : List PolicyKey} {key key' : PolicyKey} :
    key ∈ schedule scheduled key' ↔ key ∈ scheduled ∨ key = key' := by
  rw [schedule]
  split
  case isTrue hmem =>
    have hmem : key' ∈ scheduled := List.contains_iff_mem.mp hmem
    constructor
    · exact .inl
    · rintro (h | rfl)
      · exact h
      · exact hmem
  case isFalse => rw [List.mem_append, List.mem_singleton]

/-- The reflector takes a change. -/
def reflected (s : Operator cel ι) (c : PolicyChange) (queue : List PolicyChange) :
    Operator cel ι :=
  { s with
    reflectorQueue := queue
    reconcilers := s.reconcilers.changeStore (s.store.apply c) }

/-- The controller takes a change: a call is due for an applied object. -/
def delivered (s : Operator cel ι) (c : PolicyChange) (queue : List PolicyChange) :
    Operator cel ι :=
  { s with
    controllerQueue := queue
    known := s.known.apply c
    scheduled := match c with
      | .applied policy => schedule s.scheduled policy.key
      | .deleted _ => s.scheduled }

/-- The status patch that call `i` is about to have accepted. -/
def acceptedPatch (s : Operator cel ι) (i : ι) (answer : (e : PolicyEffect) → e.Reply) :
    Option (PolicyKey × DepodPolicyStatus) :=
  match s.reconcilers.calls i with
  | some ⟨_, .op (.patchStatus ns name status) _, _⟩ =>
      match answer (.patchStatus ns name status) with
      | .ok _ => some ((some ns, name), status)
      | .error _ => none
  | _ => none

/-- The keys due after a call has returned: a requeue makes its key due again,
and so does an error (`error_policy_policy`). -/
def rescheduled (s : Operator cel ι) (policy : DepodPolicy) :
    Except Error Action → List PolicyKey
  | .ok .awaitChange => s.scheduled
  | .ok (.requeue _) => schedule s.scheduled policy.key
  | .error _ => schedule s.scheduled policy.key

theorem mem_rescheduled {s : Operator cel ι} {key : PolicyKey} (h : key ∈ s.scheduled)
    (policy : DepodPolicy) (result : Except Error Action) :
    key ∈ s.rescheduled policy result := by
  rcases result with e | - | -
  · exact mem_schedule.mpr (.inl h)
  · exact mem_schedule.mpr (.inl h)
  · exact h

end Operator

/-! ### The steps -/

/-- A user creates or updates a policy, or deletes one; the reflector or the
controller takes its next change; a due call starts, or is dropped because its
object is gone; a call performs its next effect, or returns. -/
inductive OperatorLabel (ι : Type) where
  | apply (policy : DepodPolicy)
  | delete (key : PolicyKey)
  | reflect
  | deliver
  | start (i : ι) (key : PolicyKey)
  | skip (key : PolicyKey)
  | effect (i : ι) (answer : (e : PolicyEffect) → e.Reply)
  | finish (i : ι)

section
variable [DecidableEq ι] [Fintype ι]

def operatorStep (operatorPodName : String) (s : Operator cel ι) :
    OperatorLabel ι → Option (Operator cel ι)
  | .apply policy => some (s.change (.applied policy))
  | .delete key =>
      match s.cluster.get key with
      | some _ => some (s.change (.deleted key))
      | none => none
  | .reflect =>
      match s.reflectorQueue with
      | c :: queue => some (s.reflected c queue)
      | [] => none
  | .deliver =>
      match s.controllerQueue with
      | c :: queue => some (s.delivered c queue)
      | [] => none
  | .start i key =>
      -- a call is due, and none is in flight for the same policy
      if key ∈ s.scheduled ∧
          ∀ j, ((s.reconcilers.calls j).all fun call => call.policy.key != key) = true then
        match s.known.get key with
        | some policy =>
            (reconcilersStep operatorPodName s.reconcilers (.start i policy)).map fun r =>
              { s with scheduled := s.scheduled.erase key, reconcilers := r }
        | none => none
      else
        none
  | .skip key =>
      -- the runner finds no object in the controller's store
      if key ∈ s.scheduled ∧ (s.known.get key).isNone then
        some { s with scheduled := s.scheduled.erase key }
      else
        none
  | .effect i answer =>
      match reconcilersStep operatorPodName s.reconcilers (.effect i answer) with
      | some r =>
          match s.acceptedPatch i answer with
          | some (key, status) =>
              -- the API server has the object, and stores it with the new status
              match s.cluster.get key with
              | some policy =>
                  some (Operator.change { s with reconcilers := r }
                    (.applied { policy with status := some status }))
              | none => none    -- there is nothing to patch: not accepted
          | none => some { s with reconcilers := r }
      | none => none
  | .finish i =>
      match s.reconcilers.calls i with
      | some ⟨policy, .pure result, _⟩ =>
          (reconcilersStep operatorPodName s.reconcilers (.finish i)).map fun r =>
            { s with scheduled := s.rescheduled policy result, reconcilers := r }
      | some ⟨_, .op _ _, _⟩ => none
      | none => none

def OperatorStep (operatorPodName : String) (s : Operator cel ι)
    (label : OperatorLabel ι) (s' : Operator cel ι) : Prop :=
  operatorStep operatorPodName s label = some s'

/-- What a step can do. -/
inductive OperatorCase (operatorPodName : String) (s : Operator cel ι) :
    OperatorLabel ι → Operator cel ι → Prop
  | apply (policy : DepodPolicy) :
      OperatorCase operatorPodName s (.apply policy) (s.change (.applied policy))
  | delete (key : PolicyKey) :
      OperatorCase operatorPodName s (.delete key) (s.change (.deleted key))
  | reflect {c : PolicyChange} {queue : List PolicyChange}
      (hqueue : s.reflectorQueue = c :: queue) :
      OperatorCase operatorPodName s .reflect (s.reflected c queue)
  | deliver {c : PolicyChange} {queue : List PolicyChange}
      (hqueue : s.controllerQueue = c :: queue) :
      OperatorCase operatorPodName s .deliver (s.delivered c queue)
  | start {i : ι} {key : PolicyKey} {policy : DepodPolicy} {r : Reconcilers cel ι}
      (hidle : ∀ j, ((s.reconcilers.calls j).all fun call => call.policy.key != key) = true)
      (hknown : s.known.get key = some policy)
      (hstep : ReconcilersStep operatorPodName s.reconcilers (.start i policy) r) :
      OperatorCase operatorPodName s (.start i key)
        { s with scheduled := s.scheduled.erase key, reconcilers := r }
  | skip {key : PolicyKey} (hknown : s.known.get key = none) :
      OperatorCase operatorPodName s (.skip key) { s with scheduled := s.scheduled.erase key }
  | effect {i : ι} {answer : (e : PolicyEffect) → e.Reply} {r : Reconcilers cel ι}
      (hstep : ReconcilersStep operatorPodName s.reconcilers (.effect i answer) r) :
      OperatorCase operatorPodName s (.effect i answer) { s with reconcilers := r }
  | patch {i : ι} {answer : (e : PolicyEffect) → e.Reply} {r : Reconcilers cel ι}
      {key : PolicyKey} {policy : DepodPolicy} {status : DepodPolicyStatus}
      (hstep : ReconcilersStep operatorPodName s.reconcilers (.effect i answer) r)
      (hstored : s.cluster.get key = some policy) :
      OperatorCase operatorPodName s (.effect i answer)
        (Operator.change { s with reconcilers := r }
          (.applied { policy with status := some status }))
  | finish {i : ι} {policy : DepodPolicy} {result : Except Error Action} {r : Reconcilers cel ι}
      (hstep : ReconcilersStep operatorPodName s.reconcilers (.finish i) r) :
      OperatorCase operatorPodName s (.finish i)
        { s with scheduled := s.rescheduled policy result, reconcilers := r }

variable {operatorPodName : String} {s s' : Operator cel ι}
variable {label : OperatorLabel ι} {π : List (OperatorLabel ι × Operator cel ι)}

theorem operatorStep_cases (h : OperatorStep operatorPodName s label s') :
    OperatorCase operatorPodName s label s' := by
  rw [OperatorStep] at h
  cases label with
  | apply policy =>
      obtain rfl := Option.some.inj h
      exact .apply policy
  | delete key =>
      rcases hstored : s.cluster.get key with - | policy
      · simp only [operatorStep, hstored] at h
        cases h
      · simp only [operatorStep, hstored] at h
        obtain rfl := Option.some.inj h
        exact .delete key
  | reflect =>
      rcases hqueue : s.reflectorQueue with - | ⟨c, queue⟩
      · simp only [operatorStep, hqueue] at h
        cases h
      · simp only [operatorStep, hqueue] at h
        obtain rfl := Option.some.inj h
        exact .reflect hqueue
  | deliver =>
      rcases hqueue : s.controllerQueue with - | ⟨c, queue⟩
      · simp only [operatorStep, hqueue] at h
        cases h
      · simp only [operatorStep, hqueue] at h
        obtain rfl := Option.some.inj h
        exact .deliver hqueue
  | start i key =>
      rw [operatorStep] at h
      split at h
      case isTrue hdue =>
        rcases hknown : s.known.get key with - | policy
        · simp only [hknown] at h
          cases h
        · simp only [hknown] at h
          obtain ⟨r, hstep, rfl⟩ := Option.map_eq_some_iff.mp h
          exact .start hdue.2 hknown hstep
      case isFalse => cases h
  | skip key =>
      rw [operatorStep] at h
      split at h
      case isTrue hdue =>
        obtain rfl := Option.some.inj h
        exact .skip (Option.isNone_iff_eq_none.mp hdue.2)
      case isFalse => cases h
  | effect i answer =>
      rw [operatorStep] at h
      rcases hstep : reconcilersStep operatorPodName s.reconcilers (.effect i answer) with - | r
      · simp only [hstep] at h
        cases h
      · rcases hpatch : s.acceptedPatch i answer with - | ⟨key, status⟩
        · simp only [hstep, hpatch] at h
          obtain rfl := Option.some.inj h
          exact .effect hstep
        · rcases hstored : s.cluster.get key with - | policy
          · simp only [hstep, hpatch, hstored] at h
            cases h
          · simp only [hstep, hpatch, hstored] at h
            obtain rfl := Option.some.inj h
            exact .patch hstep hstored
  | finish i =>
      rcases hcall : s.reconcilers.calls i with - | ⟨policy, result | ⟨e, k⟩, refresh⟩
      · simp only [operatorStep, hcall] at h
        cases h
      · simp only [operatorStep, hcall] at h
        obtain ⟨r, hstep, rfl⟩ := Option.map_eq_some_iff.mp h
        exact .finish hstep
      · simp only [operatorStep, hcall] at h
        cases h

/-- A step leaves the calls and their context alone or is a step of theirs. -/
theorem reconcilers_step (h : OperatorStep operatorPodName s label s') :
    s'.reconcilers = s.reconcilers ∨
      ∃ label', ReconcilersStep operatorPodName s.reconcilers label' s'.reconcilers := by
  cases operatorStep_cases h with
  | apply policy => exact .inl rfl
  | delete key => exact .inl rfl
  | reflect hqueue => exact .inr ⟨.storeChange _, rfl⟩
  | deliver hqueue => exact .inl rfl
  | start hidle hknown hstep => exact .inr ⟨_, hstep⟩
  | skip hknown => exact .inl rfl
  | effect hstep => exact .inr ⟨_, hstep⟩
  | patch hstep hstored => exact .inr ⟨_, hstep⟩
  | finish hstep => exact .inr ⟨_, hstep⟩

/-- The calls of the operator are sound. -/
theorem reconcilers_sound (hπ : Execution (OperatorStep operatorPodName) .initial π) :
    ∀ x ∈ states (.initial : Operator cel ι) π, x.reconcilers.Sound := by
  refine hπ.invariant (I := fun x => x.reconcilers.Sound) ?_ ?_
  · intro s label s' hstep hs
    rcases reconcilers_step hstep with hsame | ⟨label', hstep'⟩
    · rw [hsame]
      exact hs
    · exact (hs.step hstep').1
  · exact Reconcilers.initial_sound

/-- Nothing is under way: both streams are drained, no call is due, and none
is in flight. -/
def Operator.Drained (s : Operator cel ι) : Prop :=
  s.reflectorQueue = [] ∧ s.controllerQueue = [] ∧ s.scheduled = [] ∧ s.reconcilers.Idle

/-! ### Refreshes in order -/

/-- No call publishes while another one holds an older snapshot. -/
def NoneOvertaken (s : Operator cel ι) : OperatorLabel ι → Prop
  | .effect i answer => NoCallOvertaken s.reconcilers (.effect i answer)
  | _ => True

/-- The copies of the store go forwards. -/
theorem ordered_step (h : OperatorStep operatorPodName s label s')
    (hok : NoneOvertaken s label) (hsound : s.reconcilers.Sound)
    (hordered : Snapshots.Ordered s.reconcilers.snapshots) :
    Snapshots.Ordered s'.reconcilers.snapshots := by
  cases operatorStep_cases h with
  | apply policy => exact hordered
  | delete key => exact hordered
  | @reflect c queue hqueue =>
      have hstep : Snapshots.Step s.reconcilers.snapshots .change
        (s.reconcilers.changeStore (s.store.apply c)).snapshots := .change
      exact (hordered.step hstep trivial).1
  | deliver hqueue => exact hordered
  | start hidle hknown hstep => exact (hordered.step (hsound.step hstep).2 trivial).1
  | skip hknown => exact hordered
  | effect hstep => exact (hordered.step (hsound.step hstep).2 hok).1
  | patch hstep hstored => exact (hordered.step (hsound.step hstep).2 hok).1
  | finish hstep => exact (hordered.step (hsound.step hstep).2 trivial).1

end

/-! ### Valid policies only -/

def PolicyStore.AllValid (cel : CelEngine) (store : PolicyStore) : Prop :=
  ∀ q ∈ store.entries, cel.valid q = true

theorem PolicyStore.AllValid.insert {store : PolicyStore} {policy : DepodPolicy}
    (h : store.AllValid cel) (hpolicy : cel.valid policy = true) :
    (store.insert policy).AllValid cel := by
  intro q hq
  rcases (store.mem_insert).mp hq with rfl | ⟨hmem, -⟩
  · exact hpolicy
  · exact h q hmem

theorem PolicyStore.AllValid.remove {store : PolicyStore} (h : store.AllValid cel)
    (key : PolicyKey) : (store.remove key).AllValid cel :=
  fun q hq => h q ((store.mem_remove).mp hq).1

theorem PolicyStore.AllValid.get {store : PolicyStore} (h : store.AllValid cel)
    {key : PolicyKey} {policy : DepodPolicy} (hget : store.get key = some policy) :
    cel.valid policy = true :=
  h policy (store.get_eq_some_iff.mp hget).1

/-- Only valid policies are created or updated. -/
def ValidApplies (cel : CelEngine) (_ : Operator cel ι) : OperatorLabel ι → Prop
  | .apply policy => cel.valid policy = true
  | _ => True

instance (s : Operator cel ι) (label : OperatorLabel ι) : Decidable (ValidApplies cel s label) :=
  match label with
  | .apply policy => inferInstanceAs (Decidable (cel.valid policy = true))
  | .delete _ => .isTrue trivial
  | .reflect => .isTrue trivial
  | .deliver => .isTrue trivial
  | .start _ _ => .isTrue trivial
  | .skip _ => .isTrue trivial
  | .effect _ _ => .isTrue trivial
  | .finish _ => .isTrue trivial

/-- What the API server and the controller hold, what is queued for the
controller and what calls are made for is valid. -/
structure AppliedValid (s : Operator cel ι) : Prop where
  cluster : s.cluster.AllValid cel
  queued : ∀ p, .applied p ∈ s.controllerQueue → cel.valid p = true
  known : s.known.AllValid cel
  calls : ∀ i call, s.reconcilers.calls i = some call → cel.valid call.policy = true

namespace AppliedValid

variable {s s' : Operator cel ι}

theorem initial : AppliedValid (.initial : Operator cel ι) where
  cluster := by
    intro q hq
    cases hq
  queued := by
    intro p hp
    cases hp
  known := by
    intro q hq
    cases hq
  calls := by
    intro i call hcall
    cases hcall

/-- A change is added to the controller's queue. -/
theorem queued_append (hs : AppliedValid s) {c : PolicyChange}
    (hc : ∀ q, PolicyChange.applied q = c → cel.valid q = true) :
    ∀ q, .applied q ∈ s.controllerQueue ++ [c] → cel.valid q = true := by
  intro q hq
  rcases List.mem_append.mp hq with hq | hq
  · exact hs.queued q hq
  · exact hc q (List.mem_singleton.mp hq)

theorem applied (hs : AppliedValid s) {p : DepodPolicy} (hp : cel.valid p = true) :
    AppliedValid (s.change (.applied p)) where
  cluster := hs.cluster.insert hp
  queued := by
    refine hs.queued_append fun q hq => ?_
    cases hq
    exact hp
  known := hs.known
  calls := hs.calls

theorem deleted (hs : AppliedValid s) (key : PolicyKey) :
    AppliedValid (s.change (.deleted key)) where
  cluster := hs.cluster.remove key
  queued := by
    refine hs.queued_append fun q hq => ?_
    cases hq
  known := hs.known
  calls := hs.calls

theorem delivered (hs : AppliedValid s) {c : PolicyChange} {queue : List PolicyChange}
    (hqueue : s.controllerQueue = c :: queue) : AppliedValid (s.delivered c queue) where
  cluster := hs.cluster
  queued := fun p hp => hs.queued p (by rw [hqueue]; exact List.mem_cons_of_mem _ hp)
  known := by
    cases c with
    | applied p => exact hs.known.insert (hs.queued p (by rw [hqueue]; exact List.mem_cons_self ..))
    | deleted key => exact hs.known.remove key
  calls := hs.calls

variable [DecidableEq ι] {operatorPodName : String}

/-- A step of the calls; a new one is for a valid policy. -/
theorem withReconcilers (hs : AppliedValid s) {label : ReconcilersLabel ι}
    {r : Reconcilers cel ι} (scheduled : List PolicyKey)
    (hstep : ReconcilersStep operatorPodName s.reconcilers label r)
    (hlabel : ∀ i policy, label = .start i policy → cel.valid policy = true) :
    AppliedValid { s with scheduled := scheduled, reconcilers := r } where
  cluster := hs.cluster
  queued := hs.queued
  known := hs.known
  calls := by
    cases reconcilersStep_cases hstep with
    | storeChange store => exact hs.calls
    | start hnone =>
        refine present_update hs.calls fun c hc => ?_
        cases hc
        exact hlabel _ _ rfl
    | effect hcall hpermits =>
        -- it goes on, for the same policy
        have hpolicy := hs.calls _ _ hcall
        refine present_update hs.calls fun c hc => ?_
        cases hc
        exact hpolicy
    | finish hcall =>
        refine present_update hs.calls fun c hc => ?_
        cases hc

theorem step [Fintype ι] {label : OperatorLabel ι} (h : OperatorStep operatorPodName s label s')
    (hvalid : ValidApplies cel s label) (hs : AppliedValid s) : AppliedValid s' := by
  cases operatorStep_cases h with
  | apply policy => exact hs.applied hvalid
  | delete key => exact hs.deleted key
  | reflect hqueue => exact ⟨hs.cluster, hs.queued, hs.known, hs.calls⟩
  | deliver hqueue => exact hs.delivered hqueue
  | start hidle hknown hstep =>
      refine hs.withReconcilers _ hstep fun i policy hlabel => ?_
      cases hlabel
      exact hs.known.get hknown
  | skip hknown => exact ⟨hs.cluster, hs.queued, hs.known, hs.calls⟩
  | effect hstep => exact hs.withReconcilers _ hstep fun _ _ => nofun
  | patch hstep hstored =>
      have hpatched := hs.withReconcilers s.scheduled hstep fun _ _ => nofun
      have hpolicy := hs.cluster.get hstored
      exact hpatched.applied hpolicy
  | finish hstep => exact hs.withReconcilers _ hstep fun _ _ => nofun

end AppliedValid

/-! ### Sample policies -/

/-- An hour after their creation, opted-in pods go. -/
def cleanup : DepodPolicy := ttlPolicy "cleanup" 3600

/-- The same policy, already carrying `Ready`. -/
def readyCleanup : DepodPolicy :=
  { cleanup with
    status := some (StatusUpdater.updateCondition {} (.ready "2024-01-01T00:00:00+00:00")) }

end KubeDepod
