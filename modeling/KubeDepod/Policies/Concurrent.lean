/-
KubeDepod/Policies/Concurrent.lean

Any number of `reconcile_policy` calls at once, interleaved effect by effect
with each other and with changes of the store.

A call refreshes the cache in two steps, `ctx.policy_store.state()` and
`ctx.policies.store(..)`, and nothing keeps another call from doing both of
its own steps in between.  The state records, for the statements and for no
step to read, the version of the store behind the cache and behind the
snapshot that each call holds.  In these terms the calls are the parties of
`Lib/Snapshots.lean` (`Reconcilers.Sound.step`).  `Reconcilers.Carries` says
that a version with some property is on its way to the cache; the invariants
of the later modules are built on it.
-/
import KubeDepod.Policies.Cache
import KubeDepod.Lib.Parties
import KubeDepod.Lib.Snapshots

namespace KubeDepod

open Effects Lts Parties

variable {cel : CelEngine} {ι : Type} [DecidableEq ι]

/-! ### The refresh within one call -/

/-- How far a call is with its refresh; while it holds a snapshot, which
version of the store it is of. -/
inductive Refresh where
  | pending
  | holding (version : Nat) (state : List DepodPolicy)
  | done
deriving DecidableEq

/-- The progress an effect makes while the store is at `version`. -/
def Refresh.after (version : Nat) : (e : PolicyEffect) → e.Reply → Refresh → Refresh
  | .storeState, state, _ => .holding version state
  | .publish _, _, _ => .done
  | .validate _, _, refresh => refresh
  | .nowText, _, refresh => refresh
  | .patchStatus _ _ _, _, refresh => refresh
  | .listPods _ _, _, refresh => refresh
  | .patchPod _ _ _, _, refresh => refresh

/-- The version of the snapshot that the call holds. -/
def Refresh.held : Refresh → Option Nat
  | .pending => none
  | .holding version _ => some version
  | .done => none

/-- The evaluator answers with the compiler's verdict. -/
def CelEngine.Answers (cel : CelEngine) : (e : PolicyEffect) → e.Reply → Prop
  | .validate expr, r => r = cel.verdict expr
  | .nowText, _ => True
  | .patchStatus _ _ _, _ => True
  | .storeState, _ => True
  | .publish _, _ => True
  | .listPods _ _, _ => True
  | .patchPod _ _ _, _ => True

theorem PolicyState.Permits.answers {s : PolicyState cel} {e : PolicyEffect} {r : e.Reply}
    (h : s.Permits e r) : cel.Answers e r := by
  cases e with
  | validate expr => exact h.trans (s.evaluator.validate_eq expr)
  | nowText => trivial
  | patchStatus _ _ _ => trivial
  | storeState => trivial
  | publish _ => trivial
  | listPods _ _ => trivial
  | patchPod _ _ _ => trivial

/-- A call reads the store once, then publishes the spec-valid policies of
what it read, and does nothing else in between. -/
def refreshProtocol (cel : CelEngine) : Protocol PolicyEffect.Reply Refresh where
  allowed
    | .storeState, refresh => refresh = .pending
    | .publish policies, refresh => ∃ version state, refresh = .holding version state ∧
        policies = state.filter fun q => q.spec.isValid
    | _, refresh => refresh.held = none
  reply e refresh r refresh' := (∃ version, refresh' = refresh.after version e r) ∧ cel.Answers e r

theorem Refresh.after_of_quiet {e : PolicyEffect} (hquiet : e.IsQuiet) (version : Nat)
    (r : e.Reply) (refresh : Refresh) : refresh.after version e r = refresh := by
  cases e with
  | storeState => exact hquiet.elim
  | publish _ => exact hquiet.elim
  | validate _ => rfl
  | nowText => rfl
  | patchStatus _ _ _ => rfl
  | listPods _ _ => rfl
  | patchPod _ _ _ => rfl

theorem respectsQuiet_refreshProtocol {refresh : Refresh} (hheld : refresh.held = none) :
    RespectsQuiet cel (refreshProtocol cel) (· = refresh) where
  allowed := by
    rintro e _ hquiet rfl
    cases e with
    | storeState => exact hquiet.elim
    | publish _ => exact hquiet.elim
    | validate _ => exact hheld
    | nowText => exact hheld
    | patchStatus _ _ _ => exact hheld
    | listPods _ _ => exact hheld
    | patchPod _ _ _ => exact hheld
  keeps := by
    rintro e _ r _ hquiet rfl ⟨⟨version, rfl⟩, -⟩
    exact Refresh.after_of_quiet hquiet version r _
  verdict := by
    rintro expr _ r _ ⟨-, hr⟩
    exact hr

/-- What a call has done when it returns: it holds no snapshot, and if its
policy is valid it has published one. -/
def RefreshOver (cel : CelEngine) (policy : DepodPolicy) (refresh : Refresh) : Prop :=
  refresh.held = none ∧ (cel.valid policy = true → refresh = .done)

/-- The whole call keeps to the protocol. -/
theorem wp_refresh_reconcilePolicy (operatorPodName : String) (policy : DepodPolicy) :
    wp (refreshProtocol cel) (reconcilePolicy operatorPodName policy)
      (fun _ => RefreshOver cel policy) .pending := by
  have hpending : RespectsQuiet cel (refreshProtocol cel) (· = .pending) :=
    respectsQuiet_refreshProtocol rfl
  rw [reconcilePolicy, wp_bind]
  refine wp_mono ?_ (hpending.respectsReports.wp_checkPolicy policy rfl)
  rintro checked _ ⟨hchecked, rfl⟩
  split
  · refine ⟨rfl, ?_⟩
    rintro state _ ⟨⟨version, rfl⟩, -⟩
    refine ⟨⟨version, state, rfl, rfl⟩, ?_⟩
    rintro _ _ ⟨⟨_, rfl⟩, -⟩
    have hdone : RespectsQuiet cel (refreshProtocol cel) (· = .done) :=
      respectsQuiet_refreshProtocol rfl
    refine wp_mono ?_ (hdone.wp (afterRefresh_uses operatorPodName policy) rfl)
    rintro result _ rfl
    exact ⟨rfl, fun _ => rfl⟩
  case isFalse hinvalid =>
    -- the early exit: the policy is invalid
    refine ⟨rfl, fun hvalid => ?_⟩
    rw [← hchecked] at hvalid
    exact absurd hvalid hinvalid

/-! ### The calls together -/

/-- A call in flight: what it is called for, what is left of it, and how far it
is with the refresh. -/
structure PolicyCall where
  policy : DepodPolicy
  prog : PolicyProg (Except Error Action)
  refresh : Refresh

/-- The context and the calls in flight.  `past v` is the store at version `v`,
`version` the current one, `published` the one behind the cache, and `taken`
lists those that calls have read. -/
structure Reconcilers (cel : CelEngine) (ι : Type) where
  context : PolicyState cel
  past : Nat → PolicyStore
  version : Nat
  published : Nat
  taken : List Nat
  calls : ι → Option PolicyCall

namespace Reconcilers

/-- Nothing stored, nothing cached, nothing called. -/
def initial : Reconcilers cel ι where
  context := ⟨.empty, [], .new⟩
  past := fun _ => .empty
  version := 0
  published := 0
  taken := []
  calls := fun _ => none

/-- The store changes. -/
def changeStore (s : Reconcilers cel ι) (store : PolicyStore) : Reconcilers cel ι :=
  { s with
    context := { s.context with store := store }
    past := Function.update s.past (s.version + 1) store
    version := s.version + 1 }

def setCall (s : Reconcilers cel ι) (i : ι) (call : Option PolicyCall) : Reconcilers cel ι :=
  { s with calls := Function.update s.calls i call }

@[simp] theorem setCall_calls_self {s : Reconcilers cel ι} {i : ι} {call : Option PolicyCall} :
    (s.setCall i call).calls i = call := Function.update_self ..

theorem setCall_calls_of_ne {s : Reconcilers cel ι} {i j : ι} {call : Option PolicyCall}
    (h : j ≠ i) : (s.setCall i call).calls j = s.calls j := Function.update_of_ne h ..

/-- Call `i`, so far `call`, performs `e` and continues with `prog`. -/
def performed (s : Reconcilers cel ι) (i : ι) (call : PolicyCall) (e : PolicyEffect)
    (r : e.Reply) (prog : PolicyProg (Except Error Action)) : Reconcilers cel ι where
  context := s.context.after e
  past := s.past
  version := s.version
  published := match e with
    | .publish _ => call.refresh.held.getD s.published
    | _ => s.published
  taken := match e with
    | .storeState => s.version :: s.taken
    | _ => s.taken
  calls := Function.update s.calls i
    (some ⟨call.policy, prog, call.refresh.after s.version e r⟩)

end Reconcilers

/-- The steps: the store changes; a call starts, performs its next effect, or
returns.  `answer` is what the environment answers to the effect. -/
inductive ReconcilersLabel (ι : Type) where
  | storeChange (store : PolicyStore)
  | start (i : ι) (policy : DepodPolicy)
  | effect (i : ι) (answer : (e : PolicyEffect) → e.Reply)
  | finish (i : ι)

instance (s : PolicyState cel) (e : PolicyEffect) (r : e.Reply) : Decidable (s.Permits e r) :=
  match e, r with
  | .validate expr, r => inferInstanceAs (Decidable (r = (s.evaluator.validate expr).1))
  | .storeState, r => inferInstanceAs (Decidable (r.Perm s.store.entries))
  | .nowText, _ => .isTrue trivial
  | .patchStatus _ _ _, _ => .isTrue trivial
  | .publish _, _ => .isTrue trivial
  | .listPods _ _, _ => .isTrue trivial
  | .patchPod _ _ _, _ => .isTrue trivial

def reconcilersStep (operatorPodName : String) (s : Reconcilers cel ι) :
    ReconcilersLabel ι → Option (Reconcilers cel ι)
  | .storeChange store => some (s.changeStore store)
  | .start i policy =>
      match s.calls i with
      | none => some (s.setCall i (some ⟨policy, reconcilePolicy operatorPodName policy, .pending⟩))
      | some _ => none
  | .effect i answer =>
      match s.calls i with
      | some ⟨policy, .op e k, refresh⟩ =>
          -- the context answers for itself; the rest of the world is free
          if s.context.Permits e (answer e) then
            some (s.performed i ⟨policy, .op e k, refresh⟩ e (answer e) (k (answer e)))
          else
            none
      | some ⟨_, .pure _, _⟩ => none
      | none => none
  | .finish i =>
      match s.calls i with
      | some ⟨_, .pure _, _⟩ => some (s.setCall i none)
      | some ⟨_, .op _ _, _⟩ => none
      | none => none

def ReconcilersStep (operatorPodName : String) (s : Reconcilers cel ι)
    (label : ReconcilersLabel ι) (s' : Reconcilers cel ι) : Prop :=
  reconcilersStep operatorPodName s label = some s'

/-- What a step can do. -/
inductive ReconcilersCase (operatorPodName : String) (s : Reconcilers cel ι) :
    ReconcilersLabel ι → Reconcilers cel ι → Prop
  | storeChange (store : PolicyStore) :
      ReconcilersCase operatorPodName s (.storeChange store) (s.changeStore store)
  | start {i : ι} {policy : DepodPolicy} (hnone : s.calls i = none) :
      ReconcilersCase operatorPodName s (.start i policy)
        (s.setCall i (some ⟨policy, reconcilePolicy operatorPodName policy, .pending⟩))
  | effect {i : ι} {answer : (e : PolicyEffect) → e.Reply} {policy : DepodPolicy}
      {e : PolicyEffect} {k : e.Reply → PolicyProg (Except Error Action)} {refresh : Refresh}
      (hcall : s.calls i = some ⟨policy, .op e k, refresh⟩)
      (hpermits : s.context.Permits e (answer e)) :
      ReconcilersCase operatorPodName s (.effect i answer)
        (s.performed i ⟨policy, .op e k, refresh⟩ e (answer e) (k (answer e)))
  | finish {i : ι} {policy : DepodPolicy} {result : Except Error Action} {refresh : Refresh}
      (hcall : s.calls i = some ⟨policy, .pure result, refresh⟩) :
      ReconcilersCase operatorPodName s (.finish i) (s.setCall i none)

theorem reconcilersStep_cases {operatorPodName : String} {s s' : Reconcilers cel ι}
    {label : ReconcilersLabel ι} (h : ReconcilersStep operatorPodName s label s') :
    ReconcilersCase operatorPodName s label s' := by
  rw [ReconcilersStep] at h
  cases label with
  | storeChange store =>
      obtain rfl := Option.some.inj h
      exact .storeChange store
  | start i policy =>
      rcases hcall : s.calls i with - | call
      · simp only [reconcilersStep, hcall] at h
        obtain rfl := Option.some.inj h
        exact .start hcall
      · simp only [reconcilersStep, hcall] at h
        cases h
  | effect i answer =>
      rcases hcall : s.calls i with - | ⟨policy, result | ⟨e, k⟩, refresh⟩
      · simp only [reconcilersStep, hcall] at h
        cases h
      · simp only [reconcilersStep, hcall] at h
        cases h
      · simp only [reconcilersStep, hcall] at h
        split at h
        case isTrue hpermits =>
          obtain rfl := Option.some.inj h
          exact .effect hcall hpermits
        case isFalse => cases h
  | finish i =>
      rcases hcall : s.calls i with - | ⟨policy, result | ⟨e, k⟩, refresh⟩
      · simp only [reconcilersStep, hcall] at h
        cases h
      · simp only [reconcilersStep, hcall] at h
        obtain rfl := Option.some.inj h
        exact .finish hcall
      · simp only [reconcilersStep, hcall] at h
        cases h

/-! ### The calls as parties of a snapshot system -/

/-- The versions alone. -/
def Reconcilers.snapshots (s : Reconcilers cel ι) : Snapshots.State ι where
  version := s.version
  published := s.published
  taken := s.taken
  holding := fun i => (s.calls i).bind fun call => call.refresh.held

/-- What a step does to the versions. -/
def ReconcilersLabel.snapshots (s : Reconcilers cel ι) :
    ReconcilersLabel ι → Snapshots.Label ι
  | .storeChange _ => .change
  | .start _ _ => .other
  | .effect i _ =>
      match s.calls i with
      | some ⟨_, .op .storeState _, _⟩ => .take i
      | some ⟨_, .op (.publish _) _, _⟩ => .publish i
      | _ => .other
  | .finish _ => .other

/-- The call keeps to the refresh protocol, and a snapshot in its hands is of
the version it says. -/
structure PolicyCall.Sound (cel : CelEngine) (past : Nat → PolicyStore) (version : Nat)
    (call : PolicyCall) : Prop where
  prog : wp (refreshProtocol cel) call.prog (fun _ => RefreshOver cel call.policy) call.refresh
  held : ∀ v state, call.refresh = .holding v state →
    v ≤ version ∧ state.Perm (past v).entries

/-- The cache is the spec-valid part of the store at version `v`. -/
def Reconcilers.CacheAt (s : Reconcilers cel ι) (v : Nat) : Prop :=
  s.context.cache.Perm ((s.past v).entries.filter fun q => q.spec.isValid)

structure Reconcilers.Sound (s : Reconcilers cel ι) : Prop where
  past_version : s.past s.version = s.context.store
  published_le : s.published ≤ s.version
  cache : s.CacheAt s.published
  calls : ∀ i call, s.calls i = some call → call.Sound cel s.past s.version

namespace Reconcilers

variable {s : Reconcilers cel ι} {i : ι} {call : PolicyCall}

omit [DecidableEq ι] in
/-- A snapshot held is of an earlier version, so a change does not touch it. -/
theorem Sound.changeStore (hs : s.Sound) (store : PolicyStore) : (s.changeStore store).Sound where
  past_version := Function.update_self ..
  published_le := Nat.le_succ_of_le hs.published_le
  cache := by
    have hne : s.published ≠ s.version + 1 := by
      have hle := hs.published_le
      omega
    show List.Perm _
      (List.filter _ (Function.update s.past (s.version + 1) store s.published).entries)
    rw [Function.update_of_ne hne]
    exact hs.cache
  calls := by
    intro i call hcall
    obtain ⟨hprog, hheld⟩ := hs.calls i call hcall
    refine ⟨hprog, fun v state hrefresh => ?_⟩
    obtain ⟨hle, hstate⟩ := hheld v state hrefresh
    have hne : v ≠ s.version + 1 := by omega
    show v ≤ s.version + 1 ∧
      List.Perm _ (Function.update s.past (s.version + 1) store v).entries
    rw [Function.update_of_ne hne]
    exact ⟨Nat.le_succ_of_le hle, hstate⟩

/-- The versions held, when call `i` is replaced. -/
theorem holding_update (s : Reconcilers cel ι) (i : ι) (call : Option PolicyCall) :
    (fun j => (Function.update s.calls i call j).bind fun c => c.refresh.held)
      = Function.update s.snapshots.holding i (call.bind fun c => c.refresh.held) := by
  funext j
  by_cases hji : j = i
  · subst hji
    rw [Function.update_self, Function.update_self]
  · rw [Function.update_of_ne hji, Function.update_of_ne hji]
    rfl

omit [DecidableEq ι] in
theorem holding_of_call (hcall : s.calls i = some call) :
    s.snapshots.holding i = call.refresh.held := by
  show (s.calls i).bind _ = _
  rw [hcall]
  rfl

/-- Replacing call `i` by one that holds as much leaves the versions. -/
theorem snapshots_setCall (call : Option PolicyCall)
    (hheld : (call.bind fun c => c.refresh.held) = s.snapshots.holding i) :
    (s.setCall i call).snapshots = s.snapshots := by
  have hholding := holding_update s i call
  rw [hheld, Function.update_eq_self] at hholding
  exact congrArg (Snapshots.State.mk s.version s.published s.taken) hholding

/-- An effect outside the refresh. -/
theorem Sound.performed_quiet {e : PolicyEffect} (hquiet : e.IsQuiet) (hs : s.Sound)
    (hcall : s.calls i = some call) (r : e.Reply) {prog : PolicyProg (Except Error Action)}
    (hheld : call.refresh.held = none)
    (hprog : wp (refreshProtocol cel) prog (fun _ => RefreshOver cel call.policy)
      call.refresh) :
    (s.performed i call e r prog).Sound ∧
      Snapshots.Step s.snapshots .other (s.performed i call e r prog).snapshots := by
  have hsame : s.performed i call e r prog
      = { s.setCall i (some ⟨call.policy, prog, call.refresh⟩) with
          context := s.context.after e } := by
    cases e with
    | storeState => exact hquiet.elim
    | publish _ => exact hquiet.elim
    | validate _ => rfl
    | nowText => rfl
    | patchStatus _ _ _ => rfl
    | listPods _ _ => rfl
    | patchPod _ _ _ => rfl
  have hcontext := sameCache_after s.context hquiet
  rw [hsame]
  refine ⟨⟨?_, hs.published_le, ?_, ?_⟩, ?_⟩
  · exact hs.past_version.trans hcontext.1.symm
  · show List.Perm (s.context.after e).cache _
    rw [hcontext.2]
    exact hs.cache
  · apply present_update hs.calls
    rintro c hc
    cases hc
    refine ⟨hprog, fun v state hrefresh => ?_⟩
    have hv : call.refresh = .holding v state := hrefresh
    rw [hv] at hheld
    cases hheld
  · have hsnapshots : (s.setCall i (some ⟨call.policy, prog, call.refresh⟩)).snapshots
        = s.snapshots := snapshots_setCall _ (holding_of_call hcall).symm
    show Snapshots.Step _ _ (s.setCall i (some ⟨call.policy, prog, call.refresh⟩)).snapshots
    rw [hsnapshots]
    exact .other

/-- The call reads the store. -/
theorem Sound.performed_storeState (hs : s.Sound) (hcall : s.calls i = some call)
    {state : List DepodPolicy} (hstate : state.Perm s.context.store.entries)
    {prog : PolicyProg (Except Error Action)} (hpending : call.refresh = .pending)
    (hprog : wp (refreshProtocol cel) prog (fun _ => RefreshOver cel call.policy)
      (.holding s.version state)) :
    (s.performed i call .storeState state prog).Sound ∧
      Snapshots.Step s.snapshots (.take i)
        (s.performed i call .storeState state prog).snapshots := by
  refine ⟨⟨hs.past_version, hs.published_le, hs.cache, ?_⟩, ?_⟩
  · apply present_update hs.calls
    rintro c hc
    cases hc
    refine ⟨hprog, fun v state' hrefresh => ?_⟩
    cases hrefresh
    show s.version ≤ s.version ∧ state.Perm (s.past s.version).entries
    rw [hs.past_version]
    exact ⟨Nat.le_refl _, hstate⟩
  · have htake : (s.performed i call .storeState state prog).snapshots = s.snapshots.take i := by
      have hholding := holding_update s i
        (some ⟨call.policy, prog, .holding s.version state⟩)
      show Snapshots.State.mk s.version s.published (s.version :: s.taken) _ = _
      exact congrArg (Snapshots.State.mk s.version s.published (s.version :: s.taken)) hholding
    rw [htake]
    apply Snapshots.Step.take
    rw [holding_of_call hcall, hpending]
    rfl

/-- The call publishes what it read. -/
theorem Sound.performed_publish (hs : s.Sound) (hcall : s.calls i = some call)
    {v : Nat} {state policies : List DepodPolicy} (hrefresh : call.refresh = .holding v state)
    (hpolicies : policies = state.filter fun q => q.spec.isValid)
    {prog : PolicyProg (Except Error Action)}
    (hprog : wp (refreshProtocol cel) prog (fun _ => RefreshOver cel call.policy) .done) :
    (s.performed i call (.publish policies) () prog).Sound ∧
      Snapshots.Step s.snapshots (.publish i)
        (s.performed i call (.publish policies) () prog).snapshots := by
  obtain ⟨hle, hstate⟩ := (hs.calls i call hcall).held v state hrefresh
  have hpublished : call.refresh.held.getD s.published = v := by
    rw [hrefresh]
    rfl
  refine ⟨⟨hs.past_version, ?_, ?_, ?_⟩, ?_⟩
  · show call.refresh.held.getD s.published ≤ s.version
    rw [hpublished]
    exact hle
  · show policies.Perm ((s.past (call.refresh.held.getD s.published)).entries.filter _)
    rw [hpublished, hpolicies]
    exact hstate.filter _
  · apply present_update hs.calls
    rintro c hc
    cases hc
    refine ⟨hprog, fun v state' hdone => ?_⟩
    cases hdone
  · have hpublish : (s.performed i call (.publish policies) () prog).snapshots
        = s.snapshots.publish i v := by
      have hholding := holding_update s i (some ⟨call.policy, prog, .done⟩)
      show Snapshots.State.mk s.version (call.refresh.held.getD s.published) s.taken _ = _
      rw [hpublished]
      exact congrArg (Snapshots.State.mk s.version v s.taken) hholding
    rw [hpublish]
    apply Snapshots.Step.publish
    rw [holding_of_call hcall, hrefresh]
    rfl

/-- **Every step is one of the snapshot system**, and keeps the soundness that
this rests on. -/
theorem Sound.step {operatorPodName : String} {s' : Reconcilers cel ι}
    {label : ReconcilersLabel ι} (h : ReconcilersStep operatorPodName s label s')
    (hs : s.Sound) :
    s'.Sound ∧ Snapshots.Step s.snapshots (label.snapshots s) s'.snapshots := by
  cases reconcilersStep_cases h with
  | storeChange store => exact ⟨hs.changeStore store, .change⟩
  | @start i policy hnone =>
      -- a new call has its refresh before it
      have hsame : (s.setCall i (some ⟨policy, reconcilePolicy operatorPodName policy,
          .pending⟩)).snapshots = s.snapshots := by
        apply snapshots_setCall
        show none = (s.calls i).bind _
        rw [hnone]
        rfl
      refine ⟨⟨hs.past_version, hs.published_le, hs.cache, ?_⟩, ?_⟩
      · apply present_update hs.calls
        rintro c hc
        cases hc
        exact ⟨wp_refresh_reconcilePolicy operatorPodName policy, fun v state hv => by cases hv⟩
      · rw [hsame]
        exact .other
  | @effect i answer policy e k refresh hcall hpermits =>
      -- what the protocol allows decides which kind of step it is
      obtain ⟨hallowed, hnext⟩ := (hs.calls i _ hcall).prog
      have hprog := hnext (answer e) _ ⟨⟨s.version, rfl⟩, hpermits.answers⟩
      cases e with
      | storeState =>
          have hlabel : (ReconcilersLabel.effect i answer).snapshots s = .take i := by
            simp only [ReconcilersLabel.snapshots, hcall]
          rw [hlabel]
          exact hs.performed_storeState hcall hpermits hallowed hprog
      | publish policies =>
          have hlabel : (ReconcilersLabel.effect i answer).snapshots s = .publish i := by
            simp only [ReconcilersLabel.snapshots, hcall]
          obtain ⟨v, state, hrefresh, hpolicies⟩ := hallowed
          rw [hlabel]
          exact hs.performed_publish hcall hrefresh hpolicies hprog
      | validate _ | nowText | patchStatus _ _ _ | listPods _ _ | patchPod _ _ _ =>
          have hlabel : (ReconcilersLabel.effect i answer).snapshots s = .other := by
            simp only [ReconcilersLabel.snapshots, hcall]
          rw [hlabel]
          refine hs.performed_quiet ?_ hcall (answer _) hallowed hprog
          exact trivial
  | @finish i policy result refresh hcall =>
      -- a call that returns holds nothing
      have hover : RefreshOver cel policy refresh := (hs.calls i _ hcall).prog
      have hsame : (s.setCall i none).snapshots = s.snapshots := by
        apply snapshots_setCall
        rw [holding_of_call hcall, hover.1]
        rfl
      refine ⟨⟨hs.past_version, hs.published_le, hs.cache, ?_⟩, ?_⟩
      · exact present_update hs.calls fun c hc => by cases hc
      · rw [hsame]
        exact .other

/-- What an effect of a sound system does to its call and to the cache. -/
theorem Sound.effect_cases {operatorPodName : String} {s' : Reconcilers cel ι}
    {answer : (e : PolicyEffect) → e.Reply}
    (h : ReconcilersStep operatorPodName s (.effect i answer) s') (hs : s.Sound) :
    ∃ call call', s.calls i = some call ∧ s'.calls = Function.update s.calls i (some call') ∧
      call'.policy = call.policy ∧ s'.past = s.past ∧ s'.version = s.version ∧
      s'.context.store = s.context.store ∧
      (call'.refresh = call.refresh ∧ s'.published = s.published ∨
        call.refresh = .pending ∧ call'.refresh.held = some s.version ∧
          s'.published = s.published ∨
        call'.refresh = .done ∧ call.refresh.held = some s'.published) := by
  cases reconcilersStep_cases h with
  | @effect _ _ policy e k refresh hcall hpermits =>
      obtain ⟨hallowed, -⟩ := (hs.calls i _ hcall).prog
      refine ⟨_, _, hcall, rfl, rfl, rfl, rfl, ?_⟩
      cases e with
      | storeState => exact ⟨rfl, .inr (.inl ⟨hallowed, rfl, rfl⟩)⟩
      | publish policies =>
          obtain ⟨v, state, hrefresh, -⟩ := hallowed
          have hrefresh : refresh = .holding v state := hrefresh
          subst hrefresh
          exact ⟨rfl, .inr (.inr ⟨rfl, rfl⟩)⟩
      | validate _ => exact ⟨rfl, .inl ⟨rfl, rfl⟩⟩
      | nowText => exact ⟨rfl, .inl ⟨rfl, rfl⟩⟩
      | patchStatus _ _ _ => exact ⟨rfl, .inl ⟨rfl, rfl⟩⟩
      | listPods _ _ => exact ⟨rfl, .inl ⟨rfl, rfl⟩⟩
      | patchPod _ _ _ => exact ⟨rfl, .inl ⟨rfl, rfl⟩⟩

/-- A call that returns is through with its refresh. -/
theorem Sound.finish_cases {operatorPodName : String} {s' : Reconcilers cel ι}
    (h : ReconcilersStep operatorPodName s (.finish i) s') (hs : s.Sound) :
    ∃ call, s.calls i = some call ∧ RefreshOver cel call.policy call.refresh ∧
      s' = s.setCall i none := by
  cases reconcilersStep_cases h with
  | finish hcall => exact ⟨_, hcall, (hs.calls i _ hcall).prog, rfl⟩

/-! ### What calls carry to the cache -/

/-- A version that is `good` is published, or a call holds one. -/
inductive Carries (s : Reconcilers cel ι) (good : Nat → Prop) : Prop
  | held (i : ι) (call : PolicyCall) (v : Nat) : s.calls i = some call →
      call.refresh.held = some v → good v → Carries s good
  | published : good s.published → Carries s good

variable {good : Nat → Prop} {s' : Reconcilers cel ι} {operatorPodName : String}

omit [DecidableEq ι] in
theorem Carries.mono {good' : Nat → Prop} (h : s.Carries good) (hgood : ∀ v, good v → good' v) :
    s.Carries good' := by
  cases h with
  | held i call v hcall hheld hv => exact .held i call v hcall hheld (hgood v hv)
  | published hv => exact .published (hgood _ hv)

omit [DecidableEq ι] in
theorem Carries.changeStore (h : s.Carries good) (store : PolicyStore) :
    (s.changeStore store).Carries good := by
  cases h with
  | held i call v hcall hheld hv => exact .held i call v hcall hheld hv
  | published hv => exact .published hv

theorem Carries.start {policy : DepodPolicy}
    (hstep : ReconcilersStep operatorPodName s (.start i policy) s') (h : s.Carries good) :
    s'.Carries good := by
  cases reconcilersStep_cases hstep with
  | start hnone =>
      cases h with
      | held j call v hcall hheld hv =>
          have hji : j ≠ i := by
            rintro rfl
            rw [hnone] at hcall
            cases hcall
          exact .held j call v ((setCall_calls_of_ne hji).trans hcall) hheld hv
      | published hv => exact .published hv

/-- Without overtaking, what a call publishes is no older than the cache. -/
theorem Carries.effect {answer : (e : PolicyEffect) → e.Reply} (hs : s.Sound)
    (hordered : Snapshots.Ordered s.snapshots)
    (hstep : ReconcilersStep operatorPodName s (.effect i answer) s')
    (hgood : ∀ v w, good v → v ≤ w → w ≤ s.version → good w) (h : s.Carries good) :
    s'.Carries good := by
  obtain ⟨call, call', hcall, hcalls, -, -, -, -, hcases⟩ := hs.effect_cases hstep
  cases h with
  | held j c v hj hheld hv =>
      by_cases hji : j = i
      · subst hji
        obtain rfl : call = c := Option.some.inj (hcall.symm.trans hj)
        have hself : s'.calls j = some call' := by
          rw [hcalls]
          exact Function.update_self ..
        rcases hcases with ⟨hsame, -⟩ | ⟨hpending, -, -⟩ | ⟨-, hpublish⟩
        · exact .held j call' v hself (by rw [hsame]; exact hheld) hv
        · rw [hpending] at hheld
          cases hheld
        · -- it publishes the version it holds
          obtain rfl : v = s'.published := Option.some.inj (hheld.symm.trans hpublish)
          exact .published hv
      · refine .held j c v ?_ hheld hv
        rw [hcalls, Function.update_of_ne hji]
        exact hj
  | published hv =>
      refine .published ?_
      rcases hcases with ⟨-, hsame⟩ | ⟨-, -, hsame⟩ | ⟨-, hpublish⟩
      · rw [hsame]
        exact hv
      · rw [hsame]
        exact hv
      · have hheld : s.snapshots.holding i = some s'.published := by
          rw [holding_of_call hcall]
          exact hpublish
        obtain ⟨hle, hge, -⟩ := hordered.holding_le i s'.published hheld
        exact hgood _ _ hv hle hge

theorem Carries.finish (hs : s.Sound)
    (hstep : ReconcilersStep operatorPodName s (.finish i) s') (h : s.Carries good) :
    s'.Carries good := by
  obtain ⟨call, hcall, hover, rfl⟩ := hs.finish_cases hstep
  cases h with
  | held j c v hj hheld hv =>
      have hji : j ≠ i := by
        rintro rfl
        obtain rfl : call = c := Option.some.inj (hcall.symm.trans hj)
        rw [hover.1] at hheld
        cases hheld
      exact .held j c v ((setCall_calls_of_ne hji).trans hj) hheld hv
  | published hv => exact .published hv

/-- A call that has yet to read the store still has, or holds the version that
the store had. -/
theorem Sound.effect_of_pending {answer : (e : PolicyEffect) → e.Reply} {j : ι}
    (hs : s.Sound) (hstep : ReconcilersStep operatorPodName s (.effect i answer) s')
    (hj : s.calls j = some call) (hpending : call.refresh = .pending) :
    ∃ call', s'.calls j = some call' ∧
      (call'.refresh = .pending ∨ call'.refresh.held = some s.version) := by
  obtain ⟨c, call', hcall, hcalls, -, -, -, -, hcases⟩ := hs.effect_cases hstep
  by_cases hji : j = i
  · subst hji
    obtain rfl : c = call := Option.some.inj (hcall.symm.trans hj)
    refine ⟨call', by rw [hcalls]; exact Function.update_self .., ?_⟩
    rcases hcases with ⟨hsame, -⟩ | ⟨-, hread, -⟩ | ⟨-, hheld⟩
    · exact .inl (hsame.trans hpending)
    · exact .inr hread
    · rw [hpending] at hheld
      cases hheld
  · refine ⟨call, ?_, .inl hpending⟩
    rw [hcalls, Function.update_of_ne hji]
    exact hj

/-- A call for a valid policy does not return before it has read the store. -/
theorem Sound.finish_of_pending {j : ι} (hs : s.Sound)
    (hvalid : ∀ i call, s.calls i = some call → cel.valid call.policy = true)
    (hstep : ReconcilersStep operatorPodName s (.finish i) s')
    (hj : s.calls j = some call) (hpending : call.refresh = .pending) :
    s'.calls j = some call := by
  obtain ⟨c, hcall, hover, rfl⟩ := hs.finish_cases hstep
  have hji : j ≠ i := by
    rintro rfl
    obtain rfl : c = call := Option.some.inj (hcall.symm.trans hj)
    rw [hover.2 (hvalid _ _ hj)] at hpending
    cases hpending
  exact (setCall_calls_of_ne hji).trans hj

omit [DecidableEq ι] in
theorem initial_sound : (initial : Reconcilers cel ι).Sound where
  past_version := rfl
  published_le := Nat.le_refl _
  cache := List.Perm.refl _
  calls := by
    intro i call hcall
    cases hcall

end Reconcilers

end KubeDepod
