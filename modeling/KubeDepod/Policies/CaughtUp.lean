/-
KubeDepod/Policies/CaughtUp.lean

When no policy update is lost between the two watch streams.

A call is made for a policy as the controller's stream delivered it, but reads
`policy_store`, which the reflector's stream fills.  If the reflector is
behind, the call publishes a cache without the change it was called for, and
nothing makes up for that once the reflector has caught up, because the call
returns `await_change` (`update_is_lost`).

If every call finds the store level with the object it is called for, nothing
is lost: once everything is drained, the cache holds the current spec of every
policy (`cache_current_iff`).  The invariant behind this, `Tracked`,
says of every policy where its current spec is on its way to the cache:
queued for the controller, due for a call, with a call that reads or has read
it, or published.
-/
import KubeDepod.Policies.Operator
import KubeDepod.Lib.Streams

namespace KubeDepod

open Effects Lts Streams

variable {cel : CelEngine} {ι : Type}

/-! ### The conditions on a run -/

/-- Only creates and updates, of valid policies. -/
def ValidChanges (cel : CelEngine) (_ : Operator cel ι) : OperatorLabel ι → Prop
  | .apply policy => cel.valid policy = true
  | .delete _ => False
  | _ => True

instance (s : Operator cel ι) (label : OperatorLabel ι) : Decidable (ValidChanges cel s label) :=
  match label with
  | .apply policy => inferInstanceAs (Decidable (cel.valid policy = true))
  | .delete _ => .isFalse id
  | .reflect => .isTrue trivial
  | .deliver => .isTrue trivial
  | .start _ _ => .isTrue trivial
  | .skip _ => .isTrue trivial
  | .effect _ _ => .isTrue trivial
  | .finish _ => .isTrue trivial

theorem ValidChanges.applies {s : Operator cel ι} {label : OperatorLabel ι}
    (h : ValidChanges cel s label) : ValidApplies cel s label := by
  cases label with
  | apply policy => exact h
  | delete _ | reflect | deliver | start _ _ | skip _ | effect _ _ | finish _ => trivial

/-- Nothing else happens while a call is in flight. -/
def WholeCalls (s : Operator cel ι) : OperatorLabel ι → Prop
  | .effect _ _ => True
  | .finish _ => True
  | _ => s.reconcilers.Idle

instance [Fintype ι] (s : Operator cel ι) (label : OperatorLabel ι) :
    Decidable (WholeCalls s label) :=
  match label with
  | .effect _ _ => .isTrue trivial
  | .finish _ => .isTrue trivial
  | .apply _ => inferInstanceAs (Decidable s.reconcilers.Idle)
  | .delete _ => inferInstanceAs (Decidable s.reconcilers.Idle)
  | .reflect => inferInstanceAs (Decidable s.reconcilers.Idle)
  | .deliver => inferInstanceAs (Decidable s.reconcilers.Idle)
  | .start _ _ => inferInstanceAs (Decidable s.reconcilers.Idle)
  | .skip _ => inferInstanceAs (Decidable s.reconcilers.Idle)

/-- The change leaves the spec that the store has for the policy. -/
def PolicyChange.LeavesSpec (store : PolicyStore) (key : PolicyKey) : PolicyChange → Prop
  | .applied policy => policy.key = key → store.specOf key = some policy.spec
  | .deleted key' => key' ≠ key

instance (store : PolicyStore) (key : PolicyKey) (c : PolicyChange) :
    Decidable (c.LeavesSpec store key) :=
  match c with
  | .applied policy =>
      inferInstanceAs (Decidable (policy.key = key → store.specOf key = some policy.spec))
  | .deleted key' => inferInstanceAs (Decidable (key' ≠ key))

/-- A call starts only when all the changes that the reflector, unlike the
controller, has yet to take leave the spec in the store as it is. -/
def CaughtUp (s : Operator cel ι) : OperatorLabel ι → Prop
  | .start _ key => ∀ c ∈ lag s.reflectorQueue s.controllerQueue, c.LeavesSpec s.store key
  | _ => True

instance (s : Operator cel ι) (label : OperatorLabel ι) : Decidable (CaughtUp s label) :=
  match label with
  | .start _ key => inferInstanceAs
      (Decidable (∀ c ∈ lag s.reflectorQueue s.controllerQueue, c.LeavesSpec s.store key))
  | .apply _ => .isTrue trivial
  | .delete _ => .isTrue trivial
  | .reflect => .isTrue trivial
  | .deliver => .isTrue trivial
  | .skip _ => .isTrue trivial
  | .effect _ _ => .isTrue trivial
  | .finish _ => .isTrue trivial

/-- The two lists hold the same specs under the same keys. -/
def SameSpecs (policies policies' : List DepodPolicy) : Prop :=
  ∀ key spec, (∃ q ∈ policies, q.key = key ∧ q.spec = spec) ↔
    ∃ q ∈ policies', q.key = key ∧ q.spec = spec

/-! ### Valid policies only -/

/-- The change is the creation or the update of a valid policy. -/
def PolicyChange.IsValid (cel : CelEngine) : PolicyChange → Prop
  | .applied policy => cel.valid policy = true
  | .deleted _ => False

theorem PolicyStore.AllValid.apply {store : PolicyStore} {c : PolicyChange}
    (h : store.AllValid cel) (hc : c.IsValid cel) : (store.apply c).AllValid cel := by
  cases c with
  | deleted key => exact hc.elim
  | applied policy => exact h.insert hc

theorem get_apply_ne_none {store : PolicyStore} {c : PolicyChange} (hc : c.IsValid cel)
    {key : PolicyKey} (h : store.get key ≠ none) : (store.apply c).get key ≠ none := by
  cases c with
  | deleted key => exact hc.elim
  | applied policy => exact store.get_insert_ne_none policy h

/-! ### The invariant -/

/-- From version `v` on, the store has had the spec that the policy has in the
cluster, and what the reflector has yet to take does not change it. -/
structure Fresh (s : Operator cel ι) (key : PolicyKey) (v : Nat) : Prop where
  le : v ≤ s.reconcilers.version
  past : ∀ w, v ≤ w → w ≤ s.reconcilers.version →
    (s.reconcilers.past w).specOf key = s.cluster.specOf key
  queued : ∀ p, .applied p ∈ s.reflectorQueue → p.key = key →
    s.cluster.specOf key = some p.spec

/-- Where the current spec of a policy is on its way to the cache. -/
inductive Tracked (s : Operator cel ι) (key : PolicyKey) : Prop
  | queued (p : DepodPolicy) : .applied p ∈ s.controllerQueue → p.key = key → Tracked s key
  | due : key ∈ s.scheduled → Tracked s key
  | pending (i : ι) (call : PolicyCall) : s.reconcilers.calls i = some call →
      call.refresh = .pending → Fresh s key s.reconcilers.version → Tracked s key
  | carried : s.reconcilers.Carries (Fresh s key) → Tracked s key

/-- What holds in runs that create and update valid policies: the streams
lead to the cluster, all that is stored is valid, and no key is ever lost. -/
structure Streaming (s : Operator cel ι) : Prop where
  sound : s.reconcilers.Sound
  reflector : Follows PolicyStore.apply s.store s.reflectorQueue s.cluster
  controller : Follows PolicyStore.apply s.known s.controllerQueue s.cluster
  history : OneHistory s.reflectorQueue s.controllerQueue
  validReflector : ∀ c ∈ s.reflectorQueue, c.IsValid cel
  validController : ∀ c ∈ s.controllerQueue, c.IsValid cel
  validPast : ∀ w, (s.reconcilers.past w).AllValid cel
  keys : ∀ w key, (s.reconcilers.past w).get key ≠ none → s.cluster.get key ≠ none

/-- What holds if moreover every call is level with the store and overtakes no
other: the current spec of every policy is on its way to the cache. -/
structure Settling (s : Operator cel ι) : Prop extends Streaming s, AppliedValid s where
  ordered : Snapshots.Ordered s.reconcilers.snapshots
  tracked : ∀ key, s.cluster.get key ≠ none → Tracked s key

variable {s : Operator cel ι} {key : PolicyKey} {v : Nat}

theorem Fresh.mono {v' : Nat} (h : Fresh s key v) (hle : v ≤ v')
    (hv' : v' ≤ s.reconcilers.version) : Fresh s key v' where
  le := hv'
  past := fun w hw => h.past w (Nat.le_trans hle hw)
  queued := h.queued

/-! ### A change of another policy, and a step of the reflector -/

theorem Fresh.change {p : DepodPolicy} (h : Fresh s key v) (hne : p.key ≠ key) :
    Fresh (s.change (.applied p)) key v := by
  have hcluster : (s.cluster.insert p).specOf key = s.cluster.specOf key :=
    s.cluster.specOf_insert_of_ne hne
  refine ⟨h.le, fun w hw hwv => ?_, fun q hq hqkey => ?_⟩
  · show (s.reconcilers.past w).specOf key = (s.cluster.insert p).specOf key
    rw [hcluster]
    exact h.past w hw hwv
  · show (s.cluster.insert p).specOf key = some q.spec
    rw [hcluster]
    rcases List.mem_append.mp hq with hq | hq
    · exact h.queued q hq hqkey
    · cases List.mem_singleton.mp hq
      exact absurd hqkey hne

theorem Fresh.reflected {c : PolicyChange} {queue : List PolicyChange} (h : Fresh s key v)
    (hsound : s.reconcilers.Sound) (hqueue : s.reflectorQueue = c :: queue)
    (hc : c.IsValid cel) : Fresh (s.reflected c queue) key v := by
  refine ⟨Nat.le_succ_of_le h.le, fun w hw hwv => ?_, fun q hq hqkey => ?_⟩
  · show (Function.update s.reconcilers.past (s.reconcilers.version + 1) _ w).specOf key
      = s.cluster.specOf key
    by_cases hnew : w = s.reconcilers.version + 1
    · -- the new version: the change is of another policy, or carries the same spec
      subst hnew
      rw [Function.update_self]
      cases c with
      | deleted key => exact hc.elim
      | applied p =>
          by_cases hp : p.key = key
          · have hspec := h.queued p (by rw [hqueue]; exact List.mem_cons_self ..) hp
            rw [hspec, ← hp]
            exact s.store.specOf_insert_self p
          · have hstore : s.store.specOf key = s.cluster.specOf key := by
              have hpast := h.past s.reconcilers.version h.le (Nat.le_refl _)
              rw [hsound.past_version] at hpast
              exact hpast
            rw [← hstore]
            exact s.store.specOf_insert_of_ne hp
    · rw [Function.update_of_ne hnew]
      have hle : w ≤ s.reconcilers.version + 1 := hwv
      exact h.past w hw (by omega)
  · exact h.queued q (by rw [hqueue]; exact List.mem_cons_of_mem _ hq) hqkey

/-! ### What the invariant says about the store and the streams -/

theorem Streaming.validStore (hs : Streaming s) : s.store.AllValid cel := by
  have h := hs.validPast s.reconcilers.version
  rw [hs.sound.past_version] at h
  exact h

theorem Streaming.validCluster (hs : Streaming s) : s.cluster.AllValid cel :=
  hs.reflector.invariant (P := PolicyStore.AllValid cel)
    (fun _ c hc hstore => hstore.apply (hs.validReflector c hc)) hs.validStore

/-- If nothing of the policy is queued for the controller and the store is
level with it, then the store has the policy's current spec, for good. -/
theorem Streaming.fresh (hs : Streaming s)
    (hnone : ∀ p, .applied p ∈ s.controllerQueue → p.key ≠ key)
    (hcaught : ∀ c ∈ lag s.reflectorQueue s.controllerQueue, c.LeavesSpec s.store key) :
    Fresh s key s.reconcilers.version := by
  have hqueued : ∀ p, .applied p ∈ s.reflectorQueue → p.key = key →
      s.store.specOf key = some p.spec := by
    intro p hp hkey
    refine hcaught (.applied p) (hs.history.mem_lag hp fun hp' => ?_) hkey
    exact hnone p hp' hkey
  have hcluster : s.cluster.specOf key = s.store.specOf key := by
    refine hs.reflector.invariant (P := fun store => store.specOf key = s.store.specOf key)
      (fun store c hc hstore => ?_) rfl
    cases c with
    | deleted key => exact (hs.validReflector _ hc).elim
    | applied p =>
        show (store.insert p).specOf key = s.store.specOf key
        by_cases hp : p.key = key
        · rw [hqueued p hc hp, ← hp]
          exact store.specOf_insert_self p
        · rw [store.specOf_insert_of_ne hp]
          exact hstore
  refine ⟨Nat.le_refl _, fun w hw hwv => ?_, fun p hp hkey => ?_⟩
  · obtain rfl : w = s.reconcilers.version := Nat.le_antisymm hwv hw
    rw [hs.sound.past_version, hcluster]
    rfl
  · rw [hcluster]
    exact hqueued p hp hkey

/-- If nothing of the policy is queued for the controller, the controller has
the object. -/
theorem Streaming.get_known (hs : Streaming s)
    (hnone : ∀ p, .applied p ∈ s.controllerQueue → p.key ≠ key)
    (hkey : s.cluster.get key ≠ none) : s.known.get key ≠ none := by
  intro hknown
  refine hkey (hs.controller.invariant (P := fun store => store.get key = none)
    (fun store c hc hstore => ?_) hknown)
  cases c with
  | deleted key => exact (hs.validController _ hc).elim
  | applied p =>
      show (store.insert p).get key = none
      rw [store.get_insert_of_ne (hnone p hc)]
      exact hstore

/-! ### Each kind of step keeps the streams -/

/-- A valid policy is created or updated. -/
theorem Streaming.change (hs : Streaming s) {p : DepodPolicy} (hp : cel.valid p = true) :
    Streaming (s.change (.applied p)) where
  sound := hs.sound
  reflector := hs.reflector.push
  controller := hs.controller.push
  history := hs.history.push
  validReflector := by
    intro c hc
    rcases List.mem_append.mp hc with hc | hc
    · exact hs.validReflector c hc
    · cases List.mem_singleton.mp hc
      exact hp
  validController := by
    intro c hc
    rcases List.mem_append.mp hc with hc | hc
    · exact hs.validController c hc
    · cases List.mem_singleton.mp hc
      exact hp
  validPast := hs.validPast
  keys := fun w key h => s.cluster.get_insert_ne_none p (hs.keys w key h)

/-- The reflector takes its next change. -/
theorem Streaming.reflected (hs : Streaming s) {c : PolicyChange} {queue : List PolicyChange}
    (hqueue : s.reflectorQueue = c :: queue) : Streaming (s.reflected c queue) := by
  have hc : c.IsValid cel := hs.validReflector c (by rw [hqueue]; exact List.mem_cons_self ..)
  have hvalid : ∀ d ∈ queue, d.IsValid cel := fun d hd =>
    hs.validReflector d (by rw [hqueue]; exact List.mem_cons_of_mem _ hd)
  have hreflector : Follows PolicyStore.apply (s.store.apply c) queue s.cluster := by
    have h := hs.reflector
    rw [hqueue] at h
    exact h.pop
  have hhistory : OneHistory queue s.controllerQueue := by
    have h := hs.history
    rw [hqueue] at h
    exact h.pop
  refine ⟨hs.sound.changeStore _, hreflector, hs.controller, hhistory, hvalid,
    hs.validController, ?_, ?_⟩
  · intro w
    show (Function.update s.reconcilers.past _ _ w).AllValid cel
    by_cases hnew : w = s.reconcilers.version + 1
    · subst hnew
      rw [Function.update_self]
      exact hs.validStore.apply hc
    · rw [Function.update_of_ne hnew]
      exact hs.validPast w
  · intro w key h
    change (Function.update s.reconcilers.past _ _ w).get key ≠ none at h
    by_cases hnew : w = s.reconcilers.version + 1
    · -- what the store has gained the cluster has
      subst hnew
      rw [Function.update_self] at h
      exact hreflector.invariant (P := fun store => store.get key ≠ none)
        (fun store d hd hget => get_apply_ne_none (hvalid d hd) hget) h
    · rw [Function.update_of_ne hnew] at h
      exact hs.keys w key h

/-- The controller takes its next change. -/
theorem Streaming.delivered (hs : Streaming s) {c : PolicyChange} {queue : List PolicyChange}
    (hqueue : s.controllerQueue = c :: queue) : Streaming (s.delivered c queue) := by
  have hc : c.IsValid cel := hs.validController c (by rw [hqueue]; exact List.mem_cons_self ..)
  have hcontroller : Follows PolicyStore.apply (s.known.apply c) queue s.cluster := by
    have h := hs.controller
    rw [hqueue] at h
    exact h.pop
  have hhistory : OneHistory s.reflectorQueue queue := by
    have h := hs.history.symm
    rw [hqueue] at h
    exact h.pop.symm
  exact ⟨hs.sound, hs.reflector, hcontroller, hhistory, hs.validReflector,
    fun d hd => hs.validController d (by rw [hqueue]; exact List.mem_cons_of_mem _ hd),
    hs.validPast, hs.keys⟩

/-- A step of the calls that leaves the store and its past. -/
theorem Streaming.withReconcilers (hs : Streaming s) {r : Reconcilers cel ι}
    (scheduled : List PolicyKey) (hsound : r.Sound) (hpast : r.past = s.reconcilers.past)
    (hstore : r.context.store = s.store) :
    Streaming { s with scheduled := scheduled, reconcilers := r } := by
  refine ⟨hsound, ?_, hs.controller, hs.history, hs.validReflector, hs.validController, ?_, ?_⟩
  · show Follows PolicyStore.apply r.context.store s.reflectorQueue s.cluster
    rw [hstore]
    exact hs.reflector
  · show ∀ w, (r.past w).AllValid cel
    rw [hpast]
    exact hs.validPast
  · show ∀ w key, (r.past w).get key ≠ none → s.cluster.get key ≠ none
    rw [hpast]
    exact hs.keys

section
variable [DecidableEq ι] {operatorPodName : String} {i : ι} {r : Reconcilers cel ι}

/-- A call starts. -/
theorem Streaming.start {policy : DepodPolicy} (hs : Streaming s) (scheduled : List PolicyKey)
    (hstep : ReconcilersStep operatorPodName s.reconcilers (.start i policy) r) :
    Streaming { s with scheduled := scheduled, reconcilers := r } := by
  have hsound := (hs.sound.step hstep).1
  cases reconcilersStep_cases hstep with
  | start hnone => exact hs.withReconcilers _ hsound rfl rfl

/-- A call performs an effect. -/
theorem Streaming.effect {answer : (e : PolicyEffect) → e.Reply} (hs : Streaming s)
    (hstep : ReconcilersStep operatorPodName s.reconcilers (.effect i answer) r) :
    Streaming { s with reconcilers := r } := by
  obtain ⟨call, call', -, -, -, hpast, -, hstore, -⟩ := hs.sound.effect_cases hstep
  exact hs.withReconcilers s.scheduled (hs.sound.step hstep).1 hpast hstore

/-- A call returns. -/
theorem Streaming.finish (hs : Streaming s) (scheduled : List PolicyKey)
    (hstep : ReconcilersStep operatorPodName s.reconcilers (.finish i) r) :
    Streaming { s with scheduled := scheduled, reconcilers := r } := by
  have hsound := (hs.sound.step hstep).1
  cases reconcilersStep_cases hstep with
  | finish hcall => exact hs.withReconcilers _ hsound rfl rfl

end

/-! ### Each kind of step keeps a policy tracked -/

/-- A policy created or updated is queued for the controller. -/
theorem Tracked.change {p : DepodPolicy} (h : p.key ≠ key → Tracked s key) :
    Tracked (s.change (.applied p)) key := by
  by_cases hpkey : p.key = key
  · exact .queued p (List.mem_append_right _ (List.mem_singleton_self _)) hpkey
  · cases h hpkey with
    | queued q hq hqkey => exact .queued q (List.mem_append_left _ hq) hqkey
    | due hdue => exact .due hdue
    | pending i call hcall hpending hfresh =>
        exact .pending i call hcall hpending (hfresh.change hpkey)
    | carried hcarries => exact .carried (hcarries.mono fun _ hfresh => hfresh.change hpkey)

theorem Tracked.reflected (hs : Streaming s) {c : PolicyChange} {queue : List PolicyChange}
    (hqueue : s.reflectorQueue = c :: queue) (h : Tracked s key) :
    Tracked (s.reflected c queue) key := by
  have hc : c.IsValid cel := hs.validReflector c (by rw [hqueue]; exact List.mem_cons_self ..)
  cases h with
  | queued p hp hpkey => exact .queued p hp hpkey
  | due hdue => exact .due hdue
  | pending i call hcall hpending hfresh =>
      -- it will read the new version
      have hfresh' := hfresh.reflected hs.sound hqueue hc
      exact .pending i call hcall hpending (hfresh'.mono (Nat.le_succ _) (Nat.le_refl _))
  | carried hcarries =>
      refine .carried (Reconcilers.Carries.changeStore ?_ _)
      exact hcarries.mono fun _ hfresh => hfresh.reflected hs.sound hqueue hc

theorem Tracked.delivered {c : PolicyChange} {queue : List PolicyChange}
    (hqueue : s.controllerQueue = c :: queue) (hc : c.IsValid cel) (h : Tracked s key) :
    Tracked (s.delivered c queue) key := by
  cases c with
  | deleted key => exact hc.elim
  | applied policy =>
      cases h with
      | queued p hp hpkey =>
          rw [hqueue] at hp
          rcases List.mem_cons.mp hp with hhead | hp
          · -- the change delivered makes its key due
            cases hhead
            exact .due (Operator.mem_schedule.mpr (.inr hpkey.symm))
          · exact .queued p hp hpkey
      | due hdue => exact .due (Operator.mem_schedule.mpr (.inl hdue))
      | pending i call hcall hpending hfresh =>
          exact .pending i call hcall hpending ⟨hfresh.le, hfresh.past, hfresh.queued⟩
      | carried hcarries =>
          exact .carried (hcarries.mono fun _ hfresh => ⟨hfresh.le, hfresh.past, hfresh.queued⟩)

theorem Fresh.withReconcilers (h : Fresh s key v) {r : Reconcilers cel ι}
    (scheduled : List PolicyKey) (hpast : r.past = s.reconcilers.past)
    (hversion : r.version = s.reconcilers.version) :
    Fresh { s with scheduled := scheduled, reconcilers := r } key v := by
  refine ⟨?_, fun w hw hwv => ?_, h.queued⟩
  · show v ≤ r.version
    rw [hversion]
    exact h.le
  · have hwv : w ≤ r.version := hwv
    rw [hversion] at hwv
    show (r.past w).specOf key = s.cluster.specOf key
    rw [hpast]
    exact h.past w hw hwv

/-- A due call is dropped because the controller does not have the object: then
a change of the policy is still queued for it. -/
theorem Tracked.skip {key' : PolicyKey} (hs : Streaming s) (hkey : s.cluster.get key ≠ none)
    (hknown : s.known.get key' = none) (h : Tracked s key) :
    Tracked { s with scheduled := s.scheduled.erase key' } key := by
  cases h with
  | queued p hp hpkey => exact .queued p hp hpkey
  | due hdue =>
      by_cases hsame : key = key'
      · subst hsame
        by_cases hqueued : ∃ p, .applied p ∈ s.controllerQueue ∧ p.key = key
        · obtain ⟨p, hp, hpkey⟩ := hqueued
          exact .queued p hp hpkey
        · exact absurd hknown (hs.get_known (fun p hp hpkey => hqueued ⟨p, hp, hpkey⟩) hkey)
      · exact .due ((List.mem_erase_of_ne hsame).mpr hdue)
  | pending j call hj hpending hfresh =>
      exact .pending j call hj hpending (hfresh.withReconcilers _ rfl rfl)
  | carried hcarries =>
      exact .carried (hcarries.mono fun _ hfresh => hfresh.withReconcilers _ rfl rfl)

section
variable [DecidableEq ι] {operatorPodName : String} {i : ι} {r : Reconcilers cel ι}

/-- The call that was due starts, level with the store. -/
theorem Tracked.start {policy : DepodPolicy} {key' : PolicyKey} (hs : Streaming s)
    (hcaught : ∀ c ∈ lag s.reflectorQueue s.controllerQueue, c.LeavesSpec s.store key')
    (hstep : ReconcilersStep operatorPodName s.reconcilers (.start i policy) r)
    (h : Tracked s key) :
    Tracked { s with scheduled := s.scheduled.erase key', reconcilers := r } key := by
  have hcarried : s.reconcilers.Carries (Fresh s key) → r.Carries (Fresh s key) :=
    fun hcarries => hcarries.start hstep
  cases reconcilersStep_cases hstep with
  | start hnone =>
      cases h with
      | queued p hp hpkey => exact .queued p hp hpkey
      | due hdue =>
          by_cases hsame : key = key'
          · -- the call started is the one that was due
            subst hsame
            by_cases hqueued : ∃ p, .applied p ∈ s.controllerQueue ∧ p.key = key
            · obtain ⟨p, hp, hpkey⟩ := hqueued
              exact .queued p hp hpkey
            · have hfresh := hs.fresh (fun p hp hpkey => hqueued ⟨p, hp, hpkey⟩) hcaught
              exact .pending i _ Reconcilers.setCall_calls_self rfl
                (hfresh.withReconcilers _ rfl rfl)
          · exact .due ((List.mem_erase_of_ne hsame).mpr hdue)
      | pending j call hj hpending hfresh =>
          have hji : j ≠ i := by
            rintro rfl
            rw [hnone] at hj
            cases hj
          exact .pending j call ((Reconcilers.setCall_calls_of_ne hji).trans hj) hpending
            (hfresh.withReconcilers _ rfl rfl)
      | carried hcarries =>
          exact .carried ((hcarried hcarries).mono fun _ hfresh =>
            hfresh.withReconcilers _ rfl rfl)

/-- A call performs an effect; what it publishes is no older than the cache. -/
theorem Tracked.effect {answer : (e : PolicyEffect) → e.Reply} (hs : Streaming s)
    (hordered : Snapshots.Ordered s.reconcilers.snapshots)
    (hstep : ReconcilersStep operatorPodName s.reconcilers (.effect i answer) r)
    (h : Tracked s key) : Tracked { s with reconcilers := r } key := by
  obtain ⟨-, -, -, -, -, hpast, hversion, -, -⟩ := hs.sound.effect_cases hstep
  cases h with
  | queued p hp hpkey => exact .queued p hp hpkey
  | due hdue => exact .due hdue
  | pending j call hj hpending hfresh =>
      have hfresh' := hfresh.withReconcilers s.scheduled hpast hversion
      obtain ⟨call', hcall', hrefresh⟩ := hs.sound.effect_of_pending hstep hj hpending
      rcases hrefresh with hpending' | hheld
      · refine .pending j call' hcall' hpending' ?_
        show Fresh _ key r.version
        rw [hversion]
        exact hfresh'
      · -- it has read the store as it is
        exact .carried (.held j call' _ hcall' hheld hfresh')
  | carried hcarries =>
      have hcarries' := hcarries.effect hs.sound hordered hstep fun _ _ hfresh => hfresh.mono
      exact .carried (hcarries'.mono fun _ hfresh =>
        hfresh.withReconcilers s.scheduled hpast hversion)

/-- A call returns; as its policy is valid, it has published. -/
theorem Tracked.finish (hs : Streaming s) (hvalid : AppliedValid s) (policy : DepodPolicy)
    (result : Except Error Action)
    (hstep : ReconcilersStep operatorPodName s.reconcilers (.finish i) r)
    (h : Tracked s key) :
    Tracked { s with scheduled := s.rescheduled policy result, reconcilers := r } key := by
  have hpast : r.past = s.reconcilers.past ∧ r.version = s.reconcilers.version := by
    obtain ⟨-, -, -, rfl⟩ := hs.sound.finish_cases hstep
    exact ⟨rfl, rfl⟩
  cases h with
  | queued p hp hpkey => exact .queued p hp hpkey
  | due hdue => exact .due (Operator.mem_rescheduled hdue policy result)
  | pending j call hj hpending hfresh =>
      have hj' := hs.sound.finish_of_pending hvalid.calls hstep hj hpending
      refine .pending j call hj' hpending ?_
      show Fresh _ key r.version
      rw [hpast.2]
      exact hfresh.withReconcilers _ hpast.1 hpast.2
  | carried hcarries =>
      exact .carried ((hcarries.finish hs.sound hstep).mono fun _ hfresh =>
        hfresh.withReconcilers _ hpast.1 hpast.2)

end

/-! ### Runs -/

theorem streaming_initial : Streaming (.initial : Operator cel ι) where
  sound := Reconcilers.initial_sound
  reflector := rfl
  controller := rfl
  history := .inl List.suffix_rfl
  validReflector := by
    intro c hc
    cases hc
  validController := by
    intro c hc
    cases hc
  validPast := by
    intro w q hq
    cases hq
  keys := by
    intro w key h
    exact absurd rfl h

section
variable [DecidableEq ι] [Fintype ι] {operatorPodName : String} {s' : Operator cel ι}
variable {label : OperatorLabel ι}

theorem Streaming.step (h : OperatorStep operatorPodName s label s')
    (hvalid : ValidChanges cel s label) (hs : Streaming s) : Streaming s' := by
  cases operatorStep_cases h with
  | apply policy => exact hs.change hvalid
  | delete key => exact hvalid.elim
  | reflect hqueue => exact hs.reflected hqueue
  | deliver hqueue => exact hs.delivered hqueue
  | start hidle hknown hstep => exact hs.start _ hstep
  | skip hknown => exact hs.withReconcilers _ hs.sound rfl rfl
  | effect hstep => exact hs.effect hstep
  | @patch i answer r key policy status hstep hstored =>
      have hpolicy : cel.valid policy = true := hs.validCluster.get hstored
      exact (hs.effect hstep).change hpolicy
  | finish hstep => exact hs.finish _ hstep

/-- The steps that lose nothing. -/
def LosesNothing (s : Operator cel ι) (label : OperatorLabel ι) : Prop :=
  (ValidChanges cel s label ∧ CaughtUp s label) ∧ NoneOvertaken s label

/-- No policy loses track. -/
theorem tracked_step (h : OperatorStep operatorPodName s label s')
    (hok : LosesNothing s label) (hs : Settling s) (hkey : s'.cluster.get key ≠ none) :
    Tracked s' key := by
  obtain ⟨⟨hvalid, hcaught⟩, -⟩ := hok
  cases operatorStep_cases h with
  | apply policy =>
      refine .change fun hne => hs.tracked key ?_
      rw [← s.cluster.get_insert_of_ne hne]
      exact hkey
  | delete key => exact hvalid.elim
  | reflect hqueue => exact (hs.tracked key hkey).reflected hs.toStreaming hqueue
  | @deliver c queue hqueue =>
      have hc : c.IsValid cel :=
        hs.validController c (by rw [hqueue]; exact List.mem_cons_self ..)
      exact (hs.tracked key hkey).delivered hqueue hc
  | start hidle hknown hstep =>
      exact (hs.tracked key hkey).start hs.toStreaming hcaught hstep
  | skip hknown => exact (hs.tracked key hkey).skip hs.toStreaming hkey hknown
  | effect hstep => exact (hs.tracked key hkey).effect hs.toStreaming hs.ordered hstep
  | @patch i answer r key' policy status hstep hstored =>
      refine .change fun hne => ?_
      have hold : s.cluster.get key ≠ none := by
        rw [← s.cluster.get_insert_of_ne hne]
        exact hkey
      exact (hs.tracked key hold).effect hs.toStreaming hs.ordered hstep
  | finish hstep => exact (hs.tracked key hkey).finish hs.toStreaming hs.toAppliedValid _ _ hstep

theorem Settling.step (h : OperatorStep operatorPodName s label s') (hok : LosesNothing s label)
    (hs : Settling s) : Settling s' where
  toStreaming := hs.toStreaming.step h hok.1.1
  toAppliedValid := hs.toAppliedValid.step h hok.1.1.applies
  ordered := ordered_step h hok.2 hs.sound hs.ordered
  tracked := fun _ hkey => tracked_step h hok hs hkey

end

/-! ### Drained states -/

/-- The cache is the version of the store last published, as all of it is
valid. -/
theorem Streaming.mem_cache (hs : Streaming s) {q : DepodPolicy} :
    q ∈ s.cache ↔ q ∈ (s.reconcilers.past s.reconcilers.published).entries := by
  have hcache : s.reconcilers.CacheAt s.reconcilers.published := hs.sound.cache
  rw [Operator.cache, hcache.mem_iff, List.mem_filter]
  refine and_iff_left_of_imp fun hq => ?_
  have hvalid := hs.validPast _ q hq
  rw [CelEngine.valid, Bool.and_eq_true] at hvalid
  exact hvalid.1

/-- With the reflector's stream drained, the cache is current exactly if the
version last published has the specs that the store has. -/
theorem Streaming.sameSpecs_iff (hs : Streaming s) (hdrained : s.Drained) :
    SameSpecs s.cache s.cluster.entries ↔
      SameSpecs (s.reconcilers.past s.reconcilers.published).entries s.store.entries := by
  have hstore : s.store = s.cluster := by
    have h := hs.reflector
    rw [hdrained.1] at h
    exact h.drained
  rw [hstore]
  refine forall₂_congr fun key spec => iff_congr ?_ Iff.rfl
  exact exists_congr fun q => and_congr_left' hs.mem_cache

/-- With nothing under way, the current spec of every policy has been
published. -/
theorem Settling.sameSpecs (hs : Settling s) (hdrained : s.Drained) :
    SameSpecs s.cache s.cluster.entries := by
  obtain ⟨-, hcontroller, hscheduled, hidle⟩ := hdrained
  have hfresh : ∀ key, s.cluster.get key ≠ none →
      (s.reconcilers.past s.reconcilers.published).specOf key = s.cluster.specOf key := by
    intro key hkey
    cases hs.tracked key hkey with
    | queued p hp hpkey =>
        rw [hcontroller] at hp
        cases hp
    | due hdue =>
        rw [hscheduled] at hdue
        cases hdue
    | pending i call hcall hpending hfresh =>
        rw [hidle i] at hcall
        cases hcall
    | carried hcarries =>
        have hfresh := hcarries.of_idle hidle
        exact hfresh.past _ (Nat.le_refl _) hfresh.le
  intro key spec
  have hiff : (∃ q ∈ s.cache, q.key = key ∧ q.spec = spec) ↔
      (s.reconcilers.past s.reconcilers.published).specOf key = some spec := by
    rw [PolicyStore.specOf_eq_some_iff]
    exact exists_congr fun q => and_congr_left' hs.mem_cache
  rw [hiff, ← PolicyStore.specOf_eq_some_iff]
  constructor
  · intro h
    have hget : (s.reconcilers.past s.reconcilers.published).get key ≠ none := by
      intro hnone
      rw [PolicyStore.specOf, hnone] at h
      cases h
    rw [← hfresh key (hs.keys _ key hget)]
    exact h
  · intro h
    have hget : s.cluster.get key ≠ none := by
      intro hnone
      rw [PolicyStore.specOf, hnone] at h
      cases h
    rw [hfresh key hget]
    exact h

/-! ### Whole calls -/

/-- At most one call is in flight. -/
def OneCall (s : Reconcilers cel ι) : Prop :=
  ∀ i j, s.calls i ≠ none → s.calls j ≠ none → i = j

variable [DecidableEq ι] [Fintype ι] {operatorPodName : String}
variable {π : List (OperatorLabel ι × Operator cel ι)}

omit [Fintype ι] in
/-- A step of a call in flight keeps that. -/
theorem OneCall.of_update {s s' : Reconcilers cel ι} {i : ι} {call : Option PolicyCall}
    (h : OneCall s) (hactive : s.calls i ≠ none)
    (hcalls : s'.calls = Function.update s.calls i call) : OneCall s' := by
  have hsubset : ∀ j, s'.calls j ≠ none → s.calls j ≠ none := by
    intro j hj hnone
    have hji : j ≠ i := by
      rintro rfl
      exact hactive hnone
    rw [hcalls, Function.update_of_ne hji] at hj
    exact hj hnone
  intro j k hj hk
  exact h j k (hsubset j hj) (hsubset k hk)

theorem OneCall.step {s' : Operator cel ι} {label : OperatorLabel ι}
    (h : OperatorStep operatorPodName s label s') (hwhole : WholeCalls s label)
    (hs : OneCall s.reconcilers) : OneCall s'.reconcilers := by
  cases operatorStep_cases h with
  | apply policy => exact hs
  | delete key => exact hs
  | reflect hqueue => exact hs
  | deliver hqueue => exact hs
  | skip hknown => exact hs
  | @start i key policy r hidle hknown hstep =>
      -- it is the only one, since none was in flight
      have hnone : s.reconcilers.Idle := hwhole
      cases reconcilersStep_cases hstep with
      | start hslot =>
          have honly : ∀ call j, (s.reconcilers.setCall i call).calls j ≠ none → j = i := by
            intro call j hj
            by_contra hji
            rw [Reconcilers.setCall_calls_of_ne hji] at hj
            exact hj (hnone j)
          intro j k hj hk
          exact (honly _ j hj).trans (honly _ k hk).symm
  | @effect i answer r hstep =>
      cases reconcilersStep_cases hstep with
      | effect hcall hpermits =>
          have hactive : s.reconcilers.calls i ≠ none := by
            rw [hcall]
            exact Option.some_ne_none _
          exact hs.of_update hactive rfl
  | @patch i answer r key policy status hstep hstored =>
      cases reconcilersStep_cases hstep with
      | effect hcall hpermits =>
          have hactive : s.reconcilers.calls i ≠ none := by
            rw [hcall]
            exact Option.some_ne_none _
          exact hs.of_update hactive rfl
  | @finish i policy result r hstep =>
      cases reconcilersStep_cases hstep with
      | finish hcall =>
          have hactive : s.reconcilers.calls i ≠ none := by
            rw [hcall]
            exact Option.some_ne_none _
          exact hs.of_update hactive rfl

/-- Whole calls do not overtake one another. -/
theorem noneOvertaken_of_whole (hπ : Execution (OperatorStep operatorPodName) .initial π)
    (hwhole : StepsMeet WholeCalls (.initial : Operator cel ι) π) :
    StepsMeet NoneOvertaken (.initial : Operator cel ι) π := by
  refine hπ.stepsMeet_of_invariant (I := fun s => OneCall s.reconcilers) ?_ ?_ hwhole ?_
  · intro s label s' hstep hlabel hs
    exact hs.step hstep hlabel
  · intro s label s' _ hs _
    cases label with
    | effect i answer => exact noCallOvertaken_of_one hs _
    | apply _ | delete _ | reflect | deliver | start _ _ | skip _ | finish _ => trivial
  · intro i j hi
    exact absurd rfl hi

/-! ### The lost update -/

/-- The controller delivers the policy before the reflector does; the call for
it reads an empty store, and then the reflector catches up. -/
def reconcileFirst : List (OperatorLabel Unit) :=
  let answer := answersFrom .empty
  [.apply readyCleanup, .deliver, .start () cleanup.key, .effect () answer, .effect () answer,
    .effect () answer, .effect () answer, .finish (), .reflect]

/-- Everything is drained, and the policy is not cached. -/
theorem update_is_lost :
    ¬ ∀ (cel : CelEngine) (operatorPodName : String) (ι : Type) [DecidableEq ι] [Fintype ι]
      (π : List (OperatorLabel ι × Operator cel ι)),
      Execution (OperatorStep operatorPodName) .initial π →
      StepsMeet (ValidChanges cel) .initial π → StepsMeet WholeCalls .initial π →
      ∀ x ∈ states .initial π, x.Drained → SameSpecs x.cache x.cluster.entries := by
  intro h
  let cel : CelEngine := ⟨Unit, fun _ => .ok ()⟩
  have hrun : ∃ π, follow (operatorStep "operator") (.initial : Operator cel Unit)
      reconcileFirst = some π ∧
      StepsMeet (ValidChanges cel) .initial π ∧ StepsMeet WholeCalls .initial π ∧
      (final .initial π).Drained ∧ (final .initial π).cache = [] ∧
      (final .initial π).cluster.entries = [readyCleanup] :=
    ⟨_, rfl, by decide, by decide, ⟨rfl, rfl, rfl, fun _ => rfl⟩, rfl, rfl⟩
  obtain ⟨π, hfollow, hvalid, hwhole, hdrained, hcache, hcluster⟩ := hrun
  have hsame := h cel "operator" Unit π (execution_of_follow hfollow).1 hvalid hwhole _
    (final_mem_states _ π) hdrained
  rw [hcache, hcluster] at hsame
  obtain ⟨q, hq, -⟩ := (hsame readyCleanup.key readyCleanup.spec).mpr
    ⟨readyCleanup, List.mem_singleton_self _, rfl, rfl⟩
  cases hq

/-- **When no update is lost.**  In every run of creates and updates of valid
policies, with whole calls and any delays of the two streams: whenever
everything is drained, the cache holds exactly the current specs if and only
if the store held them when the call that published last read it; and if every
call starts only when the reflector has taken each change of the spec that the
controller has delivered for its policy, then this is always so. -/
theorem cache_current_iff (hπ : Execution (OperatorStep operatorPodName) .initial π)
    (hvalid : StepsMeet (ValidChanges cel) (.initial : Operator cel ι) π)
    (hwhole : StepsMeet WholeCalls (.initial : Operator cel ι) π) :
    (∀ x ∈ states .initial π, x.Drained →
      (SameSpecs x.cache x.cluster.entries ↔
        SameSpecs (x.reconcilers.past x.reconcilers.published).entries x.store.entries)) ∧
    (StepsMeet CaughtUp .initial π →
      ∀ x ∈ states .initial π, x.Drained → SameSpecs x.cache x.cluster.entries) := by
  constructor
  · have hstreaming : ∀ x ∈ states .initial π, Streaming x := by
      refine hπ.invariant_of_stepsMeet (fun s label s' hstep hlabel hs => ?_) hvalid
        streaming_initial
      exact hs.step hstep hlabel
    intro x hx hdrained
    exact (hstreaming x hx).sameSpecs_iff hdrained
  · intro hcaught
    have hok : StepsMeet LosesNothing .initial π :=
      (hvalid.and hcaught).and (noneOvertaken_of_whole hπ hwhole)
    have hinitial : Settling (.initial : Operator cel ι) :=
      ⟨streaming_initial, .initial, ordered_initial, fun key h => absurd rfl h⟩
    have hsettling : ∀ x ∈ states .initial π, Settling x := by
      refine hπ.invariant_of_stepsMeet (fun s label s' hstep hlabel hs => ?_) hok hinitial
      exact hs.step hstep hlabel
    intro x hx hdrained
    exact (hsettling x hx).sameSpecs hdrained

/-- The same policy, with the reflector first. -/
theorem cache_current_iff_reflectFirst :
    ∃ π, follow (operatorStep "operator") (.initial : Operator ⟨Unit, fun _ => .ok ()⟩ Unit)
        (let answer := answersFrom (PolicyStore.empty.insert readyCleanup)
         [.apply readyCleanup, .reflect, .deliver, .start () cleanup.key, .effect () answer,
          .effect () answer, .effect () answer, .effect () answer, .finish ()]) = some π ∧
      SameSpecs (final .initial π).cache (final .initial π).cluster.entries := by
  have hrun : ∃ π, follow (operatorStep "operator")
      (.initial : Operator ⟨Unit, fun _ => .ok ()⟩ Unit)
      (let answer := answersFrom (PolicyStore.empty.insert readyCleanup)
       [.apply readyCleanup, .reflect, .deliver, .start () cleanup.key, .effect () answer,
        .effect () answer, .effect () answer, .effect () answer, .finish ()]) = some π ∧
      StepsMeet (ValidChanges _) .initial π ∧ StepsMeet WholeCalls .initial π ∧
      StepsMeet CaughtUp .initial π ∧ (final .initial π).Drained :=
    ⟨_, rfl, by decide, by decide, by decide, ⟨rfl, rfl, rfl, fun _ => rfl⟩⟩
  obtain ⟨π, hfollow, hvalid, hwhole, hcaught, hdrained⟩ := hrun
  exact ⟨π, hfollow, (cache_current_iff (execution_of_follow hfollow).1 hvalid hwhole).2
    hcaught _ (final_mem_states _ π) hdrained⟩

end KubeDepod
