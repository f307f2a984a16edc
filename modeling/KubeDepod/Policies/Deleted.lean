/-
KubeDepod/Policies/Deleted.lean

When a deleted policy no longer acts.

Only calls refresh the cache, and none is made for a deletion.  A deleted
policy therefore stays cached, and goes on acting, until a call for another
policy happens to read the store again; `deleted_policy_stays` is a run in
which none does.

`inactive_iff` says which version of the store decides, and gives a condition
on the steps of a run: whenever a deletion reaches the store, a call that will
refresh the cache is still to come.  The invariant behind this, `Leaving`,
says of every policy that the store lacks how its absence is on its way to the
cache.
-/
import KubeDepod.Policies.Operator
import KubeDepod.Controller.Reference

namespace KubeDepod

open Effects Lts

variable {cel : CelEngine} {ι : Type}

/-- No version of the policy is cached, so that no run of `reconcile_pod` on
this cache selects one to act. -/
structure Inactive (s : Operator cel ι) (key : PolicyKey) : Prop where
  noEntry : ∀ q ∈ s.cache, q.key ≠ key
  noAction : ∀ (env : PodEnv) (pod : Pod), env.policies = s.cache →
    ∀ q ∈ eligiblePolicies env.oracle pod (stamp pod env.clock 0 env.policies), q.key ≠ key

/-! ### A policy that stays -/

/-- A policy is created, seen by both streams, reconciled, reported ready and
reconciled again; then it is deleted, and both streams see that. -/
def createAndDelete : List (OperatorLabel Unit) :=
  let answer := answersFrom (PolicyStore.empty.insert cleanup)
  let answer' := answersFrom (PolicyStore.empty.insert readyCleanup)
  [.apply cleanup, .reflect, .deliver,
    .start () cleanup.key, .effect () answer, .effect () answer, .effect () answer,
    .effect () answer, .effect () answer, .effect () answer, .finish (),
    .reflect, .deliver,
    .start () cleanup.key, .effect () answer', .effect () answer', .effect () answer',
    .effect () answer', .finish (),
    .delete cleanup.key, .reflect, .deliver]

/-- At the end nothing is left to do, and the deleted policy is still cached. -/
theorem deleted_policy_stays :
    ¬ ∀ (cel : CelEngine) (operatorPodName : String) (ι : Type) [DecidableEq ι] [Fintype ι]
      (π : List (OperatorLabel ι × Operator cel ι)),
      Execution (OperatorStep operatorPodName) .initial π →
      ∀ x ∈ states .initial π, x.Drained →
      ∀ key, .delete key ∈ π.map Prod.fst → x.store.get key = none → Inactive x key := by
  intro h
  let cel : CelEngine := ⟨Unit, fun _ => .ok ()⟩
  have hrun : ∃ π, follow (operatorStep "operator") (.initial : Operator cel Unit)
      createAndDelete = some π ∧
      (final .initial π).Drained ∧ (final .initial π).store.get cleanup.key = none ∧
      (final .initial π).cache.map DepodPolicy.key = [cleanup.key] :=
    ⟨_, rfl, ⟨rfl, rfl, rfl, fun _ => rfl⟩, rfl, rfl⟩
  obtain ⟨π, hfollow, hdrained, hdeleted, hcache⟩ := hrun
  obtain ⟨hexec, hlabels⟩ := execution_of_follow hfollow
  have hdelete : .delete cleanup.key ∈ π.map Prod.fst := by
    rw [hlabels]
    simp [createAndDelete]
  have hinactive := h cel "operator" Unit π hexec _ (final_mem_states _ π) hdrained
    cleanup.key hdelete hdeleted
  have hmem : cleanup.key ∈ (final .initial π).cache.map DepodPolicy.key := by
    rw [hcache]
    exact List.mem_singleton_self _
  obtain ⟨q, hq, hkey⟩ := List.mem_map.mp hmem
  exact hinactive.noEntry q hq hkey

/-! ### The version of the store that decides -/

/-- What a run selects to act is in its snapshot. -/
theorem mem_of_mem_eligiblePolicies {oracle : String → Pod → Except Error Bool} {pod : Pod}
    {clock : Nat → DateTime} {n : Nat} {policies : List DepodPolicy} {q : DepodPolicy}
    (h : q ∈ eligiblePolicies oracle pod (stamp pod clock n policies)) : q ∈ policies := by
  obtain ⟨entry, hentry, rfl⟩ := List.mem_map.mp h
  have hstamped := (List.mem_filter.mp hentry).1
  clear h hentry
  induction policies generalizing n with
  | nil => cases hstamped
  | cons policy policies ih =>
      rcases List.mem_cons.mp hstamped with rfl | hrest
      · exact List.mem_cons_self ..
      · exact List.mem_cons_of_mem _ (ih hrest)

variable {s s' : Operator cel ι} {key : PolicyKey} {v : Nat}

/-- The cache shows the version of the store last published. -/
theorem inactive_iff_past (hsound : s.reconcilers.Sound) :
    Inactive s key ↔ ∀ q ∈ (s.reconcilers.past s.reconcilers.published).entries,
      q.key = key → q.spec.isValid = false := by
  have hcache : s.reconcilers.CacheAt s.reconcilers.published := hsound.cache
  have hmem : ∀ q, q ∈ s.cache ↔
      q ∈ (s.reconcilers.past s.reconcilers.published).entries ∧ q.spec.isValid = true := by
    intro q
    rw [Operator.cache, hcache.mem_iff, List.mem_filter]
  constructor
  · intro h q hq hkey
    by_contra hvalid
    rw [Bool.not_eq_false] at hvalid
    exact h.noEntry q ((hmem q).mpr ⟨hq, hvalid⟩) hkey
  · intro h
    have hnoEntry : ∀ q ∈ s.cache, q.key ≠ key := by
      intro q hq hkey
      obtain ⟨hstored, hvalid⟩ := (hmem q).mp hq
      rw [h q hstored hkey] at hvalid
      cases hvalid
    refine ⟨hnoEntry, fun env pod hpolicies q hq => ?_⟩
    rw [hpolicies] at hq
    exact hnoEntry q (mem_of_mem_eligiblePolicies hq)

/-! ### A refresh that follows -/

/-- A call that will read the store is still to come: an applied policy is
queued for the controller, or a call is due for an object it has, or a call in
flight has not read the store yet. -/
def RefreshDue (s : Operator cel ι) : Prop :=
  (∃ c ∈ s.controllerQueue, c.isApplied = true) ∨
    (∃ key ∈ s.scheduled, (s.known.get key).isSome = true) ∨
    ∃ i, ∃ call ∈ s.reconcilers.calls i, call.refresh = .pending

instance [Fintype ι] (s : Operator cel ι) : Decidable (RefreshDue s) :=
  inferInstanceAs (Decidable (_ ∨ _ ∨ _))

/-- A deletion reaches the store only when a refresh is due, and the controller
only when no call for the deleted policy is. -/
def RefreshFollows (s : Operator cel ι) : OperatorLabel ι → Prop
  | .reflect => ∀ c ∈ s.reflectorQueue.head?, c.isApplied = false → RefreshDue s
  | .deliver => ∀ c ∈ s.controllerQueue.head?, c.isApplied = false → c.key ∉ s.scheduled
  | _ => True

instance [Fintype ι] (s : Operator cel ι) (label : OperatorLabel ι) :
    Decidable (RefreshFollows s label) :=
  match label with
  | .reflect => inferInstanceAs
      (Decidable (∀ c ∈ s.reflectorQueue.head?, c.isApplied = false → RefreshDue s))
  | .deliver => inferInstanceAs
      (Decidable (∀ c ∈ s.controllerQueue.head?, c.isApplied = false → c.key ∉ s.scheduled))
  | .apply _ => .isTrue trivial
  | .delete _ => .isTrue trivial
  | .start _ _ => .isTrue trivial
  | .skip _ => .isTrue trivial
  | .effect _ _ => .isTrue trivial
  | .finish _ => .isTrue trivial

/-- From version `v` on, the store has not had the policy. -/
structure Gone (s : Operator cel ι) (key : PolicyKey) (v : Nat) : Prop where
  le : v ≤ s.reconcilers.version
  past : ∀ w, v ≤ w → w ≤ s.reconcilers.version → (s.reconcilers.past w).get key = none

/-- How the absence of a policy is on its way to the cache. -/
inductive Leaving (s : Operator cel ι) (key : PolicyKey) : Prop
  | due : RefreshDue s → Leaving s key
  | carried : s.reconcilers.Carries (Gone s key) → Leaving s key

/-- What holds in runs whose deletions are followed by refreshes. -/
structure Departing (s : Operator cel ι) : Prop extends AppliedValid s where
  sound : s.reconcilers.Sound
  ordered : Snapshots.Ordered s.reconcilers.snapshots
  leaving : ∀ key, s.store.get key = none → Leaving s key

theorem Gone.mono {w : Nat} (h : Gone s key v) (hle : v ≤ w) (hw : w ≤ s.reconcilers.version) :
    Gone s key w :=
  ⟨hw, fun u hu => h.past u (Nat.le_trans hle hu)⟩

/-! ### What each kind of step does to it -/

theorem RefreshDue.change (h : RefreshDue s) (c : PolicyChange) : RefreshDue (s.change c) := by
  rcases h with ⟨d, hd, happlied⟩ | hdue | hcall
  · exact .inl ⟨d, List.mem_append_left _ hd, happlied⟩
  · exact .inr (.inl hdue)
  · exact .inr (.inr hcall)

theorem Leaving.change (h : Leaving s key) (c : PolicyChange) : Leaving (s.change c) key := by
  cases h with
  | due hdue => exact .due (hdue.change c)
  | carried hcarries => exact .carried (hcarries.mono fun _ hgone => ⟨hgone.le, hgone.past⟩)

/-- The new version of the store does not have the policy either. -/
theorem Gone.reflected {c : PolicyChange} {queue : List PolicyChange} (h : Gone s key v)
    (hnone : (s.store.apply c).get key = none) : Gone (s.reflected c queue) key v := by
  refine ⟨Nat.le_succ_of_le h.le, fun w hw hwv => ?_⟩
  show (Function.update s.reconcilers.past (s.reconcilers.version + 1) _ w).get key = none
  by_cases hnew : w = s.reconcilers.version + 1
  · subst hnew
    rw [Function.update_self]
    exact hnone
  · rw [Function.update_of_ne hnew]
    have hle : w ≤ s.reconcilers.version + 1 := hwv
    exact h.past w hw (by omega)

theorem Leaving.reflected {c : PolicyChange} {queue : List PolicyChange}
    (hnone : (s.store.apply c).get key = none) (h : Leaving s key) :
    Leaving (s.reflected c queue) key := by
  cases h with
  | due hdue => exact .due hdue
  | carried hcarries =>
      refine .carried (Reconcilers.Carries.changeStore ?_ _)
      exact hcarries.mono fun _ hgone => hgone.reflected hnone

/-- What is delivered to the controller was queued for it and is now due. -/
theorem RefreshDue.delivered {c : PolicyChange} {queue : List PolicyChange}
    (hqueue : s.controllerQueue = c :: queue) (hkept : c.isApplied = false → c.key ∉ s.scheduled)
    (h : RefreshDue s) : RefreshDue (s.delivered c queue) := by
  rcases h with ⟨d, hd, happlied⟩ | ⟨key, hdue, hknown⟩ | hcall
  · rw [hqueue] at hd
    rcases List.mem_cons.mp hd with rfl | hd
    · cases d with
      | deleted key => cases happlied
      | applied policy =>
          refine .inr (.inl ⟨policy.key, Operator.mem_schedule.mpr (.inr rfl), ?_⟩)
          show ((s.known.insert policy).get policy.key).isSome = true
          rw [s.known.get_insert_self]
          rfl
    · exact .inl ⟨d, hd, happlied⟩
  · refine .inr (.inl ⟨key, ?_, ?_⟩)
    · cases c with
      | applied policy => exact Operator.mem_schedule.mpr (.inl hdue)
      | deleted key' => exact hdue
    · -- the object that a call is due for is not the one deleted
      show ((s.known.apply c).get key).isSome = true
      cases c with
      | applied policy =>
          rw [Option.isSome_iff_ne_none] at hknown ⊢
          exact s.known.get_insert_ne_none policy hknown
      | deleted key' =>
          have hne : key' ≠ key := by
            rintro rfl
            exact hkept rfl hdue
          show ((s.known.remove key').get key).isSome = true
          rw [s.known.get_remove_of_ne hne]
          exact hknown
  · exact .inr (.inr hcall)

theorem Leaving.delivered {c : PolicyChange} {queue : List PolicyChange}
    (hqueue : s.controllerQueue = c :: queue) (hkept : c.isApplied = false → c.key ∉ s.scheduled)
    (h : Leaving s key) : Leaving (s.delivered c queue) key := by
  cases h with
  | due hdue => exact .due (hdue.delivered hqueue hkept)
  | carried hcarries => exact .carried (hcarries.mono fun _ hgone => ⟨hgone.le, hgone.past⟩)

/-- A due call that is dropped was for an object the controller does not have. -/
theorem RefreshDue.skip {key' : PolicyKey} (hknown : s.known.get key' = none)
    (h : RefreshDue s) : RefreshDue { s with scheduled := s.scheduled.erase key' } := by
  rcases h with hqueued | ⟨key, hdue, hsome⟩ | hcall
  · exact .inl hqueued
  · have hne : key ≠ key' := by
      rintro rfl
      rw [hknown] at hsome
      cases hsome
    exact .inr (.inl ⟨key, (List.mem_erase_of_ne hne).mpr hdue, hsome⟩)
  · exact .inr (.inr hcall)

theorem Leaving.skip {key' : PolicyKey} (hknown : s.known.get key' = none) (h : Leaving s key) :
    Leaving { s with scheduled := s.scheduled.erase key' } key := by
  cases h with
  | due hdue => exact .due (hdue.skip hknown)
  | carried hcarries => exact .carried (hcarries.mono fun _ hgone => ⟨hgone.le, hgone.past⟩)

theorem Gone.withReconcilers (h : Gone s key v) {r : Reconcilers cel ι}
    (hpast : r.past = s.reconcilers.past) (hversion : r.version = s.reconcilers.version) :
    Gone { s with reconcilers := r } key v := by
  refine ⟨?_, fun w hw hwv => ?_⟩
  · show v ≤ r.version
    rw [hversion]
    exact h.le
  · have hwv : w ≤ r.version := hwv
    rw [hversion] at hwv
    show (r.past w).get key = none
    rw [hpast]
    exact h.past w hw hwv

section
variable [DecidableEq ι] {operatorPodName : String} {i : ι} {r : Reconcilers cel ι}

/-- A call that starts has yet to read the store. -/
theorem Leaving.start {policy : DepodPolicy} (scheduled : List PolicyKey)
    (hstep : ReconcilersStep operatorPodName s.reconcilers (.start i policy) r) :
    Leaving { s with scheduled := scheduled, reconcilers := r } key := by
  cases reconcilersStep_cases hstep with
  | start hnone => exact .due (.inr (.inr ⟨i, _, Reconcilers.setCall_calls_self, rfl⟩))

/-- A call performs an effect: if it reads the store, it holds a version
without the policy; what it publishes is no older than the cache. -/
theorem Leaving.effect {answer : (e : PolicyEffect) → e.Reply} (hs : Departing s)
    (hnone : s.store.get key = none)
    (hstep : ReconcilersStep operatorPodName s.reconcilers (.effect i answer) r) :
    Leaving { s with reconcilers := r } key := by
  obtain ⟨-, -, -, -, -, hpast, hversion, -, -⟩ := hs.sound.effect_cases hstep
  cases hs.leaving key hnone with
  | due hdue =>
      rcases hdue with hqueued | hdue | ⟨j, call, hj, hpending⟩
      · exact .due (.inl hqueued)
      · exact .due (.inr (.inl hdue))
      · obtain ⟨call', hcall', hrefresh⟩ := hs.sound.effect_of_pending hstep hj hpending
        rcases hrefresh with hpending' | hheld
        · exact .due (.inr (.inr ⟨j, call', hcall', hpending'⟩))
        · -- the store as it is does not have the policy
          have hgone : Gone s key s.reconcilers.version := by
            refine ⟨Nat.le_refl _, fun w hw hwv => ?_⟩
            obtain rfl : w = s.reconcilers.version := Nat.le_antisymm hwv hw
            rw [hs.sound.past_version]
            exact hnone
          exact .carried (.held j call' _ hcall' hheld (hgone.withReconcilers hpast hversion))
  | carried hcarries =>
      have hcarries' := hcarries.effect hs.sound hs.ordered hstep fun _ _ hgone => hgone.mono
      exact .carried (hcarries'.mono fun _ hgone => hgone.withReconcilers hpast hversion)

/-- A call returns; as its policy is valid, it has published. -/
theorem Leaving.finish (hs : Departing s) (policy : DepodPolicy) (result : Except Error Action)
    (hstep : ReconcilersStep operatorPodName s.reconcilers (.finish i) r) (h : Leaving s key) :
    Leaving { s with scheduled := s.rescheduled policy result, reconcilers := r } key := by
  have hpast : r.past = s.reconcilers.past ∧ r.version = s.reconcilers.version := by
    obtain ⟨-, -, -, rfl⟩ := hs.sound.finish_cases hstep
    exact ⟨rfl, rfl⟩
  cases h with
  | due hdue =>
      refine .due ?_
      rcases hdue with hqueued | ⟨key', hdue, hsome⟩ | ⟨j, call, hj, hpending⟩
      · exact .inl hqueued
      · exact .inr (.inl ⟨key', Operator.mem_rescheduled hdue policy result, hsome⟩)
      · have hj' := hs.sound.finish_of_pending hs.calls hstep hj hpending
        exact .inr (.inr ⟨j, call, hj', hpending⟩)
  | carried hcarries =>
      refine .carried ((hcarries.finish hs.sound hstep).mono fun _ hgone => ?_)
      have hgone' := hgone.withReconcilers hpast.1 hpast.2
      exact ⟨hgone'.le, hgone'.past⟩

end

/-! ### Runs -/

theorem departing_initial : Departing (.initial : Operator cel ι) where
  toAppliedValid := .initial
  sound := Reconcilers.initial_sound
  ordered := ordered_initial
  leaving := fun _ _ => .carried (.published ⟨Nat.le_refl _, fun _ _ _ => rfl⟩)

/-- With nothing under way, what the store lacks the cache lacks. -/
theorem Departing.inactive (hs : Departing s) (hdrained : s.Drained)
    (hnone : s.store.get key = none) : Inactive s key := by
  obtain ⟨-, hcontroller, hscheduled, hidle⟩ := hdrained
  have hgone : Gone s key s.reconcilers.published := by
    cases hs.leaving key hnone with
    | due hdue =>
        rcases hdue with ⟨c, hc, -⟩ | ⟨key', hkey', -⟩ | ⟨i, call, hcall, -⟩
        · rw [hcontroller] at hc
          cases hc
        · rw [hscheduled] at hkey'
          cases hkey'
        · rw [hidle i] at hcall
          cases hcall
    | carried hcarries => exact hcarries.of_idle hidle
  refine (inactive_iff_past hs.sound).mpr fun q hq hkey => ?_
  have hget := hgone.past _ (Nat.le_refl _) hgone.le
  have hsome := (PolicyStore.get_eq_some_iff _).mpr ⟨hq, hkey⟩
  exact absurd (hsome.symm.trans hget) (Option.some_ne_none q)

variable [DecidableEq ι] [Fintype ι] {operatorPodName : String} {label : OperatorLabel ι}
variable {π : List (OperatorLabel ι × Operator cel ι)}

/-- The steps that a refresh follows in order. -/
def Refreshing (s : Operator cel ι) (label : OperatorLabel ι) : Prop :=
  (ValidApplies cel s label ∧ RefreshFollows s label) ∧ NoneOvertaken s label

/-- The absence of every policy stays on its way to the cache. -/
theorem leaving_step (h : OperatorStep operatorPodName s label s') (hok : RefreshFollows s label)
    (hs : Departing s) (hnone : s'.store.get key = none) : Leaving s' key := by
  cases operatorStep_cases h with
  | apply policy => exact (hs.leaving key hnone).change _
  | delete key' => exact (hs.leaving key hnone).change _
  | @reflect c queue hqueue =>
      have hnone : (s.store.apply c).get key = none := hnone
      by_cases hkey : c.key = key
      · -- the store loses the policy with this step
        have hdeleted : c.isApplied = false := by
          cases c with
          | deleted key' => rfl
          | applied policy =>
              have hsome := s.store.get_insert_self policy
              rw [show policy.key = key from hkey] at hsome
              exact absurd (hsome.symm.trans hnone) (Option.some_ne_none policy)
        refine .due (hok c ?_ hdeleted)
        rw [hqueue]
        rfl
      · rw [s.store.get_apply_of_ne hkey] at hnone
        refine (hs.leaving key hnone).reflected ?_
        rw [s.store.get_apply_of_ne hkey]
        exact hnone
  | @deliver c queue hqueue =>
      refine (hs.leaving key hnone).delivered hqueue (hok c ?_)
      rw [hqueue]
      rfl
  | start hidle hknown hstep => exact .start _ hstep
  | skip hknown => exact (hs.leaving key hnone).skip hknown
  | effect hstep =>
      have hstore : s.store.get key = none := by
        obtain ⟨_, _, -, -, -, -, -, hstore, -⟩ := hs.sound.effect_cases hstep
        rw [Operator.store, ← hstore]
        exact hnone
      exact .effect hs hstore hstep
  | patch hstep hstored =>
      have hstore : s.store.get key = none := by
        obtain ⟨_, _, -, -, -, -, -, hstore, -⟩ := hs.sound.effect_cases hstep
        rw [Operator.store, ← hstore]
        exact hnone
      exact (Leaving.effect hs hstore hstep).change _
  | finish hstep =>
      have hstore : s.store.get key = none := by
        obtain ⟨_, -, -, rfl⟩ := hs.sound.finish_cases hstep
        exact hnone
      exact (hs.leaving key hstore).finish hs _ _ hstep

theorem Departing.step (h : OperatorStep operatorPodName s label s') (hok : Refreshing s label)
    (hs : Departing s) : Departing s' where
  toAppliedValid := hs.toAppliedValid.step h hok.1.1
  sound := by
    rcases reconcilers_step h with hsame | ⟨label', hstep⟩
    · rw [hsame]
      exact hs.sound
    · exact (hs.sound.step hstep).1
  ordered := ordered_step h hok.2 hs.sound hs.ordered
  leaving := fun _ hnone => leaving_step h hok.1.2 hs hnone

/-- **When a deleted policy no longer acts.**  In every state of every run of
creates, updates and deletes, with any delays and any interleaving of calls, no
version of a policy is cached exactly if the store held no spec-valid version
of it when the call that published last read it.  And in every run that applies
only valid policies, in which no call is overtaken and every deletion finds a
refresh still due when it reaches the store, no policy that the store lacks is
cached once everything is drained. -/
theorem inactive_iff (hπ : Execution (OperatorStep operatorPodName) .initial π) :
    (∀ x ∈ states (.initial : Operator cel ι) π, ∀ key, Inactive x key ↔
      ∀ q ∈ (x.reconcilers.past x.reconcilers.published).entries,
        q.key = key → q.spec.isValid = false) ∧
    (StepsMeet (ValidApplies cel) .initial π → StepsMeet RefreshFollows .initial π →
      StepsMeet NoneOvertaken .initial π →
      ∀ x ∈ states .initial π, x.Drained → ∀ key, x.store.get key = none → Inactive x key) := by
  constructor
  · intro x hx key
    exact inactive_iff_past (reconcilers_sound hπ x hx)
  · intro hvalid hfollows hordered
    have hok : StepsMeet Refreshing .initial π := (hvalid.and hfollows).and hordered
    have hdeparting : ∀ x ∈ states .initial π, Departing x := by
      refine hπ.invariant_of_stepsMeet (fun s label s' hstep hlabel hs => ?_) hok
        departing_initial
      exact hs.step hstep hlabel
    intro x hx hdrained key hnone
    exact (hdeparting x hx).inactive hdrained hnone

/-- Another policy is created just after the deletion of the first. -/
def deleteAndCreate : List (OperatorLabel Unit) :=
  let other : DepodPolicy := { readyCleanup with metadata := (ttlPolicy "other" 1).metadata }
  let answer := answersFrom (PolicyStore.empty.insert readyCleanup)
  let answer' := answersFrom (PolicyStore.empty.insert other)
  [.apply readyCleanup, .reflect, .deliver,
    .start () readyCleanup.key, .effect () answer, .effect () answer, .effect () answer,
    .effect () answer, .finish (),
    .delete readyCleanup.key, .apply other, .reflect, .reflect, .deliver, .deliver,
    .start () other.key, .effect () answer', .effect () answer', .effect () answer',
    .effect () answer', .finish ()]

/-- The call for the new policy takes the deleted one out of the cache. -/
theorem inactive_iff_deleteAndCreate :
    ∃ π, follow (operatorStep "operator") (.initial : Operator ⟨Unit, fun _ => .ok ()⟩ Unit)
        deleteAndCreate = some π ∧ Inactive (final .initial π) readyCleanup.key := by
  have hrun : ∃ π, follow (operatorStep "operator")
      (.initial : Operator ⟨Unit, fun _ => .ok ()⟩ Unit) deleteAndCreate = some π ∧
      StepsMeet (ValidApplies _) .initial π ∧ StepsMeet RefreshFollows .initial π ∧
      (final .initial π).Drained ∧ (final .initial π).store.get readyCleanup.key = none :=
    ⟨_, rfl, by decide, by decide, ⟨rfl, rfl, rfl, fun _ => rfl⟩, rfl⟩
  obtain ⟨π, hfollow, hvalid, hfollows, hdrained, hnone⟩ := hrun
  have hordered : StepsMeet NoneOvertaken .initial π := by
    refine stepsMeet_of_forall (fun s label => ?_) _ _
    cases label with
    | effect i answer => exact noCallOvertaken_of_one (fun _ _ _ _ => rfl) _
    | apply _ | delete _ | reflect | deliver | start _ _ | skip _ | finish _ => trivial
  exact ⟨π, hfollow, (inactive_iff (execution_of_follow hfollow).1).2 hvalid hfollows hordered _
    (final_mem_states _ π) hdrained _ hnone⟩

end KubeDepod
