/-
KubeDepod/Policies/Refresh.lean

When the refreshes of concurrent `reconcile_policy` calls never take the cache
back to an older version of the store.

They never do if no call publishes while another one still holds an older
snapshot; for runs that end with all calls returned this is also necessary
(`cache_neverBackwards`).  The code does nothing to ensure it, and
`overtaken_call_publishes` is a run of two calls in which the older snapshot
is published last and stays.
-/
import KubeDepod.Policies.Concurrent
import KubeDepod.Policies.Validity
import Mathlib.Data.Fintype.Basic

namespace KubeDepod

open Effects Lts

variable {cel : CelEngine} {ι : Type}

/-- No call is in flight. -/
def Reconcilers.Idle (s : Reconcilers cel ι) : Prop := ∀ i, s.calls i = none

instance [Fintype ι] (s : Reconcilers cel ι) : Decidable s.Idle :=
  inferInstanceAs (Decidable (∀ i, s.calls i = none))

/-- With no call in flight, what is carried is published. -/
theorem Reconcilers.Carries.of_idle {s : Reconcilers cel ι} {good : Nat → Prop}
    (h : s.Carries good) (hidle : s.Idle) : good s.published := by
  cases h with
  | held i call v hcall hheld hv =>
      rw [hidle i] at hcall
      cases hcall
  | published hv => exact hv

/-- In every state of the run the cache is a snapshot of some version of the
store, this version never decreases, and when no call is in flight it is the
newest that any call has read. -/
structure NeverBackwards (s : Reconcilers cel ι)
    (π : List (ReconcilersLabel ι × Reconcilers cel ι)) : Prop where
  snapshot : ∀ x ∈ states s π, x.CacheAt x.published
  forward : (states s π).Pairwise fun x y => x.published ≤ y.published
  newest : ∀ x ∈ states s π, x.Idle → x.taken ≠ [] →
    x.published ∈ x.taken ∧ ∀ v ∈ x.taken, v ≤ x.published

/-- A call that publishes finds no other call holding an older snapshot. -/
def NoCallOvertaken (s : Reconcilers cel ι) (label : ReconcilersLabel ι) : Prop :=
  Snapshots.NoOvertaking s.snapshots (label.snapshots s)

/-- With at most one call in flight, none is overtaken. -/
theorem noCallOvertaken_of_one {s : Reconcilers cel ι}
    (h : ∀ i j, s.calls i ≠ none → s.calls j ≠ none → i = j) (label : ReconcilersLabel ι) :
    NoCallOvertaken s label := by
  have hcall : ∀ i v, s.snapshots.holding i = some v → s.calls i ≠ none := by
    intro i v hi hnone
    change (s.calls i).bind _ = some v at hi
    rw [hnone] at hi
    cases hi
  rw [NoCallOvertaken]
  rcases label.snapshots s with - | - | i | -
  · trivial
  · trivial
  · intro v hv j w hw
    obtain rfl := h i j (hcall i v hv) (hcall j w hw)
    exact Nat.le_of_eq (Option.some.inj (hv.symm.trans hw))
  · trivial

/-- A call is started only while no call for the same policy is in flight. -/
def StartsAnother (s : Reconcilers cel ι) : ReconcilersLabel ι → Prop
  | .start _ policy =>
      ∀ j, ((s.calls j).all fun call => call.policy.key != policy.key) = true
  | _ => True

instance [Fintype ι] (s : Reconcilers cel ι) (label : ReconcilersLabel ι) :
    Decidable (StartsAnother s label) :=
  match label with
  | .start _ policy => inferInstanceAs (Decidable
      (∀ j, ((s.calls j).all fun call => call.policy.key != policy.key) = true))
  | .storeChange _ => .isTrue trivial
  | .effect _ _ => .isTrue trivial
  | .finish _ => .isTrue trivial

/-! ### A run that goes backwards -/

def firstStore : PolicyStore := PolicyStore.empty.insert (ttlPolicy "first" 3600)

def secondStore : PolicyStore := firstStore.insert (ttlPolicy "second" 3600)

/-- The environment of a call that reads `store`. -/
def answersFrom (store : PolicyStore) : (e : PolicyEffect) → e.Reply :=
  PolicyState.plainAnswer (⟨store, [], .new⟩ : PolicyState ⟨Unit, fun _ => .ok ()⟩)

/-- The call for the first policy reads the store before the second policy
arrives, and publishes after the call for the second policy has. -/
def overtaking : List (ReconcilersLabel Bool) :=
  [.storeChange firstStore,
    .start true (ttlPolicy "first" 3600), .effect true (answersFrom firstStore),
    .storeChange secondStore,
    .start false (ttlPolicy "second" 3600), .effect false (answersFrom secondStore),
    .effect false (answersFrom secondStore),
    .effect true (answersFrom secondStore)]

/-- The cache ends with the first policy only, although it has held both. -/
theorem overtaken_call_publishes :
    ¬ ∀ (cel : CelEngine) (operatorPodName : String) (ι : Type) [DecidableEq ι]
      (π : List (ReconcilersLabel ι × Reconcilers cel ι)),
      Execution (ReconcilersStep operatorPodName) .initial π →
      StepsMeet StartsAnother .initial π → NeverBackwards .initial π := by
  intro h
  let cel : CelEngine := ⟨Unit, fun _ => .ok ()⟩
  have hrun : ∃ π, follow (reconcilersStep "operator")
      (.initial : Reconcilers cel Bool) overtaking = some π ∧
      (states .initial π).map (fun x => x.published) = [0, 0, 0, 0, 0, 0, 0, 2, 1] ∧
      StepsMeet StartsAnother .initial π :=
    ⟨_, rfl, rfl, by decide⟩
  obtain ⟨π, hfollow, hpublished, hstarts⟩ := hrun
  have hforward := (h cel "operator" Bool π (execution_of_follow hfollow).1 hstarts).forward
  have hsorted : [0, 0, 0, 0, 0, 0, 0, 2, 1].Pairwise (· ≤ ·) := by
    rw [← hpublished]
    exact List.pairwise_map.mpr hforward
  exact absurd hsorted (by decide)

/-! ### When it never goes backwards -/

/-- The condition, as the one of the snapshot system. -/
theorem noCallOvertaken_iff {s : Reconcilers cel ι}
    {π : List (ReconcilersLabel ι × Reconcilers cel ι)} :
    StepsMeet Snapshots.NoOvertaking s.snapshots
        (image Reconcilers.snapshots (fun s label => label.snapshots s) s π) ↔
      StepsMeet NoCallOvertaken s π := stepsMeet_image

theorem ordered_initial :
    Snapshots.Ordered (Reconcilers.initial : Reconcilers cel ι).snapshots where
  published_le := Nat.le_refl _
  published_taken := .inl rfl
  holding_le := by
    intro i v hi
    cases hi
  newest := by
    intro v hv
    cases hv

/-- A state without calls holds no snapshot. -/
theorem Reconcilers.Idle.snapshots {s : Reconcilers cel ι} (h : s.Idle) : s.snapshots.Idle := by
  intro i
  show (s.calls i).bind _ = none
  rw [h i]
  rfl

variable [DecidableEq ι] {operatorPodName : String}
variable {π : List (ReconcilersLabel ι × Reconcilers cel ι)}

/-- The run, as one of the snapshot system. -/
theorem execution_snapshots (hπ : Execution (ReconcilersStep operatorPodName) .initial π) :
    Execution Snapshots.Step (Reconcilers.initial : Reconcilers cel ι).snapshots
      (image Reconcilers.snapshots (fun s label => label.snapshots s) .initial π) := by
  apply hπ.image (I := Reconcilers.Sound)
  · intro s label s' hstep hs
    exact (hs.step hstep).1
  · intro s label s' hstep hs
    exact (hs.step hstep).2
  · exact Reconcilers.initial_sound

/-- **The order of refreshes.**  In every run of any number of concurrent calls
in which no call publishes while another holds an older snapshot, the cache
never goes backwards; and a run that ends with all calls returned has the
cache never going backwards only if no call was overtaken like that. -/
theorem cache_neverBackwards (hπ : Execution (ReconcilersStep operatorPodName) .initial π) :
    (StepsMeet NoCallOvertaken .initial π → NeverBackwards .initial π) ∧
      ((final .initial π).Idle → NeverBackwards .initial π →
        StepsMeet NoCallOvertaken .initial π) := by
  have hsnapshots := execution_snapshots hπ
  constructor
  · intro hok
    have hok := noCallOvertaken_iff.mpr hok
    refine ⟨?_, ?_, ?_⟩
    · intro x hx
      have hsound : x.Sound := hπ.invariant (fun _ _ _ hstep hs => (hs.step hstep).1)
        Reconcilers.initial_sound x hx
      exact hsound.cache
    · have hmono := Snapshots.published_mono hsnapshots hok ordered_initial
      rw [states_image, List.pairwise_map] at hmono
      exact hmono
    · intro x hx hidle hne
      have hx' : x.snapshots ∈ states (Reconcilers.initial : Reconcilers cel ι).snapshots
          (image Reconcilers.snapshots (fun s label => label.snapshots s) .initial π) := by
        rw [states_image]
        exact List.mem_map_of_mem hx
      exact Snapshots.newest_of_idle hsnapshots hok ordered_initial _ hx' hidle.snapshots hne
  · intro hidle hforward
    apply noCallOvertaken_iff.mp
    apply Snapshots.noOvertaking_of_mono hsnapshots
    · rw [final_image]
      exact hidle.snapshots
    · rw [states_image, List.pairwise_map]
      exact hforward.forward

/-- A single call at a time. -/
theorem cache_neverBackwards_single :
    ∃ π, follow (reconcilersStep "operator")
        (.initial : Reconcilers ⟨Unit, fun _ => .ok ()⟩ Unit)
        [.storeChange firstStore, .start () (ttlPolicy "first" 3600),
          .effect () (answersFrom firstStore), .storeChange secondStore,
          .effect () (answersFrom secondStore)] = some π ∧
      NeverBackwards .initial π := by
  have hrun : ∃ π, follow (reconcilersStep "operator")
      (.initial : Reconcilers ⟨Unit, fun _ => .ok ()⟩ Unit)
      [.storeChange firstStore, .start () (ttlPolicy "first" 3600),
        .effect () (answersFrom firstStore), .storeChange secondStore,
        .effect () (answersFrom secondStore)] = some π := ⟨_, rfl⟩
  obtain ⟨π, hfollow⟩ := hrun
  refine ⟨π, hfollow, (cache_neverBackwards (execution_of_follow hfollow).1).1 ?_⟩
  refine stepsMeet_of_forall (fun s label => ?_) _ _
  exact noCallOvertaken_of_one (fun _ _ _ _ => rfl) label

end KubeDepod
