/-
KubeDepod/Policies/TouchAfterPublish.lean

What the cache holds by the time a pod is touched.

A `reconcile_policy` call touches pods to have them evaluated again, and the run
of `reconcile_pod` that follows loads the cache.  The call has published by then
(`wp_patchLast_reconcilePolicy`), and what it has published is the store as it
was when the call started, or later.  Other calls may publish in between; if
none is overtaken in the sense of `Policies/Refresh.lean`, then every evaluation
after a touch sees the cache at least as new (`touch_follows_publish`).
-/
import KubeDepod.Policies.Refresh

namespace KubeDepod

open Effects Lts Parties

variable {cel : CelEngine} {ι : Type}

/-! ### Within the call -/

/-- The refresh protocol, with pods patched only when the refresh is done. -/
def patchLastProtocol (cel : CelEngine) : Protocol PolicyEffect.Reply Refresh where
  allowed
    | .patchPod _ _ _, refresh => refresh = .done
    | _, _ => True
  reply := (refreshProtocol cel).reply

theorem respectsReports_patchLast :
    RespectsReports cel (patchLastProtocol cel) (· = .pending) where
  allowed := by
    rintro e _ hreport rfl
    cases e with
    | patchPod _ _ _ => exact hreport.elim
    | _ => trivial
  keeps := by
    rintro e _ r _ hreport rfl ⟨⟨version, rfl⟩, -⟩
    exact Refresh.after_of_quiet hreport.isQuiet version r _
  verdict := by
    rintro expr _ r _ ⟨-, hr⟩
    exact hr

theorem respectsQuiet_patchLast : RespectsQuiet cel (patchLastProtocol cel) (· = .done) where
  allowed := by
    rintro e _ - rfl
    cases e with
    | patchPod _ _ _ => exact rfl
    | _ => trivial
  keeps := by
    rintro e _ r _ hquiet rfl ⟨⟨version, rfl⟩, -⟩
    exact Refresh.after_of_quiet hquiet version r _
  verdict := by
    rintro expr _ r _ ⟨-, hr⟩
    exact hr

/-- **Publish first, touch afterwards.** -/
theorem wp_patchLast_reconcilePolicy (operatorPodName : String) (policy : DepodPolicy) :
    wp (patchLastProtocol cel) (reconcilePolicy operatorPodName policy) (fun _ _ => True)
      .pending := by
  rw [reconcilePolicy, wp_bind]
  refine wp_mono ?_ (respectsReports_patchLast.wp_checkPolicy policy rfl)
  rintro checked _ ⟨-, rfl⟩
  split
  · refine ⟨trivial, ?_⟩
    rintro state _ ⟨⟨version, rfl⟩, -⟩
    refine ⟨trivial, ?_⟩
    rintro _ _ ⟨⟨_, rfl⟩, -⟩
    exact wp_mono (fun _ _ _ => trivial)
      (respectsQuiet_patchLast.wp (afterRefresh_uses operatorPodName policy) rfl)
  · exact trivial

/-! ### Among the other calls -/

/-- The refresh is still to come; what it will publish is of version `v` or
later. -/
def Refresh.ToCome (v version : Nat) : Refresh → Prop
  | .pending => v ≤ version
  | .holding w _ => v ≤ w
  | .done => False

namespace Reconcilers

/-- Call `i` is about to patch a pod. -/
def Patches (s : Reconcilers cel ι) (i : ι) : Prop :=
  ∃ call api name patch k, s.calls i = some call ∧ call.prog = .op (.patchPod api name patch) k

/-- Call `i`, if it is in flight, has its refresh to come. -/
def Refreshes (s : Reconcilers cel ι) (i : ι) (v : Nat) : Prop :=
  ∀ call, s.calls i = some call →
    wp (patchLastProtocol cel) call.prog (fun _ _ => True) call.refresh ∧
      call.refresh.ToCome v s.version

variable {s s' : Reconcilers cel ι} {i : ι} {v : Nat}

/-- A call that patches has refreshed. -/
theorem Refreshes.not_patches (hs : s.Refreshes i v) : ¬ s.Patches i := by
  rintro ⟨call, api, name, patch, k, hcall, hprog⟩
  obtain ⟨hwp, htoCome⟩ := hs call hcall
  rw [hprog] at hwp
  have hdone : call.refresh = .done := hwp.1
  rw [hdone] at htoCome
  exact htoCome

variable [DecidableEq ι] {operatorPodName : String} {label : ReconcilersLabel ι}

theorem performed_calls_self {call : PolicyCall} {e : PolicyEffect} {r : e.Reply}
    {prog : PolicyProg (Except Error Action)} :
    (s.performed i call e r prog).calls i
      = some ⟨call.policy, prog, call.refresh.after s.version e r⟩ := Function.update_self ..

/-- The refresh stays to come until it is published. -/
theorem Refreshes.step (h : ReconcilersStep operatorPodName s label s')
    (hlabel : ∀ policy, label ≠ .start i policy) (hsound : s.Sound) (hs : s.Refreshes i v) :
    s'.Refreshes i v ∨ v ≤ s'.published := by
  -- a step of another call, which leaves the versions of the store
  have hother : s'.version = s.version → s'.calls i = s.calls i → s'.Refreshes i v := by
    intro hversion hcalls call hcall
    rw [hversion]
    exact hs call (hcalls ▸ hcall)
  cases reconcilersStep_cases h with
  | storeChange store =>
      refine .inl fun call hcall => ?_
      obtain ⟨hwp, htoCome⟩ := hs call hcall
      refine ⟨hwp, ?_⟩
      rcases hrefresh : call.refresh with - | ⟨w, state⟩ | -
      · rw [hrefresh] at htoCome
        exact Nat.le_succ_of_le htoCome
      · rw [hrefresh] at htoCome
        exact htoCome
      · rw [hrefresh] at htoCome
        exact htoCome
  | @start j policy hnone =>
      have hne : i ≠ j := by
        rintro rfl
        exact hlabel policy rfl
      exact .inl (hother rfl (setCall_calls_of_ne hne))
  | @effect j answer policy e k refresh hcall hpermits =>
      by_cases hne : i = j
      case neg => exact .inl (hother rfl (Function.update_of_ne hne ..))
      subst hne
      obtain ⟨hwp, htoCome⟩ := hs _ hcall
      have hnext := hwp.2 (answer e) _ ⟨⟨s.version, rfl⟩, hpermits.answers⟩
      have hallowed := (hsound.calls i _ hcall).prog.1
      cases e with
      | publish policies =>
          -- what is published is what the call holds
          obtain ⟨w, state, rfl, -⟩ := hallowed
          exact .inr htoCome
      | storeState =>
          obtain rfl : refresh = .pending := hallowed
          refine .inl fun call hcall' => ?_
          rw [performed_calls_self] at hcall'
          obtain rfl := Option.some.inj hcall'
          exact ⟨hnext, htoCome⟩
      | validate _ | nowText | patchStatus _ _ _ | listPods _ _ | patchPod _ _ _ =>
          refine .inl fun call hcall' => ?_
          rw [performed_calls_self] at hcall'
          obtain rfl := Option.some.inj hcall'
          exact ⟨hnext, htoCome⟩
  | @finish j policy result refresh hcall =>
      by_cases hne : i = j
      · subst hne
        refine .inl fun call hcall' => ?_
        rw [setCall_calls_self] at hcall'
        cases hcall'
      · exact .inl (hother rfl (setCall_calls_of_ne hne))

/-- Before a call patches, a version no older than `v` is published. -/
theorem Refreshes.exists_published {π : List (ReconcilersLabel ι × Reconcilers cel ι)}
    (hπ : Execution (ReconcilersStep operatorPodName) s π)
    (hsame : ∀ x ∈ π, ∀ policy, x.1 ≠ .start i policy) (hsound : s.Sound) (hs : s.Refreshes i v)
    (hpatches : (final s π).Patches i) : ∃ x ∈ states s π, v ≤ x.published := by
  induction π generalizing s with
  | nil => exact absurd hpatches hs.not_patches
  | cons y π ih =>
      obtain ⟨label, s'⟩ := y
      obtain ⟨hlabel, hsame⟩ := List.forall_mem_cons.mp hsame
      rcases hs.step hπ.1 hlabel hsound with hs' | hpublished
      · obtain ⟨x, hx, hpublished⟩ := ih hπ.2 hsame (hsound.step hπ.1).1 hs' hpatches
        exact ⟨x, List.mem_cons_of_mem _ hx, hpublished⟩
      · exact ⟨s', List.mem_cons_of_mem _ (List.mem_cons_self ..), hpublished⟩

/-- A step in which no call is overtaken. -/
theorem ordered_step (h : ReconcilersStep operatorPodName s label s')
    (hok : NoCallOvertaken s label) (hs : s.Sound ∧ Snapshots.Ordered s.snapshots) :
    (s'.Sound ∧ Snapshots.Ordered s'.snapshots) ∧ s.published ≤ s'.published := by
  obtain ⟨hsound, hstep⟩ := hs.1.step h
  obtain ⟨hordered, hle⟩ := hs.2.step hstep hok
  exact ⟨⟨hsound, hordered⟩, hle⟩

end Reconcilers

/-! ### Whole runs -/

section
variable [DecidableEq ι] {operatorPodName : String} {i : ι} {policy : DepodPolicy}
  {s : Reconcilers cel ι} {π₀ π : List (ReconcilersLabel ι × Reconcilers cel ι)}

/-- **A touched pod is evaluated against the policy it is touched for.**  In
every run of any number of calls, take a call from its start to a patch that it
sends.  In between there is a cache that is the spec-valid part of the store at
the start of the call, or at a later version.  And if no call is overtaken
before the patch or after it, then the cache is of such a version from the patch
on. -/
theorem touch_follows_publish
    (hπ₀ : Execution (ReconcilersStep operatorPodName) .initial π₀)
    (hstart : ReconcilersStep operatorPodName (final .initial π₀) (.start i policy) s)
    (hπ : Execution (ReconcilersStep operatorPodName) s π)
    (hsame : ∀ x ∈ π, ∀ policy, x.1 ≠ .start i policy) (hpatches : (final s π).Patches i) :
    (∃ x ∈ states s π, (final .initial π₀).version ≤ x.published ∧ x.CacheAt x.published) ∧
      (StepsMeet NoCallOvertaken .initial π₀ → StepsMeet NoCallOvertaken s π →
        ∀ π', Execution (ReconcilersStep operatorPodName) (final s π) π' →
          StepsMeet NoCallOvertaken (final s π) π' →
          ∀ x ∈ states (final s π) π',
            (final .initial π₀).version ≤ x.published ∧ x.CacheAt x.published) := by
  have hreached : (final .initial π₀).Sound :=
    hπ₀.invariant (fun _ _ _ hstep hs => (hs.step hstep).1) Reconcilers.initial_sound _
      (final_mem_states _ π₀)
  have hsound : s.Sound := (hreached.step hstart).1
  have hrefreshes : s.Refreshes i (final .initial π₀).version := by
    cases reconcilersStep_cases hstart with
    | start hnone =>
        intro call hcall
        rw [Reconcilers.setCall_calls_self] at hcall
        obtain rfl := Option.some.inj hcall
        exact ⟨wp_patchLast_reconcilePolicy operatorPodName policy, Nat.le_refl _⟩
  constructor
  · obtain ⟨x, hx, hpublished⟩ := hrefreshes.exists_published hπ hsame hsound hpatches
    have hxsound : x.Sound := hπ.invariant (fun _ _ _ hstep hs => (hs.step hstep).1) hsound x hx
    exact ⟨x, hx, hpublished, hxsound.cache⟩
  · intro hok₀ hok π' hπ' hok'
    let I (x : Reconcilers cel ι) : Prop := x.Sound ∧ Snapshots.Ordered x.snapshots
    have hkeep : ∀ x label x', ReconcilersStep operatorPodName x label x' →
        NoCallOvertaken x label → I x → I x' :=
      fun x label x' hstep hok hx => (Reconcilers.ordered_step hstep hok hx).1
    have hI₀ : I (final .initial π₀) := hπ₀.invariant_of_stepsMeet hkeep hok₀
      ⟨Reconcilers.initial_sound, ordered_initial⟩ _ (final_mem_states _ π₀)
    have hI : I s := by
      have hfree : NoCallOvertaken (final .initial π₀) (.start i policy) := trivial
      exact (Reconcilers.ordered_step hstart hfree hI₀).1
    -- until the version is published the call cannot patch, and then it stays
    have hmet : ∀ x ∈ states s π, I x ∧
        (x.Refreshes i (final .initial π₀).version ∨
          (final .initial π₀).version ≤ x.published) := by
      have hother : StepsMeet (fun _ label => ∀ policy, label ≠ .start i policy) s π := by
        refine stepsMeet_of_labels fun label hlabel => ?_
        obtain ⟨x, hx, rfl⟩ := List.mem_map.mp hlabel
        exact hsame x hx
      refine hπ.invariant_of_stepsMeet (fun x label x' hstep hok hx => ?_) (hok.and hother)
        ⟨hI, .inl hrefreshes⟩
      obtain ⟨hIx, hle⟩ := Reconcilers.ordered_step hstep hok.1 hx.1
      refine ⟨hIx, ?_⟩
      rcases hx.2 with hto | hpublished
      · exact hto.step hstep hok.2 hx.1.1
      · exact .inr (Nat.le_trans hpublished hle)
    obtain ⟨hIpatch, hto | hpublished⟩ := hmet _ (final_mem_states s π)
    · exact absurd hpatches hto.not_patches
    · have hafter := hπ'.invariant_of_stepsMeet
        (I := fun x => I x ∧ (final .initial π₀).version ≤ x.published)
        (fun x label x' hstep hok hx => by
          obtain ⟨hIx, hle⟩ := Reconcilers.ordered_step hstep hok hx.1
          exact ⟨hIx, Nat.le_trans hx.2 hle⟩) hok' ⟨hIpatch, hpublished⟩
      intro x hx
      exact ⟨(hafter x hx).2, (hafter x hx).1.1.cache⟩

/-- One call, up to its first patch. -/
theorem touch_follows_publish_first :
    ∃ (s : Reconcilers ⟨Unit, fun _ => .ok ()⟩ Unit) (π : List (ReconcilersLabel Unit × _)),
      Execution (ReconcilersStep "operator") s π ∧ (final s π).Patches () ∧
        (∃ x ∈ states s π, 1 ≤ x.published ∧ x.CacheAt x.published) ∧
        1 ≤ (final s π).published := by
  let answer : (e : PolicyEffect) → e.Reply := fun
    | .listPods _ _ => .ok [optedInPod "web-0" "4e1f"]
    | .validate expr => answersFrom firstStore (.validate expr)
    | .nowText => answersFrom firstStore .nowText
    | .patchStatus ns name status => answersFrom firstStore (.patchStatus ns name status)
    | .storeState => answersFrom firstStore .storeState
    | .publish policies => answersFrom firstStore (.publish policies)
    | .patchPod api name patch => answersFrom firstStore (.patchPod api name patch)
  have hrun₀ : ∃ π₀, follow (reconcilersStep "operator")
      (.initial : Reconcilers ⟨Unit, fun _ => .ok ()⟩ Unit) [.storeChange firstStore] = some π₀ ∧
      (final .initial π₀).version = 1 ∧
      ∃ s, ReconcilersStep "operator" (final .initial π₀) (.start () (ttlPolicy "first" 3600)) s ∧
        ∃ π, follow (reconcilersStep "operator") s (List.replicate 6 (.effect () answer)) = some π ∧
          (final s π).Patches () :=
    ⟨_, rfl, rfl, _, rfl, _, rfl, _, _, _, _, _, rfl, rfl⟩
  obtain ⟨π₀, hfollow₀, hversion, s, hstart, π, hfollow, hpatches⟩ := hrun₀
  obtain ⟨hπ₀, -⟩ := execution_of_follow hfollow₀
  obtain ⟨hπ, hlabels⟩ := execution_of_follow hfollow
  have hsame : ∀ x ∈ π, ∀ policy, x.1 ≠ .start () policy := by
    intro x hx policy hlabel
    have hmem := List.mem_map_of_mem (f := Prod.fst) hx
    rw [hlabels, hlabel] at hmem
    cases List.eq_of_mem_replicate hmem
  have hone : ∀ (s : Reconcilers ⟨Unit, fun _ => .ok ()⟩ Unit) π,
      StepsMeet NoCallOvertaken s π :=
    stepsMeet_of_forall fun s label => noCallOvertaken_of_one (fun _ _ _ _ => rfl) label
  obtain ⟨hbefore, hafter⟩ := touch_follows_publish hπ₀ hstart hπ hsame hpatches
  rw [hversion] at hbefore hafter
  exact ⟨s, π, hπ, hpatches, hbefore,
    (hafter (hone _ _) (hone _ _) [] trivial trivial _ (List.mem_singleton_self _)).1⟩

end

end KubeDepod
