/-
KubeDepod/Metrics/Scrapes.lean

The metrics page, and what it shows while pods are being reconciled.

`prometheus_format` loads the counters one after another, each by an atomic load
of its own, and runs of `reconcile_pod` go on in between.  So a page is not the
counters at one time.  The order of the loads decides what can be relied on:
deletions are loaded before matches, and a page never shows more of them; the
evaluations are loaded first, and a page can show more deletions than those
(`scrape_tears`).  Whatever the page shows, it reads back (`read_prometheusFormat`).
-/
import KubeDepod.Lib.Exposition
import KubeDepod.Pods.Counters

namespace KubeDepod

open Effects Lts Exposition PodReconcilers

/-! ### The page -/

/-- The name under which the counter is exposed. -/
def Counter.exposedName : Counter → String
  | .podsEvaluated => "kube_depod_pods_evaluated_total"
  | .podsDeleted => "kube_depod_pods_deleted_total"
  | .policyMatches => "kube_depod_policy_matches_total"
  | .evaluationErrors => "kube_depod_evaluation_errors_total"
  | .rateLimited => "kube_depod_rate_limited_total"

def Counter.help : Counter → String
  | .podsEvaluated => "Total number of pods evaluated"
  | .podsDeleted => "Total number of pods deleted"
  | .policyMatches => "Total number of policy matches"
  | .evaluationErrors => "Total number of evaluation errors"
  | .rateLimited => "Total number of rate limit hits"

/-- The counters in the order of the page, which is that of their loads. -/
def exposedCounters : List Counter :=
  [.podsEvaluated, .podsDeleted, .policyMatches, .evaluationErrors, .rateLimited]

/-- The text for one counter. -/
def counterText (counter : Counter) (value : UInt64) : String :=
  "# HELP " ++ counter.exposedName ++ " " ++ counter.help ++ "\n" ++
  "# TYPE " ++ counter.exposedName ++ " counter\n" ++
  counter.exposedName ++ " \x7b\x7d " ++ toString value ++ "\n"

/-- `Metrics::prometheus_format`, from the values that it has loaded. -/
def prometheusFormat (loaded : Counter → UInt64) : String :=
  "\n".intercalate (exposedCounters.map fun counter => counterText counter (loaded counter))

/-- The lines for one counter. -/
def counterLines (counter : Counter) (value : UInt64) : List Line :=
  [.help counter.exposedName.toList (counter.help.toList.splitOn ' '),
    .counter counter.exposedName.toList, .sample counter.exposedName.toList value.toNat]

/-- The lines of the page. -/
def pageLines (loaded : Counter → UInt64) : List Line :=
  [.blank].intercalate (exposedCounters.map fun counter => counterLines counter (loaded counter))

theorem toList_counterText (counter : Counter) (value : UInt64) :
    (counterText counter value).toList = page (counterLines counter value) := by
  have hhelp : (Line.help counter.exposedName.toList (counter.help.toList.splitOn ' ')).text
      = "# HELP ".toList ++ (counter.exposedName.toList ++ ' ' :: counter.help.toList) := by
    rw [Line.text, Line.words, List.intercalate_cons_cons, List.intercalate_cons_cons,
      List.intercalate_cons_of_ne_nil (List.splitOn_ne_nil _ _), List.intercalate_splitOn]
    simp
  have hvalue : (toString value).toList = Nat.toDigits 10 value.toNat := Nat.toList_repr
  rw [counterLines, page, page, page, page, hhelp]
  unfold counterText
  simp [Line.text, Line.words, hvalue]

theorem toList_prometheusFormat (loaded : Counter → UInt64) :
    (prometheusFormat loaded).toList = page (pageLines loaded) := by
  rw [pageLines, page_intercalate, List.map_map]
  unfold prometheusFormat
  rw [String.toList_intercalate, List.map_map]
  refine congrArg _ (List.map_congr_left fun counter _ => ?_)
  exact toList_counterText counter (loaded counter)

theorem counterLines_wellFormed (counter : Counter) (value : UInt64) :
    ∀ line ∈ counterLines counter value, line.WellFormed := by
  have hname : IsName counter.exposedName.toList := by
    cases counter <;> exact ⟨by decide, by decide⟩
  have hwords : ∀ word ∈ counter.help.toList.splitOn ' ', IsWord word := by
    cases counter <;> decide
  refine List.forall_mem_cons.mpr ⟨⟨hname, hwords⟩, List.forall_mem_cons.mpr ⟨hname, ?_⟩⟩
  exact List.forall_mem_singleton.mpr hname

/-- **The page reads back.** -/
theorem read_prometheusFormat (loaded : Counter → UInt64) :
    read (prometheusFormat loaded).toList = some (pageLines loaded) := by
  rw [toList_prometheusFormat]
  refine read_page fun line hline => ?_
  rcases Delimited.mem_intercalate hline with rfl | ⟨group, hgroup, hline⟩
  · trivial
  · obtain ⟨counter, -, rfl⟩ := List.mem_map.mp hgroup
    exact counterLines_wellFormed counter (loaded counter) line hline

/-! ### Loads among the runs -/

variable {ι : Type} {periodicResyncInterval : Option Duration} {pods : ι → Pod}

/-- The counters are loaded one after another, each in one of these states and
none in an earlier state than the one before. -/
inductive Loads (loaded : Counter → UInt64) : List (PodReconcilers ι) → List Counter → Prop
  | finished (states : List (PodReconcilers ι)) : Loads loaded states []
  | wait {s : PodReconcilers ι} {states : List (PodReconcilers ι)} {counters : List Counter}
      (h : Loads loaded states counters) : Loads loaded (s :: states) counters
  | load {s : PodReconcilers ι} {states : List (PodReconcilers ι)} {counter : Counter}
      {counters : List Counter} (hload : loaded counter = s.metrics.value counter)
      (h : Loads loaded (s :: states) counters) : Loads loaded (s :: states) (counter :: counters)

namespace Loads

variable {loaded loaded' : Counter → UInt64} {states states' : List (PodReconcilers ι)}
variable {counter counter' : Counter} {counters counters' : List Counter}

/-- Some of the loads. -/
theorem sublist (h : Loads loaded states counters) (hsub : counters'.Sublist counters) :
    Loads loaded states counters' := by
  induction h generalizing counters' with
  | finished states =>
      obtain rfl := List.eq_nil_of_sublist_nil hsub
      exact .finished states
  | wait h ih => exact .wait (ih hsub)
  | load hload h ih =>
      cases hsub with
      | cons _ hsub => exact ih hsub
      | cons_cons _ hsub => exact .load hload (ih hsub)

theorem exists_mem (h : Loads loaded states [counter]) :
    ∃ s ∈ states, loaded counter = s.metrics.value counter := by
  generalize hcounters : [counter] = counters at h
  induction h with
  | finished states => cases hcounters
  | wait h ih =>
      obtain ⟨s, hs, hload⟩ := ih hcounters
      exact ⟨s, List.mem_cons_of_mem _ hs, hload⟩
  | @load s states counter counters hload h ih =>
      obtain ⟨rfl, -⟩ := List.cons.inj hcounters
      exact ⟨s, List.mem_cons_self .., hload⟩

/-- A counter that is loaded first, and is never the larger one. -/
theorem le (h : Loads loaded states [counter, counter'])
    (hle : ∀ s ∈ states, s.metrics.value counter ≤ s.metrics.value counter')
    (hmono : states.Pairwise fun s s' => s.metrics.value counter' ≤ s'.metrics.value counter') :
    loaded counter ≤ loaded counter' := by
  generalize hcounters : [counter, counter'] = counters at h
  induction h with
  | finished states => cases hcounters
  | wait h ih =>
      exact ih (fun s hs => hle s (List.mem_cons_of_mem _ hs)) (List.pairwise_cons.mp hmono).2
        hcounters
  | @load s states counter counters hload h ih =>
      obtain ⟨rfl, rfl⟩ := List.cons.inj hcounters
      obtain ⟨s', hs', hload'⟩ := h.exists_mem
      rw [hload, hload']
      refine UInt64.le_trans (hle s (List.mem_cons_self ..)) ?_
      rcases List.mem_cons.mp hs' with rfl | hs'
      · exact UInt64.le_refl _
      · exact (List.pairwise_cons.mp hmono).1 s' hs'

end Loads

/-! ### Scrapes of a run -/

section
variable [Fintype ι] [DecidableEq ι]

/-- No counter ever decreases. -/
theorem total_le_step {s s' : PodReconcilers ι} {label : ι × PodEffect}
    (h : PodReconcilersStep s label s') (counter : Counter) :
    s.total counter ≤ s'.total counter := by
  cases h with
  | @effect i e k r hnext =>
      refine Finset.sum_le_sum fun j _ => ?_
      show (s.runs j).counts counter
        ≤ (Function.update s.runs i ⟨k r, (s.runs i).counts.after e⟩ j).counts counter
      by_cases hji : j = i
      · subst hji
        rw [Function.update_self]
        show (s.runs j).counts counter ≤ (s.runs j).counts.after e counter
        rw [counts_after]
        exact Nat.le_add_right _ _
      · rw [Function.update_of_ne hji]

variable {π : List ((ι × PodEffect) × PodReconcilers ι)}

theorem pairwise_total
    (hπ : Execution PodReconcilersStep (initial periodicResyncInterval pods) π) :
    (states (initial periodicResyncInterval pods) π).Pairwise fun s s' =>
      ∀ counter, s.total counter ≤ s'.total counter := by
  have hall : StepsMeet (fun _ _ => True) (initial periodicResyncInterval pods) π :=
    stepsMeet_of_forall (fun _ _ => trivial) _ π
  refine hπ.pairwise_states (I := fun _ => True) ?_ ?_ ?_ hall trivial
  · intro x y z hxy hyz counter
    exact Nat.le_trans (hxy counter) (hyz counter)
  · intro _ _ _ _ _ _
    trivial
  · intro s label s' hstep _ _
    exact total_le_step hstep

/-- If the counters have not overflowed at the end, they never have. -/
theorem toNat_value_of_final
    (hπ : Execution PodReconcilersStep (initial periodicResyncInterval pods) π)
    (hbound : (final (initial periodicResyncInterval pods) π).increments < 2 ^ 64) :
    ∀ s ∈ states (initial periodicResyncInterval pods) π,
      (∀ counter, (s.metrics.value counter).toNat = s.total counter) ∧
        s.Summed periodicResyncInterval pods := by
  intro s hs
  have hsummed := hπ.invariant (fun _ _ _ hstep hs => hs.step hstep) initial_summed s hs
  have hle := rel_final (fun _ _ => Nat.le_refl _) (pairwise_total hπ) s hs
  have hlt : s.increments < 2 ^ 64 := by
    refine Nat.lt_of_le_of_lt ?_ hbound
    exact Nat.add_le_add (Nat.add_le_add (Nat.add_le_add (Nat.add_le_add (hle _) (hle _)) (hle _))
      (hle _)) (hle _)
  exact ⟨hsummed.toNat_value hlt, hsummed⟩

/-- **What a page shows.**  In every interleaving of any number of runs of
`reconcile_pod` with the loads of a scrape, as long as fewer than `2^64`
increments have been made: the page reads back as the five loaded values, it
shows no more deletions than matches, and a later page shows no less of any
counter. -/
theorem scrape_consistent
    (hπ : Execution PodReconcilersStep (initial periodicResyncInterval pods) π)
    (hbound : (final (initial periodicResyncInterval pods) π).increments < 2 ^ 64) :
    (∀ loaded, Loads loaded (states (initial periodicResyncInterval pods) π) exposedCounters →
      read (prometheusFormat loaded).toList = some (pageLines loaded) ∧
        loaded .podsDeleted ≤ loaded .policyMatches) ∧
      ∀ before after, states (initial periodicResyncInterval pods) π = before ++ after →
        ∀ loaded loaded', Loads loaded before exposedCounters →
          Loads loaded' after exposedCounters → ∀ counter, loaded counter ≤ loaded' counter := by
  have hvalue := toNat_value_of_final hπ hbound
  have hmono : ∀ counter, (states (initial periodicResyncInterval pods) π).Pairwise fun s s' =>
      s.metrics.value counter ≤ s'.metrics.value counter := by
    refine fun counter => (pairwise_total hπ).imp_of_mem fun hs hs' hle => ?_
    rw [UInt64.le_iff_toNat_le, (hvalue _ hs).1, (hvalue _ hs').1]
    exact hle counter
  constructor
  · intro loaded h
    refine ⟨read_prometheusFormat loaded, ?_⟩
    refine (h.sublist (by decide)).le (fun s hs => ?_) (hmono .policyMatches)
    -- at any one time there are at least as many matches as deletions
    obtain ⟨htotal, hsummed⟩ := hvalue s hs
    rw [UInt64.le_iff_toNat_le, htotal, htotal]
    refine Finset.sum_le_sum fun i _ => ?_
    have hmatched := (hsummed.sound i).consistent.matched
    omega
  · intro before after hsplit loaded loaded' h h' counter
    have hmono := hmono counter
    rw [hsplit, List.pairwise_append] at hmono
    have hexposed : [counter].Sublist exposedCounters :=
      List.singleton_sublist.mpr (by cases counter <;> decide)
    obtain ⟨s, hs, hload⟩ := (h.sublist hexposed).exists_mem
    obtain ⟨s', hs', hload'⟩ := (h'.sublist hexposed).exists_mem
    rw [hload, hload']
    exact hmono.2.2 s hs s' hs'

/-- A page with more deletions than evaluations: the one run is evaluated after
the first load, and deletes its pod before the second. -/
theorem scrape_tears :
    let s : PodReconcilers Unit := initial none fun _ => optedInPod "web-0" "4e1f"
    ∃ π, Execution PodReconcilersStep s π ∧
      ∃ loaded, Loads loaded (states s π) exposedCounters ∧
        loaded .podsEvaluated < loaded .podsDeleted ∧
        loaded .podsDeleted ≤ loaded .policyMatches := by
  intro s
  let loaded : Counter → UInt64 := fun
    | .podsEvaluated => 0
    | .podsDeleted => 1
    | .policyMatches => 1
    | .evaluationErrors => 0
    | .rateLimited => 0
  have hrun : ∃ π, Execution PodReconcilersStep s π ∧ (final s π).increments < 2 ^ 64 ∧
      Loads loaded (states s π) exposedCounters := by
    refine ⟨[(((), .increment .podsEvaluated), _), (((), .loadPolicies), _),
      (((), .increment .policyMatches), _), (((), .evaluate _ _ _), _), (((), .allowGlobal), _),
      (((), .allowPolicy _ _), _), (((), .delete _ _ _), _), (((), .increment .podsDeleted), _)],
      ⟨.effect () rfl, .effect [celPolicy "cleanup" "true"] rfl, .effect () rfl,
        .effect (Except.ok true : Except Error Bool) rfl, .effect true rfl, .effect true rfl,
        .effect (Except.ok () : Except Error Unit) rfl, .effect () rfl, trivial⟩,
      by decide, .load rfl ?_⟩
    exact .wait (.wait (.wait (.wait (.wait (.wait (.wait (.wait
      (.load rfl (.load rfl (.load rfl (.load rfl (.finished _))))))))))))
  obtain ⟨π, hπ, hbound, hloads⟩ := hrun
  exact ⟨π, hπ, loaded, hloads, by decide, ((scrape_consistent hπ hbound).1 loaded hloads).2⟩

end

end KubeDepod
