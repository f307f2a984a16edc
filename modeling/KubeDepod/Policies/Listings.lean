/-
KubeDepod/Policies/Listings.lean

What becomes of a pod listing that fails.

A policy without a namespace restriction makes one listing, and requeues itself
after a minute if it fails.  A restricted policy makes one listing for each of
its namespaces; a listing that fails is skipped, the others are served all the
same, and the call ends as if nothing had happened.  So the failed listing is
tried again on the first path only (`skipped_namespace_forgotten`,
`retriesListings_iff`).

The replies to the listings are a parameter, `pattern`; the state records the
listings and the patches sent.
-/
import KubeDepod.Policies.Touch

namespace KubeDepod

open Effects

variable {cel : CelEngine}

/-! ### Listings and patches -/

/-- The reply to a listing. -/
abbrev ListReply := Except Error (List Pod)

/-- The listings made so far with their replies, and the pods patched so far. -/
structure ListingState where
  listings : List (PodApi × ListReply)
  patched : List (PodApi × String)

namespace ListingState

/-- Nothing listed, nothing patched. -/
def initial : ListingState := ⟨[], []⟩

/-- The replies an effect can have: the listings follow the pattern. -/
def Permits (cel : CelEngine) (pattern : Nat → ListReply) (s : ListingState) :
    (e : PolicyEffect) → e.Reply → Prop
  | .validate expr, r => r = cel.verdict expr
  | .listPods _ _, r => r = pattern s.listings.length
  | .nowText, _ => True
  | .patchStatus _ _ _, _ => True
  | .storeState, _ => True
  | .publish _, _ => True
  | .patchPod _ _ _, _ => True

def after (s : ListingState) : (e : PolicyEffect) → e.Reply → ListingState
  | .listPods api _, r => { s with listings := s.listings ++ [(api, r)] }
  | .patchPod api name _, _ => { s with patched := s.patched ++ [(api, name)] }
  | _, _ => s

/-- Every matching pod of every listing that succeeded has been patched. -/
def TouchesListed (policy : DepodPolicy) (s : ListingState) : Prop :=
  ∀ listing ∈ s.listings, ∀ pods, listing.2 = .ok pods →
    ∀ pod ∈ pods, triggers policy pod = true → (listing.1, pod.nameAny) ∈ s.patched

end ListingState

/-- How the effects of `reconcile_policy` act on the record. -/
def listingProtocol (cel : CelEngine) (pattern : Nat → ListReply) :
    Protocol PolicyEffect.Reply ListingState where
  allowed _ _ := True
  reply e s r s' := s.Permits cel pattern e r ∧ s' = s.after e r

/-- A call for the policy, with the result and the record it ends with. -/
def ListsPods (cel : CelEngine) (pattern : Nat → ListReply) (operatorPodName : String)
    (policy : DepodPolicy) (result : Except Error Action) (s : ListingState) : Prop :=
  Exec (listingProtocol cel pattern) (reconcilePolicy operatorPodName policy) .initial result s

/-- The listings of these APIs, after `n` others. -/
def listingsOf (pattern : Nat → ListReply) : Nat → List PodApi → List (PodApi × ListReply)
  | _, [] => []
  | n, api :: apis => (api, pattern n) :: listingsOf pattern (n + 1) apis

/-- The APIs that the policy's pods are listed through. -/
def listingApis (policy : DepodPolicy) : List PodApi :=
  if (policyNamespaces policy).isEmpty then [.all]
  else (policyNamespaces policy).map .namespaced

variable {pattern : Nat → ListReply} {policy : DepodPolicy} {operatorPodName : String}
  {result : Except Error Action} {s : ListingState}

/-- Whether all listings succeed is a matter of the pattern. -/
theorem forall_listingsOf_isOk (n : Nat) (apis : List PodApi) :
    (∀ listing ∈ listingsOf pattern n apis, listing.2.isOk = true) ↔
      ∀ k < apis.length, (pattern (n + k)).isOk = true := by
  induction apis generalizing n with
  | nil => simp [listingsOf]
  | cons api apis ih =>
      rw [listingsOf, List.forall_mem_cons, ih]
      constructor
      · rintro ⟨hfirst, hrest⟩ k hk
        cases k with
        | zero => exact hfirst
        | succ k =>
            rw [Nat.add_comm k, ← Nat.add_assoc]
            exact hrest k (Nat.lt_of_succ_lt_succ hk)
      · intro h
        refine ⟨h 0 (Nat.succ_pos _), fun k hk => ?_⟩
        rw [Nat.add_assoc, Nat.add_comm 1]
        exact h (k + 1) (Nat.succ_lt_succ hk)

/-! ### One listing -/

theorem wp_touchListed (api : PodApi) (patch : TouchPatch) (pods : List Pod) (s : ListingState) :
    wp (listingProtocol cel pattern) (touchPods api patch pods)
      (fun _ s' => s' = ⟨s.listings, s.patched ++ pods.map fun pod => (api, pod.nameAny)⟩) s := by
  induction pods generalizing s with
  | nil =>
      show s = ⟨s.listings, s.patched ++ []⟩
      rw [List.append_nil]
  | cons pod pods ih =>
      refine ⟨trivial, fun r s' hr => ?_⟩
      obtain ⟨-, rfl⟩ := hr
      refine wp_mono (fun _ s' hs' => ?_) (ih _)
      rw [hs', List.map_cons, List.append_cons]
      rfl

/-- A listing that failed has no pods to touch. -/
theorem touchesListed_of_error (hs : s.TouchesListed policy) (api : PodApi) (e : Error) :
    (ListingState.mk (s.listings ++ [(api, .error e)]) s.patched).TouchesListed policy := by
  intro listing hlisting pods hpods pod hpod htriggers
  rcases List.mem_append.mp hlisting with hlisting | hlisting
  · exact hs listing hlisting pods hpods pod hpod htriggers
  · obtain rfl := List.mem_singleton.mp hlisting
    cases hpods

/-- The pods of a listing that succeeded are filtered and touched. -/
theorem touchesListed_of_ok (hs : s.TouchesListed policy) (api : PodApi) (pods : List Pod) :
    (ListingState.mk (s.listings ++ [(api, .ok pods)])
      (s.patched ++ (podsToTrigger policy pods).map fun pod => (api, pod.nameAny))).TouchesListed
        policy := by
  intro listing hlisting pods' hpods pod hpod htriggers
  rcases List.mem_append.mp hlisting with hlisting | hlisting
  · exact List.mem_append_left _ (hs listing hlisting pods' hpods pod hpod htriggers)
  · obtain rfl := List.mem_singleton.mp hlisting
    obtain rfl : pods = pods' := Except.ok.inj hpods
    refine List.mem_append_right _ (List.mem_map.mpr ⟨pod, ?_, rfl⟩)
    exact List.mem_filter.mpr ⟨hpod, htriggers⟩

/-! ### The loop over the namespaces -/

/-- The loop makes one listing for each namespace, whatever becomes of it. -/
theorem wp_listNamespaces (patch : TouchPatch) (namespaces : List String)
    (hs : s.TouchesListed policy) :
    wp (listingProtocol cel pattern) (touchNamespaces policy patch namespaces)
      (fun _ s' => s'.TouchesListed policy ∧ s'.listings = s.listings ++
        listingsOf pattern s.listings.length (namespaces.map .namespaced)) s := by
  induction namespaces generalizing s with
  | nil => exact ⟨hs, (List.append_nil _).symm⟩
  | cons ns namespaces ih =>
      refine ⟨trivial, fun r s' hr => ?_⟩
      obtain ⟨hr, rfl⟩ := hr
      have hr : r = pattern s.listings.length := hr
      have hlisted : ∀ s' : ListingState, s'.listings = s.listings ++ [(.namespaced ns, r)] →
          s'.listings ++ listingsOf pattern s'.listings.length (namespaces.map .namespaced)
            = s.listings ++ listingsOf pattern s.listings.length
                ((ns :: namespaces).map .namespaced) := by
        intro s' hs'
        rw [hs', List.length_append, List.append_assoc, List.map_cons, listingsOf, ← hr]
        rfl
      rcases r with e | pods
      · -- `continue`
        refine wp_mono (fun _ s' hs' => ?_) (ih (touchesListed_of_error hs (.namespaced ns) e))
        exact ⟨hs'.1, hs'.2.trans (hlisted _ rfl)⟩
      · show wp _ (touchPods (.namespaced ns) patch (podsToTrigger policy pods) >>=
          fun _ => touchNamespaces policy patch namespaces) _ _
        refine wp_bind.mpr (wp_mono (fun _ s' hs' => ?_) (wp_touchListed ..))
        obtain rfl := hs'
        refine wp_mono (fun _ s' hs' => ?_) (ih (touchesListed_of_ok hs (.namespaced ns) pods))
        exact ⟨hs'.1, hs'.2.trans (hlisted _ rfl)⟩

/-! ### The whole call -/

/-- Reports and validations are not recorded. -/
theorem respectsReports_listingProtocol (s : ListingState) :
    RespectsReports cel (listingProtocol cel pattern) (· = s) where
  allowed := fun _ _ _ _ => trivial
  keeps := by
    rintro e s r _ hreport rfl ⟨-, rfl⟩
    cases e with
    | patchPod _ _ _ => exact hreport.elim
    | listPods _ _ => exact hreport.elim
    | validate _ => rfl
    | nowText => rfl
    | patchStatus _ _ _ => rfl
    | storeState => rfl
    | publish _ => rfl
  verdict := by
    rintro expr s r _ ⟨hr, -⟩
    exact hr

/-- What a call for a valid policy ends with: the listings of all its APIs,
their pods touched, and a requeue only for the one listing of all namespaces. -/
theorem ListsPods.spec (h : ListsPods cel pattern operatorPodName policy result s)
    (hvalid : cel.valid policy = true) :
    s.listings = listingsOf pattern 0 (listingApis policy) ∧ s.TouchesListed policy ∧
      result = if (policyNamespaces policy).isEmpty && !(pattern 0).isOk then
        .ok (.requeue (Duration.fromSecs 60)) else .ok .awaitChange := by
  have hinitial : ListingState.initial.TouchesListed policy := by
    intro listing hlisting
    cases hlisting
  apply h.of_wp
  refine (respectsReports_listingProtocol .initial).wp_call_of_valid hvalid rfl ?_ ?_
  · rintro _ rfl
    refine ⟨trivial, fun state s hs => ⟨trivial, fun _ s' hs' => ?_⟩⟩
    obtain ⟨-, rfl⟩ := hs
    obtain ⟨-, rfl⟩ := hs'
    rfl
  rintro now _ rfl
  rw [touch, listingApis]
  rcases hall : (policyNamespaces policy).isEmpty with - | -
  · -- one listing for each namespace
    refine wp_bind.mpr (wp_mono (fun _ s hs => ?_) (wp_listNamespaces _ _ hinitial))
    exact ⟨hs.2, hs.1, rfl⟩
  · refine ⟨trivial, fun r s hr => ?_⟩
    obtain ⟨hr, rfl⟩ := hr
    have hr : r = pattern 0 := hr
    rw [← hr]
    rcases r with e | pods
    · refine ⟨?_, touchesListed_of_error hinitial .all e, rfl⟩
      rw [if_pos rfl, listingsOf, ← hr]
      rfl
    · show wp _ (touchPods .all _ (podsToTrigger policy pods) >>= _) _ _
      refine wp_bind.mpr (wp_mono (fun _ s hs => ?_) (wp_touchListed ..))
      obtain rfl := hs
      refine ⟨?_, touchesListed_of_ok hinitial .all pods, rfl⟩
      rw [if_pos rfl, listingsOf, ← hr]
      rfl

/-- Replies that are always permitted: the pattern's to listings, and success. -/
def ListingState.plainAnswer (cel : CelEngine) (pattern : Nat → ListReply) (s : ListingState) :
    (e : PolicyEffect) → e.Reply
  | .validate expr => cel.verdict expr
  | .nowText => "2024-01-01T00:00:00+00:00"
  | .patchStatus _ _ _ => .ok ()
  | .storeState => []
  | .publish _ => ()
  | .listPods _ _ => pattern s.listings.length
  | .patchPod _ _ _ => .ok ()

theorem ListingState.permits_plainAnswer (cel : CelEngine) (pattern : Nat → ListReply)
    (s : ListingState) (e : PolicyEffect) :
    s.Permits cel pattern e (s.plainAnswer cel pattern e) := by
  cases e with
  | validate expr => exact rfl
  | listPods api labels => exact rfl
  | _ => trivial

/-- Any pattern can be met. -/
theorem exists_listsPods (cel : CelEngine) (pattern : Nat → ListReply) (operatorPodName : String)
    (policy : DepodPolicy) :
    ∃ result s, ListsPods cel pattern operatorPodName policy result s :=
  ⟨_, _, exec_run (P := listingProtocol cel pattern)
    (h := fun e s => (s.plainAnswer cel pattern e, s.after e (s.plainAnswer cel pattern e)))
    (fun e s => ⟨s.permits_plainAnswer cel pattern e, rfl⟩) _ .initial⟩

/-! ### Failed listings -/

/-- If a listing fails, the call requeues, and the matching pods of every
listing that succeeded are touched; and `await_change` means that all listings
succeeded. -/
def RetriesListings (cel : CelEngine) (pattern : Nat → ListReply) (operatorPodName : String)
    (policy : DepodPolicy) : Prop :=
  ∀ result s, ListsPods cel pattern operatorPodName policy result s →
    ((∃ listing ∈ s.listings, listing.2.isOk = false) →
      (∃ delay, result = .ok (.requeue delay)) ∧ s.TouchesListed policy) ∧
    (result = .ok .awaitChange → ∀ listing ∈ s.listings, listing.2.isOk = true)

/-- Two namespaces whose listings both fail are forgotten. -/
theorem skipped_namespace_forgotten :
    ¬ ∀ (cel : CelEngine) (pattern : Nat → ListReply) (operatorPodName : String)
      (policy : DepodPolicy), cel.valid policy = true →
      RetriesListings cel pattern operatorPodName policy := by
  intro h
  let cel : CelEngine := ⟨Unit, fun _ => .ok ()⟩
  let pattern : Nat → ListReply := fun _ => .error (.kubeError "internal error")
  let policy := (ttlPolicy "cleanup" 3600).restrictedTo ["batch", "web"]
  have hvalid : cel.valid policy = true := by decide
  obtain ⟨result, s, hlists⟩ := exists_listsPods cel pattern "operator" policy
  obtain ⟨hlistings, -, hresult⟩ := hlists.spec hvalid
  have hok := (h cel pattern "operator" policy hvalid result s hlists).2 hresult
  rw [hlistings] at hok
  exact Bool.false_ne_true (hok _ (List.mem_cons_self ..))

/-- Without a namespace restriction, the one listing decides between the requeue
and `await_change`. -/
theorem retriesListings_of_unrestricted (hvalid : cel.valid policy = true)
    (hall : policyNamespaces policy = []) :
    RetriesListings cel pattern operatorPodName policy := by
  intro result s h
  obtain ⟨hlistings, htouches, hresult⟩ := h.spec hvalid
  rw [listingApis, hall, List.isEmpty_nil, if_pos rfl, listingsOf, listingsOf] at hlistings
  rw [hall, List.isEmpty_nil, Bool.true_and] at hresult
  rw [hlistings, hresult]
  rcases hreply : (pattern 0).isOk with - | -
  · refine ⟨fun _ => ⟨⟨_, rfl⟩, htouches⟩, fun hawait => ?_⟩
    cases hawait
  · refine ⟨?_, fun _ => ?_⟩
    · rintro ⟨listing, hlisting, hfailed⟩
      obtain rfl := List.mem_singleton.mp hlisting
      rw [hreply] at hfailed
      cases hfailed
    · intro listing hlisting
      obtain rfl := List.mem_singleton.mp hlisting
      exact hreply

/-- With one, the call ends with `await_change` whatever the replies. -/
theorem ListsPods.restricted (h : ListsPods cel pattern operatorPodName policy result s)
    (hvalid : cel.valid policy = true) (hsome : policyNamespaces policy ≠ []) :
    ((∀ listing ∈ s.listings, listing.2.isOk = true) ↔
      ∀ n < (policyNamespaces policy).length, (pattern n).isOk = true) ∧
    result = .ok .awaitChange := by
  obtain ⟨hlistings, -, hresult⟩ := h.spec hvalid
  have hnonempty : (policyNamespaces policy).isEmpty = false := List.isEmpty_eq_false_iff.mpr hsome
  rw [hnonempty] at hresult
  rw [hlistings, listingApis, hnonempty, if_neg Bool.false_ne_true, forall_listingsOf_isOk]
  refine ⟨?_, hresult⟩
  simp only [List.length_map, Nat.zero_add]

/-- **When a failed listing is tried again.**  For every valid policy, every
list of namespaces and every pattern of replies: the call makes one listing for
each namespace, or the one of all, and touches the matching pods of every
listing that succeeded; and a failed listing leads to a requeue exactly if the
policy has no namespace restriction, or no listing fails. -/
theorem retriesListings_iff (hvalid : cel.valid policy = true) :
    (∀ result s, ListsPods cel pattern operatorPodName policy result s →
      s.listings = listingsOf pattern 0 (listingApis policy) ∧ s.TouchesListed policy) ∧
    (RetriesListings cel pattern operatorPodName policy ↔
      policyNamespaces policy = [] ∨
        ∀ n < (policyNamespaces policy).length, (pattern n).isOk = true) := by
  refine ⟨fun result s h => ⟨(h.spec hvalid).1, (h.spec hvalid).2.1⟩, ?_⟩
  by_cases hall : policyNamespaces policy = []
  · exact iff_of_true (retriesListings_of_unrestricted hvalid hall) (.inl hall)
  · constructor
    · intro h
      obtain ⟨result, s, hlists⟩ := exists_listsPods cel pattern operatorPodName policy
      obtain ⟨hiff, hresult⟩ := hlists.restricted hvalid hall
      exact .inr (hiff.mp ((h result s hlists).2 hresult))
    · rintro (hnil | hok) result s hlists
      · exact absurd hnil hall
      · have hlisted := (hlists.restricted hvalid hall).1.mpr hok
        refine ⟨?_, fun _ => hlisted⟩
        rintro ⟨listing, hlisting, hfailed⟩
        rw [hlisted listing hlisting] at hfailed
        cases hfailed

/-- Two namespaces, and both listings succeed. -/
theorem retriesListings_iff_twoNamespaces :
    let cel : CelEngine := ⟨Unit, fun _ => .ok ()⟩
    let pattern : Nat → ListReply := fun _ => .ok [optedInPod "web-0" "4e1f"]
    let policy := (ttlPolicy "cleanup" 3600).restrictedTo ["batch", "default"]
    RetriesListings cel pattern "operator" policy ↔
      policyNamespaces policy = [] ∨
        ∀ n < (policyNamespaces policy).length, (pattern n).isOk = true := by
  intro cel pattern policy
  have hvalid : cel.valid policy = true := by decide
  exact (retriesListings_iff hvalid).2

end KubeDepod
