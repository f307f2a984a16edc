/-
KubeDepod/Policies/TouchConcurrent.lean

The touches of a `reconcile_policy` call as they are in the source: each pod of
a listing is patched by a task of its own, under `for_each_concurrent` with
`pod_patch_concurrency_limit`, and the next listing waits for all of them.

`touch` makes the same requests one after the other.  `touchConcurrent_refines`
compares the two: whatever the order in which the tasks go on, a concurrent call
makes the requests of a sequential one that gets the same listings, with the
patches of one listing in another order.  `TouchCall.Refines` is the invariant:
the record so far and the patches still to come are what a sequential call has
recorded at the end of the listing.
-/
import KubeDepod.Lib.ForEachConcurrent
import KubeDepod.Lib.Potential
import KubeDepod.Policies.Listings

namespace KubeDepod

open Effects Lts ForEachConcurrent

/-! ### The record of the requests -/

/-- A listing with its reply, or a patch; the reply to a patch is only logged. -/
inductive TouchEvent where
  | listed (api : PodApi) (labels : Option String) (reply : ListReply)
  | patched (api : PodApi) (name : String) (patch : TouchPatch)

def TouchEvent.isPatch : TouchEvent → Bool
  | .patched _ _ _ => true
  | .listed _ _ _ => false

/-- The order of two patches does not matter. -/
def BothPatches (a b : TouchEvent) : Prop := a.isPatch = true ∧ b.isPatch = true

/-- What an effect adds to the record. -/
def recordOf : (e : PolicyEffect) → e.Reply → List TouchEvent
  | .listPods api labels, reply => [.listed api labels reply]
  | .patchPod api name patch, _ => [.patched api name patch]
  | _, _ => []

/-- Any reply is possible; the state is the record. -/
def recordProtocol : Protocol PolicyEffect.Reply (List TouchEvent) where
  allowed _ _ := True
  reply e record r record' := record' = record ++ recordOf e r

/-! ### The listings one after the other -/

/-- `touch`, from any of its listings on. -/
def touchApis (policy : DepodPolicy) (patch : TouchPatch) :
    List PodApi → PolicyProg (Except Error Action)
  | [] => return .ok .awaitChange
  | api :: apis => do
      match ← request (.listPods api (labelSelector policy)) with
      | .error _ =>
          match api with
          | .all => return .ok (.requeue (Duration.fromSecs 60))
          | .namespaced _ => touchApis policy patch apis
      | .ok pods => do
          touchPods api patch (podsToTrigger policy pods)
          touchApis policy patch apis

variable {policy : DepodPolicy} {patch : TouchPatch} {limit : Nat}

theorem touchApis_namespaced (namespaces : List String) :
    (touchNamespaces policy patch namespaces >>= fun _ =>
        (return .ok .awaitChange : PolicyProg (Except Error Action)))
      = touchApis policy patch (namespaces.map .namespaced) := by
  induction namespaces with
  | nil => rfl
  | cons ns namespaces ih =>
      refine congrArg (Prog.op _) (funext fun reply => ?_)
      rcases reply with e | pods
      · exact ih
      · show (touchPods _ patch (podsToTrigger policy pods) >>=
          fun _ => touchNamespaces policy patch namespaces) >>= _ = _
        rw [Prog.bind_assoc]
        simp only [ih]
        rfl

theorem touch_eq (policy : DepodPolicy) (patch : TouchPatch) :
    touch policy patch = touchApis policy patch (listingApis policy) := by
  rw [touch, listingApis]
  split
  · refine congrArg (Prog.op _) (funext fun reply => ?_)
    cases reply <;> rfl
  · exact touchApis_namespaced _

/-! ### The concurrent call -/

/-- Where a call is: before a listing of the first API, in the tasks of a
listing, or at its end. -/
inductive TouchPhase where
  | listing (apis : List PodApi)
  | touching (api : PodApi) (tasks : Tasks Pod) (apis : List PodApi)
  | returned (result : Except Error Action)

structure TouchCall where
  phase : TouchPhase
  record : List TouchEvent

/-- The listing is answered; a task goes on; all tasks are over; the function
returns. -/
inductive TouchLabel where
  | list (reply : ListReply)
  | task (label : Label)
  | join
  | finish

def TouchCall.initial (policy : DepodPolicy) : TouchCall := ⟨.listing (listingApis policy), []⟩

/-- What the reply to the listing leads to. -/
def afterListing (policy : DepodPolicy) (api : PodApi) (apis : List PodApi) :
    ListReply → TouchPhase
  | .error _ =>
      match api with
      | .all => .returned (.ok (.requeue (Duration.fromSecs 60)))
      | .namespaced _ => .listing apis
  | .ok pods => .touching api (.ofStream (podsToTrigger policy pods)) apis

/-- The patches of these pods. -/
def patchesOf (api : PodApi) (patch : TouchPatch) (pods : List Pod) : List TouchEvent :=
  pods.map fun pod => .patched api pod.nameAny patch

def touchStep (policy : DepodPolicy) (patch : TouchPatch) (limit : Nat) :
    TouchCall → TouchLabel → Option TouchCall
  | ⟨.listing (api :: apis), record⟩, .list reply =>
      some ⟨afterListing policy api apis reply,
        record ++ [.listed api (labelSelector policy) reply]⟩
  | ⟨.touching api tasks apis, record⟩, .task label =>
      (tasks.step limit label).map fun tasks' =>
        ⟨.touching api tasks' apis, record ++ patchesOf api patch (tasks.sends label)⟩
  | ⟨.touching _ tasks apis, record⟩, .join =>
      if tasks.isOver then some ⟨.listing apis, record⟩ else none
  | ⟨.listing [], record⟩, .finish => some ⟨.returned (.ok .awaitChange), record⟩
  | _, _ => none

def TouchStep (policy : DepodPolicy) (patch : TouchPatch) (limit : Nat) (s : TouchCall)
    (label : TouchLabel) (s' : TouchCall) : Prop :=
  touchStep policy patch limit s label = some s'

/-- What a step can do. -/
inductive TouchCase (policy : DepodPolicy) (patch : TouchPatch) (limit : Nat) :
    TouchCall → TouchLabel → TouchCall → Prop
  | list (api : PodApi) (apis : List PodApi) (record : List TouchEvent) (reply : ListReply) :
      TouchCase policy patch limit ⟨.listing (api :: apis), record⟩ (.list reply)
        ⟨afterListing policy api apis reply, record ++ [.listed api (labelSelector policy) reply]⟩
  | task {api : PodApi} {apis : List PodApi} {record : List TouchEvent} {tasks tasks' : Tasks Pod}
      {label : Label} (hstep : tasks.step limit label = some tasks') :
      TouchCase policy patch limit ⟨.touching api tasks apis, record⟩ (.task label)
        ⟨.touching api tasks' apis, record ++ patchesOf api patch (tasks.sends label)⟩
  | join {api : PodApi} {apis : List PodApi} {record : List TouchEvent} {tasks : Tasks Pod}
      (hover : tasks.isOver = true) :
      TouchCase policy patch limit ⟨.touching api tasks apis, record⟩ .join
        ⟨.listing apis, record⟩
  | finish (record : List TouchEvent) :
      TouchCase policy patch limit ⟨.listing [], record⟩ .finish
        ⟨.returned (.ok .awaitChange), record⟩

variable {s s' : TouchCall} {label : TouchLabel}

theorem touchStep_cases (h : TouchStep policy patch limit s label s') :
    TouchCase policy patch limit s label s' := by
  rw [TouchStep, touchStep.eq_def] at h
  split at h
  case h_1 api apis record reply => cases h; exact .list api apis record reply
  case h_2 api tasks apis record label =>
    obtain ⟨tasks', hstep, rfl⟩ := Option.map_eq_some_iff.mp h
    exact .task hstep
  case h_3 tasks apis record =>
    split_ifs at h with hover
    cases h
    exact .join hover
  case h_4 record => cases h; exact .finish record
  case h_5 => cases h

/-! ### A concurrent call refines a sequential one -/

/-- The patches still to be sent for the last listing. -/
def TouchPhase.unsent (patch : TouchPatch) : TouchPhase → List TouchEvent
  | .touching api tasks _ => patchesOf api patch tasks.unsent
  | _ => []

/-- What a sequential call has left to do after the last listing. -/
def TouchPhase.rest (policy : DepodPolicy) (patch : TouchPatch) :
    TouchPhase → PolicyProg (Except Error Action)
  | .listing apis => touchApis policy patch apis
  | .touching _ _ apis => touchApis policy patch apis
  | .returned result => return result

/-- A sequential call has the record of this one with the patches that it will
send, up to their order. -/
def TouchCall.Refines (policy : DepodPolicy) (patch : TouchPatch) (s : TouchCall) : Prop :=
  ∃ record, Reordered BothPatches (s.record ++ s.phase.unsent patch) record ∧
    ∀ result record', Exec recordProtocol (s.phase.rest policy patch) record result record' →
      Exec recordProtocol (touch policy patch) [] result record'

/-- The sequential patches of one listing. -/
theorem exec_touchPods {api : PodApi} {pods : List Pod}
    {f : Unit → PolicyProg (Except Error Action)}
    {record record' : List TouchEvent} {result : Except Error Action}
    (h : Exec recordProtocol (f ()) (record ++ patchesOf api patch pods) result record') :
    Exec recordProtocol (touchPods api patch pods >>= f) record result record' := by
  induction pods generalizing record with
  | nil => rwa [patchesOf, List.map_nil, List.append_nil] at h
  | cons pod pods ih =>
      rw [patchesOf, List.map_cons, List.append_cons] at h
      exact .op (r := .ok ()) rfl (ih h)

/-- The sequential patches of one listing can be in any order. -/
theorem reordered_patchesOf {api : PodApi} {pods pods' : List Pod} (h : pods.Perm pods') :
    Reordered BothPatches (patchesOf api patch pods) (patchesOf api patch pods') :=
  .of_perm (fun _ _ => ⟨rfl, rfl⟩) h

theorem TouchCall.Refines.step (h : TouchStep policy patch limit s label s')
    (hs : s.Refines policy patch) : s'.Refines policy patch := by
  obtain ⟨record₀, hrecord, hexec⟩ := hs
  cases touchStep_cases h with
  | list api apis record reply =>
      rw [show (TouchPhase.listing (api :: apis)).unsent patch = [] from rfl,
        List.append_nil] at hrecord
      have hlisted := hrecord.append_right [.listed api (labelSelector policy) reply]
      rcases reply with e | pods
      · refine ⟨record₀ ++ [.listed api (labelSelector policy) (.error e)], ?_,
          fun result record' hrest => hexec result record' (.op (r := .error e) rfl ?_)⟩
        · cases api <;> exact (List.append_nil _).symm ▸ hlisted
        · cases api <;> exact hrest
      · refine ⟨record₀ ++ [.listed api (labelSelector policy) (.ok pods)]
            ++ patchesOf api patch (podsToTrigger policy pods), ?_, fun result record' hrest =>
          hexec result record' (.op (r := .ok pods) rfl (exec_touchPods hrest))⟩
        show Reordered _ (_ ++ patchesOf api patch (podsToTrigger policy pods ++ [])) _
        rw [List.append_nil]
        exact hlisted.append_right _
  | @task api apis record tasks tasks' label hstep =>
      refine ⟨record₀, .trans ?_ hrecord, hexec⟩
      -- what is sent now is no longer among the unsent
      show Reordered _ (record ++ patchesOf api patch (tasks.sends label)
        ++ patchesOf api patch tasks'.unsent) (record ++ patchesOf api patch tasks.unsent)
      rw [List.append_assoc, patchesOf, patchesOf, ← List.map_append]
      exact (reordered_patchesOf (Tasks.unsent_step hstep)).append_left record
  | @join api apis record tasks hover =>
      refine ⟨record₀, ?_, hexec⟩
      rwa [TouchPhase.unsent, Tasks.unsent_of_isOver hover] at hrecord
  | finish record => exact ⟨record₀, hrecord, hexec⟩

theorem refines_initial (policy : DepodPolicy) (patch : TouchPatch) :
    (TouchCall.initial policy).Refines policy patch := by
  refine ⟨[], .nil, fun result record' hrest => ?_⟩
  rw [touch_eq]
  exact hrest

/-! ### The limit, and the end -/

/-- The tasks in flight. -/
def TouchCall.inFlight (s : TouchCall) : Nat :=
  match s.phase with
  | .touching _ tasks _ => tasks.inFlight
  | _ => 0

theorem TouchCall.inFlight_step (hlimit : limit ≠ 0) (h : TouchStep policy patch limit s label s')
    (hs : s.inFlight ≤ limit) : s'.inFlight ≤ limit := by
  cases touchStep_cases h with
  | list api apis record reply =>
      rcases reply with e | pods
      · cases api <;> exact Nat.zero_le _
      · exact Nat.zero_le _
  | task hstep => exact Tasks.inFlight_step hlimit hstep hs
  | join hover => exact Nat.zero_le _
  | finish record => exact Nat.zero_le _

/-- The steps that are left, but for the tasks of the listings to come. -/
def TouchPhase.work : TouchPhase → Nat
  | .listing apis => 2 * apis.length + 1
  | .touching _ tasks apis => tasks.work + 1 + (2 * apis.length + 1)
  | .returned _ => 0

/-- The steps of the tasks that the listing starts. -/
def taskSteps (policy : DepodPolicy) (_ : TouchCall) : TouchLabel → Nat
  | .list (.ok pods) => 3 * (podsToTrigger policy pods).length
  | _ => 0

theorem TouchPhase.work_step (h : TouchStep policy patch limit s label s') :
    s'.phase.work + 1 ≤ s.phase.work + taskSteps policy s label := by
  cases touchStep_cases h with
  | list api apis record reply =>
      rcases reply with e | pods
      · cases api <;> simp only [afterListing, work, taskSteps, List.length_cons] <;> omega
      · simp only [afterListing, work, taskSteps, List.length_cons, Tasks.work_ofStream]
        omega
  | task hstep =>
      have hwork := Tasks.work_step hstep
      simp only [work, taskSteps]
      omega
  | join hover =>
      simp only [work, taskSteps]
      omega
  | finish record => exact Nat.le_refl _

/-- A call that has not returned can go on. -/
theorem exists_touchStep (policy : DepodPolicy) (patch : TouchPatch) (limit : Nat)
    (h : ∀ result, s.phase ≠ .returned result) :
    ∃ label s', TouchStep policy patch limit s label s' := by
  obtain ⟨phase, record⟩ := s
  cases phase with
  | listing apis =>
      cases apis with
      | nil => exact ⟨.finish, _, rfl⟩
      | cons api apis => exact ⟨.list (.ok []), _, rfl⟩
  | touching api tasks apis =>
      rcases hover : tasks.isOver with - | -
      · obtain ⟨label, tasks', hstep⟩ := Tasks.exists_step limit hover
        exact ⟨.task label, _, by rw [TouchStep, touchStep, hstep]; rfl⟩
      · exact ⟨.join, _, if_pos hover⟩
  | returned result => exact absurd rfl (h result)

/-- **The concurrent touches.**  In every run of the touches of a call, with any
replies, any order of the tasks and any limit: no more tasks than the limit are
in flight, unless it is zero; a call that has not returned can go on, and it
cannot go on for more steps than three for each pod to touch, two for each
listing and one for the end; and if it has returned, then a sequential call has
the same result and makes the same listings with the same replies and the same
patches, those between two listings in some other order. -/
theorem touchConcurrent_refines {π : List (TouchLabel × TouchCall)}
    (hπ : Execution (TouchStep policy patch limit) (.initial policy) π) :
    (limit ≠ 0 → ∀ s ∈ states (.initial policy) π, s.inFlight ≤ limit) ∧
      ((∀ result, (final (.initial policy) π).phase ≠ .returned result) →
        ∃ label s', TouchStep policy patch limit (final (.initial policy) π) label s') ∧
      π.length ≤ 2 * (listingApis policy).length + 1
        + totalAlong (taskSteps policy) (.initial policy) π ∧
      ∀ result, (final (.initial policy) π).phase = .returned result →
        ∃ record, Exec recordProtocol (touch policy patch) [] result record ∧
          Reordered BothPatches (final (.initial policy) π).record record := by
  have hrefines := hπ.invariant (fun s label s' h hs => hs.step h) (refines_initial policy patch)
  have hwork : ∀ s label s', TouchStep policy patch limit s label s' → True →
      s'.phase.work + 1 ≤ s.phase.work + taskSteps policy s label :=
    fun s label s' h _ => TouchPhase.work_step h
  have hlength := hπ.length_le (I := fun _ => True) (fun s => s.phase.work)
    (fun _ _ _ _ _ => trivial) hwork trivial
  refine ⟨fun hlimit => ?_, exists_touchStep policy patch limit, ?_, fun result hresult => ?_⟩
  · exact hπ.invariant (fun s label s' h hs => TouchCall.inFlight_step hlimit h hs) (Nat.zero_le _)
  · exact Nat.le_trans (Nat.le_add_right _ _) hlength
  · obtain ⟨record, hrecord, hexec⟩ := hrefines _ (final_mem_states _ π)
    rw [hresult] at hrecord hexec
    rw [show (TouchPhase.returned result).unsent patch = [] from rfl, List.append_nil] at hrecord
    exact ⟨record, hexec result record .pure, hrecord⟩

/-- Two pods, the second of which is patched first. -/
theorem touchConcurrent_refines_two :
    let policy := (ttlPolicy "cleanup" 3600).restrictedTo ["default"]
    let patch : TouchPatch := ⟨"operator", "cleanup", "2024-01-01T00:00:00+00:00"⟩
    ∃ π, Execution (TouchStep policy patch 2) (.initial policy) π ∧
      (∀ s ∈ states (.initial policy) π, s.inFlight ≤ 2) ∧
      ∃ record, Exec recordProtocol (touch policy patch) [] (.ok .awaitChange) record ∧
        Reordered BothPatches (final (.initial policy) π).record record := by
  intro policy patch
  have hrun : ∃ π, follow (touchStep policy patch 2) (.initial policy)
      [.list (.ok [optedInPod "web-0" "4e1f", optedInPod "web-1" "5a20"]), .task .pull,
        .task .pull, .task (.send 1), .task (.send 0), .task (.answer 0), .task (.answer 0),
        .join, .finish] = some π ∧
      (final (.initial policy) π).phase = .returned (.ok .awaitChange) :=
    ⟨_, rfl, rfl⟩
  obtain ⟨π, hfollow, hreturned⟩ := hrun
  obtain ⟨hπ, -⟩ := execution_of_follow hfollow
  obtain ⟨hlimit, -, -, hrefines⟩ := touchConcurrent_refines hπ
  exact ⟨π, hπ, hlimit (Nat.succ_ne_zero _), hrefines _ hreturned⟩

end KubeDepod
