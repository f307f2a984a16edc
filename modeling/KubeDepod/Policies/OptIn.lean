/-
KubeDepod/Policies/OptIn.lean

Who opts a pod in.

A pod is deleted only if it carries the trigger annotation of a policy, and it
is its owner who is to put it there.  But the operator writes annotations too:
every touch merges three of them into the pod.  Here the calls of
`reconcile_policy` run interleaved with the writes of the owners, and the state
keeps for each pod what its owners have put under each key; an owner who writes
back what is there already has put nothing.

The opt-in of a pod is its owners' alone unless the policy is triggered by one
of the operator's own three keys, which `validate` does not exclude
(`optIn_iff`).
-/
import KubeDepod.Crd.Serde
import KubeDepod.Lib.Execution
import KubeDepod.Policies.Touch

namespace KubeDepod

open Effects Lts MergePatch

/-! ### The patch -/

/-- The annotations of the patch. -/
def TouchPatch.annotations (patch : TouchPatch) : List (String × String) :=
  [("kube-depod/reconcile-trigger-by", patch.triggerBy),
    ("kube-depod/reconcile-trigger-by-policy", patch.triggerByPolicy),
    ("kube-depod/reconcile-trigger-time", patch.triggerTime)]

/-- Their keys. -/
def touchKeys : List String :=
  ["kube-depod/reconcile-trigger-by", "kube-depod/reconcile-trigger-by-policy",
    "kube-depod/reconcile-trigger-time"]

theorem nodup_touchKeys : touchKeys.Nodup := by decide

/-- `json!({"metadata": {"annotations": {..}}})`. -/
def TouchPatch.document (patch : TouchPatch) : Json :=
  .obj [("metadata", .obj [("annotations",
    .obj (patch.annotations.map fun entry => (entry.1, .str entry.2)))])]

/-- The annotation of a pod with this key. -/
def Pod.annotationAt (pod : Pod) (key : String) : Option String :=
  pod.metadata.annotations.bind fun annotations => annotations.get key

/-- The pod after the patch. -/
def Pod.touched (pod : Pod) (patch : TouchPatch) : Pod :=
  { pod with
    metadata := { pod.metadata with
      annotations := some (patch.annotations.foldl (fun m entry => m.insert entry.1 entry.2)
        (pod.metadata.annotations.getD .empty)) } }

namespace Pod

variable {pod : Pod} {patch : TouchPatch} {key : String}

theorem get_annotations (pod : Pod) (key : String) :
    (pod.metadata.annotations.getD .empty).get key = pod.annotationAt key := by
  unfold annotationAt
  cases pod.metadata.annotations <;> rfl

/-- What the patch has under a key, and else what the pod has. -/
theorem annotationAt_touched (pod : Pod) (patch : TouchPatch) (key : String) :
    (pod.touched patch).annotationAt key
      = (patch.annotations.lookup key).or (pod.annotationAt key) := by
  have hnodup : (patch.annotations.map Prod.fst).Nodup := nodup_touchKeys
  exact (BTreeMap.get_foldl_insert hnodup _ key).trans (congrArg _ (get_annotations pod key))

theorem lookup_annotations (patch : TouchPatch) {key : String} :
    patch.annotations.lookup key = none ↔ key ∉ touchKeys := by
  have hkeys : touchKeys = patch.annotations.map Prod.fst := rfl
  rw [List.lookup_eq_none_iff, hkeys, List.mem_map]
  simp only [bne_iff_ne, not_exists, not_and]
  exact forall₂_congr fun entry _ => ne_comm

theorem checkTrigger_eq (pod : Pod) (key : String) (values : BTreeSet String) :
    checkTrigger pod key values = (pod.annotationAt key).any values.contains := by
  unfold checkTrigger annotationAt
  rcases pod.metadata.annotations with - | annotations
  · rfl
  · rcases hget : annotations.get key with - | value
    · simp [hget]
    · simp [hget]

/-- The pod with one more annotation. -/
def annotated (pod : Pod) (key value : String) : Pod :=
  { pod with
    metadata := { pod.metadata with
      annotations := some ((pod.metadata.annotations.getD .empty).insert key value) } }

theorem annotationAt_annotated (pod : Pod) (key key' value : String) :
    (pod.annotated key value).annotationAt key'
      = if key' = key then some value else pod.annotationAt key' := by
  rw [← get_annotations pod]
  exact BTreeMap.get_insert _ key key' value

end Pod

/-! ### The document that the API server merges -/

/-- The annotation of a pod's document with this key. -/
def annotationOf (j : Json) (key : String) : Option Json :=
  ((j.field "metadata").bind (Json.field "annotations")).bind (Json.field key)

/-- The document has the annotations of the pod. -/
def Pod.AnnotatedAs (pod : Pod) (j : Json) : Prop :=
  ∀ key, annotationOf j key = (pod.annotationAt key).map .str

theorem field_getD_null (member : Option Json) (name : String) :
    (member.getD .null).field name = member.bind (Json.field name) := by
  cases member <;> rfl

theorem lookup_strings (entries : List (String × String)) (key : String) :
    (entries.map fun entry => (entry.1, (.str entry.2 : Json))).lookup key
      = (entries.lookup key).map .str := by
  induction entries with
  | nil => rfl
  | cons entry entries ih =>
      rw [List.map_cons, List.lookup_cons, List.lookup_cons, ih]
      cases key == entry.1 <;> rfl

theorem field_mergePatch_member (j : Json) (name : String) (patch : List (String × Json)) :
    (j.mergePatch (.obj [(name, .obj patch)])).field name
      = some (((j.field name).getD .null).mergePatch (.obj patch)) := by
  have hnodup : ([(name, Json.obj patch)].map Prod.fst).Nodup := List.nodup_singleton name
  rw [Json.field_mergePatch hnodup, List.lookup_cons_self]
  rfl

/-- Merging the patch into the document gives that of the touched pod. -/
theorem Pod.AnnotatedAs.mergePatch {pod : Pod} {j : Json} (h : pod.AnnotatedAs j)
    (patch : TouchPatch) : (pod.touched patch).AnnotatedAs (j.mergePatch patch.document) := by
  intro key
  have hnodup : ((patch.annotations.map fun entry => (entry.1, (.str entry.2 : Json))).map
      Prod.fst).Nodup := nodup_touchKeys
  calc annotationOf (j.mergePatch patch.document) key
      = Json.mergedField (annotationOf j key) ((patch.annotations.lookup key).map .str) := by
        rw [annotationOf, TouchPatch.document, field_mergePatch_member, Option.bind_some,
          field_mergePatch_member, Option.bind_some, Json.field_mergePatch hnodup, lookup_strings,
          field_getD_null, field_getD_null]
        rfl
    _ = ((patch.annotations.lookup key).or (pod.annotationAt key)).map .str := by
        rw [h key]
        cases patch.annotations.lookup key <;> rfl
    _ = ((pod.touched patch).annotationAt key).map .str := by rw [annotationAt_touched]

/-! ### The owners and the operator -/

/-- A pod, and what its owners have put under each key. -/
structure OwnedPod where
  pod : Pod
  owners : String → Option String

namespace OwnedPod

/-- Created by an owner. -/
def created (pod : Pod) : OwnedPod := ⟨pod, pod.annotationAt⟩

/-- An owner writes the pod; what was there already, he has not put there. -/
def written (x : OwnedPod) (pod : Pod) : OwnedPod where
  pod := pod
  owners := fun key =>
    if pod.annotationAt key = x.pod.annotationAt key then x.owners key else pod.annotationAt key

def patchedAt (path : RequestPath) (patch : TouchPatch) (x : OwnedPod) : OwnedPod :=
  if x.pod.path = path then ⟨x.pod.touched patch, x.owners⟩ else x

/-- The owners have opted in to the policy. -/
def optedIn (policy : DepodPolicy) (x : OwnedPod) : Bool :=
  (x.owners policy.spec.trigger.annotationKey).any policy.spec.trigger.annotationValues.contains

end OwnedPod

/-- The pods of the API server, and the calls of `reconcile_policy` in flight. -/
structure OwnedPods where
  pods : List OwnedPod
  calls : Nat → Option (PolicyProg (Except Error Action))

namespace OwnedPods

def initial : OwnedPods := ⟨[], fun _ => none⟩

/-- The replies of the API server, and its pods afterwards.  A listing is of pods
that are there; a patch that is refused, or whose reply is lost, may have been
made or not. -/
def Answers (pods : List OwnedPod) : (e : PolicyEffect) → e.Reply → List OwnedPod → Prop
  | .listPods api _, r, pods' =>
      pods' = pods ∧ ∀ listed, r = .ok listed →
        ∀ pod ∈ listed, api.covers pod = true ∧ ∃ x ∈ pods, x.pod = pod
  | .patchPod api name patch, r, pods' =>
      (r.isOk = false ∧ pods' = pods) ∨
        ((∃ x ∈ pods, x.pod.path = api.path name) ∧
          pods' = pods.map (OwnedPod.patchedAt (api.path name) patch))
  | _, _, pods' => pods' = pods

end OwnedPods

inductive OwnedPodsLabel where
  | create (pod : Pod)
  | write (pod : Pod)
  | remove
  | start (i : Nat) (policy : DepodPolicy)
  | effect (i : Nat)
  | finish (i : Nat)

/-- One step of an owner or of a call. -/
inductive OwnedPodsStep (operatorPodName : String) (s : OwnedPods) :
    OwnedPodsLabel → OwnedPods → Prop
  | create {pod : Pod} :
      OwnedPodsStep operatorPodName s (.create pod) { s with pods := .created pod :: s.pods }
  | write {x : OwnedPod} {before after : List OwnedPod} {pod : Pod}
      (hpods : s.pods = before ++ x :: after) :
      OwnedPodsStep operatorPodName s (.write pod)
        { s with pods := before ++ x.written pod :: after }
  | remove {x : OwnedPod} {before after : List OwnedPod} (hpods : s.pods = before ++ x :: after) :
      OwnedPodsStep operatorPodName s .remove { s with pods := before ++ after }
  | start {i : Nat} {policy : DepodPolicy} (hidle : s.calls i = none) :
      OwnedPodsStep operatorPodName s (.start i policy)
        { s with
          calls := Function.update s.calls i (some (reconcilePolicy operatorPodName policy)) }
  | effect {i : Nat} {e : PolicyEffect} {k : e.Reply → PolicyProg (Except Error Action)}
      {r : e.Reply} {pods : List OwnedPod} (hcall : s.calls i = some (.op e k))
      (hanswers : OwnedPods.Answers s.pods e r pods) :
      OwnedPodsStep operatorPodName s (.effect i)
        ⟨pods, Function.update s.calls i (some (k r))⟩
  | finish {i : Nat} {result : Except Error Action} (hcall : s.calls i = some (.pure result)) :
      OwnedPodsStep operatorPodName s (.finish i)
        { s with calls := Function.update s.calls i none }

namespace OwnedPods

/-- Under a key that is not the operator's a pod has what its owners have put
there. -/
def OwnersOnly (s : OwnedPods) : Prop :=
  ∀ x ∈ s.pods, ∀ key ∉ touchKeys, x.pod.annotationAt key = x.owners key

variable {s s' : OwnedPods} {operatorPodName : String} {label : OwnedPodsLabel}

theorem OwnersOnly.answers {pods pods' : List OwnedPod} {e : PolicyEffect} {r : e.Reply}
    (h : ∀ x ∈ pods, ∀ key ∉ touchKeys, x.pod.annotationAt key = x.owners key)
    (hanswers : Answers pods e r pods') :
    ∀ x ∈ pods', ∀ key ∉ touchKeys, x.pod.annotationAt key = x.owners key := by
  cases e with
  | patchPod api name patch =>
      obtain ⟨-, rfl⟩ | ⟨-, rfl⟩ := hanswers
      · exact h
      · rw [List.forall_mem_map]
        intro x hx key hkey
        rw [OwnedPod.patchedAt]
        split_ifs
        · rw [Pod.annotationAt_touched, (Pod.lookup_annotations patch).mpr hkey, Option.none_or]
          exact h x hx key hkey
        · exact h x hx key hkey
  | listPods api labels =>
      obtain ⟨rfl, -⟩ := hanswers
      exact h
  | _ =>
      obtain rfl := hanswers
      exact h

/-- **One step.** -/
theorem OwnersOnly.step (h : OwnedPodsStep operatorPodName s label s') (hs : s.OwnersOnly) :
    s'.OwnersOnly := by
  cases h with
  | create => exact List.forall_mem_cons.mpr ⟨fun _ _ => rfl, hs⟩
  | write hpods =>
      rw [OwnersOnly, hpods, List.forall_mem_append, List.forall_mem_cons] at hs
      obtain ⟨hbefore, hx, hafter⟩ := hs
      refine List.forall_mem_append.mpr ⟨hbefore, List.forall_mem_cons.mpr ⟨?_, hafter⟩⟩
      intro key hkey
      show _ = if _ then _ else _
      split_ifs with hsame
      · exact hsame.trans (hx key hkey)
      · rfl
  | remove hpods =>
      rw [OwnersOnly, hpods, List.forall_mem_append, List.forall_mem_cons] at hs
      exact List.forall_mem_append.mpr ⟨hs.1, hs.2.2⟩
  | start hidle => exact hs
  | effect hcall hanswers => exact OwnersOnly.answers hs hanswers
  | finish hcall => exact hs

/-! ### A touch -/

/-- The replies as a protocol over the pods. -/
def serverProtocol : Protocol PolicyEffect.Reply (List OwnedPod) where
  allowed _ _ := True
  reply e pods r pods' := Answers pods e r pods'

/-- A call that runs alone. -/
theorem exists_run_of_exec {prog : PolicyProg (Except Error Action)} {pods pods' : List OwnedPod}
    {result : Except Error Action} (h : Exec serverProtocol prog pods result pods')
    {s : OwnedPods} {i : Nat} (hcall : s.calls i = some prog) (hpods : s.pods = pods) :
    ∃ π, Execution (OwnedPodsStep operatorPodName) s π ∧ (final s π).pods = pods' := by
  induction h generalizing s with
  | pure => exact ⟨[], trivial, hpods⟩
  | op hreply _ ih =>
      subst hpods
      obtain ⟨π, hπ, hfinal⟩ := ih (s := ⟨_, Function.update s.calls i (some _)⟩)
        (Function.update_self ..) rfl
      exact ⟨(.effect i, _) :: π, ⟨.effect hcall hreply, hπ⟩, hfinal⟩

/-- The API server at rest but for this call, with pods without labels. -/
def serve : (e : PolicyEffect) → List OwnedPod → e.Reply × List OwnedPod
  | .validate _, pods => (.ok (), pods)
  | .nowText, pods => ("2024-01-01T00:00:00+00:00", pods)
  | .patchStatus _ _ _, pods => (.ok (), pods)
  | .storeState, pods => ([], pods)
  | .publish _, pods => ((), pods)
  | .listPods api _, pods => (.ok ((pods.map OwnedPod.pod).filter api.covers), pods)
  | .patchPod api name patch, pods =>
      if pods.any fun x => x.pod.path = api.path name then
        (.ok (), pods.map (OwnedPod.patchedAt (api.path name) patch))
      else
        (.error (.kubeError "not found"), pods)

theorem answers_serve (e : PolicyEffect) (pods : List OwnedPod) :
    Answers pods e (serve e pods).1 (serve e pods).2 := by
  cases e with
  | listPods api labels =>
      refine ⟨rfl, ?_⟩
      rintro _ ⟨⟩ pod hpod
      obtain ⟨hpod, hcovers⟩ := List.mem_filter.mp hpod
      exact ⟨hcovers, List.mem_map.mp hpod⟩
  | patchPod api name patch =>
      simp only [serve]
      split_ifs with hfound
      · obtain ⟨x, hx, hpath⟩ := List.any_eq_true.mp hfound
        exact Or.inr ⟨⟨x, hx, of_decide_eq_true hpath⟩, rfl⟩
      · exact Or.inl ⟨rfl, rfl⟩
  | _ => exact rfl

/-- A policy for the pods of the default namespace. -/
def cleanup : DepodPolicy := (ttlPolicy "cleanup" 3600).restrictedTo ["default"]

def cleanupPatch (operatorPodName : String) : TouchPatch :=
  ⟨operatorPodName, "cleanup", "2024-01-01T00:00:00+00:00"⟩

/-- A call for it touches a pod that has opted in to it. -/
theorem run_serve {pod : Pod} (hpod : pod.metadata.namespace_ = some "default")
    (htriggers : triggers cleanup pod = true) :
    ((reconcilePolicy operatorPodName cleanup).run serve [.created pod]).2
      = [⟨pod.touched (cleanupPatch operatorPodName), pod.annotationAt⟩] := by
  have hcovers : (PodApi.namespaced "default").covers pod = true := by
    rw [PodApi.covers, hpod]
    rfl
  have hpath : pod.path = (PodApi.namespaced "default").path pod.nameAny := by
    rw [Pod.path, Pod.namespaceOrDefault, hpod]
    rfl
  have hlisted : podsToTrigger cleanup ([pod].filter (PodApi.namespaced "default").covers)
      = [pod] := by
    rw [List.filter_cons_of_pos hcovers]
    exact List.filter_cons_of_pos htriggers
  show (((touchPods (.namespaced "default") (cleanupPatch operatorPodName)
      (podsToTrigger cleanup ([pod].filter (PodApi.namespaced "default").covers)) >>= fun _ =>
        touchNamespaces cleanup (cleanupPatch operatorPodName) []) >>= fun _ =>
          (return .ok .awaitChange : PolicyProg (Except Error Action))).run serve
      [.created pod]).2 = _
  rw [hlisted]
  show (serve (.patchPod (.namespaced "default") pod.nameAny (cleanupPatch operatorPodName))
    [.created pod]).2 = _
  have hfound : ([OwnedPod.created pod].any fun x =>
      x.pod.path = (PodApi.namespaced "default").path pod.nameAny) = true := by
    rw [List.any_cons, OwnedPod.created, decide_eq_true hpath, Bool.true_or]
  rw [serve, if_pos hfound]
  exact congrArg (fun x => [x]) (if_pos hpath)

/-- A pod that has opted in to `cleanup` is created and touched; the touch leaves
the same text under a key of its own, whatever the owners have put there. -/
theorem exists_overwritten (operatorPodName : String) {key : String} (hkey : key ∈ touchKeys) :
    ∃ text, ∀ pod : Pod, pod.metadata.namespace_ = some "default" → triggers cleanup pod = true →
      ∃ π, Execution (OwnedPodsStep operatorPodName) .initial π ∧
        ∃ x ∈ (final .initial π).pods, x.pod.annotationAt key = some text ∧
          x.owners = pod.annotationAt := by
  have hsome : ((cleanupPatch operatorPodName).annotations.lookup key).isSome = true := by
    rw [← Option.ne_none_iff_isSome]
    exact mt (Pod.lookup_annotations _).mp (not_not_intro hkey)
  obtain ⟨text, htext⟩ := Option.isSome_iff_exists.mp hsome
  refine ⟨text, fun pod hpod htriggers => ?_⟩
  have hexec := exec_run (P := serverProtocol) (h := serve) answers_serve
    (reconcilePolicy operatorPodName cleanup) [.created pod]
  rw [run_serve hpod htriggers] at hexec
  let s : OwnedPods :=
    ⟨[.created pod],
      Function.update (fun _ => none) 0 (some (reconcilePolicy operatorPodName cleanup))⟩
  have hcall : s.calls 0 = some (reconcilePolicy operatorPodName cleanup) := rfl
  obtain ⟨π, hπ, hfinal⟩ := exists_run_of_exec (s := s) hexec hcall rfl
  refine ⟨(.create pod, _) :: (.start 0 cleanup, s) :: π, ⟨.create, .start rfl, hπ⟩, ?_⟩
  refine ⟨_, hfinal ▸ List.mem_singleton_self _, ?_, rfl⟩
  rw [Pod.annotationAt_touched, htext, Option.some_or]

end OwnedPods

open OwnedPods

variable {policy : DepodPolicy}

theorem exists_accepted_of_isValid (h : policy.spec.isValid = true) :
    ∃ value, policy.spec.trigger.annotationValues.contains value = true := by
  rcases hvalues : policy.spec.trigger.annotationValues with ⟨- | ⟨value, values⟩, hsorted⟩
  · rw [DepodPolicySpec.isValid, DepodPolicySpec.validate, hvalues] at h
    by_cases hkey : policy.spec.trigger.annotationKey.isEmpty = true <;>
      simp [hkey, BTreeSet.isEmpty, Except.isOk, Except.toBool, throw, throwThe,
        MonadExceptOf.throw, bind, Except.bind] at h
  · exact ⟨value, List.contains_iff_mem.mpr (List.mem_cons_self ..)⟩

/-- **Whether a pod has opted in is up to its owners**, for a valid policy, in
every order of their writes and the operator's touches, exactly if the policy is
not triggered by one of the annotations of a touch. -/
theorem optIn_iff (operatorPodName : String) (hvalid : policy.spec.isValid = true) :
    (∀ π, Execution (OwnedPodsStep operatorPodName) .initial π → ∀ s ∈ states .initial π,
        ∀ x ∈ s.pods, checkTrigger x.pod policy.spec.trigger.annotationKey
          policy.spec.trigger.annotationValues = x.optedIn policy) ↔
      policy.spec.trigger.annotationKey ∉ touchKeys := by
  constructor
  · intro h hkey
    let values := policy.spec.trigger.annotationValues
    obtain ⟨text, hwritten⟩ := exists_overwritten operatorPodName hkey
    have hsame : ∀ pod : Pod, pod.metadata.namespace_ = some "default" →
        triggers cleanup pod = true →
        values.contains text
          = (pod.annotationAt policy.spec.trigger.annotationKey).any values.contains := by
      intro pod hpod htriggers
      obtain ⟨π, hπ, x, hx, htext, howners⟩ := hwritten pod hpod htriggers
      have hchecked := h π hπ _ (final_mem_states _ _) x hx
      rwa [Pod.checkTrigger_eq, htext, OwnedPod.optedIn, howners] at hchecked
    obtain ⟨value, hvalue⟩ := exists_accepted_of_isValid hvalid
    have hother : "kube-depod/enabled" ≠ policy.spec.trigger.annotationKey := by
      intro heq
      rw [← heq] at hkey
      exact absurd hkey (by decide)
    have hplain := hsame (optedInPod "web-0" "4e1f") rfl rfl
    have hannotated := hsame
      ((optedInPod "web-0" "4e1f").annotated policy.spec.trigger.annotationKey value) rfl ?_
    · have hnone : (optedInPod "web-0" "4e1f").annotationAt policy.spec.trigger.annotationKey
          = none := by
        show List.lookup _ [("kube-depod/enabled", "true")] = none
        rw [List.lookup_cons, beq_false_of_ne (Ne.symm hother)]
        rfl
      rw [hnone] at hplain
      rw [Pod.annotationAt_annotated, if_pos rfl] at hannotated
      exact Bool.false_ne_true (hplain.symm.trans (hannotated.trans hvalue))
    · rw [triggers, Pod.checkTrigger_eq]
      have hkept : ((optedInPod "web-0" "4e1f").annotated policy.spec.trigger.annotationKey
          value).annotationAt "kube-depod/enabled" = some "true" := by
        rw [Pod.annotationAt_annotated, if_neg hother]
        rfl
      show (Option.any _ (Pod.annotationAt _ "kube-depod/enabled") && _) = true
      rw [hkept]
      rfl
  · intro hkey π hπ s hs x hx
    have howners : s.OwnersOnly := hπ.invariant (fun _ _ _ hstep hs => hs.step hstep)
      (List.forall_mem_nil _) s hs
    rw [Pod.checkTrigger_eq, howners x hx _ hkey]
    rfl

/-- A policy that follows another one: it acts on the pods that `cleanup` has
touched. -/
def followingPolicy : DepodPolicy :=
  { ttlPolicy "following" 3600 with
    spec :=
      { (ttlPolicy "following" 3600).spec with
        trigger := ⟨"kube-depod/reconcile-trigger-by-policy", .singleton "cleanup"⟩ } }

theorem optIn_iff_following :
    ¬ (∀ π, Execution (OwnedPodsStep "operator") .initial π → ∀ s ∈ states .initial π,
        ∀ x ∈ s.pods, checkTrigger x.pod "kube-depod/reconcile-trigger-by-policy"
          (.singleton "cleanup") = x.optedIn followingPolicy) := by
  intro h
  have hvalid : followingPolicy.spec.isValid = true := by decide
  exact (optIn_iff "operator" hvalid).mp h (by decide)

end KubeDepod
