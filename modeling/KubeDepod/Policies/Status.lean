/-
KubeDepod/Policies/Status.lean

The status that `reconcile_policy` writes, and the one it reads back.

The status patch is a merge patch of the whole status, with a list of one
condition: every member is present, so the patched document reads back as the
status sent, whatever was stored before (`decodeStatus_mergePatch`).  Each of
the three verdicts on a spec has a condition builder and a check for that
condition, and they agree: a check accepts the conditions of its own verdict
and of no other (`reported_condition_iff`).  So a second call sends nothing,
and the one condition stored is that of the latest spec (`status_settles`).
-/
import KubeDepod.Lib.Execution
import KubeDepod.Lib.MergePatch
import KubeDepod.Policies.Cache

namespace KubeDepod

open Effects Lts

/-! ### The status as a document -/

/-- The documents of the API server; the numbers of a status are integers. -/
abbrev Json := MergePatch.Json Int

open MergePatch

def encodeOption : Option String → Json
  | some s => .str s
  | none => .null

/-- `serde` of `PolicyCondition`. -/
def encodeCondition (condition : PolicyCondition) : Json :=
  .obj [("type", .str condition.conditionType), ("status", .str condition.status),
    ("lastTransitionTime", encodeOption condition.lastTransitionTime),
    ("reason", encodeOption condition.reason), ("message", encodeOption condition.message)]

/-- `serde` of `DepodPolicyStatus`; no member is ever left out. -/
def statusMembers (status : DepodPolicyStatus) : List (String × Json) :=
  [("conditions", .arr (status.conditions.map encodeCondition)),
    ("lastObservedTime", encodeOption status.lastObservedTime),
    ("pods_evaluated", .num status.podsEvaluated.toNat),
    ("pods_matched", .num status.podsMatched.toNat),
    ("pods_deleted", .num status.podsDeleted.toNat),
    ("evaluation_errors", .num status.evaluationErrors.toNat)]

def encodeStatus (status : DepodPolicyStatus) : Json := .obj (statusMembers status)

theorem nodup_statusMembers (status : DepodPolicyStatus) :
    ((statusMembers status).map Prod.fst).Nodup := by
  show ["conditions", "lastObservedTime", "pods_evaluated", "pods_matched", "pods_deleted",
    "evaluation_errors"].Nodup
  decide

def decodeString : Json → Option String
  | .str s => some s
  | _ => none

def decodeU64 : Json → Option UInt64
  | .num n => if 0 ≤ n ∧ n.toNat < UInt64.size then some (.ofNat n.toNat) else none
  | _ => none

def decodeList {α : Type} (decode : Json → Option α) : Json → Option (List α)
  | .arr elements => elements.mapM decode
  | _ => none

/-- A field without a default. -/
def required {α : Type} (decode : Json → Option α) (j : Json) (name : String) : Option α :=
  (j.field name).bind decode

/-- A field of type `Option`: absent and `null` read as `None`. -/
def optional {α : Type} (decode : Json → Option α) (j : Json) (name : String) :
    Option (Option α) :=
  match j.field name with
  | none => some none
  | some .null => some none
  | some value => (decode value).map some

/-- A field with `#[serde(default)]`. -/
def defaulted {α : Type} (decode : Json → Option α) (default : α) (j : Json) (name : String) :
    Option α :=
  match j.field name with
  | none => some default
  | some value => decode value

def decodeCondition (j : Json) : Option PolicyCondition := do
  let conditionType ← required decodeString j "type"
  let status ← required decodeString j "status"
  let lastTransitionTime ← optional decodeString j "lastTransitionTime"
  let reason ← optional decodeString j "reason"
  let message ← optional decodeString j "message"
  return ⟨conditionType, status, lastTransitionTime, reason, message⟩

def decodeStatus : Json → Option DepodPolicyStatus
  | .obj members => do
      let j : Json := .obj members
      let conditions ← defaulted (decodeList decodeCondition) [] j "conditions"
      let lastObservedTime ← optional decodeString j "lastObservedTime"
      let podsEvaluated ← defaulted decodeU64 0 j "pods_evaluated"
      let podsMatched ← defaulted decodeU64 0 j "pods_matched"
      let podsDeleted ← defaulted decodeU64 0 j "pods_deleted"
      let evaluationErrors ← defaulted decodeU64 0 j "evaluation_errors"
      return ⟨conditions, lastObservedTime, podsEvaluated, podsMatched, podsDeleted,
        evaluationErrors⟩
  | _ => none

theorem decodeCondition_encodeCondition (condition : PolicyCondition) :
    decodeCondition (encodeCondition condition) = some condition := by
  obtain ⟨conditionType, status, lastTransitionTime, reason, message⟩ := condition
  cases lastTransitionTime <;> cases reason <;> cases message <;> rfl

theorem decodeList_encodeCondition (conditions : List PolicyCondition) :
    decodeList decodeCondition (.arr (conditions.map encodeCondition)) = some conditions := by
  show (conditions.map encodeCondition).mapM decodeCondition = some conditions
  induction conditions with
  | nil => rfl
  | cons condition conditions ih =>
      rw [List.map_cons, List.mapM_cons, decodeCondition_encodeCondition, ih]
      rfl

theorem decodeU64_toNat (n : UInt64) : decodeU64 (.num n.toNat) = some n := by
  have hlt : n.toNat < UInt64.size := n.toNat_lt
  rw [decodeU64, Int.toNat_natCast, if_pos ⟨Int.natCast_nonneg _, hlt⟩, UInt64.ofNat_toNat]

theorem optional_encodeOption {j : Json} {name : String} {target : Option Json}
    {value : Option String}
    (h : j.field name = Json.mergedField target (some (encodeOption value))) :
    optional decodeString j name = some value := by
  rw [optional, h]
  cases value <;> rfl

theorem defaulted_of_field {α : Type} {decode : Json → Option α} {a : α} {j value : Json}
    {name : String} (default : α) (h : j.field name = some value) (hvalue : decode value = some a) :
    defaulted decode default j name = some a := by
  rw [defaulted, h]
  exact hvalue

/-- **A patched status reads back as the status sent**, whatever it is merged
into. -/
theorem decodeStatus_mergePatch (j : Json) (status : DepodPolicyStatus) :
    decodeStatus (j.mergePatch (encodeStatus status)) = some status := by
  have hfield : ∀ name, (j.mergePatch (encodeStatus status)).field name
      = Json.mergedField (j.field name) ((statusMembers status).lookup name) := fun name =>
    Json.field_mergePatch (nodup_statusMembers status) name j
  have hobject : j.mergePatch (encodeStatus status)
      = .obj (Json.mergeMembers j.members (statusMembers status)) := rfl
  rw [hobject] at hfield ⊢
  have hconditions := defaulted_of_field [] (hfield "conditions")
    (decodeList_encodeCondition status.conditions)
  have htime := optional_encodeOption (hfield "lastObservedTime")
  have hevaluated := defaulted_of_field 0 (hfield "pods_evaluated")
    (decodeU64_toNat status.podsEvaluated)
  have hmatched := defaulted_of_field 0 (hfield "pods_matched")
    (decodeU64_toNat status.podsMatched)
  have hdeleted := defaulted_of_field 0 (hfield "pods_deleted")
    (decodeU64_toNat status.podsDeleted)
  have herrors := defaulted_of_field 0 (hfield "evaluation_errors")
    (decodeU64_toNat status.evaluationErrors)
  simp only [decodeStatus, hconditions, htime, hevaluated, hmatched, hdeleted, herrors,
    Option.bind_eq_bind, Option.bind_some]
  rfl

/-! ### The verdicts -/

/-- What a call finds out about a spec. -/
inductive Verdict where
  | invalidSpec (message : String)
  | invalidCel (message : String)
  | ready

namespace Verdict

/-- The condition reported for the verdict. -/
def condition : Verdict → String → PolicyCondition
  | .invalidSpec message => .invalidSpec message
  | .invalidCel message => .invalidCel message
  | .ready => .ready

/-- The check whether a condition already reports the verdict. -/
def reported : Verdict → PolicyCondition → Bool
  | .invalidSpec message => fun c =>
      c.conditionType == "InvalidSpec" && c.status == "True" && c.message == some message
  | .invalidCel message => fun c =>
      c.conditionType == "InvalidCEL" && c.status == "True" && c.message == some message
  | .ready => fun c =>
      c.conditionType == "Ready" && c.status == "True" && c.reason == some "PolicyValidated"

/-- **Checks and builders agree**: the check of a verdict accepts the condition
built for the same verdict, at any time, and for no other. -/
theorem reported_condition_iff (v w : Verdict) (now : String) :
    v.reported (w.condition now) = true ↔ w = v := by
  cases v <;> cases w <;>
    simp [reported, condition, PolicyCondition.invalidSpec, PolicyCondition.invalidCel,
      PolicyCondition.ready]

end Verdict

variable {cel : CelEngine}

/-- The verdict on a spec. -/
def CelEngine.verdictOn (cel : CelEngine) (spec : DepodPolicySpec) : Verdict :=
  match spec.validate with
  | .error e => .invalidSpec e.toString
  | .ok _ =>
      match spec.when_.expression with
      | some expr =>
          if spec.when_.conditionType == .cel then
            match cel.verdict expr with
            | .error e => .invalidCel ("CEL compilation failed: " ++ e.toString)
            | .ok _ => .ready
          else
            .ready
      | none => .ready

/-! ### The object at the API server -/

/-- A policy object; of its status the API server keeps the document. -/
structure PolicyObject where
  ns : String
  name : String
  spec : DepodPolicySpec
  status : Option Json

/-- The object as far as its status is concerned. -/
def PolicyObject.document (object : PolicyObject) : Json :=
  .obj (object.status.toList.map fun status => ("status", status))

/-- The status as the operator reads it. -/
def PolicyObject.readStatus (object : PolicyObject) : Option (Option DepodPolicyStatus) :=
  optional decodeStatus object.document "status"

/-- The object is delivered to the operator as this policy. -/
structure PolicyObject.DeliveredAs (object : PolicyObject) (policy : DepodPolicy) : Prop where
  namespace_ : policy.metadata.namespace_ = some object.ns
  name : policy.metadata.name = some object.name
  spec : policy.spec = object.spec
  status : object.readStatus = some policy.status

/-- The API server applies a merge patch `{"status": status}`. -/
def PolicyObject.patched (object : PolicyObject) (status : DepodPolicyStatus) : PolicyObject :=
  { object with
    status := (object.document.mergePatch (.obj [("status", encodeStatus status)])).field "status" }

/-- The object after a patch reads as the status sent. -/
theorem PolicyObject.readStatus_patched (object : PolicyObject) (status : DepodPolicyStatus) :
    (object.patched status).readStatus = some (some status) := by
  have hfield : (object.document.mergePatch (.obj [("status", encodeStatus status)])).field
      "status"
      = some (((object.document.field "status").getD .null).mergePatch (encodeStatus status)) :=
    Json.field_mergePatch
      (show ([("status", encodeStatus status)].map Prod.fst).Nodup from List.nodup_singleton _)
      "status" object.document
  have hdocument : (object.patched status).document
      = .obj [("status",
          ((object.document.field "status").getD .null).mergePatch (encodeStatus status))] := by
    rw [PolicyObject.document, PolicyObject.patched, hfield]
    rfl
  have hdecode := decodeStatus_mergePatch ((object.document.field "status").getD .null) status
  rw [PolicyObject.readStatus, hdocument]
  show (decodeStatus _).map some = _
  rw [hdecode]
  rfl

/-! ### One call -/

/-- The object and the number of status patches sent. -/
structure StatusState where
  object : PolicyObject
  patches : Nat

namespace StatusState

/-- The request is for the object. -/
def Addresses (s : StatusState) (ns name : String) : Prop :=
  ns = s.object.ns ∧ name = s.object.name

instance (s : StatusState) (ns name : String) : Decidable (s.Addresses ns name) :=
  inferInstanceAs (Decidable (_ ∧ _))

/-- The replies an effect can have. -/
def Permits (cel : CelEngine) (s : StatusState) : (e : PolicyEffect) → e.Reply → Prop
  | .validate expr, r => r = cel.verdict expr
  | .patchStatus ns name _, r => r.isOk = decide (s.Addresses ns name)
  | .nowText, _ => True
  | .storeState, _ => True
  | .publish _, _ => True
  | .listPods _ _, _ => True
  | .patchPod _ _ _, _ => True

/-- A status patch is applied to the object it addresses. -/
def after (s : StatusState) : PolicyEffect → StatusState
  | .patchStatus ns name status =>
      ⟨if s.Addresses ns name then s.object.patched status else s.object, s.patches + 1⟩
  | _ => s

end StatusState

/-- How the effects of `reconcile_policy` act on the object. -/
def statusProtocol (cel : CelEngine) : Protocol PolicyEffect.Reply StatusState where
  allowed _ _ := True
  reply e s r s' := s.Permits cel e r ∧ s' = s.after e

/-- A call for the object as it is now, which sends `patches` status patches. -/
def ReconcilesStatus (cel : CelEngine) (operatorPodName : String) (object object' : PolicyObject)
    (patches : Nat) : Prop :=
  ∃ policy, object.DeliveredAs policy ∧
    ∃ result, Exec (statusProtocol cel) (reconcilePolicy operatorPodName policy) ⟨object, 0⟩
      result ⟨object', patches⟩

/-- The verdict is reported, unless the status shows it already. -/
def Reports (v : Verdict) (status : Option DepodPolicyStatus) (s s' : StatusState) : Prop :=
  if shouldUpdate status v.reported then
    ∃ now, s' = ⟨s.object.patched { conditions := [v.condition now] }, s.patches + 1⟩
  else
    s' = s

variable {policy : DepodPolicy} {s : StatusState}

/-- An effect that leaves the object alone. -/
theorem wp_unchanged {α : Type} {e : PolicyEffect} {k : e.Reply → PolicyProg α}
    {post : α → StatusState → Prop} (hafter : s.after e = s)
    (hk : ∀ r, s.Permits cel e r → wp (statusProtocol cel) (k r) post s) :
    wp (statusProtocol cel) (request e >>= k) post s := by
  refine ⟨trivial, fun r s' hr => ?_⟩
  obtain ⟨hpermits, hs'⟩ := hr
  rw [hs', hafter]
  exact hk r hpermits

theorem wp_report (h : s.object.DeliveredAs policy) (v : Verdict) :
    wp (statusProtocol cel) (report policy v.reported v.condition)
      (fun _ s' => Reports v policy.status s s') s := by
  have haddress : s.Addresses (getPolicyNamespace policy) policy.nameAny := by
    constructor
    · simp only [getPolicyNamespace, h.namespace_]
    · simp only [DepodPolicy.nameAny, ObjectMeta.nameAny, h.name, Option.some_or, Option.getD_some]
  unfold report Reports
  split
  · refine wp_unchanged rfl fun now _ => ⟨trivial, fun r s' hs' => ⟨now, ?_⟩⟩
    obtain ⟨-, rfl⟩ := hs'
    show (⟨if s.Addresses _ _ then _ else _, _⟩ : StatusState) = _
    rw [if_pos haddress]
    rfl
  · exact rfl

/-- Listings and touches leave the object alone. -/
theorem wp_touch {α : Type} {p : PolicyProg α} (hp : p.Uses PolicyEffect.IsTouch) :
    wp (statusProtocol cel) p (fun _ s' => s' = s) s := by
  refine wp_of_uses hp (fun _ _ _ _ => trivial) ?_ rfl
  rintro e t r _ htouch rfl ⟨-, rfl⟩
  cases e with
  | patchStatus _ _ _ => exact htouch.elim
  | _ => rfl

/-- What follows the cache refresh reports `Ready`. -/
theorem wp_afterRefresh (operatorPodName : String) (h : s.object.DeliveredAs policy) :
    wp (statusProtocol cel) (afterRefresh operatorPodName policy)
      (fun _ s' => Reports .ready policy.status s s') s := by
  rw [afterRefresh_eq, wp_bind]
  refine wp_mono (fun _ s' hs' => ?_) (wp_report h .ready)
  refine wp_unchanged rfl fun now _ => ?_
  refine wp_mono (fun _ s'' hs'' => ?_) (wp_touch (touch_uses ..))
  rw [hs'']
  exact hs'

/-- The two validations report their verdict, unless the spec is in order. -/
theorem wp_checkPolicy (h : s.object.DeliveredAs policy) :
    wp (statusProtocol cel) (checkPolicy policy)
      (fun checked s' =>
        if checked then cel.verdictOn policy.spec = .ready ∧ s' = s
        else Reports (cel.verdictOn policy.spec) policy.status s s') s := by
  rw [checkPolicy, CelEngine.verdictOn]
  rcases policy.spec.validate with e | _
  · have hreport : wp (statusProtocol cel) (reportInvalidSpec policy e) _ s :=
      wp_report h (.invalidSpec e.toString)
    exact wp_bind.mpr hreport
  rcases policy.spec.when_.expression with - | expr
  · exact ⟨rfl, rfl⟩
  rcases policy.spec.when_.conditionType with - | -
  · -- the reply to the effect is the verdict on the expression
    dsimp only
    generalize hverdict : cel.verdict expr = verdict
    refine wp_unchanged rfl fun r hr => ?_
    obtain rfl : r = verdict := Eq.trans hr hverdict
    rcases r with e | _
    · have hreport : wp (statusProtocol cel)
          (reportInvalidCel policy ("CEL compilation failed: " ++ e.toString)) _ s :=
        wp_report h (.invalidCel ("CEL compilation failed: " ++ e.toString))
      exact wp_bind.mpr hreport
    · exact ⟨rfl, rfl⟩
  · exact ⟨rfl, rfl⟩

/-- **One call reports the verdict on the spec.** -/
theorem wp_reconcilePolicy (operatorPodName : String) (h : s.object.DeliveredAs policy) :
    wp (statusProtocol cel) (reconcilePolicy operatorPodName policy)
      (fun _ s' => Reports (cel.verdictOn s.object.spec) policy.status s s') s := by
  rw [← h.spec, reconcilePolicy, wp_bind]
  refine wp_mono (fun checked s' hs' => ?_) (wp_checkPolicy h)
  cases checked with
  | false => exact hs'
  | true =>
      obtain ⟨hready, rfl⟩ := hs'
      rw [hready]
      -- the refresh takes the store and publishes
      exact wp_unchanged rfl fun _ _ => wp_unchanged rfl fun _ _ =>
        wp_afterRefresh operatorPodName h

/-! ### Runs of edits -/

variable {operatorPodName : String} {object object' : PolicyObject}

/-- The call after which nothing is left to do. -/
theorem ReconcilesStatus.reports {patches : Nat}
    (h : ReconcilesStatus cel operatorPodName object object' patches) :
    ∃ status, object.readStatus = some status ∧
      Reports (cel.verdictOn object.spec) status ⟨object, 0⟩ ⟨object', patches⟩ := by
  obtain ⟨policy, hdelivered, result, hexec⟩ := h
  exact ⟨policy.status, hdelivered.status,
    hexec.of_wp (wp_reconcilePolicy operatorPodName hdelivered)⟩

/-- The user edits the spec. -/
def PolicyObject.edited (object : PolicyObject) (spec : DepodPolicySpec) : PolicyObject :=
  { object with spec }

/-- An edit of the spec, and the patches that the call after it sends. -/
structure StatusEdit where
  spec : DepodPolicySpec
  patches : Nat

/-- An edit, followed by a call that sees the edited object. -/
def StatusStep (cel : CelEngine) (operatorPodName : String) (object : PolicyObject)
    (edit : StatusEdit) (object' : PolicyObject) : Prop :=
  ReconcilesStatus cel operatorPodName (object.edited edit.spec) object' edit.patches

/-- The stored status has a condition that reports the verdict on the spec. -/
def PolicyObject.Shows (cel : CelEngine) (object : PolicyObject) : Prop :=
  ∃ status, object.readStatus = some (some status) ∧
    status.conditions.any (cel.verdictOn object.spec).reported = true

/-- Another call sends no patch and leaves the object as it is. -/
def PolicyObject.Settled (cel : CelEngine) (operatorPodName : String) (object : PolicyObject) :
    Prop :=
  ∀ object' patches, ReconcilesStatus cel operatorPodName object object' patches →
    patches = 0 ∧ object' = object

/-- The condition stored is one, the one built for the verdict `v`. -/
def PolicyObject.HasOnly (object : PolicyObject) (v : Verdict) : Prop :=
  ∃ status now, object.readStatus = some (some status) ∧ status.conditions = [v.condition now]

/-- The one condition stored is that of the verdict on the spec. -/
def PolicyObject.TellsVerdict (cel : CelEngine) (object : PolicyObject) : Prop :=
  object.HasOnly (cel.verdictOn object.spec)

/-- No status yet, or one condition. -/
def PolicyObject.Fresh (object : PolicyObject) : Prop :=
  object.readStatus = some none ∨ ∃ v, object.HasOnly v

theorem shouldUpdate_some {status : DepodPolicyStatus} {reported : PolicyCondition → Bool} :
    shouldUpdate (some status) reported = !status.conditions.any reported := rfl

theorem PolicyObject.hasOnly_patched (object : PolicyObject) (v : Verdict) (now : String) :
    (object.patched { conditions := [v.condition now] }).HasOnly v :=
  ⟨_, now, object.readStatus_patched _, rfl⟩

theorem PolicyObject.TellsVerdict.shows (h : object.TellsVerdict cel) : object.Shows cel := by
  obtain ⟨status, now, hread, hconditions⟩ := h
  refine ⟨status, hread, ?_⟩
  rw [hconditions, List.any_cons, (Verdict.reported_condition_iff _ _ _).mpr rfl, Bool.true_or]

/-- Where the verdict is shown, nothing is sent. -/
theorem PolicyObject.Shows.settled (h : object.Shows cel) :
    object.Settled cel operatorPodName := by
  obtain ⟨status, hread, hshown⟩ := h
  intro object' patches hcall
  obtain ⟨status', hread', hreports⟩ := hcall.reports
  obtain rfl : some status = status' := Option.some.inj (hread.symm.trans hread')
  rw [Reports, shouldUpdate_some, hshown] at hreports
  cases hreports
  exact ⟨rfl, rfl⟩

/-- One call sends at most one patch and leaves the spec alone, and then the
verdict is shown. -/
theorem ReconcilesStatus.shows {patches : Nat}
    (h : ReconcilesStatus cel operatorPodName object object' patches) :
    patches ≤ 1 ∧ object'.spec = object.spec ∧ object'.Shows cel := by
  obtain ⟨status, hread, hreports⟩ := h.reports
  rw [Reports] at hreports
  split at hreports
  · -- a patch was sent, and the object reads as it
    obtain ⟨now, hpatched⟩ := hreports
    cases hpatched
    have htells : (object.patched
        { conditions := [(cel.verdictOn object.spec).condition now] }).TellsVerdict cel :=
      object.hasOnly_patched _ now
    exact ⟨Nat.le_refl 1, rfl, htells.shows⟩
  case isFalse hupdate =>
    -- nothing was sent because the verdict is shown already
    cases hreports
    cases status with
    | none => exact absurd rfl hupdate
    | some status =>
        rw [shouldUpdate_some, Bool.not_eq_true, Bool.not_eq_false'] at hupdate
        exact ⟨Nat.zero_le 1, rfl, status, hread, hupdate⟩

/-- From no status or from one condition, a call leaves the condition of its
own verdict alone. -/
theorem ReconcilesStatus.tellsVerdict {patches : Nat}
    (h : ReconcilesStatus cel operatorPodName object object' patches) (hfresh : object.Fresh) :
    object'.TellsVerdict cel := by
  obtain ⟨status, hread, hreports⟩ := h.reports
  rw [Reports] at hreports
  split at hreports
  · obtain ⟨now, hpatched⟩ := hreports
    cases hpatched
    exact object.hasOnly_patched _ now
  case isFalse hupdate =>
    cases hreports
    rcases hfresh with hnone | ⟨v, status', now, hread', hconditions⟩
    · obtain rfl : none = status := Option.some.inj (hnone.symm.trans hread)
      exact absurd rfl hupdate
    · obtain rfl : some status' = status := Option.some.inj (hread'.symm.trans hread)
      -- the one condition passes the check of the verdict, so it is the verdict's own
      rw [shouldUpdate_some, hconditions, Bool.not_eq_true, Bool.not_eq_false', List.any_cons,
        List.any_nil, Bool.or_false, Verdict.reported_condition_iff] at hupdate
      subst hupdate
      exact ⟨status', now, hread', hconditions⟩

/-- **Status updates reach a fixed point that tells the truth.**  In every run
of edits each call sends at most one patch, and after it another call sends
none; and from no status, the conditions stored after each call are the one of
the verdict on the latest spec. -/
theorem status_settles {π : List (StatusEdit × PolicyObject)}
    (hπ : Execution (StatusStep cel operatorPodName) object π) :
    (∀ x ∈ π, x.1.patches ≤ 1 ∧ x.2.spec = x.1.spec ∧ x.2.Settled cel operatorPodName) ∧
      (object.readStatus = some none → ∀ x ∈ π, x.2.TellsVerdict cel) := by
  constructor
  · refine hπ.forall_mem (I := fun _ => True)
      (Q := fun edit object' => edit.patches ≤ 1 ∧ object'.spec = edit.spec ∧
        object'.Settled cel operatorPodName) (fun _ _ _ _ _ => trivial) ?_ trivial
    intro object edit object' hstep _
    obtain ⟨hpatches, hspec, hshows⟩ := ReconcilesStatus.shows hstep
    exact ⟨hpatches, hspec, hshows.settled⟩
  · intro hnone
    have htells : ∀ object edit object', StatusStep cel operatorPodName object edit object' →
        object.Fresh → object'.TellsVerdict cel := by
      intro object edit object' hstep hfresh
      have hcall : ReconcilesStatus cel operatorPodName (object.edited edit.spec) object'
          edit.patches := hstep
      have hedited : (object.edited edit.spec).Fresh := hfresh
      exact hcall.tellsVerdict hedited
    exact hπ.forall_mem (I := PolicyObject.Fresh)
      (Q := fun _ object' => object'.TellsVerdict cel)
      (fun object edit object' hstep hfresh => .inr ⟨_, htells object edit object' hstep hfresh⟩)
      (fun object edit object' hstep hfresh => htells object edit object' hstep hfresh)
      (.inl hnone)

/-- The environment that applies every patch and has no policies and no pods. -/
def StatusState.plainAnswer (cel : CelEngine) (s : StatusState) : (e : PolicyEffect) → e.Reply
  | .validate expr => cel.verdict expr
  | .nowText => "2024-01-01T00:00:00.000Z"
  | .patchStatus ns name _ =>
      if s.Addresses ns name then .ok () else .error (.kubeError "no such policy")
  | .storeState => []
  | .publish _ => ()
  | .listPods _ _ => .ok []
  | .patchPod _ _ _ => .ok ()

theorem StatusState.permits_plainAnswer (cel : CelEngine) (s : StatusState) (e : PolicyEffect) :
    s.Permits cel e (s.plainAnswer cel e) := by
  cases e with
  | patchStatus ns name _ =>
      show (if s.Addresses ns name then _ else _ : Except Error Unit).isOk = _
      split
      case isTrue haddress => rw [decide_eq_true haddress]; rfl
      case isFalse haddress => rw [decide_eq_false haddress]; rfl
  | validate expr => exact rfl
  | _ => trivial

/-- An object that can be read can be edited. -/
theorem exists_statusStep (cel : CelEngine) (operatorPodName : String) (object : PolicyObject)
    {status : Option DepodPolicyStatus} (hread : object.readStatus = some status)
    (spec : DepodPolicySpec) :
    ∃ edit object', edit.spec = spec ∧ StatusStep cel operatorPodName object edit object' := by
  have hdelivered : (object.edited spec).DeliveredAs
      { metadata := { namespace_ := some object.ns, name := some object.name }, spec, status } :=
    ⟨rfl, rfl, rfl, hread⟩
  have hexec := exec_run (P := statusProtocol cel)
    (h := fun e s => (s.plainAnswer cel e, s.after e)) (fun e s => ⟨s.permits_plainAnswer cel e, rfl⟩)
    (reconcilePolicy operatorPodName
      { metadata := { namespace_ := some object.ns, name := some object.name }, spec, status })
    ⟨object.edited spec, 0⟩
  exact ⟨⟨spec, _⟩, _, rfl, _, hdelivered, _, hexec⟩

/-- The policy `cleanup` of an hour, with no status. -/
def cleanupObject : PolicyObject := ⟨"default", "cleanup", (ttlPolicy "cleanup" 3600).spec, none⟩

/-- For the edit of the policy to a time to live of zero, which is invalid. -/
theorem status_settles_invalid :
    let cel : CelEngine := ⟨Unit, fun _ => .ok ()⟩
    ∃ edit object', edit.spec = (ttlPolicy "cleanup" 0).spec ∧
      StatusStep cel "operator" cleanupObject edit object' ∧
      object'.Settled cel "operator" ∧ object'.TellsVerdict cel := by
  intro cel
  obtain ⟨edit, object', hspec, hstep⟩ :=
    exists_statusStep cel "operator" cleanupObject rfl (ttlPolicy "cleanup" 0).spec
  obtain ⟨hsettled, htells⟩ := status_settles (π := [(edit, object')]) ⟨hstep, trivial⟩
  exact ⟨edit, object', hspec, hstep, (hsettled _ (List.mem_singleton_self _)).2.2,
    htells rfl _ (List.mem_singleton_self _)⟩

end KubeDepod
