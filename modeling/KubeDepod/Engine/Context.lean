/-
KubeDepod/Engine/Context.lean

The variables that a CEL expression sees.

`build_evaluation_context` binds the pod and its parts, converted by
`serde_json` and by the `cel` crate (a parameter, `CelConversion`), and two
integers of its own: `now` and `age`, in whole seconds.  The age is the
difference of two timestamps that are each rounded down, and at least zero; the
built-in TTL condition truncates the difference of the two instants instead.
For creation times in whole seconds the two agree about every positive TTL
(`evaluateTtlCondition_iff_age`).
-/
import KubeDepod.Controller.Ages
import KubeDepod.Lib.MergePatch
import Mathlib.Logic.Function.Basic

namespace KubeDepod

/-! ### The context -/

/-- `serde_json::to_value` and `cel::to_value`; errors are represented by their
texts. -/
structure CelConversion where
  Json : Type
  Converted : Type
  pod : Pod → Except String Json
  metadata : ObjectMeta → Except String Json
  spec : String → Except String Json
  status : String → Except String Json
  emptyObject : Json
  toValue : Json → Except String Converted

/-- The JSON value of the pod exists and can be converted. -/
def CelConversion.Converts (conv : CelConversion) (pod : Pod) : Prop :=
  ∃ json value, conv.pod pod = .ok json ∧ conv.toValue json = .ok value

/-- `cel::Value`: an integer, or a converted JSON value. -/
inductive CelValue (conv : CelConversion) where
  | int (i : Int64)
  | converted (value : conv.Converted)

/-- `cel::Context`, as far as its variables are concerned. -/
structure CelContext (conv : CelConversion) where
  vars : String → Option (CelValue conv)

namespace CelContext

variable {conv : CelConversion}

/-- `Context::default`. -/
def default : CelContext conv := ⟨fun _ => none⟩

/-- `context.add_variable(name, value)`. -/
def addVariable (context : CelContext conv) (name : String) (value : CelValue conv) :
    CelContext conv :=
  ⟨Function.update context.vars name (some value)⟩

/-- A shortcut is added if its value can be converted. -/
def addShortcut (context : CelContext conv) (name : String) (json : Except String conv.Json) :
    CelContext conv :=
  match json with
  | .ok json =>
      match conv.toValue json with
      | .ok value => context.addVariable name (.converted value)
      | .error _ => context
  | .error _ => context

/-- The shortcuts `metadata`, `spec` and `status`. -/
def addShortcuts (context : CelContext conv) (pod : Pod) : CelContext conv :=
  let context := context.addShortcut "metadata" (conv.metadata pod.metadata)
  let context := match pod.spec with
    | some spec => context.addShortcut "spec" (conv.spec spec)
    | none => context
  match pod.status with
  | some status => context.addShortcut "status" (conv.status status)
  | none => context.addShortcut "status" (.ok conv.emptyObject)

end CelContext

/-- The value of `age`, given the value of `now`. -/
def ageAt (now : Int64) (created : DateTime) : Int64 :=
  let createdTs := created.timestamp
  let age := now - createdTs
  if age < 0 then 0 else age    -- protects against clock skew

/-- The variables `now` and `age`. -/
def CelContext.addTimes {conv : CelConversion} (context : CelContext conv) (pod : Pod)
    (now : DateTime) : CelContext conv :=
  let now := now.timestamp
  let context := context.addVariable "now" (.int now)
  match pod.metadata.creationTimestamp with
  | some created => context.addVariable "age" (.int (ageAt now created))
  | none => context

/-- `build_evaluation_context`, at clock reading `now`. -/
def buildEvaluationContext (conv : CelConversion) (pod : Pod) (now : DateTime) :
    Except Error (CelContext conv) := do
  let podJson ← (conv.pod pod).mapError Error.serdeError
  let celPodValue ← (conv.toValue podJson).mapError Error.celEvaluationError
  let context := CelContext.default.addVariable "pod" (.converted celPodValue)
  return (context.addShortcuts pod).addTimes pod now

/-! ### The variable `age` -/

namespace CelContext

variable {conv : CelConversion} {context : CelContext conv}

@[simp] theorem addVariable_self (name : String) (value : CelValue conv) :
    (context.addVariable name value).vars name = some value := Function.update_self ..

theorem addVariable_of_ne {name other : String} (h : other ≠ name) (value : CelValue conv) :
    (context.addVariable name value).vars other = context.vars other :=
  Function.update_of_ne h ..

theorem addShortcut_of_ne {name other : String} (h : other ≠ name)
    (json : Except String conv.Json) :
    (context.addShortcut name json).vars other = context.vars other := by
  unfold addShortcut
  split
  · split
    · exact addVariable_of_ne h _
    · rfl
  · rfl

theorem addShortcuts_of_ne {other : String} (hmetadata : other ≠ "metadata")
    (hspec : other ≠ "spec") (hstatus : other ≠ "status") (pod : Pod) :
    (context.addShortcuts pod).vars other = context.vars other := by
  unfold addShortcuts
  rcases pod.status with - | status <;> rcases pod.spec with - | spec <;>
    simp only [addShortcut_of_ne hmetadata, addShortcut_of_ne hspec, addShortcut_of_ne hstatus]

theorem addTimes_age (pod : Pod) (now : DateTime) :
    (context.addTimes pod now).vars "age"
      = match pod.metadata.creationTimestamp with
        | some created => some (.int (ageAt now.timestamp created))
        | none => context.vars "age" := by
  unfold addTimes
  rcases pod.metadata.creationTimestamp with - | created
  · exact addVariable_of_ne (by decide) _
  · exact addVariable_self ..

end CelContext

variable {conv : CelConversion} {pod : Pod} {now created : DateTime}

theorem buildEvaluationContext_of_converts {json : conv.Json} {value : conv.Converted}
    (hjson : conv.pod pod = .ok json) (hvalue : conv.toValue json = .ok value) :
    buildEvaluationContext conv pod now
      = .ok (((CelContext.default.addVariable "pod" (.converted value)).addShortcuts pod).addTimes
          pod now) := by
  rw [buildEvaluationContext, hjson]
  show ((conv.toValue json).mapError Error.celEvaluationError >>= _ : Except Error _) = _
  rw [hvalue]
  rfl

/-- The context binds `age` exactly for a pod with a creation time. -/
theorem buildEvaluationContext_age (now : DateTime) (hconv : conv.Converts pod) :
    ∃ context, buildEvaluationContext conv pod now = .ok context ∧
      context.vars "age"
        = pod.metadata.creationTimestamp.map fun created => .int (ageAt now.timestamp created) := by
  obtain ⟨json, value, hjson, hvalue⟩ := hconv
  refine ⟨_, buildEvaluationContext_of_converts hjson hvalue, ?_⟩
  rw [CelContext.addTimes_age]
  rcases pod.metadata.creationTimestamp with - | created
  · -- none of the other variables has this name
    show CelContext.vars _ "age" = none
    rw [CelContext.addShortcuts_of_ne (by decide) (by decide) (by decide),
      CelContext.addVariable_of_ne (by decide)]
    rfl
  · rfl

/-- A timestamp fits in an `i64`. -/
theorem toInt_timestamp (t : DateTime) : t.timestamp.toInt = t.nanos / nanosPerSecond := by
  have := t.min_le
  have := t.lt_max
  simp only [nanosPerSecond] at *
  apply Int64.toInt_ofInt_of_le
  · show _ ≤ t.nanos / 1000000000
    omega
  · show t.nanos / 1000000000 < _
    omega

/-- The value of `age`, over the integers. -/
theorem toInt_ageAt (now created : DateTime) :
    (ageAt now.timestamp created).toInt
      = max (now.nanos / nanosPerSecond - created.nanos / nanosPerSecond) 0 := by
  have hsub : (now.timestamp - created.timestamp).toInt
      = now.nanos / nanosPerSecond - created.nanos / nanosPerSecond := by
    rw [Int64.toInt_sub, toInt_timestamp, toInt_timestamp]
    have := now.min_le
    have := now.lt_max
    have := created.min_le
    have := created.lt_max
    simp only [nanosPerSecond] at *
    apply Int.bmod_eq_of_le <;> omega
  have hzero : (0 : Int64).toInt = 0 := rfl
  rw [← hsub, ageAt]
  split
  case isTrue hneg =>
    rw [Int64.lt_iff_toInt_lt, hzero] at hneg
    rw [hzero, max_eq_right (Int.le_of_lt hneg)]
  case isFalse hneg =>
    rw [Int64.lt_iff_toInt_lt, hzero] at hneg
    rw [max_eq_left (Int.not_lt.mp hneg)]

/-! ### The two ages -/

/-- The instant is a whole number of seconds. -/
def DateTime.IsWhole (t : DateTime) : Prop := ∃ seconds : Int, t.nanos = seconds * nanosPerSecond

/-- Beyond a positive TTL, the truncated difference and the difference of the
rounded instants are the same, if one of the instants is whole. -/
theorem lt_ageAt_iff (hwhole : created.IsWhole) {ttl : Int64} (hpos : 0 < ttl) :
    ttl < ageAt now.timestamp created ↔
      created.nanos + (ttl.toInt + 1) * nanosPerSecond ≤ now.nanos := by
  obtain ⟨seconds, hseconds⟩ := hwhole
  have hpos : 0 < ttl.toInt := Int64.lt_iff_toInt_lt.mp hpos
  rw [Int64.lt_iff_toInt_lt, toInt_ageAt, hseconds]
  simp only [nanosPerSecond] at *
  omega

/-- **The built-in TTL and the CEL age agree.**  For a pod without creation
time or with one in whole seconds, in the past or in the future, and for every
clock reading and positive TTL: the built-in condition is true exactly if the
context binds `age` to an integer greater than the TTL. -/
theorem evaluateTtlCondition_iff_age (conv : CelConversion) (pod : Pod) (ttl : Int64)
    (now : DateTime) (hconv : conv.Converts pod)
    (hwhole : ∀ created, pod.metadata.creationTimestamp = some created → created.IsWhole)
    (hpos : 0 < ttl) :
    evaluateTtlCondition pod ttl now = true ↔
      ∃ context age, buildEvaluationContext conv pod now = .ok context ∧
        context.vars "age" = some (.int age) ∧ ttl < age := by
  obtain ⟨context, hcontext, hage⟩ := buildEvaluationContext_age now hconv
  rcases hcreated : pod.metadata.creationTimestamp with - | created
  · rw [hcreated] at hage
    refine iff_of_false ?_ ?_
    · simp [evaluateTtlCondition, hcreated]
    · rintro ⟨context', age, hcontext', hage', -⟩
      obtain rfl : context = context' := Except.ok.inj (hcontext.symm.trans hcontext')
      rw [hage] at hage'
      cases hage'
  · rw [hcreated] at hage
    rw [evaluateTtlCondition_iff hcreated hpos, ← lt_ageAt_iff (hwhole created hcreated) hpos]
    constructor
    · intro hlt
      exact ⟨context, _, hcontext, hage, hlt⟩
    · rintro ⟨context', age, hcontext', hage', hlt⟩
      obtain rfl : context = context' := Except.ok.inj (hcontext.symm.trans hcontext')
      rw [hage] at hage'
      cases hage'
      exact hlt

/-- The conversion of `epochPod`. -/
def epochPodConversion : CelConversion where
  Json := MergePatch.Json Int
  Converted := MergePatch.Json Int
  pod := fun pod => .ok (.obj [("apiVersion", .str "v1"), ("kind", .str "Pod"),
    ("metadata", metadata pod.metadata)])
  metadata := fun objectMeta => .ok (metadata objectMeta)
  spec := fun _ => .error "the pod has no spec"
  status := fun _ => .error "the pod has no status"
  emptyObject := .obj []
  toValue := .ok
where
  metadata (objectMeta : ObjectMeta) : MergePatch.Json Int :=
    .obj [("annotations", .obj [("kube-depod/enabled", .str "true")]),
      ("creationTimestamp", .str "1970-01-01T00:00:00Z"), ("name", .str objectMeta.nameAny),
      ("namespace", .str (objectMeta.namespace_.getD "")), ("uid", .str (objectMeta.uid.getD ""))]

/-- A minute and a half second after the creation, with a TTL of a minute. -/
theorem evaluateTtlCondition_iff_age_halfSecond :
    let now : DateTime := ⟨60500000000, by decide, by decide⟩
    evaluateTtlCondition epochPod 60 now = true ↔
      ∃ context age, buildEvaluationContext epochPodConversion epochPod now = .ok context ∧
        context.vars "age" = some (.int age) ∧ 60 < age := by
  intro now
  refine evaluateTtlCondition_iff_age epochPodConversion epochPod 60 now ⟨_, _, rfl, rfl⟩ ?_
    (by decide)
  rintro created ⟨⟩
  exact ⟨0, rfl⟩

end KubeDepod
