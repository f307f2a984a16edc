/-
KubeDepod/Crd/Schema.lean

The schema that `manifests/crd.yaml` gives for the spec of a policy, and the
decoder of the operator.

The API server checks a spec against the schema and fills in its defaults; what
it stores, the operator reads with `serde`.  The two were written apart: an
integer of the schema has any size, and the schema protects the system
namespaces by default while `#[serde(default)]` does not.

`decodeSpec_fill` says what comes of it.  A stored spec is read unless one of its
three integers is too large for its field, and the defaults of the schema change
what is read in one field only.
-/
import KubeDepod.Crd.Serde
import KubeDepod.Lib.Schema

namespace KubeDepod

open MergePatch

/-! ### The schema -/

def namespaceSelectorSchema : Schema Int :=
  .object [] (.cons "matchNames" none (.array .string) .nil)

def podSelectorSchema : Schema Int :=
  .object [] (.cons "matchLabels" none (.map .string) .nil)

def matchSchema : Schema Int :=
  .object []
    (.cons "namespaceSelector" none namespaceSelectorSchema
      (.cons "podSelector" none podSelectorSchema .nil))

def triggerSchema : Schema Int :=
  .object ["annotationKey", "annotationValues"]
    (.cons "annotationKey" none .string
      (.cons "annotationValues" none (.array .string) .nil))

def whenSchema : Schema Int :=
  .object ["type"]
    (.cons "type" none (.enum ["Builtin", "CEL"])
      (.cons "expression" none .string
        (.cons "ttlSeconds" none .integer .nil)))

def thenSchema : Schema Int :=
  .object ["type"]
    (.cons "type" none (.enum ["Delete", "Evict"])
      (.cons "gracePeriodSeconds" none .integer
        (.cons "dryRun" (some (.bool false)) .boolean .nil)))

def limitsSchema : Schema Int :=
  .object []
    (.cons "maxDeletesPerMinute" none .integer
      (.cons "protectSystemNamespaces" (some (.bool true)) .boolean
        (.cons "excludedNamespaces" none (.array .string) .nil)))

/-- `spec` in the `openAPIV3Schema`. -/
def specSchema : Schema Int :=
  .object ["match", "trigger", "when", "then", "limits"]
    (.cons "match" none matchSchema
      (.cons "trigger" none triggerSchema
        (.cons "when" none whenSchema
          (.cons "then" none thenSchema
            (.cons "limits" none limitsSchema .nil)))))

/-! ### Reading a field -/

variable {α : Type} {schema : Schema Int} {decode : Json → Option α} {j j' value : Json}
variable {name : String}

theorem ne_null_of_valid (h : schema.valid value = true) : value ≠ .null := by
  rintro rfl
  cases schema <;> cases h

/-- The field, if it is there, has the form of the schema. -/
def HasForm (schema : Schema Int) (j : Json) (name : String) : Prop :=
  ∀ value, j.field name = some value → schema.valid value = true

theorem optional_of_some (hform : HasForm schema j name) (hvalue : j.field name = some value) :
    optional decode j name = (decode value).map some := by
  rw [optional, hvalue]
  have hne := ne_null_of_valid (hform value hvalue)
  split
  case h_1 h => cases h
  case h_2 h => exact absurd (Option.some.inj h) hne
  case h_3 h => rw [Option.some.inj h]

/-- An optional field is read if its value is. -/
theorem isSome_optional (hform : HasForm schema j name) :
    (optional decode j name).isSome = true ↔
      ∀ value, j.field name = some value → (decode value).isSome = true := by
  rcases hfield : j.field name with - | value
  · simp [optional, hfield]
  · rw [optional_of_some hform hfield, Option.isSome_map]
    simp

theorem isSome_defaulted {default : α} :
    (defaulted decode default j name).isSome = true ↔
      ∀ value, j.field name = some value → (decode value).isSome = true := by
  rcases hfield : j.field name with - | value
  · simp [defaulted, hfield]
  · simp [defaulted, hfield]

theorem isSome_required (hthere : (j.field name).isSome = true) :
    (required decode j name).isSome = true ↔
      ∀ value, j.field name = some value → (decode value).isSome = true := by
  obtain ⟨value, hfield⟩ := Option.isSome_iff_exists.mp hthere
  simp [required, hfield]

/-- What the schema lets through is read. -/
def Reads (schema : Schema Int) (decode : Json → Option α) : Prop :=
  ∀ value, schema.valid value = true → (decode value).isSome = true

theorem Reads.of_form (h : Reads schema decode) (hform : HasForm schema j name) :
    ∀ value, j.field name = some value → (decode value).isSome = true :=
  fun value hvalue => h value (hform value hvalue)

/-! ### Scalars and collections -/

theorem reads_string : Reads .string decodeString := by
  intro value h
  cases value <;> first | rfl | cases h

theorem reads_boolean : Reads .boolean decodeBool := by
  intro value h
  cases value <;> first | rfl | cases h

theorem reads_conditionType : Reads (.enum ["Builtin", "CEL"]) decodeConditionType := by
  intro value h
  cases value <;> simp [Schema.valid] at h
  rcases h with rfl | rfl <;> rfl

theorem reads_actionType : Reads (.enum ["Delete", "Evict"]) decodeActionType := by
  intro value h
  cases value <;> simp [Schema.valid] at h
  rcases h with rfl | rfl <;> rfl

theorem isSome_mapM {β γ : Type} {f : β → Option γ} {l : List β}
    (h : ∀ a ∈ l, (f a).isSome = true) : (l.mapM f).isSome = true := by
  induction l with
  | nil => rfl
  | cons a l ih =>
      obtain ⟨hfirst, hrest⟩ := List.forall_mem_cons.mp h
      obtain ⟨b, hb⟩ := Option.isSome_iff_exists.mp hfirst
      obtain ⟨bs, hbs⟩ := Option.isSome_iff_exists.mp (ih hrest)
      rw [List.mapM_cons, hb, hbs]
      rfl

theorem reads_strings : Reads (.array .string) (decodeList decodeString) := by
  intro value h
  cases value <;> simp only [Schema.valid, List.all_eq_true, Bool.false_eq_true] at h
  exact isSome_mapM fun element helement => reads_string element (h element helement)

theorem reads_stringSet : Reads (.array .string) decodeStringSet := by
  intro value h
  rw [decodeStringSet, Option.isSome_map]
  exact reads_strings value h

theorem reads_stringMap : Reads (.map .string) decodeStringMap := by
  intro value h
  cases value <;> simp only [Schema.valid, List.all_eq_true, Bool.false_eq_true] at h
  rw [decodeStringMap, Option.isSome_map]
  refine isSome_mapM fun member hmember => ?_
  rw [Option.isSome_map]
  exact reads_string member.2 (h member hmember)

/-- A field too large for its type is all that is not read. -/
def Fits (bound : Int) (value : Option Json) : Prop :=
  ∀ n, value = some (.num n) → -bound ≤ n ∧ n < bound

theorem isSome_decodeI64 (hform : HasForm .integer j name) :
    (∀ value, j.field name = some value → (decodeI64 value).isSome = true) ↔
      Fits (2 ^ 63) (j.field name) := by
  rcases hfield : j.field name with - | value
  · simp [Fits]
  · have hvalid := hform value hfield
    cases value <;> simp [Schema.valid] at hvalid
    simp [Fits, decodeI64, Option.isSome_ite]

theorem isSome_decodeI32 (hform : HasForm .integer j name) :
    (∀ value, j.field name = some value → (decodeI32 value).isSome = true) ↔
      Fits (2 ^ 31) (j.field name) := by
  rcases hfield : j.field name with - | value
  · simp [Fits]
  · have hvalid := hform value hfield
    cases value <;> simp [Schema.valid] at hvalid
    simp [Fits, decodeI32, Option.isSome_ite]

/-! ### The structs -/

section
variable {required_ : List String} {properties : Properties Int}

/-- A valid object, taken apart. -/
theorem valid_object (h : (Schema.object required_ properties).valid j = true) :
    (∃ members, j = .obj members) ∧ (∀ name ∈ required_, (j.field name).isSome = true) ∧
      ∀ property ∈ properties.toList, HasForm property.schema j property.name := by
  cases j with
  | obj members =>
      rw [Schema.valid, Bool.and_eq_true, List.all_eq_true, Schema.validProperties_iff] at h
      exact ⟨⟨members, rfl⟩, h⟩
  | null => cases h
  | bool b => cases h
  | num n => cases h
  | str s => cases h
  | arr elements => cases h

/-- A filled object, and its fields. -/
theorem fill_object (hwell : (Schema.object required_ properties).wellFormed = true)
    (h : (Schema.object required_ properties).valid j = true) :
    ∃ members, (Schema.object required_ properties).fill j = .obj members ∧
      ∀ property ∈ properties.toList,
        Json.field property.name (.obj members)
          = ((j.field property.name).or property.default).map property.schema.fill := by
  obtain ⟨⟨members, rfl⟩, -⟩ := valid_object h
  exact ⟨_, rfl, fun property hmem => Schema.lookup_fillProperties hwell hmem⟩

end

section
variable {β γ : Type} {x : Option β} {f : β → Option γ}

/-- A sequence of reads succeeds if each of them does. -/
theorem isSome_bind {p : Prop} (hf : ∀ a, (f a).isSome = true ↔ p) :
    (x.bind f).isSome = true ↔ x.isSome = true ∧ p := by
  cases x with
  | none => simp
  | some a => simp [hf a]

theorem isSome_bind_pure {g : β → γ} :
    (x.bind fun a => pure (g a)).isSome = true ↔ x.isSome = true := by
  cases x <;> simp

end

theorem reads_namespaceSelector : Reads namespaceSelectorSchema decodeNamespaceSelector := by
  intro j h
  obtain ⟨⟨members, rfl⟩, -, hform⟩ := valid_object h
  have hnames := hform _ (List.mem_cons_self ..)
  exact isSome_bind_pure.mpr (isSome_defaulted.mpr (reads_strings.of_form hnames))

theorem reads_podSelector : Reads podSelectorSchema decodePodSelector := by
  intro j h
  obtain ⟨⟨members, rfl⟩, -, hform⟩ := valid_object h
  have hlabels := hform _ (List.mem_cons_self ..)
  exact isSome_bind_pure.mpr (isSome_defaulted.mpr (reads_stringMap.of_form hlabels))

theorem reads_match : Reads matchSchema decodeMatch := by
  intro j h
  obtain ⟨⟨members, rfl⟩, -, hform⟩ := valid_object h
  simp only [Properties.toList, List.forall_mem_cons] at hform
  obtain ⟨hnamespace, hpod, -⟩ := hform
  refine (isSome_bind fun _ => isSome_bind_pure).mpr ⟨?_, ?_⟩
  · exact (isSome_optional hnamespace).mpr (reads_namespaceSelector.of_form hnamespace)
  · exact (isSome_optional hpod).mpr (reads_podSelector.of_form hpod)

theorem reads_trigger : Reads triggerSchema decodeTrigger := by
  intro j h
  obtain ⟨⟨members, rfl⟩, hthere, hform⟩ := valid_object h
  simp only [Properties.toList, List.forall_mem_cons] at hthere hform
  obtain ⟨hkeyThere, hvaluesThere, -⟩ := hthere
  obtain ⟨hkey, hvalues, -⟩ := hform
  refine (isSome_bind fun _ => isSome_bind_pure).mpr ⟨?_, ?_⟩
  · exact (isSome_required hkeyThere).mpr (reads_string.of_form hkey)
  · exact (isSome_required hvaluesThere).mpr (reads_stringSet.of_form hvalues)

theorem isSome_decodeWhen (h : whenSchema.valid j = true) :
    (decodeWhen j).isSome = true ↔ Fits (2 ^ 63) (j.field "ttlSeconds") := by
  obtain ⟨⟨members, rfl⟩, hthere, hform⟩ := valid_object h
  simp only [Properties.toList, List.forall_mem_cons] at hthere hform
  obtain ⟨htypeThere, -⟩ := hthere
  obtain ⟨htype, hexpression, httl, -⟩ := hform
  refine (isSome_bind fun _ => isSome_bind fun _ => isSome_bind_pure).trans ?_
  rw [isSome_required htypeThere, isSome_optional hexpression, isSome_optional httl,
    isSome_decodeI64 httl, and_iff_right (reads_conditionType.of_form htype),
    and_iff_right (reads_string.of_form hexpression)]

theorem isSome_decodeThen (h : thenSchema.valid j = true) :
    (decodeThen j).isSome = true ↔ Fits (2 ^ 63) (j.field "gracePeriodSeconds") := by
  obtain ⟨⟨members, rfl⟩, hthere, hform⟩ := valid_object h
  simp only [Properties.toList, List.forall_mem_cons] at hthere hform
  obtain ⟨htypeThere, -⟩ := hthere
  obtain ⟨htype, hgrace, hdry, -⟩ := hform
  refine (isSome_bind fun _ => isSome_bind fun _ => isSome_bind_pure).trans ?_
  rw [isSome_required htypeThere, isSome_optional hgrace, isSome_decodeI64 hgrace, isSome_defaulted,
    and_iff_right (reads_actionType.of_form htype), and_iff_left (reads_boolean.of_form hdry)]

theorem isSome_decodeLimits (h : limitsSchema.valid j = true) :
    (decodeLimits j).isSome = true ↔ Fits (2 ^ 31) (j.field "maxDeletesPerMinute") := by
  obtain ⟨⟨members, rfl⟩, -, hform⟩ := valid_object h
  simp only [Properties.toList, List.forall_mem_cons] at hform
  obtain ⟨hmax, hprotect, hexcluded, -⟩ := hform
  refine (isSome_bind fun _ => isSome_bind fun _ => isSome_bind_pure).trans ?_
  rw [isSome_optional hmax, isSome_decodeI32 hmax, isSome_defaulted, isSome_optional hexcluded,
    and_iff_left ⟨reads_boolean.of_form hprotect, reads_strings.of_form hexcluded⟩]

/-! ### Filled documents -/

/-- The defaults of the schema do not change what is read. -/
def ReadsFilled (schema : Schema Int) (decode : Json → Option α) : Prop :=
  ∀ value, schema.valid value = true → decode (schema.fill value) = decode value

theorem readsFilled_strings : ReadsFilled (.array .string) (decodeList decodeString) := by
  intro value h
  have hid : (fun element => Schema.string.fill element) = (id : Json → Json) := rfl
  cases value with
  | arr elements => rw [Schema.fill, hid, List.map_id]
  | _ => rfl

theorem readsFilled_stringSet : ReadsFilled (.array .string) decodeStringSet := by
  intro value h
  rw [decodeStringSet, decodeStringSet, readsFilled_strings value h]

theorem readsFilled_stringMap : ReadsFilled (.map .string) decodeStringMap := by
  intro value h
  have hid : (fun member : String × Json => (member.1, Schema.string.fill member.2)) = id := rfl
  cases value with
  | obj members => rw [Schema.fill, hid, List.map_id]
  | _ => rfl

section
variable (hfill : ReadsFilled schema decode) (hform : HasForm schema j name)
include hfill hform

theorem required_fill (hfield : j'.field name = (j.field name).map schema.fill) :
    required decode j' name = required decode j name := by
  rw [required, required, hfield]
  rcases hvalue : j.field name with - | value
  · rfl
  · exact hfill value (hform value hvalue)

theorem optional_fill (hwell : schema.wellFormed = true)
    (hfield : j'.field name = (j.field name).map schema.fill) :
    optional decode j' name = optional decode j name := by
  rcases hvalue : j.field name with - | value
  · rw [hvalue, Option.map_none] at hfield
    rw [optional, optional, hfield, hvalue]
  · rw [hvalue, Option.map_some] at hfield
    have hform' : HasForm schema j' name := by
      intro value' hvalue'
      obtain rfl := Option.some.inj (hfield.symm.trans hvalue')
      exact Schema.valid_fill hwell (hform value hvalue)
    rw [optional_of_some hform' hfield, optional_of_some hform hvalue,
      hfill value (hform value hvalue)]

/-- A field with a default in the schema: where it is missing, the default of
the schema is read. -/
theorem defaulted_fill (default default' : α) {filled : Option Json}
    (hfield : j'.field name = ((j.field name).or filled).map schema.fill)
    (hdefault : (match filled.map schema.fill with
      | none => some default
      | some value => decode value) = some default') :
    defaulted decode default j' name = defaulted decode default' j name := by
  rw [defaulted, defaulted, hfield]
  rcases hvalue : j.field name with - | value
  · exact hdefault
  · exact hfill value (hform value hvalue)

end

theorem readsFilled_namespaceSelector :
    ReadsFilled namespaceSelectorSchema decodeNamespaceSelector := by
  intro j h
  obtain ⟨members', hfilled, hfield⟩ := fill_object rfl h
  obtain ⟨⟨members, rfl⟩, -, hform⟩ := valid_object h
  have hnames := defaulted_fill readsFilled_strings (hform _ (List.mem_cons_self ..)) [] []
    (hfield _ (List.mem_cons_self ..)) rfl
  refine (congrArg decodeNamespaceSelector hfilled).trans ?_
  simp only [decodeNamespaceSelector, decodeStruct, hnames]

theorem readsFilled_podSelector : ReadsFilled podSelectorSchema decodePodSelector := by
  intro j h
  obtain ⟨members', hfilled, hfield⟩ := fill_object rfl h
  obtain ⟨⟨members, rfl⟩, -, hform⟩ := valid_object h
  have hlabels := defaulted_fill readsFilled_stringMap (hform _ (List.mem_cons_self ..)) .empty
    .empty (hfield _ (List.mem_cons_self ..)) rfl
  refine (congrArg decodePodSelector hfilled).trans ?_
  simp only [decodePodSelector, decodeStruct, hlabels]

theorem readsFilled_match : ReadsFilled matchSchema decodeMatch := by
  intro j h
  obtain ⟨members', hfilled, hfield⟩ := fill_object rfl h
  obtain ⟨⟨members, rfl⟩, -, hform⟩ := valid_object h
  simp only [Properties.toList, List.forall_mem_cons, Option.or_none] at hfield hform
  obtain ⟨hnamespaceField, hpodField, -⟩ := hfield
  obtain ⟨hnamespaceForm, hpodForm, -⟩ := hform
  have hnamespace :=
    optional_fill readsFilled_namespaceSelector hnamespaceForm rfl hnamespaceField
  have hpod := optional_fill readsFilled_podSelector hpodForm rfl hpodField
  refine (congrArg decodeMatch hfilled).trans ?_
  simp only [decodeMatch, decodeStruct, hnamespace, hpod]

/-- Nothing is filled into a scalar. -/
theorem readsFilled_of_fill_eq (h : ∀ value, schema.fill value = value) :
    ReadsFilled schema decode :=
  fun value _ => congrArg decode (h value)

theorem readsFilled_trigger : ReadsFilled triggerSchema decodeTrigger := by
  intro j h
  obtain ⟨members', hfilled, hfield⟩ := fill_object rfl h
  obtain ⟨⟨members, rfl⟩, -, hform⟩ := valid_object h
  simp only [Properties.toList, List.forall_mem_cons, Option.or_none] at hfield hform
  obtain ⟨hkeyField, hvaluesField, -⟩ := hfield
  obtain ⟨hkeyForm, hvaluesForm, -⟩ := hform
  have hkey : required decodeString _ _ = required decodeString _ _ :=
    required_fill (readsFilled_of_fill_eq fun _ => rfl) hkeyForm hkeyField
  have hvalues := required_fill readsFilled_stringSet hvaluesForm hvaluesField
  refine (congrArg decodeTrigger hfilled).trans ?_
  simp only [decodeTrigger, decodeStruct, hkey, hvalues]

theorem readsFilled_when : ReadsFilled whenSchema decodeWhen := by
  intro j h
  obtain ⟨members', hfilled, hfield⟩ := fill_object rfl h
  obtain ⟨⟨members, rfl⟩, -, hform⟩ := valid_object h
  simp only [Properties.toList, List.forall_mem_cons, Option.or_none] at hfield hform
  obtain ⟨htypeField, hexpressionField, httlField, -⟩ := hfield
  obtain ⟨htypeForm, hexpressionForm, httlForm, -⟩ := hform
  have htype : required decodeConditionType _ _ = required decodeConditionType _ _ :=
    required_fill (readsFilled_of_fill_eq fun _ => rfl) htypeForm htypeField
  have hexpression : optional decodeString _ _ = optional decodeString _ _ :=
    optional_fill (readsFilled_of_fill_eq fun _ => rfl) hexpressionForm rfl hexpressionField
  have httl : optional decodeI64 _ _ = optional decodeI64 _ _ :=
    optional_fill (readsFilled_of_fill_eq fun _ => rfl) httlForm rfl httlField
  refine (congrArg decodeWhen hfilled).trans ?_
  simp only [decodeWhen, decodeStruct, htype, hexpression, httl]

theorem readsFilled_then : ReadsFilled thenSchema decodeThen := by
  intro j h
  obtain ⟨members', hfilled, hfield⟩ := fill_object rfl h
  obtain ⟨⟨members, rfl⟩, -, hform⟩ := valid_object h
  simp only [Properties.toList, List.forall_mem_cons, Option.or_none] at hfield hform
  obtain ⟨htypeField, hgraceField, hdryField, -⟩ := hfield
  obtain ⟨htypeForm, hgraceForm, hdryForm, -⟩ := hform
  have htype : required decodeActionType _ _ = required decodeActionType _ _ :=
    required_fill (readsFilled_of_fill_eq fun _ => rfl) htypeForm htypeField
  have hgrace : optional decodeI64 _ _ = optional decodeI64 _ _ :=
    optional_fill (readsFilled_of_fill_eq fun _ => rfl) hgraceForm rfl hgraceField
  -- the schema and `serde` have the same default
  have hdry : defaulted decodeBool _ _ _ = defaulted decodeBool _ _ _ :=
    defaulted_fill (readsFilled_of_fill_eq fun _ => rfl) hdryForm false false hdryField rfl
  refine (congrArg decodeThen hfilled).trans ?_
  simp only [decodeThen, decodeStruct, htype, hgrace, hdry]

/-- The limits with their protection of the system namespaces as the field of
the document says, and on where there is no such field. -/
def Limits.protectedBy (limits : Limits) (protect : Option Json) : Limits :=
  { limits with protectSystemNamespaces := (protect.bind decodeBool).getD true }

theorem decodeLimits_fill (h : limitsSchema.valid j = true) :
    decodeLimits (limitsSchema.fill j) = (decodeLimits j).map fun limits =>
      limits.protectedBy (j.field "protectSystemNamespaces") := by
  obtain ⟨members', hfilled, hfield⟩ := fill_object rfl h
  obtain ⟨⟨members, rfl⟩, -, hform⟩ := valid_object h
  simp only [Properties.toList, List.forall_mem_cons, Option.or_none] at hfield hform
  obtain ⟨hmaxField, hprotectField, hexcludedField, -⟩ := hfield
  obtain ⟨hmaxForm, hprotectForm, hexcludedForm, -⟩ := hform
  have hmax : optional decodeI32 _ _ = optional decodeI32 _ _ :=
    optional_fill (readsFilled_of_fill_eq fun _ => rfl) hmaxForm rfl hmaxField
  have hprotect : defaulted decodeBool _ _ _ = defaulted decodeBool _ _ _ :=
    defaulted_fill (readsFilled_of_fill_eq fun _ => rfl) hprotectForm false true hprotectField rfl
  have hexcluded := optional_fill readsFilled_strings hexcludedForm rfl hexcludedField
  refine (congrArg decodeLimits hfilled).trans ?_
  simp only [decodeLimits, decodeStruct, hmax, hprotect, hexcluded]
  -- what the field says, it says in both
  have hread : ∀ default, defaulted decodeBool default (.obj members) "protectSystemNamespaces"
      = some (((Json.field "protectSystemNamespaces" (.obj members)).bind decodeBool).getD
          default) := by
    intro default
    rcases hvalue : Json.field "protectSystemNamespaces" (.obj members) with - | value
    · simp [defaulted, hvalue]
    · obtain ⟨b, hb⟩ :=
        Option.isSome_iff_exists.mp (reads_boolean value (hprotectForm value hvalue))
      simp [defaulted, hvalue, hb]
  rw [hread, hread]
  cases optional decodeI32 (.obj members) "maxDeletesPerMinute" with
  | none => rfl
  | some maxDeletesPerMinute =>
      cases optional (decodeList decodeString) (.obj members) "excludedNamespaces" with
      | none => rfl
      | some excludedNamespaces => rfl

/-! ### Whole specs -/

/-- The member of a member. -/
def fieldOf (outer inner : String) (j : Json) : Option Json :=
  (j.field outer).bind (Json.field inner)

/-- The three integers fit into their fields. -/
structure InRange (j : Json) : Prop where
  ttlSeconds : Fits (2 ^ 63) (fieldOf "when" "ttlSeconds" j)
  gracePeriodSeconds : Fits (2 ^ 63) (fieldOf "then" "gracePeriodSeconds" j)
  maxDeletesPerMinute : Fits (2 ^ 31) (fieldOf "limits" "maxDeletesPerMinute" j)

theorem isSome_decodeSpec (h : specSchema.valid j = true) :
    (decodeSpec j).isSome = true ↔ InRange j := by
  obtain ⟨⟨members, rfl⟩, hthere, hform⟩ := valid_object h
  simp only [Properties.toList, List.forall_mem_cons] at hthere hform
  obtain ⟨hmatch, htrigger, hwhen, hthen, hlimits, -⟩ := hform
  obtain ⟨hmatchThere, htriggerThere, hwhenThere, hthenThere, hlimitsThere, -⟩ := hthere
  refine (isSome_bind fun _ => isSome_bind fun _ => isSome_bind fun _ => isSome_bind fun _ =>
    isSome_bind_pure).trans ?_
  rw [isSome_required hmatchThere, isSome_required htriggerThere,
    and_iff_right (reads_match.of_form hmatch), and_iff_right (reads_trigger.of_form htrigger)]
  obtain ⟨when_, hwhenField⟩ := Option.isSome_iff_exists.mp hwhenThere
  obtain ⟨then_, hthenField⟩ := Option.isSome_iff_exists.mp hthenThere
  obtain ⟨limits, hlimitsField⟩ := Option.isSome_iff_exists.mp hlimitsThere
  have hw := isSome_decodeWhen (hwhen when_ hwhenField)
  have ht := isSome_decodeThen (hthen then_ hthenField)
  have hl := isSome_decodeLimits (hlimits limits hlimitsField)
  simp only [required, hwhenField, hthenField, hlimitsField, Option.bind_some, hw, ht, hl]
  constructor
  · rintro ⟨httl, hgrace, hmax⟩
    exact ⟨by simpa [fieldOf, hwhenField] using httl, by simpa [fieldOf, hthenField] using hgrace,
      by simpa [fieldOf, hlimitsField] using hmax⟩
  · rintro ⟨httl, hgrace, hmax⟩
    exact ⟨by simpa [fieldOf, hwhenField] using httl, by simpa [fieldOf, hthenField] using hgrace,
      by simpa [fieldOf, hlimitsField] using hmax⟩

/-- The spec with its system namespaces protected as the document says, and
protected where it does not say. -/
def DepodPolicySpec.protectedBy (spec : DepodPolicySpec) (j : Json) : DepodPolicySpec :=
  { spec with limits := spec.limits.protectedBy (fieldOf "limits" "protectSystemNamespaces" j) }

theorem decodeSpec_fill_eq (h : specSchema.valid j = true) :
    decodeSpec (specSchema.fill j) = (decodeSpec j).map fun spec => spec.protectedBy j := by
  obtain ⟨members', hfilled, hfield⟩ := fill_object rfl h
  obtain ⟨⟨members, rfl⟩, hthere, hform⟩ := valid_object h
  simp only [Properties.toList, List.forall_mem_cons, Option.or_none] at hfield hthere hform
  obtain ⟨hmatchField, htriggerField, hwhenField, hthenField, hlimitsField, -⟩ := hfield
  obtain ⟨hmatchForm, htriggerForm, hwhenForm, hthenForm, hlimitsForm, -⟩ := hform
  obtain ⟨-, -, -, -, hlimitsThere, -⟩ := hthere
  have hmatch := required_fill readsFilled_match hmatchForm hmatchField
  have htrigger := required_fill readsFilled_trigger htriggerForm htriggerField
  have hwhen := required_fill readsFilled_when hwhenForm hwhenField
  have hthen := required_fill readsFilled_then hthenForm hthenField
  obtain ⟨limits, hlimitsValue⟩ := Option.isSome_iff_exists.mp hlimitsThere
  have hlimits : required decodeLimits (.obj members') "limits"
      = (required decodeLimits (.obj members) "limits").map fun limits =>
          limits.protectedBy (fieldOf "limits" "protectSystemNamespaces" (.obj members)) := by
    rw [required, required, fieldOf, hlimitsField, hlimitsValue]
    exact decodeLimits_fill (hlimitsForm limits hlimitsValue)
  refine (congrArg decodeSpec hfilled).trans ?_
  simp only [decodeSpec, decodeStruct, hmatch, htrigger, hwhen, hthen, hlimits]
  -- a read that fails ends both
  rcases required decodeMatch (.obj members) "match" with - | match_
  · rfl
  rcases required decodeTrigger (.obj members) "trigger" with - | trigger
  · rfl
  rcases required decodeWhen (.obj members) "when" with - | when_
  · rfl
  rcases required decodeThen (.obj members) "then" with - | then_
  · rfl
  rcases required decodeLimits (.obj members) "limits" with - | limits
  · rfl
  · rfl

/-- **What the operator makes of an admitted spec.**  The stored document, the
defaults of the schema filled in, is read exactly if its three integers fit into
their fields; and what is read is what `serde` alone would read, but that the
system namespaces are protected unless the document says otherwise. -/
theorem decodeSpec_fill (h : specSchema.valid j = true) :
    ((decodeSpec (specSchema.fill j)).isSome = true ↔ InRange j) ∧
      decodeSpec (specSchema.fill j) = (decodeSpec j).map fun spec => spec.protectedBy j := by
  refine ⟨?_, decodeSpec_fill_eq h⟩
  rw [decodeSpec_fill_eq h, Option.isSome_map]
  exact isSome_decodeSpec h

/-- A policy after three billion deletes a minute is admitted, and not read. -/
theorem decodeSpec_fill_tooMany :
    let j : Json := .obj [("match", .obj []),
      ("trigger", .obj [("annotationKey", .str "kube-depod/enabled"),
        ("annotationValues", .arr [.str "true"])]),
      ("when", .obj [("type", .str "Builtin"), ("ttlSeconds", .num 3600)]),
      ("then", .obj [("type", .str "Delete")]),
      ("limits", .obj [("maxDeletesPerMinute", .num 3000000000)])]
    specSchema.valid j = true ∧ ((decodeSpec (specSchema.fill j)).isSome = true ↔ InRange j) ∧
      ¬ InRange j := by
  intro j
  have hvalid : specSchema.valid j = true := by decide
  refine ⟨hvalid, (decodeSpec_fill hvalid).1, fun hrange => ?_⟩
  have hfits := (hrange.maxDeletesPerMinute 3000000000 rfl).2
  omega

end KubeDepod
