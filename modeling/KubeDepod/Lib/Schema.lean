/-
KubeDepod/Lib/Schema.lean

Structural schemas of JSON documents: scalars, enumerations of strings, arrays,
maps, and objects with required members and with properties that may have a
default.

`valid` checks a document, and `fill` puts the defaults where a property is
missing.  Unknown members are let through by both.  For a schema whose defaults
are valid themselves, a filled document is valid (`valid_fill`), and
`lookup_fillProperties` says what its members are.
-/
import KubeDepod.Lib.MergePatch

namespace MergePatch

/-! ### Schemas -/

mutual

inductive Schema (ν : Type) where
  | boolean
  | integer
  | string
  | enum (values : List String)
  | array (items : Schema ν)
  | map (values : Schema ν)
  | object (required : List String) (properties : Properties ν)

/-- Each property has a name, perhaps a default, and a schema. -/
inductive Properties (ν : Type) where
  | nil
  | cons (name : String) (default : Option (Json ν)) (schema : Schema ν)
      (properties : Properties ν)

end

structure Property (ν : Type) where
  name : String
  default : Option (Json ν)
  schema : Schema ν

variable {ν : Type}

def Properties.toList : Properties ν → List (Property ν)
  | .nil => []
  | .cons name default schema properties => ⟨name, default, schema⟩ :: properties.toList

namespace Schema

mutual

/-- The document has the form that the schema asks for. -/
def valid : Schema ν → Json ν → Bool
  | .boolean, j => match j with
      | .bool _ => true
      | _ => false
  | .integer, j => match j with
      | .num _ => true
      | _ => false
  | .string, j => match j with
      | .str _ => true
      | _ => false
  | .enum values, j => match j with
      | .str s => values.contains s
      | _ => false
  | .array items, j => match j with
      | .arr elements => elements.all fun element => items.valid element
      | _ => false
  | .map values, j => match j with
      | .obj members => members.all fun member => values.valid member.2
      | _ => false
  | .object required properties, j => match j with
      | .obj members =>
          (required.all fun name => (members.lookup name).isSome) &&
            validProperties properties members
      | _ => false
termination_by structural schema => schema

/-- The properties that are there are valid. -/
def validProperties : Properties ν → List (String × Json ν) → Bool
  | .nil, _ => true
  | .cons name _ schema properties, members =>
      ((members.lookup name).all fun value => schema.valid value) &&
        validProperties properties members
termination_by structural properties => properties

end

mutual

/-- The document with the defaults of the properties that it lacks. -/
def fill : Schema ν → Json ν → Json ν
  | .boolean, j => j
  | .integer, j => j
  | .string, j => j
  | .enum _, j => j
  | .array items, j => match j with
      | .arr elements => .arr (elements.map fun element => items.fill element)
      | j => j
  | .map values, j => match j with
      | .obj members => .obj (members.map fun member => (member.1, values.fill member.2))
      | j => j
  | .object _ properties, j => match j with
      | .obj members => .obj (fillProperties properties members)
      | j => j
termination_by structural schema => schema

def fillProperties : Properties ν → List (String × Json ν) → List (String × Json ν)
  | .nil, members => members
  | .cons name default schema properties, members =>
      fillProperties properties
        (match (members.lookup name).or default with
          | some value => Json.setMember name (schema.fill value) members
          | none => members)
termination_by structural properties => properties

end

mutual

/-- The properties of an object have different names, and a default is valid. -/
def wellFormed : Schema ν → Bool
  | .boolean => true
  | .integer => true
  | .string => true
  | .enum _ => true
  | .array items => items.wellFormed
  | .map values => values.wellFormed
  | .object _ properties => wellFormedProperties properties
termination_by structural schema => schema

def wellFormedProperties : Properties ν → Bool
  | .nil => true
  | .cons name default schema properties =>
      (properties.toList.all fun property => property.name != name) &&
        (default.all fun value => schema.valid value) &&
        schema.wellFormed && wellFormedProperties properties
termination_by structural properties => properties

end

/-! ### The properties one by one -/

variable {members : List (String × Json ν)} {property : Property ν}

theorem validProperties_iff : ∀ {properties : Properties ν},
    validProperties properties members = true ↔
      ∀ property ∈ properties.toList, ∀ value, members.lookup property.name = some value →
        property.schema.valid value = true
  | .nil => by simp [validProperties, Properties.toList]
  | .cons name default schema properties => by
      rw [validProperties, Bool.and_eq_true, validProperties_iff, Properties.toList,
        List.forall_mem_cons]
      refine and_congr_left fun _ => ?_
      rcases members.lookup name with - | value
      · simp
      · simp

/-- A well-formed list of properties, taken apart. -/
theorem wellFormedProperties_cons {name : String} {default : Option (Json ν)} {schema : Schema ν}
    {properties : Properties ν} :
    wellFormedProperties (.cons name default schema properties) = true ↔
      (∀ property ∈ properties.toList, property.name ≠ name) ∧
        (∀ value, default = some value → schema.valid value = true) ∧
        schema.wellFormed = true ∧ wellFormedProperties properties = true := by
  rw [wellFormedProperties, Bool.and_eq_true, Bool.and_eq_true, Bool.and_eq_true, and_assoc,
    and_assoc, List.all_eq_true, Option.all_eq_true]
  simp only [bne_iff_ne]

/-- A member that is no property stays. -/
theorem lookup_fillProperties_of_forall_ne {name : String} :
    ∀ {properties : Properties ν} {members : List (String × Json ν)},
      (∀ property ∈ properties.toList, property.name ≠ name) →
      (fillProperties properties members).lookup name = members.lookup name
  | .nil, members, _ => rfl
  | .cons name' default schema properties, members, h => by
      rw [Properties.toList, List.forall_mem_cons] at h
      rw [fillProperties, lookup_fillProperties_of_forall_ne h.2]
      split
      · exact Json.lookup_setMember_of_ne (Ne.symm h.1)
      · rfl

/-- **The members of a filled document**: a property is filled itself, or has
its default. -/
theorem lookup_fillProperties : ∀ {properties : Properties ν} {members : List (String × Json ν)},
    wellFormedProperties properties = true → property ∈ properties.toList →
    (fillProperties properties members).lookup property.name
      = ((members.lookup property.name).or property.default).map property.schema.fill
  | .nil, members, _, hmem => nomatch hmem
  | .cons name default schema properties, members, hwell, hmem => by
      obtain ⟨hnames, -, -, hwell⟩ := wellFormedProperties_cons.mp hwell
      rw [fillProperties]
      rcases List.mem_cons.mp hmem with rfl | hmem
      · -- the later properties have other names
        rw [lookup_fillProperties_of_forall_ne hnames]
        dsimp only
        rcases hvalue : (members.lookup name).or default with - | value
        · rw [Option.or_eq_none_iff] at hvalue
          exact hvalue.1
        · exact Json.lookup_setMember_self
      · have hne : property.name ≠ name := hnames property hmem
        rw [lookup_fillProperties hwell hmem]
        split
        · rw [Json.lookup_setMember_of_ne hne]
        · rfl

/-- A member that is there is there in the filled document. -/
theorem isSome_lookup_fillProperties {name : String} :
    ∀ {properties : Properties ν} {members : List (String × Json ν)},
      (members.lookup name).isSome = true →
      ((fillProperties properties members).lookup name).isSome = true
  | .nil, members, h => h
  | .cons name' default schema properties, members, h => by
      rw [fillProperties]
      refine isSome_lookup_fillProperties ?_
      split
      · by_cases hname : name = name'
        · rw [hname, Json.lookup_setMember_self]
          rfl
        · rw [Json.lookup_setMember_of_ne hname]
          exact h
      · exact h

/-! ### Filled documents -/

mutual

/-- **A valid document stays valid when it is filled.** -/
theorem valid_fill : ∀ {schema : Schema ν} {j : Json ν}, schema.wellFormed = true →
    schema.valid j = true → schema.valid (schema.fill j) = true
  | .boolean, _, _, h => h
  | .integer, _, _, h => h
  | .string, _, _, h => h
  | .enum _, _, _, h => h
  | .array items, .arr elements, hwell, h => by
      rw [valid, List.all_eq_true] at h
      rw [fill, valid, List.all_map, List.all_eq_true]
      exact fun element helement => valid_fill hwell (h element helement)
  | .map values, .obj members, hwell, h => by
      rw [valid, List.all_eq_true] at h
      rw [fill, valid, List.all_map, List.all_eq_true]
      exact fun member hmember => valid_fill hwell (h member hmember)
  | .object required properties, .obj members, hwell, h => by
      rw [wellFormed] at hwell
      rw [valid, Bool.and_eq_true, List.all_eq_true, validProperties_iff] at h
      obtain ⟨hrequired, hproperties⟩ := h
      rw [fill, valid, Bool.and_eq_true, List.all_eq_true, validProperties_iff]
      refine ⟨fun name hname => isSome_lookup_fillProperties (hrequired name hname), ?_⟩
      intro property hmem value hvalue
      rw [lookup_fillProperties hwell hmem, Option.map_eq_some_iff] at hvalue
      obtain ⟨value, hvalue, rfl⟩ := hvalue
      obtain ⟨hdefault, hfill⟩ := valid_fill_of_mem hwell hmem
      refine hfill ?_
      rcases Option.or_eq_some_iff.mp hvalue with hvalue | ⟨-, hvalue⟩
      · exact hproperties property hmem value hvalue
      · exact hdefault hvalue

/-- The same for each property, whose default is valid. -/
theorem valid_fill_of_mem : ∀ {properties : Properties ν} {property : Property ν},
    wellFormedProperties properties = true → property ∈ properties.toList →
    (∀ {value}, property.default = some value → property.schema.valid value = true) ∧
      ∀ {value}, property.schema.valid value = true →
        property.schema.valid (property.schema.fill value) = true
  | .nil, _, _, hmem => nomatch hmem
  | .cons name default schema properties, property, hwell, hmem => by
      obtain ⟨-, hdefault, hschema, hwell⟩ := wellFormedProperties_cons.mp hwell
      rcases List.mem_cons.mp hmem with rfl | hmem
      · exact ⟨fun {value} => hdefault value, fun {_} => valid_fill hschema⟩
      · exact valid_fill_of_mem hwell hmem

end

end Schema

end MergePatch
