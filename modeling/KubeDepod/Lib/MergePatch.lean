/-
KubeDepod/Lib/MergePatch.lean

JSON documents and the merge patch of RFC 7386: a member of the patch replaces
the member of the target, a `null` removes it, objects are merged member by
member, and everything else, arrays among it, is replaced as a whole.

`field_mergePatch` gives the members of the patched document one by one.
-/
import Mathlib.Data.List.Basic

namespace MergePatch

/-- A JSON document; numbers are values of `ν`. -/
inductive Json (ν : Type) where
  | null
  | bool (b : Bool)
  | num (n : ν)
  | str (s : String)
  | arr (elements : List (Json ν))
  | obj (members : List (String × Json ν))

namespace Json

variable {ν : Type}

/-- The members of an object; any other document has none. -/
def members : Json ν → List (String × Json ν)
  | .obj members => members
  | _ => []

/-- The member with this name. -/
def field (name : String) (j : Json ν) : Option (Json ν) := j.members.lookup name

/-- Replace the member with this name, or add it. -/
def setMember (name : String) (value : Json ν) :
    List (String × Json ν) → List (String × Json ν)
  | [] => [(name, value)]
  | (name', value') :: members =>
      if name' = name then (name, value) :: members
      else (name', value') :: setMember name value members

/-- Remove the members with this name. -/
def removeMember (name : String) (members : List (String × Json ν)) : List (String × Json ν) :=
  members.filter fun member => member.1 != name

mutual

/-- `MergePatch(target, patch)`. -/
def mergePatch (target : Json ν) : Json ν → Json ν
  | .obj patch => .obj (mergeMembers target.members patch)
  | .null => .null
  | .bool b => .bool b
  | .num n => .num n
  | .str s => .str s
  | .arr elements => .arr elements
termination_by structural patch => patch

/-- The members of the patch, one after the other. -/
def mergeMembers (target : List (String × Json ν)) :
    List (String × Json ν) → List (String × Json ν)
  | [] => target
  | member :: patch => mergeMembers (mergeMember target member) patch
termination_by structural patch => patch

/-- One member of the patch. -/
def mergeMember (target : List (String × Json ν)) : String × Json ν → List (String × Json ν)
  | (name, value) =>
    match value with
    | .null => removeMember name target
    | value => setMember name (mergePatch ((target.lookup name).getD .null) value) target
termination_by structural member => member

end

/-- A member of the patched document, from the member of the target and the
member of the patch. -/
def mergedField (target : Option (Json ν)) : Option (Json ν) → Option (Json ν)
  | none => target
  | some .null => none
  | some value => some (mergePatch (target.getD .null) value)

variable {name other : String} {value : Json ν} {members : List (String × Json ν)}

theorem lookup_setMember_self : (setMember name value members).lookup name = some value := by
  induction members with
  | nil => simp [setMember]
  | cons member members ih =>
      obtain ⟨name', value'⟩ := member
      rw [setMember]
      split
      · simp
      case isFalse hne =>
        rw [List.lookup_cons, beq_false_of_ne (Ne.symm hne)]
        exact ih

theorem lookup_setMember_of_ne (h : other ≠ name) :
    (setMember name value members).lookup other = members.lookup other := by
  induction members with
  | nil => simp [setMember, h]
  | cons member members ih =>
      obtain ⟨name', value'⟩ := member
      rw [setMember]
      split
      case isTrue heq => rw [List.lookup_cons, List.lookup_cons, heq, beq_false_of_ne h]
      case isFalse hne => rw [List.lookup_cons, List.lookup_cons, ih]

theorem lookup_removeMember_self : (removeMember name members).lookup name = none := by
  rw [List.lookup_eq_none_iff]
  intro member hmember
  have hne := bne_iff_ne.mp (List.mem_filter.mp hmember).2
  exact bne_iff_ne.mpr hne.symm

theorem lookup_removeMember_of_ne (h : other ≠ name) :
    (removeMember name members).lookup other = members.lookup other := by
  induction members with
  | nil => rfl
  | cons member members ih =>
      obtain ⟨name', value'⟩ := member
      rw [removeMember] at ih ⊢
      rw [List.filter_cons]
      by_cases hname : name' = name
      · subst hname
        rw [List.lookup_cons, beq_false_of_ne h]
        simpa using ih
      · rw [if_pos (by simpa using hname), List.lookup_cons, List.lookup_cons, ih]

/-- One member of the patch changes the member with its name. -/
theorem lookup_mergeMember_self :
    (mergeMember members (name, value)).lookup name
      = mergedField (members.lookup name) (some value) := by
  cases value with
  | null => exact lookup_removeMember_self
  | _ => exact lookup_setMember_self

theorem lookup_mergeMember_of_ne (h : other ≠ name) :
    (mergeMember members (name, value)).lookup other = members.lookup other := by
  cases value with
  | null => exact lookup_removeMember_of_ne h
  | _ => exact lookup_setMember_of_ne h

theorem lookup_mergeMembers {patch : List (String × Json ν)} (h : (patch.map Prod.fst).Nodup)
    (name : String) :
    (mergeMembers members patch).lookup name
      = mergedField (members.lookup name) (patch.lookup name) := by
  induction patch generalizing members with
  | nil => rfl
  | cons member patch ih =>
      obtain ⟨name', value'⟩ := member
      rw [List.map_cons, List.nodup_cons] at h
      rw [mergeMembers, ih h.2]
      by_cases hname : name = name'
      · subst hname
        -- no later member of the patch has this name
        have hnone : patch.lookup name = none := by
          rw [List.lookup_eq_none_iff]
          intro member hmember
          rw [bne_iff_ne]
          rintro rfl
          have hmem : member.1 ∈ patch.map Prod.fst := List.mem_map_of_mem hmember
          exact h.1 hmem
        rw [hnone, List.lookup_cons_self]
        exact lookup_mergeMember_self
      · rw [lookup_mergeMember_of_ne hname, List.lookup_cons, beq_false_of_ne hname]

/-- **The members of a patched document.** -/
theorem field_mergePatch {patch : List (String × Json ν)} (h : (patch.map Prod.fst).Nodup)
    (name : String) (target : Json ν) :
    field name (mergePatch target (.obj patch))
      = mergedField (field name target) (patch.lookup name) :=
  lookup_mergeMembers h name

end Json

end MergePatch
