/-
KubeDepod/Policies/Store.lean

Sets of policy objects keyed by namespace and name: the objects the API
server holds, and the copies the two watch streams build from its changes
(`policy_store`, and the controller's own store).  A store holds at most one
object for a key.
-/
import KubeDepod.Crd
import Mathlib.Data.List.Nodup

namespace KubeDepod

/-- What identifies a policy: its namespace and its name. -/
abbrev PolicyKey := Option String × String

def DepodPolicy.key (policy : DepodPolicy) : PolicyKey :=
  (policy.metadata.namespace_, policy.nameAny)

/-- `reflector::Store<DepodPolicy>`. -/
structure PolicyStore where
  entries : List DepodPolicy
  nodup : (entries.map DepodPolicy.key).Nodup

namespace PolicyStore

def empty : PolicyStore := ⟨[], List.nodup_nil⟩

/-- `Store::get`. -/
def get (store : PolicyStore) (key : PolicyKey) : Option DepodPolicy :=
  store.entries.find? fun policy => policy.key == key

/-- A deleted object leaves the store. -/
def remove (store : PolicyStore) (key : PolicyKey) : PolicyStore where
  entries := store.entries.filter fun policy => policy.key != key
  nodup := store.nodup.sublist (List.filter_sublist.map _)

theorem notMem_remove (store : PolicyStore) {key : PolicyKey} {policy : DepodPolicy}
    (hkey : policy.key = key) : policy ∉ (store.remove key).entries := by
  intro hmem
  have hne := (List.mem_filter.mp hmem).2
  rw [hkey, bne_self_eq_false] at hne
  exact Bool.false_ne_true hne

/-- An applied object replaces the one with its key. -/
def insert (store : PolicyStore) (policy : DepodPolicy) : PolicyStore where
  entries := policy :: (store.remove policy.key).entries
  nodup := by
    rw [List.map_cons, List.nodup_cons]
    refine ⟨fun hmem => ?_, (store.remove policy.key).nodup⟩
    obtain ⟨old, hold, hkey⟩ := List.mem_map.mp hmem
    exact notMem_remove store hkey hold

theorem get_eq_some_iff (store : PolicyStore) {key : PolicyKey} {policy : DepodPolicy} :
    store.get key = some policy ↔ policy ∈ store.entries ∧ policy.key = key := by
  constructor
  · intro h
    have hkey := List.find?_some h
    exact ⟨List.mem_of_find?_eq_some h, by simpa using hkey⟩
  · rintro ⟨hmem, rfl⟩
    rcases hget : store.get policy.key with - | other
    · have hnone := List.find?_eq_none.mp hget policy hmem
      rw [beq_self_eq_true] at hnone
      exact absurd rfl hnone
    · -- two entries with one key are the same entry
      have hkey := List.find?_some hget
      have hother := List.mem_of_find?_eq_some hget
      rw [List.inj_on_of_nodup_map store.nodup hother hmem (by simpa using hkey)]

@[simp] theorem mem_remove (store : PolicyStore) {key : PolicyKey} {policy : DepodPolicy} :
    policy ∈ (store.remove key).entries ↔ policy ∈ store.entries ∧ policy.key ≠ key := by
  rw [remove, List.mem_filter, bne_iff_ne]

@[simp] theorem mem_insert (store : PolicyStore) {policy other : DepodPolicy} :
    other ∈ (store.insert policy).entries
      ↔ other = policy ∨ other ∈ store.entries ∧ other.key ≠ policy.key := by
  show other ∈ policy :: (store.remove policy.key).entries ↔ _
  rw [List.mem_cons, mem_remove]

theorem get_insert_self (store : PolicyStore) (policy : DepodPolicy) :
    (store.insert policy).get policy.key = some policy := by
  rw [get_eq_some_iff, mem_insert]
  exact ⟨.inl rfl, rfl⟩

theorem get_insert_of_ne (store : PolicyStore) {policy : DepodPolicy} {key : PolicyKey}
    (h : policy.key ≠ key) : (store.insert policy).get key = store.get key := by
  apply Option.ext
  intro other
  rw [get_eq_some_iff, get_eq_some_iff, mem_insert]
  constructor
  · rintro ⟨rfl | ⟨hmem, -⟩, hkey⟩
    · exact absurd hkey h
    · exact ⟨hmem, hkey⟩
  · rintro ⟨hmem, rfl⟩
    exact ⟨.inr ⟨hmem, h.symm⟩, rfl⟩

theorem get_remove_of_ne (store : PolicyStore) {key key' : PolicyKey} (h : key' ≠ key) :
    (store.remove key').get key = store.get key := by
  apply Option.ext
  intro other
  rw [get_eq_some_iff, get_eq_some_iff, mem_remove]
  constructor
  · rintro ⟨⟨hmem, -⟩, hkey⟩
    exact ⟨hmem, hkey⟩
  · rintro ⟨hmem, rfl⟩
    exact ⟨⟨hmem, h.symm⟩, rfl⟩

/-- The spec stored under a key. -/
def specOf (store : PolicyStore) (key : PolicyKey) : Option DepodPolicySpec :=
  (store.get key).map fun policy => policy.spec

theorem specOf_eq_some_iff (store : PolicyStore) {key : PolicyKey} {spec : DepodPolicySpec} :
    store.specOf key = some spec ↔ ∃ q ∈ store.entries, q.key = key ∧ q.spec = spec := by
  rw [specOf, Option.map_eq_some_iff]
  constructor
  · rintro ⟨q, hget, hspec⟩
    obtain ⟨hmem, hkey⟩ := store.get_eq_some_iff.mp hget
    exact ⟨q, hmem, hkey, hspec⟩
  · rintro ⟨q, hmem, hkey, hspec⟩
    exact ⟨q, store.get_eq_some_iff.mpr ⟨hmem, hkey⟩, hspec⟩

theorem specOf_insert_self (store : PolicyStore) (policy : DepodPolicy) :
    (store.insert policy).specOf policy.key = some policy.spec := by
  rw [specOf, get_insert_self]
  rfl

theorem specOf_insert_of_ne (store : PolicyStore) {policy : DepodPolicy} {key : PolicyKey}
    (h : policy.key ≠ key) : (store.insert policy).specOf key = store.specOf key := by
  rw [specOf, get_insert_of_ne store h, specOf]

/-- An insertion never takes a key away. -/
theorem get_insert_ne_none (store : PolicyStore) (policy : DepodPolicy) {key : PolicyKey}
    (h : store.get key ≠ none) : (store.insert policy).get key ≠ none := by
  by_cases hkey : policy.key = key
  · subst hkey
    rw [get_insert_self]
    exact Option.some_ne_none policy
  · rw [get_insert_of_ne store hkey]
    exact h

end PolicyStore

/-- A change of a policy object as a watch stream delivers it. -/
inductive PolicyChange where
  | applied (policy : DepodPolicy)
  | deleted (key : PolicyKey)

/-- The object that changes. -/
def PolicyChange.key : PolicyChange → PolicyKey
  | .applied policy => policy.key
  | .deleted key => key

/-- The object is created or updated. -/
def PolicyChange.isApplied : PolicyChange → Bool
  | .applied _ => true
  | .deleted _ => false

/-- A change takes effect in a store. -/
def PolicyStore.apply (store : PolicyStore) : PolicyChange → PolicyStore
  | .applied policy => store.insert policy
  | .deleted key => store.remove key

/-- A change leaves the other objects. -/
theorem PolicyStore.get_apply_of_ne (store : PolicyStore) {c : PolicyChange} {key : PolicyKey}
    (h : c.key ≠ key) : (store.apply c).get key = store.get key := by
  cases c with
  | applied policy => exact store.get_insert_of_ne h
  | deleted key' => exact store.get_remove_of_ne h

end KubeDepod
