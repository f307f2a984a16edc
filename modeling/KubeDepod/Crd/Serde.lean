/-
KubeDepod/Crd/Serde.lean

`serde` of `DepodPolicySpec`.

Each type of `crd.rs` has the encoder and the decoder that its derived
`Serialize` and `Deserialize` come to, with the source's names of the fields
and its `#[serde(default)]`s.  A document names each member once, and a number
in it is an integer.

`decodeSpec_encodeSpec`: a spec that is written is read back as it was.
-/
import Mathlib.Algebra.Ring.Int.Defs
import KubeDepod.Policies.Status

namespace KubeDepod

open MergePatch

/-! ### Collections -/

namespace BTreeMap

variable {κ ν : Type} [LT κ] [DecidableLT κ]

/-- `insert` among entries in order; an equal key gets the new value. -/
def insertEntry (key : κ) (value : ν) : List (κ × ν) → List (κ × ν)
  | [] => [(key, value)]
  | (key', value') :: entries =>
      if key < key' then (key, value) :: (key', value') :: entries
      else if key' < key then (key', value') :: insertEntry key value entries
      else (key, value) :: entries

theorem mem_insertEntry {key : κ} {value : ν} {entries : List (κ × ν)} {entry : κ × ν}
    (h : entry ∈ insertEntry key value entries) : entry = (key, value) ∨ entry ∈ entries := by
  induction entries with
  | nil => exact .inl (List.mem_singleton.mp h)
  | cons entry' entries ih =>
      obtain ⟨key', value'⟩ := entry'
      rw [insertEntry] at h
      split_ifs at h
      · exact List.mem_cons.mp h
      · rcases List.mem_cons.mp h with rfl | h
        · exact .inr (List.mem_cons_self ..)
        · exact (ih h).imp_right (List.mem_cons_of_mem _)
      · exact (List.mem_cons.mp h).imp_right (List.mem_cons_of_mem _)

/-- A greater key goes to the end. -/
theorem insertEntry_of_forall_lt [LE κ] [Std.IsLinearOrder κ] [Std.LawfulOrderLT κ] {key : κ}
    {value : ν}
    {entries : List (κ × ν)} (h : ∀ entry ∈ entries, entry.1 < key) :
    insertEntry key value entries = entries ++ [(key, value)] := by
  induction entries with
  | nil => rfl
  | cons entry entries ih =>
      obtain ⟨hentry, hentries⟩ := List.forall_mem_cons.mp h
      rw [insertEntry, if_neg (Std.not_lt.mpr (Std.le_of_lt hentry)), if_pos hentry, ih hentries,
        List.cons_append]

variable [LE κ] [Std.IsLinearOrder κ] [Std.LawfulOrderLT κ]

theorem sorted_insertEntry (key : κ) (value : ν) {entries : List (κ × ν)}
    (h : entries.Pairwise fun a b => a.1 < b.1) :
    (insertEntry key value entries).Pairwise fun a b => a.1 < b.1 := by
  induction entries with
  | nil => exact List.pairwise_singleton _ _
  | cons entry entries ih =>
      obtain ⟨key', value'⟩ := entry
      obtain ⟨hfirst, hrest⟩ := List.pairwise_cons.mp h
      rw [insertEntry]
      split_ifs with hlt hgt
      · refine List.pairwise_cons.mpr ⟨?_, h⟩
        intro other hother
        rcases List.mem_cons.mp hother with rfl | hother
        · exact hlt
        · exact Std.lt_trans hlt (hfirst other hother)
      · refine List.pairwise_cons.mpr ⟨?_, ih hrest⟩
        intro other hother
        rcases mem_insertEntry hother with rfl | hother
        · exact hgt
        · exact hfirst other hother
      · -- the keys are equal
        obtain rfl : key = key' := Std.le_antisymm (Std.not_lt.mp hgt) (Std.not_lt.mp hlt)
        exact List.pairwise_cons.mpr ⟨hfirst, hrest⟩

def insert (m : BTreeMap κ ν) (key : κ) (value : ν) : BTreeMap κ ν where
  entries := insertEntry key value m.entries
  sorted := sorted_insertEntry key value m.sorted

theorem lookup_insertEntry [DecidableEq κ] (key key' : κ) (value : ν) (entries : List (κ × ν)) :
    (insertEntry key value entries).lookup key'
      = if key' = key then some value else entries.lookup key' := by
  induction entries with
  | nil =>
      rw [insertEntry, List.lookup_cons]
      by_cases heq : key' = key
      · rw [heq, beq_self_eq_true, if_pos rfl]
      · rw [beq_false_of_ne heq, if_neg heq]
  | cons entry entries ih =>
      obtain ⟨first, value'⟩ := entry
      rw [insertEntry]
      by_cases heq : key' = key
      · subst heq
        rw [if_pos rfl]
        split_ifs with hlt hgt
        · exact List.lookup_cons_self
        · have hne : key' ≠ first := by
            rintro rfl
            exact Std.lt_irrefl hgt
          rw [List.lookup_cons, beq_false_of_ne hne, ih, if_pos rfl]
        · exact List.lookup_cons_self
      · rw [if_neg heq] at ih ⊢
        split_ifs with hlt hgt
        · rw [List.lookup_cons, beq_false_of_ne heq]
        · rw [List.lookup_cons, List.lookup_cons, ih]
        · -- the keys are equal
          obtain rfl : key = first := Std.le_antisymm (Std.not_lt.mp hgt) (Std.not_lt.mp hlt)
          rw [List.lookup_cons, List.lookup_cons, beq_false_of_ne heq]

theorem get_insert [DecidableEq κ] (m : BTreeMap κ ν) (key key' : κ) (value : ν) :
    (m.insert key value).get key' = if key' = key then some value else m.get key' :=
  lookup_insertEntry key key' value m.entries

theorem get_foldl_insert [DecidableEq κ] {entries : List (κ × ν)}
    (h : (entries.map Prod.fst).Nodup) (m : BTreeMap κ ν) (key : κ) :
    (entries.foldl (fun m entry => m.insert entry.1 entry.2) m).get key
      = (entries.lookup key).or (m.get key) := by
  induction entries generalizing m with
  | nil => rfl
  | cons entry entries ih =>
      obtain ⟨key', value⟩ := entry
      rw [List.map_cons, List.nodup_cons] at h
      rw [List.foldl_cons, ih h.2, get_insert]
      by_cases heq : key = key'
      · subst heq
        -- no later entry has this key
        have hnone : entries.lookup key = none := by
          rw [List.lookup_eq_none_iff]
          intro entry hentry
          rw [bne_iff_ne]
          rintro rfl
          have hmem : entry.1 ∈ entries.map Prod.fst := List.mem_map_of_mem hentry
          exact h.1 hmem
        rw [hnone, if_pos rfl, List.lookup_cons_self, Option.none_or, Option.some_or]
      · rw [if_neg heq, List.lookup_cons, beq_false_of_ne heq]

/-- `FromIterator`: the entries are inserted one after the other. -/
def ofEntries (entries : List (κ × ν)) : BTreeMap κ ν :=
  entries.foldl (fun m entry => m.insert entry.1 entry.2) .empty

theorem entries_foldl_insert {entries : List (κ × ν)} {m : BTreeMap κ ν}
    (h : (m.entries ++ entries).Pairwise fun a b => a.1 < b.1) :
    (entries.foldl (fun m entry => m.insert entry.1 entry.2) m).entries = m.entries ++ entries := by
  induction entries generalizing m with
  | nil => exact (List.append_nil _).symm
  | cons entry entries ih =>
      have hlt : ∀ other ∈ m.entries, other.1 < entry.1 := fun other hother =>
        (List.pairwise_append.mp h).2.2 other hother entry (List.mem_cons_self ..)
      have hinsert : (m.insert entry.1 entry.2).entries = m.entries ++ [entry] :=
        insertEntry_of_forall_lt hlt
      have happend : m.entries ++ entry :: entries = m.entries ++ [entry] ++ entries := by simp
      rw [List.foldl_cons, ih (by rw [hinsert, ← happend]; exact h), hinsert, ← happend]

/-- Entries in order make the map that has them. -/
theorem entries_ofEntries {entries : List (κ × ν)}
    (h : entries.Pairwise fun a b => a.1 < b.1) : (ofEntries entries).entries = entries :=
  entries_foldl_insert (m := .empty) h

end BTreeMap

namespace BTreeSet

variable {τ : Type} [LT τ] [LE τ] [DecidableLT τ] [Std.IsLinearOrder τ] [Std.LawfulOrderLT τ]

/-- A set is a map to units. -/
def ofList (elements : List τ) : BTreeSet τ where
  elements := (BTreeMap.ofEntries (elements.map fun a => (a, ()))).entries.map Prod.fst
  sorted := List.pairwise_map.mpr (BTreeMap.sorted _)

theorem ofList_elements (s : BTreeSet τ) : ofList s.elements = s := by
  have hsorted : (s.elements.map fun a => (a, ())).Pairwise fun a b => a.1 < b.1 :=
    List.pairwise_map.mpr s.sorted
  have helements : (ofList s.elements).elements = s.elements := by
    show List.map Prod.fst (BTreeMap.ofEntries _).entries = _
    rw [BTreeMap.entries_ofEntries hsorted, List.map_map]
    exact List.map_id _
  cases s
  simp only [ofList, BTreeSet.mk.injEq] at helements ⊢
  exact helements

end BTreeSet

/-! ### Scalars and collections -/

def decodeBool : Json → Option Bool
  | .bool b => some b
  | _ => none

def encodeI64 (n : Int64) : Json := .num n.toInt

def decodeI64 : Json → Option Int64
  | .num n => if -2 ^ 63 ≤ n ∧ n < 2 ^ 63 then some (.ofInt n) else none
  | _ => none

def encodeI32 (n : Int32) : Json := .num n.toInt

def decodeI32 : Json → Option Int32
  | .num n => if -2 ^ 31 ≤ n ∧ n < 2 ^ 31 then some (.ofInt n) else none
  | _ => none

def encodeStrings (strings : List String) : Json := .arr (strings.map .str)

def encodeStringMap (m : BTreeMap String String) : Json :=
  .obj (m.entries.map fun entry => (entry.1, .str entry.2))

def decodeStringMap : Json → Option (BTreeMap String String)
  | .obj members =>
      (members.mapM fun member => (decodeString member.2).map fun s => (member.1, s)).map
        BTreeMap.ofEntries
  | _ => none

def decodeStringSet (j : Json) : Option (BTreeSet String) :=
  (decodeList decodeString j).map BTreeSet.ofList

/-- A field of type `Option` is written as `null` if it is `None`. -/
def encodeOptional {α : Type} (encode : α → Json) : Option α → Json
  | some a => encode a
  | none => .null

/-- A struct is read from an object. -/
def decodeStruct {α : Type} (decode : Json → Option α) : Json → Option α
  | .obj members => decode (.obj members)
  | _ => none

/-! ### The types of the spec -/

def encodeConditionType : ConditionType → Json
  | .cel => .str "CEL"
  | .builtin => .str "Builtin"

def decodeConditionType : Json → Option ConditionType
  | .str "CEL" => some .cel
  | .str "Builtin" => some .builtin
  | _ => none

def encodeActionType : ActionType → Json
  | .delete => .str "Delete"
  | .evict => .str "Evict"

def decodeActionType : Json → Option ActionType
  | .str "Delete" => some .delete
  | .str "Evict" => some .evict
  | _ => none

def encodeNamespaceSelector (selector : NamespaceSelector) : Json :=
  .obj [("matchNames", encodeStrings selector.matchNames)]

def decodeNamespaceSelector : Json → Option NamespaceSelector := decodeStruct fun j => do
  let matchNames ← defaulted (decodeList decodeString) [] j "matchNames"
  return ⟨matchNames⟩

def encodePodSelector (selector : PodSelector) : Json :=
  .obj [("matchLabels", encodeStringMap selector.matchLabels)]

def decodePodSelector : Json → Option PodSelector := decodeStruct fun j => do
  let matchLabels ← defaulted decodeStringMap .empty j "matchLabels"
  return ⟨matchLabels⟩

def encodeMatch (m : Match) : Json :=
  .obj [("namespaceSelector", encodeOptional encodeNamespaceSelector m.namespaceSelector),
    ("podSelector", encodeOptional encodePodSelector m.podSelector)]

def decodeMatch : Json → Option Match := decodeStruct fun j => do
  let namespaceSelector ← optional decodeNamespaceSelector j "namespaceSelector"
  let podSelector ← optional decodePodSelector j "podSelector"
  return ⟨namespaceSelector, podSelector⟩

def encodeTrigger (trigger : Trigger) : Json :=
  .obj [("annotationKey", .str trigger.annotationKey),
    ("annotationValues", encodeStrings trigger.annotationValues.elements)]

def decodeTrigger : Json → Option Trigger := decodeStruct fun j => do
  let annotationKey ← required decodeString j "annotationKey"
  let annotationValues ← required decodeStringSet j "annotationValues"
  return ⟨annotationKey, annotationValues⟩

def encodeWhen (w : When) : Json :=
  .obj [("type", encodeConditionType w.conditionType),
    ("expression", encodeOptional .str w.expression),
    ("ttlSeconds", encodeOptional encodeI64 w.ttlSeconds)]

def decodeWhen : Json → Option When := decodeStruct fun j => do
  let conditionType ← required decodeConditionType j "type"
  let expression ← optional decodeString j "expression"
  let ttlSeconds ← optional decodeI64 j "ttlSeconds"
  return ⟨conditionType, expression, ttlSeconds⟩

def encodeThen (t : Then) : Json :=
  .obj [("type", encodeActionType t.actionType),
    ("gracePeriodSeconds", encodeOptional encodeI64 t.gracePeriodSeconds),
    ("dryRun", .bool t.dryRun)]

def decodeThen : Json → Option Then := decodeStruct fun j => do
  let actionType ← required decodeActionType j "type"
  let gracePeriodSeconds ← optional decodeI64 j "gracePeriodSeconds"
  let dryRun ← defaulted decodeBool false j "dryRun"
  return ⟨actionType, gracePeriodSeconds, dryRun⟩

def encodeLimits (limits : Limits) : Json :=
  .obj [("maxDeletesPerMinute",
      encodeOptional encodeI32 limits.maxDeletesPerMinute),
    ("protectSystemNamespaces", .bool limits.protectSystemNamespaces),
    ("excludedNamespaces", encodeOptional encodeStrings limits.excludedNamespaces)]

def decodeLimits : Json → Option Limits := decodeStruct fun j => do
  let maxDeletesPerMinute ← optional decodeI32 j "maxDeletesPerMinute"
  let protectSystemNamespaces ← defaulted decodeBool false j "protectSystemNamespaces"
  let excludedNamespaces ← optional (decodeList decodeString) j "excludedNamespaces"
  return ⟨maxDeletesPerMinute, protectSystemNamespaces, excludedNamespaces⟩

/-- `serde` of `DepodPolicySpec`. -/
def encodeSpec (spec : DepodPolicySpec) : Json :=
  .obj [("match", encodeMatch spec.match_), ("trigger", encodeTrigger spec.trigger),
    ("when", encodeWhen spec.when_), ("then", encodeThen spec.then_),
    ("limits", encodeLimits spec.limits)]

def decodeSpec : Json → Option DepodPolicySpec := decodeStruct fun j => do
  let match_ ← required decodeMatch j "match"
  let trigger ← required decodeTrigger j "trigger"
  let when_ ← required decodeWhen j "when"
  let then_ ← required decodeThen j "then"
  let limits ← required decodeLimits j "limits"
  return ⟨match_, trigger, when_, then_, limits⟩

/-! ### What is written is read back -/

theorem decodeI64_encodeI64 (n : Int64) : decodeI64 (encodeI64 n) = some n := by
  rw [encodeI64, decodeI64, if_pos ⟨n.le_toInt, n.toInt_lt⟩, Int64.ofInt_toInt]

theorem decodeI32_encodeI32 (n : Int32) : decodeI32 (encodeI32 n) = some n := by
  rw [encodeI32, decodeI32, if_pos ⟨n.le_toInt, n.toInt_lt⟩, Int32.ofInt_toInt]

/-- A list is read back if its elements are. -/
theorem mapM_map_of_forall {α β : Type} (f : α → β) {g : β → Option α}
    (hg : ∀ a, g (f a) = some a) (l : List α) : (l.map f).mapM g = some l := by
  induction l with
  | nil => rfl
  | cons a l ih =>
      rw [List.map_cons, List.mapM_cons, hg, ih]
      rfl

theorem decodeStrings_encodeStrings (strings : List String) :
    decodeList decodeString (encodeStrings strings) = some strings := by
  have hread : ∀ s, decodeString (.str s) = some s := fun _ => rfl
  exact mapM_map_of_forall Json.str hread strings

theorem decodeStringSet_encodeStrings (s : BTreeSet String) :
    decodeStringSet (encodeStrings s.elements) = some s := by
  rw [decodeStringSet, decodeStrings_encodeStrings, Option.map_some, BTreeSet.ofList_elements]

theorem decodeStringMap_encodeStringMap (m : BTreeMap String String) :
    decodeStringMap (encodeStringMap m) = some m := by
  have hmembers : (m.entries.map fun entry => (entry.1, Json.str entry.2)).mapM
      (fun member => (decodeString member.2).map fun s => (member.1, s)) = some m.entries :=
    mapM_map_of_forall (fun entry => (entry.1, Json.str entry.2)) (fun _ => rfl) m.entries
  rw [encodeStringMap, decodeStringMap, hmembers, Option.map_some]
  obtain ⟨entries, hsorted⟩ := m
  have hentries := BTreeMap.entries_ofEntries hsorted
  rcases hmap : BTreeMap.ofEntries entries with ⟨entries', hsorted'⟩
  rw [hmap] at hentries
  obtain rfl : entries' = entries := hentries
  rfl

theorem optional_of_ne_null {α : Type} {decode : Json → Option α} {j : Json} {name : String}
    {value : Json} (hfield : j.field name = some value) (hne : value ≠ .null) :
    optional decode j name = (decode value).map some := by
  rw [optional, hfield]
  cases value with
  | null => exact absurd rfl hne
  | _ => rfl

/-- A field of type `Option` is read back if its value is, and is not written
as `null`. -/
theorem optional_encodeOptional {α : Type} (encode : α → Json) {decode : Json → Option α}
    (hnull : ∀ a, encode a ≠ .null) (hdecode : ∀ a, decode (encode a) = some a) {j : Json}
    {name : String} {value : Option α}
    (hfield : j.field name = some (encodeOptional encode value)) :
    optional decode j name = some value := by
  cases value with
  | none =>
      rw [optional, hfield]
      rfl
  | some a =>
      rw [optional_of_ne_null hfield (hnull a), encodeOptional, hdecode, Option.map_some]

/-! The structs are read field by field; the proofs give the value of each
field in turn. -/

theorem decodeNamespaceSelector_encode (selector : NamespaceSelector) :
    decodeNamespaceSelector (encodeNamespaceSelector selector) = some selector := by
  have hnames : defaulted (decodeList decodeString) [] (encodeNamespaceSelector selector)
      "matchNames" = some selector.matchNames :=
    decodeStrings_encodeStrings selector.matchNames
  exact Option.bind_eq_some_iff.mpr ⟨_, hnames, rfl⟩

theorem decodePodSelector_encode (selector : PodSelector) :
    decodePodSelector (encodePodSelector selector) = some selector := by
  have hlabels : defaulted decodeStringMap .empty (encodePodSelector selector) "matchLabels"
      = some selector.matchLabels :=
    decodeStringMap_encodeStringMap selector.matchLabels
  exact Option.bind_eq_some_iff.mpr ⟨_, hlabels, rfl⟩

theorem decodeMatch_encode (m : Match) : decodeMatch (encodeMatch m) = some m := by
  have hnamespace : optional decodeNamespaceSelector (encodeMatch m) "namespaceSelector"
      = some m.namespaceSelector :=
    optional_encodeOptional encodeNamespaceSelector (fun _ => nofun)
      decodeNamespaceSelector_encode rfl
  have hpod : optional decodePodSelector (encodeMatch m) "podSelector" = some m.podSelector :=
    optional_encodeOptional encodePodSelector (fun _ => nofun) decodePodSelector_encode rfl
  exact Option.bind_eq_some_iff.mpr ⟨_, hnamespace, Option.bind_eq_some_iff.mpr ⟨_, hpod, rfl⟩⟩

theorem decodeTrigger_encode (trigger : Trigger) :
    decodeTrigger (encodeTrigger trigger) = some trigger := by
  have hvalues : required decodeStringSet (encodeTrigger trigger) "annotationValues"
      = some trigger.annotationValues :=
    decodeStringSet_encodeStrings trigger.annotationValues
  exact Option.bind_eq_some_iff.mpr ⟨_, hvalues, rfl⟩

theorem decodeConditionType_encode (conditionType : ConditionType) :
    decodeConditionType (encodeConditionType conditionType) = some conditionType := by
  cases conditionType <;> rfl

theorem decodeActionType_encode (actionType : ActionType) :
    decodeActionType (encodeActionType actionType) = some actionType := by
  cases actionType <;> rfl

theorem decodeWhen_encode (w : When) : decodeWhen (encodeWhen w) = some w := by
  have htype : required decodeConditionType (encodeWhen w) "type" = some w.conditionType :=
    decodeConditionType_encode w.conditionType
  have hexpression : optional decodeString (encodeWhen w) "expression" = some w.expression :=
    optional_encodeOptional .str (fun _ => nofun) (fun _ => rfl) rfl
  have httl : optional decodeI64 (encodeWhen w) "ttlSeconds" = some w.ttlSeconds :=
    optional_encodeOptional encodeI64 (fun _ => nofun) decodeI64_encodeI64 rfl
  exact Option.bind_eq_some_iff.mpr ⟨_, htype, Option.bind_eq_some_iff.mpr
    ⟨_, hexpression, Option.bind_eq_some_iff.mpr ⟨_, httl, rfl⟩⟩⟩

theorem decodeThen_encode (t : Then) : decodeThen (encodeThen t) = some t := by
  have htype : required decodeActionType (encodeThen t) "type" = some t.actionType :=
    decodeActionType_encode t.actionType
  have hgrace : optional decodeI64 (encodeThen t) "gracePeriodSeconds"
      = some t.gracePeriodSeconds :=
    optional_encodeOptional encodeI64 (fun _ => nofun) decodeI64_encodeI64 rfl
  have hdry : defaulted decodeBool false (encodeThen t) "dryRun" = some t.dryRun := rfl
  exact Option.bind_eq_some_iff.mpr ⟨_, htype, Option.bind_eq_some_iff.mpr
    ⟨_, hgrace, Option.bind_eq_some_iff.mpr ⟨_, hdry, rfl⟩⟩⟩

theorem decodeLimits_encode (limits : Limits) :
    decodeLimits (encodeLimits limits) = some limits := by
  have hmax : optional decodeI32 (encodeLimits limits) "maxDeletesPerMinute"
      = some limits.maxDeletesPerMinute :=
    optional_encodeOptional encodeI32 (fun _ => nofun) decodeI32_encodeI32 rfl
  have hexcluded : optional (decodeList decodeString) (encodeLimits limits) "excludedNamespaces"
      = some limits.excludedNamespaces :=
    optional_encodeOptional encodeStrings (fun _ => nofun) decodeStrings_encodeStrings rfl
  have hprotect : defaulted decodeBool false (encodeLimits limits) "protectSystemNamespaces"
      = some limits.protectSystemNamespaces := rfl
  exact Option.bind_eq_some_iff.mpr ⟨_, hmax, Option.bind_eq_some_iff.mpr
    ⟨_, hprotect, Option.bind_eq_some_iff.mpr ⟨_, hexcluded, rfl⟩⟩⟩

/-- **A spec that is written is read back as it was.** -/
theorem decodeSpec_encodeSpec (spec : DepodPolicySpec) :
    decodeSpec (encodeSpec spec) = some spec := by
  have hmatch : required decodeMatch (encodeSpec spec) "match" = some spec.match_ :=
    decodeMatch_encode spec.match_
  have htrigger : required decodeTrigger (encodeSpec spec) "trigger" = some spec.trigger :=
    decodeTrigger_encode spec.trigger
  have hwhen : required decodeWhen (encodeSpec spec) "when" = some spec.when_ :=
    decodeWhen_encode spec.when_
  have hthen : required decodeThen (encodeSpec spec) "then" = some spec.then_ :=
    decodeThen_encode spec.then_
  have hlimits : required decodeLimits (encodeSpec spec) "limits" = some spec.limits :=
    decodeLimits_encode spec.limits
  exact Option.bind_eq_some_iff.mpr ⟨_, hmatch, Option.bind_eq_some_iff.mpr
    ⟨_, htrigger, Option.bind_eq_some_iff.mpr ⟨_, hwhen, Option.bind_eq_some_iff.mpr
      ⟨_, hthen, Option.bind_eq_some_iff.mpr ⟨_, hlimits, rfl⟩⟩⟩⟩⟩

end KubeDepod
