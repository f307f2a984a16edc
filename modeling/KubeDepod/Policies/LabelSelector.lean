/-
KubeDepod/Policies/LabelSelector.lean

The label selector as a filter before the filter.

`reconcile_policy` joins the `matchLabels` of a policy into one string,
unescaped, and lists with it; the pods listed are then filtered by the labels
again.  The selector may say something else than the map it was built from
where a label has a comma or an equals sign in it, but no label of a pod has:
a pod that matches the policy has all the labels of the map, so the map is
syntactically valid and the string reads back as it (`requirements_of_valid`).
Nothing is lost by listing with it (`labelSelector_loses_no_pod`).
-/
import KubeDepod.Lib.Delimited
import KubeDepod.Policies.Touch

namespace KubeDepod

open Delimited

/-! ### Label syntax -/

/-- The characters of a label's name and value. -/
def isNameChar (c : Char) : Bool := c.isAlphanum || c == '-' || c == '_' || c == '.'

/-- A name: at most 63 characters, the first and the last alphanumeric. -/
def isLabelName (text : List Char) : Bool :=
  decide (text.length ≤ 63) && text.all isNameChar && text.head?.any Char.isAlphanum &&
    text.getLast?.any Char.isAlphanum

/-- A value is empty or a name. -/
def isLabelValue (text : List Char) : Bool := text.isEmpty || isLabelName text

def isDomainChar (c : Char) : Bool := c.isLower || c.isDigit

/-- One part of a DNS subdomain. -/
def isDomainLabel (text : List Char) : Bool :=
  text.all (fun c => isDomainChar c || c == '-') && text.head?.any isDomainChar &&
    text.getLast?.any isDomainChar

def isDomain (text : List Char) : Bool :=
  decide (text.length ≤ 253) && (text.splitOn '.').all isDomainLabel

/-- A key is a name, possibly after a domain and a slash. -/
def isLabelKey (text : List Char) : Bool :=
  match text.splitOn '/' with
  | [name] => isLabelName name
  | [domain, name] => isDomain domain && isLabelName name
  | _ => false

/-- Key and value satisfy the syntax. -/
def isLabel (label : String × String) : Bool :=
  isLabelKey label.1.toList && isLabelValue label.2.toList

/-- All labels satisfy the syntax. -/
def ValidLabels (labels : BTreeMap String String) : Prop :=
  ∀ label ∈ labels.entries, isLabel label = true

theorem not_mem_of_all {text : List Char} {p : Char → Bool} {c : Char} (h : text.all p = true)
    (hc : p c = false) : c ∉ text := by
  intro hmem
  have hp := List.all_eq_true.mp h c hmem
  rw [hc] at hp
  cases hp

theorem not_mem_of_isLabelName {text : List Char} {c : Char} (h : isLabelName text = true)
    (hc : isNameChar c = false) : c ∉ text := by
  simp only [isLabelName, Bool.and_eq_true] at h
  exact not_mem_of_all h.1.1.2 hc

theorem not_mem_of_isLabelValue {text : List Char} {c : Char} (h : isLabelValue text = true)
    (hc : isNameChar c = false) : c ∉ text := by
  rw [isLabelValue, Bool.or_eq_true] at h
  rcases h with hempty | hname
  · rw [List.isEmpty_iff.mp hempty]
    exact List.not_mem_nil
  · exact not_mem_of_isLabelName hname hc

theorem isNameChar_of_domain {c : Char} (h : (isDomainChar c || c == '-') = true) :
    isNameChar c = true := by
  rw [Bool.or_eq_true] at h
  rcases h with hchar | hdash
  · rw [isDomainChar, Bool.or_eq_true] at hchar
    have halphanum : c.isAlphanum = true := by
      show (c.isUpper || c.isLower || c.isDigit) = true
      rcases hchar with hlower | hdigit
      · rw [hlower, Bool.or_true, Bool.true_or]
      · rw [hdigit, Bool.or_true]
    rw [isNameChar, halphanum]
    rfl
  · rw [eq_of_beq hdash]
    rfl

/-- A domain has name characters only. -/
theorem not_mem_of_isDomain {text : List Char} {c : Char} (h : isDomain text = true)
    (hc : isNameChar c = false) : c ∉ text := by
  intro hmem
  rw [isDomain, Bool.and_eq_true] at h
  rcases mem_splitOn '.' hmem with rfl | ⟨part, hpart, hmem⟩
  · cases hc
  · have hlabel := List.all_eq_true.mp h.2 part hpart
    simp only [isDomainLabel, Bool.and_eq_true] at hlabel
    refine not_mem_of_all hlabel.1.1 (Bool.eq_false_iff.mpr fun hchar => ?_) hmem
    rw [isNameChar_of_domain hchar] at hc
    cases hc

/-- Besides name characters, a key can have a slash. -/
theorem not_mem_of_isLabelKey {text : List Char} {c : Char} (h : isLabelKey text = true)
    (hslash : c ≠ '/') (hc : isNameChar c = false) : c ∉ text := by
  intro hmem
  rcases mem_splitOn '/' hmem with hsep | ⟨part, hpart, hmem⟩
  · exact hslash hsep
  · rw [isLabelKey] at h
    split at h
    case h_1 name hsplit =>
      rw [hsplit] at hpart
      obtain rfl := List.mem_singleton.mp hpart
      exact not_mem_of_isLabelName h hc hmem
    case h_2 domain name hsplit =>
      rw [Bool.and_eq_true] at h
      rw [hsplit] at hpart
      rcases List.mem_cons.mp hpart with rfl | hpart
      · exact not_mem_of_isDomain h.1 hc hmem
      · obtain rfl := List.mem_singleton.mp hpart
        exact not_mem_of_isLabelName h.2 hc hmem
    case h_3 => cases h

/-- Neither delimiter of a selector occurs in a label. -/
theorem free_of_isLabel {label : String × String} (h : isLabel label = true) :
    Free ',' '=' (label.1.toList, label.2.toList) := by
  rw [isLabel, Bool.and_eq_true] at h
  obtain ⟨hkey, hvalue⟩ := h
  exact ⟨not_mem_of_isLabelKey hkey (by decide) (by decide),
    not_mem_of_isLabelKey hkey (by decide) (by decide),
    not_mem_of_isLabelValue hvalue (by decide), not_mem_of_isLabelValue hvalue (by decide)⟩

/-! ### The selector -/

/-- A selector read as a list of requirements `key=value`; `none` if it is not
one. -/
def parseSelector (labels : String) : Option (List (String × String)) :=
  (splitPairs ',' '=' labels.toList).map fun pairs =>
    pairs.map fun pair => (String.ofList pair.1, String.ofList pair.2)

/-- The requirements of a listing; without a selector there are none. -/
def requirementsOf : Option String → Option (List (String × String))
  | some labels => parseSelector labels
  | none => some []

/-- The pod has each of the labels required. -/
def satisfies (requirements : List (String × String)) (pod : Pod) : Bool :=
  requirements.all fun requirement => pod.labels.get requirement.1 == some requirement.2

/-- The pods listed with the selector, if the server accepts it. -/
def listedWith (labels : Option String) (pods : List Pod) : Option (List Pod) :=
  (requirementsOf labels).map fun requirements => pods.filter (satisfies requirements)

variable {policy : DepodPolicy} {podSelector : PodSelector} {pod : Pod}

/-- The selector is the joined map, or none for the empty map. -/
theorem labelSelector_eq (hselector : policy.spec.match_.podSelector = some podSelector) :
    labelSelector policy
      = if podSelector.matchLabels.entries = [] then none
        else some (String.ofList (joinPairs ',' '='
          (podSelector.matchLabels.entries.map fun label =>
            (label.1.toList, label.2.toList)))) := by
  have hjoined : ",".intercalate
      (podSelector.matchLabels.entries.map fun label => label.1 ++ "=" ++ label.2)
      = String.ofList (joinPairs ',' '=' (podSelector.matchLabels.entries.map fun label =>
          (label.1.toList, label.2.toList))) := by
    have hcomma : ",".toList = [','] := rfl
    rw [← String.toList_inj, String.toList_intercalate, hcomma, String.toList_ofList, joinPairs,
      List.map_map, List.map_map]
    refine congrArg (List.intercalate [',']) (List.map_congr_left fun label _ => ?_)
    simp [joinPair]
  rw [labelSelector, hselector]
  show (if (",".intercalate (podSelector.matchLabels.entries.map fun label =>
    label.1 ++ "=" ++ label.2)).isEmpty then none else some (",".intercalate
      (podSelector.matchLabels.entries.map fun label => label.1 ++ "=" ++ label.2))) = _
  rw [hjoined]
  rcases hentries : podSelector.matchLabels.entries with - | ⟨label, labels⟩
  · rfl
  · rw [if_neg (List.cons_ne_nil _ _), if_neg]
    rw [String.isEmpty_iff, ← String.toList_inj, String.toList_ofList]
    exact joinPairs_ne_nil (by simp)

/-- **A valid map reads back.** -/
theorem requirements_of_valid (hselector : policy.spec.match_.podSelector = some podSelector)
    (hvalid : ValidLabels podSelector.matchLabels) :
    requirementsOf (labelSelector policy) = some podSelector.matchLabels.entries := by
  rw [labelSelector_eq hselector]
  split
  case isTrue hnil =>
    rw [hnil]
    rfl
  case isFalse hne =>
    have hsplit : splitPairs ',' '=' (joinPairs ',' '=' (podSelector.matchLabels.entries.map
        fun label => (label.1.toList, label.2.toList)))
        = some (podSelector.matchLabels.entries.map fun label =>
            (label.1.toList, label.2.toList)) := by
      refine splitPairs_joinPairs (by decide) ?_ (by simpa using hne)
      intro pair hpair
      obtain ⟨label, hlabel, rfl⟩ := List.mem_map.mp hpair
      exact free_of_isLabel (hvalid label hlabel)
    rw [requirementsOf, parseSelector, String.toList_ofList, hsplit, Option.map_some,
      List.map_map]
    refine congrArg some (List.map_id'' (fun label => ?_) _)
    simp

/-! ### The pods listed -/

theorem mem_entries_of_get {labels : BTreeMap String String} {k v : String}
    (h : labels.get k = some v) : (k, v) ∈ labels.entries := by
  obtain ⟨before, after, hentries, -⟩ := List.lookup_eq_some_iff.mp h
  rw [hentries]
  exact List.mem_append_right _ (List.mem_cons_self ..)

/-- The map of a policy is valid if some pod matches it. -/
theorem validLabels_of_matchesPolicy (hlegal : ValidLabels pod.labels)
    (hmatches : matchesPolicy pod policy = true)
    (hselector : policy.spec.match_.podSelector = some podSelector) :
    ValidLabels podSelector.matchLabels := by
  intro label hlabel
  have hcarries := carriesLabels_of_matchesPolicy hmatches podSelector hselector label hlabel
  exact hlegal label (mem_entries_of_get hcarries)

/-- A pod that matches the policy satisfies the selector. -/
theorem satisfies_of_matchesPolicy (hlegal : ValidLabels pod.labels)
    (hmatches : matchesPolicy pod policy = true) :
    ∃ requirements, requirementsOf (labelSelector policy) = some requirements ∧
      satisfies requirements pod = true := by
  rcases hselector : policy.spec.match_.podSelector with - | podSelector
  · refine ⟨[], ?_, rfl⟩
    rw [labelSelector, hselector]
    rfl
  · have hvalid := validLabels_of_matchesPolicy hlegal hmatches hselector
    refine ⟨_, requirements_of_valid hselector hvalid, ?_⟩
    refine List.all_eq_true.mpr fun label hlabel => ?_
    rw [carriesLabels_of_matchesPolicy hmatches podSelector hselector label hlabel]
    exact beq_self_eq_true _

/-- **The label selector loses no pod.**  For every policy and every list of
pods with syntactically valid labels: a pod that matches the policy satisfies
the selector; filtering what is listed with the selector, if it is accepted, is
filtering the whole list; and a valid map reads back as it is. -/
theorem labelSelector_loses_no_pod (policy : DepodPolicy) (pods : List Pod)
    (hlegal : ∀ pod ∈ pods, ValidLabels pod.labels) :
    (∀ pod ∈ pods, matchesPolicy pod policy = true →
      ∃ requirements, requirementsOf (labelSelector policy) = some requirements ∧
        satisfies requirements pod = true) ∧
    (∀ listed, listedWith (labelSelector policy) pods = some listed →
      podsToTrigger policy listed = podsToTrigger policy pods) ∧
    ∀ podSelector, policy.spec.match_.podSelector = some podSelector →
      ValidLabels podSelector.matchLabels →
      requirementsOf (labelSelector policy) = some podSelector.matchLabels.entries := by
  refine ⟨fun pod hpod hmatches => satisfies_of_matchesPolicy (hlegal pod hpod) hmatches, ?_,
    fun podSelector hselector hvalid => requirements_of_valid hselector hvalid⟩
  intro listed hlisted
  obtain ⟨requirements, hrequirements, rfl⟩ := Option.map_eq_some_iff.mp hlisted
  rw [podsToTrigger, podsToTrigger, List.filter_filter]
  refine List.filter_congr fun pod hpod => ?_
  -- the selector changes nothing about a pod that passes the filter
  rcases hmatches : matchesPolicy pod policy with - | -
  · rw [Bool.and_false, Bool.false_and]
  · obtain ⟨requirements', hrequirements', hsatisfies⟩ :=
      satisfies_of_matchesPolicy (hlegal pod hpod) hmatches
    obtain rfl : requirements = requirements' :=
      Option.some.inj (hrequirements.symm.trans hrequirements')
    rw [hsatisfies, Bool.and_true]

/-- A server that reads selectors so selects, in a cluster of such pods, the
carriers of a policy's labels. -/
theorem selectsCarriers_parsed {cluster : Cluster}
    (hlegal : ∀ pod ∈ cluster.pods, ValidLabels pod.labels) (policy : DepodPolicy) :
    SelectsCarriers
      (fun labels pod => (parseSelector labels).any fun requirements => satisfies requirements pod)
      cluster policy := by
  intro labels hlabels pod hpod hcarries
  rcases hselector : policy.spec.match_.podSelector with - | podSelector
  · rw [labelSelector, hselector] at hlabels
    cases hlabels
  · have hvalid : ValidLabels podSelector.matchLabels := fun label hlabel =>
      hlegal pod hpod label (mem_entries_of_get (hcarries podSelector hselector label hlabel))
    have hread := requirements_of_valid hselector hvalid
    rw [hlabels, requirementsOf] at hread
    show (parseSelector labels).any _ = true
    rw [hread, Option.any_some]
    refine List.all_eq_true.mpr fun label hlabel => ?_
    rw [hcarries podSelector hselector label hlabel]
    exact beq_self_eq_true _

/-- Two labels, one with a domain and one without a value. -/
def webLabels : BTreeMap String String where
  entries := [("app.kubernetes.io/name", "web"), ("canary", "")]
  sorted := by decide

/-- For a policy on these labels and two pods of which one has them. -/
theorem labelSelector_loses_no_pod_web :
    let policy := ttlPolicy "cleanup" 3600
    let webPolicy : DepodPolicy :=
      { policy with
        spec := { policy.spec with match_ := { podSelector := some ⟨webLabels⟩ } } }
    let web : Pod :=
      { optedInPod "web-0" "4e1f" with
        metadata := { (optedInPod "web-0" "4e1f").metadata with labels := some webLabels } }
    requirementsOf (labelSelector webPolicy) = some webLabels.entries ∧
      ∀ listed, listedWith (labelSelector webPolicy) [web, epochPod] = some listed →
        podsToTrigger webPolicy listed = podsToTrigger webPolicy [web, epochPod] := by
  intro policy webPolicy web
  have hweb : ValidLabels webLabels := by
    unfold ValidLabels
    decide
  obtain ⟨-, hlisted, hread⟩ := labelSelector_loses_no_pod webPolicy [web, epochPod] (by
    rintro pod hpod
    rcases List.mem_cons.mp hpod with rfl | hpod
    · exact hweb
    · obtain rfl := List.mem_singleton.mp hpod
      intro label hlabel
      cases hlabel)
  exact ⟨hread _ rfl hweb, hlisted⟩

end KubeDepod
