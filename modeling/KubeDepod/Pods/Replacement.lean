/-
KubeDepod/Pods/Replacement.lean

Runs of `reconcile_pod` while pods are deleted and created anew under the same
namespace and name.

A run evaluates a pod object that the watch has delivered some time ago, and
addresses its delete or eviction by namespace and name; it sends no
precondition on the uid.  The API server acts on whatever pod has that name
when the request arrives.  `replacement_is_removed` is a run that evaluates
one pod and removes its successor; `removed_same_iff` says that this is the
only way to miss: the pod removed is the one evaluated exactly if none was
created under that name in between.
-/
import KubeDepod.Controller.Reference
import KubeDepod.Controller.Traced
import KubeDepod.Lib.Execution
import KubeDepod.Lib.Parties
import Mathlib.Logic.Function.Basic

namespace KubeDepod

open Effects Lts Parties

/-! ### Where requests are addressed -/

/-- What identifies a pod at the API server: its namespace and its name. -/
abbrev PodKey := String × String

def Pod.key (pod : Pod) : PodKey := (pod.namespaceOrDefault, pod.nameAny)

/-- A delete or an eviction goes to the pod under `key`. -/
def PodEffect.AddressedTo (key : PodKey) : PodEffect → Prop
  | .delete ns name _ => (ns, name) = key
  | .createEviction ns name _ => (ns, name) = key
  | .increment _ => True
  | .loadPolicies => True
  | .now => True
  | .evaluate _ _ _ => True
  | .allowGlobal => True
  | .allowPolicy _ _ => True
  | .toVec _ => True

/-- Where the request was accepted, if it was. -/
def PodEffect.acceptedAt : (e : PodEffect) → e.Reply → Option PodKey
  | .delete ns name _, .ok _ => some (ns, name)
  | .delete _ _ _, .error _ => none
  | .createEviction ns name _, .ok status =>
      match status.status with
      | some statusStr => if statusStr == "Success" then some (ns, name) else none
      | none => some (ns, name)
  | .createEviction _ _ _, .error _ => none
  | .increment _, _ => none
  | .loadPolicies, _ => none
  | .now, _ => none
  | .evaluate _ _ _, _ => none
  | .allowGlobal, _ => none
  | .allowPolicy _ _, _ => none
  | .toVec _, _ => none

theorem acceptedAt_eq {e : PodEffect} {r : e.Reply} {key key' : PodKey}
    (haddressed : e.AddressedTo key) (h : e.acceptedAt r = some key') : key' = key := by
  cases e with
  | delete ns name dp =>
      rcases r with err | _
      · cases h
      · cases h
        exact haddressed
  | createEviction ns name body =>
      rcases r with err | ⟨- | statusStr⟩
      · cases h
      · cases h
        exact haddressed
      · rw [PodEffect.acceptedAt] at h
        split at h
        case h_1 heq =>
          split at h
          · cases h
            exact haddressed
          · cases h
        case h_2 =>
          cases h
          exact haddressed
  | increment _ | loadPolicies | now | evaluate _ _ _ | allowGlobal | allowPolicy _ _ | toVec _ =>
      cases h

/-! ### A run addresses the pod it evaluates -/

variable {pod : Pod} {policy : DepodPolicy}

/-- What is done for a policy is addressed to the pod. -/
theorem Occurs.addressedTo {e : PodEffect} (he : Occurs pod policy (.inl e)) :
    e.AddressedTo pod.key := by
  cases he with
  | delete haction hdry => rfl
  | createEviction haction hdry => rfl
  | _ => trivial

/-- Every delete and every eviction of a run goes to the namespace and name of
the pod it evaluates. -/
theorem reconcilePod_uses (periodicResyncInterval : Option Duration) :
    (reconcilePod periodicResyncInterval pod).Uses (PodEffect.AddressedTo pod.key) := by
  refine ⟨trivial, fun _ => ⟨trivial, fun policies => ?_⟩⟩
  show (reconcilePolicies periodicResyncInterval pod policies none).Uses _
  rw [← erase_tracedReconcilePolicies]
  refine (tracedReconcilePolicies_uses ..).erase.mono ?_
  rintro e ⟨policy, -, he⟩
  exact he.addressedTo

/-! ### The pods and the runs -/

variable {ι : Type}

/-- A run in flight: the object it evaluates, the generation of its name at
which the watch delivered that object, and what is left of the run. -/
structure RunningPod where
  evaluated : Pod
  generation : Nat
  prog : PodProg (Except Error Action)

/-- An accepted delete or eviction: the object that was evaluated and the pod
that the API server acted on, each with its generation. -/
structure Removal where
  evaluated : Pod
  evaluatedAt : Nat
  removed : Pod
  removedAt : Nat

/-- The API server's pods; how many pods have been created under each name and
the uid of each of them; the uids ever given out; the objects that the watch
has delivered, with the generation of their names at that time; the runs in
flight; and the accepted calls so far. -/
structure PodSystem (ι : Type) where
  pods : PodKey → Option Pod
  generation : PodKey → Nat
  uidAt : PodKey → Nat → Option String
  uids : List String
  watched : List (Pod × Nat)
  runs : ι → Option RunningPod
  removals : List Removal

namespace PodSystem

def initial : PodSystem ι where
  pods := fun _ => none
  generation := fun _ => 0
  uidAt := fun _ _ => none
  uids := []
  watched := []
  runs := fun _ => none
  removals := []

/-- A pod is created, under a uid never used before. -/
def created (s : PodSystem ι) (pod : Pod) (uid : String) : PodSystem ι :=
  { s with
    pods := Function.update s.pods pod.key (some pod)
    generation := Function.update s.generation pod.key (s.generation pod.key + 1)
    uidAt := Function.update s.uidAt pod.key
      (Function.update (s.uidAt pod.key) (s.generation pod.key + 1) (some uid))
    uids := uid :: s.uids }

variable [DecidableEq ι]

/-- Run `i` performs an effect that no pod is affected by. -/
def continued (s : PodSystem ι) (i : ι) (run : RunningPod)
    (prog : PodProg (Except Error Action)) : PodSystem ι :=
  { s with runs := Function.update s.runs i (some { run with prog := prog }) }

/-- Run `i` has a call accepted that acts on `removed`, which is then gone or
terminating. -/
def acted (s : PodSystem ι) (i : ι) (run : RunningPod)
    (prog : PodProg (Except Error Action)) (removed : Pod) (terminating : Option DateTime) :
    PodSystem ι :=
  { s.continued i run prog with
    pods := Function.update s.pods removed.key (terminating.map fun t =>
      { removed with metadata := { removed.metadata with deletionTimestamp := some t } })
    removals := s.removals ++
      [⟨run.evaluated, run.generation, removed, s.generation removed.key⟩] }

end PodSystem

/-- The steps: a pod is created, updated or removed by others; the watch
delivers the current object under a name; a run starts on an object delivered
before, performs its next effect, or returns.  `answer` is what the
environment answers to the effect, `terminating` what becomes of a pod that an
accepted call acts on. -/
inductive PodLabel (ι : Type) where
  | create (pod : Pod)
  | update (pod : Pod)
  | remove (key : PodKey)
  | watch (key : PodKey)
  | start (i : ι) (pod : Pod) (generation : Nat)
  | effect (i : ι) (answer : (e : PodEffect) → e.Reply) (terminating : Option DateTime)
  | finish (i : ι)

section
variable [DecidableEq ι]

def podStep (periodicResyncInterval : Option Duration) (s : PodSystem ι) :
    PodLabel ι → Option (PodSystem ι)
  | .create pod =>
      -- the name is free; the server assigns a uid that no pod has had
      match s.pods pod.key, pod.metadata.uid with
      | none, some uid => if uid ∈ s.uids then none else some (s.created pod uid)
      | _, _ => none
  | .update pod =>
      -- anything may change but the uid
      match s.pods pod.key with
      | some current =>
          if pod.metadata.uid = current.metadata.uid then
            some { s with pods := Function.update s.pods pod.key (some pod) }
          else
            none
      | none => none
  | .remove key => some { s with pods := Function.update s.pods key none }
  | .watch key =>
      match s.pods key with
      | some pod => some { s with watched := (pod, s.generation key) :: s.watched }
      | none => none
  | .start i pod generation =>
      match s.runs i with
      | none =>
          if (pod, generation) ∈ s.watched then
            some { s with
              runs := Function.update s.runs i
                (some ⟨pod, generation, reconcilePod periodicResyncInterval pod⟩) }
          else
            none
      | some _ => none
  | .effect i answer terminating =>
      match s.runs i with
      | some ⟨pod, generation, .op e k⟩ =>
          match e.acceptedAt (answer e) with
          | some key =>
              -- the server acts on the pod that has the name now
              match s.pods key with
              | some removed =>
                  some (s.acted i ⟨pod, generation, .op e k⟩ (k (answer e)) removed terminating)
              | none => none    -- no such pod: the call is not accepted
          | none => some (s.continued i ⟨pod, generation, .op e k⟩ (k (answer e)))
      | some ⟨_, _, .pure _⟩ => none
      | none => none
  | .finish i =>
      match s.runs i with
      | some ⟨_, _, .pure _⟩ => some { s with runs := Function.update s.runs i none }
      | some ⟨_, _, .op _ _⟩ => none
      | none => none

def PodStep (periodicResyncInterval : Option Duration) (s : PodSystem ι) (label : PodLabel ι)
    (s' : PodSystem ι) : Prop :=
  podStep periodicResyncInterval s label = some s'

/-- What a step can do. -/
inductive PodCase (periodicResyncInterval : Option Duration) (s : PodSystem ι) :
    PodLabel ι → PodSystem ι → Prop
  | create {pod : Pod} {uid : String} (hfree : s.pods pod.key = none)
      (huid : pod.metadata.uid = some uid) (hfresh : uid ∉ s.uids) :
      PodCase periodicResyncInterval s (.create pod) (s.created pod uid)
  | update {pod current : Pod} (hcurrent : s.pods pod.key = some current)
      (huid : pod.metadata.uid = current.metadata.uid) :
      PodCase periodicResyncInterval s (.update pod)
        { s with pods := Function.update s.pods pod.key (some pod) }
  | remove (key : PodKey) :
      PodCase periodicResyncInterval s (.remove key)
        { s with pods := Function.update s.pods key none }
  | watch {key : PodKey} {pod : Pod} (hpod : s.pods key = some pod) :
      PodCase periodicResyncInterval s (.watch key)
        { s with watched := (pod, s.generation key) :: s.watched }
  | start {i : ι} {pod : Pod} {generation : Nat} (hnone : s.runs i = none)
      (hwatched : (pod, generation) ∈ s.watched) :
      PodCase periodicResyncInterval s (.start i pod generation)
        { s with
          runs := Function.update s.runs i
            (some ⟨pod, generation, reconcilePod periodicResyncInterval pod⟩) }
  | proceed {i : ι} {answer : (e : PodEffect) → e.Reply} {terminating : Option DateTime}
      {pod : Pod} {generation : Nat} {e : PodEffect}
      {k : e.Reply → PodProg (Except Error Action)}
      (hrun : s.runs i = some ⟨pod, generation, .op e k⟩) :
      PodCase periodicResyncInterval s (.effect i answer terminating)
        (s.continued i ⟨pod, generation, .op e k⟩ (k (answer e)))
  | act {i : ι} {answer : (e : PodEffect) → e.Reply} {terminating : Option DateTime}
      {pod removed : Pod} {generation : Nat} {e : PodEffect} {key : PodKey}
      {k : e.Reply → PodProg (Except Error Action)}
      (hrun : s.runs i = some ⟨pod, generation, .op e k⟩)
      (haccepted : e.acceptedAt (answer e) = some key) (hremoved : s.pods key = some removed) :
      PodCase periodicResyncInterval s (.effect i answer terminating)
        (s.acted i ⟨pod, generation, .op e k⟩ (k (answer e)) removed terminating)
  | finish {i : ι} :
      PodCase periodicResyncInterval s (.finish i)
        { s with runs := Function.update s.runs i none }

variable {periodicResyncInterval : Option Duration} {s s' : PodSystem ι} {label : PodLabel ι}

theorem podStep_cases (h : PodStep periodicResyncInterval s label s') :
    PodCase periodicResyncInterval s label s' := by
  rw [PodStep] at h
  cases label with
  | create pod =>
      rcases hpods : s.pods pod.key with - | current
      · rcases huid : pod.metadata.uid with - | uid
        · simp only [podStep, hpods, huid] at h
          cases h
        · simp only [podStep, hpods, huid] at h
          split at h
          case isTrue => cases h
          case isFalse hfresh =>
            obtain rfl := Option.some.inj h
            exact .create hpods huid hfresh
      · simp only [podStep, hpods] at h
        cases h
  | update pod =>
      rcases hpods : s.pods pod.key with - | current
      · simp only [podStep, hpods] at h
        cases h
      · simp only [podStep, hpods] at h
        split at h
        case isTrue huid =>
          obtain rfl := Option.some.inj h
          exact .update hpods huid
        case isFalse => cases h
  | remove key =>
      obtain rfl := Option.some.inj h
      exact .remove key
  | watch key =>
      rcases hpods : s.pods key with - | pod
      · simp only [podStep, hpods] at h
        cases h
      · simp only [podStep, hpods] at h
        obtain rfl := Option.some.inj h
        exact .watch hpods
  | start i pod generation =>
      rcases hrun : s.runs i with - | run
      · simp only [podStep, hrun] at h
        split at h
        case isTrue hwatched =>
          obtain rfl := Option.some.inj h
          exact .start hrun hwatched
        case isFalse => cases h
      · simp only [podStep, hrun] at h
        cases h
  | effect i answer terminating =>
      rcases hrun : s.runs i with - | ⟨pod, generation, result | ⟨e, k⟩⟩
      · simp only [podStep, hrun] at h
        cases h
      · simp only [podStep, hrun] at h
        cases h
      · rcases haccepted : e.acceptedAt (answer e) with - | key
        · simp only [podStep, hrun, haccepted] at h
          obtain rfl := Option.some.inj h
          exact .proceed hrun
        · rcases hpods : s.pods key with - | removed
          · simp only [podStep, hrun, haccepted, hpods] at h
            cases h
          · simp only [podStep, hrun, haccepted, hpods] at h
            obtain rfl := Option.some.inj h
            exact .act hrun haccepted hpods
  | finish i =>
      rcases hrun : s.runs i with - | ⟨pod, generation, result | ⟨e, k⟩⟩
      · simp only [podStep, hrun] at h
        cases h
      · simp only [podStep, hrun] at h
        obtain rfl := Option.some.inj h
        exact .finish
      · simp only [podStep, hrun] at h
        cases h

end

/-! ### The invariant -/

/-- The object is, or was, the pod of its name at the given generation. -/
structure PodSystem.PodAt (s : PodSystem ι) (pod : Pod) (generation : Nat) : Prop where
  le : generation ≤ s.generation pod.key
  uid : s.uidAt pod.key generation = pod.metadata.uid
  known : pod.metadata.uid ≠ none

structure PodSystem.Consistent (s : PodSystem ι) : Prop where
  key : ∀ key pod, s.pods key = some pod → pod.key = key
  pods : ∀ key pod, s.pods key = some pod → s.PodAt pod (s.generation pod.key)
  watched : ∀ pod generation, (pod, generation) ∈ s.watched → s.PodAt pod generation
  runs : ∀ i run, s.runs i = some run →
    s.PodAt run.evaluated run.generation ∧
      run.prog.Uses (PodEffect.AddressedTo run.evaluated.key)
  used : ∀ key n uid, s.uidAt key n = some uid → uid ∈ s.uids
  distinct : ∀ key n m, s.uidAt key n ≠ none → s.uidAt key n = s.uidAt key m → n = m
  removals : ∀ r ∈ s.removals, r.removed.key = r.evaluated.key ∧
    (r.removed.metadata.uid = r.evaluated.metadata.uid ↔ r.removedAt = r.evaluatedAt)

namespace PodSystem

variable {periodicResyncInterval : Option Duration} {s s' : PodSystem ι} {label : PodLabel ι}

section
variable {pod other : Pod} {uid : String} {key : PodKey} {n m : Nat}

theorem initial_consistent : (initial : PodSystem ι).Consistent where
  key := by
    intro key pod h
    cases h
  pods := by
    intro key pod h
    cases h
  watched := by
    intro pod generation h
    cases h
  runs := by
    intro i run h
    cases h
  used := by
    intro key n uid h
    cases h
  distinct := by
    intro key n m h
    exact absurd rfl h
  removals := by
    intro r h
    cases h

/-- Under one name, the uid and the generation tell the same pods apart. -/
theorem PodAt.uid_eq_iff (hs : s.Consistent) (h : s.PodAt pod n) (h' : s.PodAt other m)
    (hkey : other.key = pod.key) : other.metadata.uid = pod.metadata.uid ↔ m = n := by
  rw [← h.uid, ← h'.uid, hkey]
  constructor
  · intro heq
    apply hs.distinct pod.key m n _ heq
    rw [← hkey, h'.uid]
    exact h'.known
  · intro heq
    rw [heq]

/-! ### Creation -/

theorem created_uidAt_new :
    (s.created pod uid).uidAt pod.key (s.generation pod.key + 1) = some uid := by
  show Function.update s.uidAt pod.key _ pod.key _ = some uid
  rw [Function.update_self, Function.update_self]

theorem created_uidAt_old (h : key = pod.key → n ≠ s.generation pod.key + 1) :
    (s.created pod uid).uidAt key n = s.uidAt key n := by
  show Function.update s.uidAt pod.key _ key n = s.uidAt key n
  by_cases hkey : key = pod.key
  · subst hkey
    rw [Function.update_self, Function.update_of_ne (h rfl)]
  · rw [Function.update_of_ne hkey]

/-- A generation under a name is the new one, or as it was. -/
theorem created_uidAt_cases (s : PodSystem ι) (pod : Pod) (uid : String) (key : PodKey) (n : Nat) :
    (key = pod.key ∧ n = s.generation pod.key + 1) ∧
        (s.created pod uid).uidAt key n = some uid ∨
      (s.created pod uid).uidAt key n = s.uidAt key n := by
  by_cases hnew : key = pod.key ∧ n = s.generation pod.key + 1
  · obtain ⟨rfl, rfl⟩ := hnew
    exact .inl ⟨⟨rfl, rfl⟩, created_uidAt_new⟩
  · exact .inr (created_uidAt_old fun hkey hn => hnew ⟨hkey, hn⟩)

theorem created_generation_self :
    (s.created pod uid).generation pod.key = s.generation pod.key + 1 :=
  Function.update_self ..

theorem created_generation_of_ne (h : key ≠ pod.key) :
    (s.created pod uid).generation key = s.generation key :=
  Function.update_of_ne h ..

/-- A creation leaves the earlier generations. -/
theorem PodAt.created (h : s.PodAt other n) : (s.created pod uid).PodAt other n := by
  refine ⟨?_, ?_, h.known⟩
  · by_cases hkey : other.key = pod.key
    · rw [hkey, created_generation_self]
      rw [← hkey]
      exact Nat.le_succ_of_le h.le
    · rw [created_generation_of_ne hkey]
      exact h.le
  · rw [created_uidAt_old, h.uid]
    intro hkey
    have hle := h.le
    rw [hkey] at hle
    omega

theorem Consistent.created (hs : s.Consistent) (huid : pod.metadata.uid = some uid)
    (hfresh : uid ∉ s.uids) : (s.created pod uid).Consistent where
  key := present_update hs.key fun current hcurrent => by
    cases hcurrent
    rfl
  pods := by
    intro key current hcurrent
    change Function.update s.pods pod.key (some pod) key = some current at hcurrent
    by_cases hkey : key = pod.key
    · subst hkey
      rw [Function.update_self] at hcurrent
      cases hcurrent
      refine ⟨Nat.le_refl _, ?_, ?_⟩
      · rw [created_generation_self, created_uidAt_new, huid]
      · rw [huid]
        exact Option.some_ne_none uid
    · rw [Function.update_of_ne hkey] at hcurrent
      have hcurrentKey := hs.key key current hcurrent
      rw [created_generation_of_ne (by rw [hcurrentKey]; exact hkey)]
      exact (hs.pods key current hcurrent).created
  watched := fun other n h => (hs.watched other n h).created
  runs := fun i run h => ⟨(hs.runs i run h).1.created, (hs.runs i run h).2⟩
  used := by
    intro key n uid' h
    rcases created_uidAt_cases s pod uid key n with ⟨-, hnew⟩ | hold
    · rw [hnew] at h
      cases h
      exact List.mem_cons_self ..
    · rw [hold] at h
      exact List.mem_cons_of_mem _ (hs.used key n uid' h)
  distinct := by
    -- the new uid differs from all the earlier ones
    have hne : ∀ key n, s.uidAt key n ≠ some uid := fun key n h => hfresh (hs.used key n uid h)
    intro key n m hn hnm
    rcases created_uidAt_cases s pod uid key n with ⟨⟨-, hnewn⟩, hn'⟩ | hn'
    · rcases created_uidAt_cases s pod uid key m with ⟨⟨-, hnewm⟩, -⟩ | hm'
      · exact hnewn.trans hnewm.symm
      · rw [hn', hm'] at hnm
        exact absurd hnm.symm (hne key m)
    · rcases created_uidAt_cases s pod uid key m with ⟨-, hm'⟩ | hm'
      · rw [hn', hm'] at hnm
        exact absurd hnm (hne key n)
      · rw [hn'] at hn
        rw [hn', hm'] at hnm
        exact hs.distinct key n m hn hnm
  removals := hs.removals

/-! ### The other steps -/

/-- The generations and their uids are as in `s`. -/
structure SameGenerations (s s' : PodSystem ι) : Prop where
  generation : s'.generation = s.generation
  uidAt : s'.uidAt = s.uidAt
  uids : s'.uids = s.uids

theorem PodAt.of_same (hsame : SameGenerations s s') (h : s.PodAt pod n) : s'.PodAt pod n where
  le := by
    rw [hsame.generation]
    exact h.le
  uid := by
    rw [hsame.uidAt]
    exact h.uid
  known := h.known

/-- A step that creates no pod. -/
theorem Consistent.of_same (hs : s.Consistent) (hsame : SameGenerations s s')
    (hpods : ∀ key pod, s'.pods key = some pod → pod.key = key ∧
      s.PodAt pod (s.generation pod.key))
    (hwatched : ∀ pod n, (pod, n) ∈ s'.watched → s.PodAt pod n)
    (hruns : ∀ i run, s'.runs i = some run → s.PodAt run.evaluated run.generation ∧
      run.prog.Uses (PodEffect.AddressedTo run.evaluated.key))
    (hremovals : ∀ r ∈ s'.removals, r.removed.key = r.evaluated.key ∧
      (r.removed.metadata.uid = r.evaluated.metadata.uid ↔ r.removedAt = r.evaluatedAt)) :
    s'.Consistent where
  key := fun key pod h => (hpods key pod h).1
  pods := by
    intro key pod h
    rw [hsame.generation]
    exact (hpods key pod h).2.of_same hsame
  watched := fun pod n h => (hwatched pod n h).of_same hsame
  runs := fun i run h => ⟨(hruns i run h).1.of_same hsame, (hruns i run h).2⟩
  used := by
    rw [hsame.uidAt, hsame.uids]
    exact hs.used
  distinct := by
    rw [hsame.uidAt]
    exact hs.distinct
  removals := hremovals

end

/-- Every step keeps the invariant; an accepted call adds a removal that
satisfies it. -/
theorem Consistent.step [DecidableEq ι] (h : PodStep periodicResyncInterval s label s')
    (hs : s.Consistent) : s'.Consistent := by
  have hsame : SameGenerations s s := ⟨rfl, rfl, rfl⟩
  have hpods : ∀ key pod, s.pods key = some pod →
      pod.key = key ∧ s.PodAt pod (s.generation pod.key) :=
    fun key pod h => ⟨hs.key key pod h, hs.pods key pod h⟩
  cases podStep_cases h with
  | create hfree huid hfresh => exact hs.created huid hfresh
  | @update pod current hcurrent huid =>
      refine hs.of_same ⟨rfl, rfl, rfl⟩ (present_update hpods fun p hp => ?_) hs.watched hs.runs
        hs.removals
      cases hp
      -- the new version has the uid of the current one
      obtain ⟨hkey, hat⟩ := hpods _ _ hcurrent
      refine ⟨rfl, Nat.le_refl _, ?_, ?_⟩
      · rw [huid, ← hkey]
        exact hat.uid
      · rw [huid]
        exact hat.known
  | remove key =>
      refine hs.of_same ⟨rfl, rfl, rfl⟩ (present_update hpods fun p hp => ?_) hs.watched hs.runs
        hs.removals
      cases hp
  | @watch key pod hpod =>
      refine hs.of_same ⟨rfl, rfl, rfl⟩ hpods (fun p n hp => ?_) hs.runs hs.removals
      rcases List.mem_cons.mp hp with heq | hp
      · cases heq
        obtain ⟨hkey, hat⟩ := hpods _ _ hpod
        rw [hkey] at hat
        exact hat
      · exact hs.watched p n hp
  | start hnone hwatched =>
      refine hs.of_same ⟨rfl, rfl, rfl⟩ hpods hs.watched (present_update hs.runs fun r hr => ?_)
        hs.removals
      cases hr
      exact ⟨hs.watched _ _ hwatched, reconcilePod_uses periodicResyncInterval⟩
  | @proceed i answer terminating pod generation e k hrun =>
      obtain ⟨hat, huses⟩ := hs.runs _ _ hrun
      refine hs.of_same ⟨rfl, rfl, rfl⟩ hpods hs.watched (present_update hs.runs fun r hr => ?_)
        hs.removals
      cases hr
      exact ⟨hat, huses.2 (answer e)⟩
  | @act i answer terminating pod removed generation e key k hrun haccepted hremoved =>
      obtain ⟨hat, haddressed, huses⟩ := hs.runs _ _ hrun
      obtain ⟨hkey, hat'⟩ := hpods _ _ hremoved
      have hsameKey : removed.key = pod.key := hkey.trans (acceptedAt_eq haddressed haccepted)
      refine hs.of_same ⟨rfl, rfl, rfl⟩ (present_update hpods fun p hp => ?_) hs.watched
        (present_update hs.runs fun r hr => ?_) (fun r hr => ?_)
      · obtain ⟨t, -, rfl⟩ := Option.map_eq_some_iff.mp hp
        exact ⟨rfl, hat'.le, hat'.uid, hat'.known⟩
      · cases hr
        exact ⟨hat, huses (answer e)⟩
      · rcases List.mem_append.mp hr with hr | hr
        · exact hs.removals r hr
        · cases List.mem_singleton.mp hr
          exact ⟨hsameKey, hat.uid_eq_iff hs hat' hsameKey⟩
  | finish =>
      refine hs.of_same ⟨rfl, rfl, rfl⟩ hpods hs.watched (present_update hs.runs fun r hr => ?_)
        hs.removals
      cases hr

end PodSystem

/-! ### Which pod is removed -/

/-- The policy deletes every opted-in pod; `web-0` is watched, and a run on it
starts; before its call arrives, `web-0` is created anew. -/
def recreated : List (PodLabel Unit) :=
  let old := optedInPod "web-0" "4e1f"
  let new := optedInPod "web-0" "9a7c"
  let answer : (e : PodEffect) → e.Reply
    | .increment _ => ()
    | .loadPolicies => [celPolicy "cleanup" "true"]
    | .now => .unixEpoch
    | .evaluate _ _ _ => .ok true
    | .allowGlobal => true
    | .allowPolicy _ _ => true
    | .toVec _ => .ok ()
    | .delete _ _ _ => .ok ()
    | .createEviction _ _ _ => .ok ⟨none⟩
  [.create old, .watch old.key, .start () old 1, .remove old.key, .create new,
    .effect () answer none, .effect () answer none, .effect () answer none,
    .effect () answer none, .effect () answer none, .effect () answer none,
    .effect () answer none]

/-- The run evaluates the old pod and removes the new one. -/
theorem replacement_is_removed :
    ¬ ∀ (periodicResyncInterval : Option Duration) (ι : Type) [DecidableEq ι]
      (π : List (PodLabel ι × PodSystem ι)),
      Execution (PodStep periodicResyncInterval) .initial π →
      ∀ x ∈ states .initial π, ∀ r ∈ x.removals,
        r.removed.metadata.uid = r.evaluated.metadata.uid := by
  intro h
  have hrun : ∃ π, follow (podStep none) (.initial : PodSystem Unit) recreated = some π ∧
      (final .initial π).removals.map (fun r => r.removed.metadata.uid) = [some "9a7c"] ∧
      (final .initial π).removals.map (fun r => r.evaluated.metadata.uid) = [some "4e1f"] :=
    ⟨_, rfl, rfl, rfl⟩
  obtain ⟨π, hfollow, hremoved, hevaluated⟩ := hrun
  have hsame := h none Unit π (execution_of_follow hfollow).1 _ (final_mem_states _ π)
  have hmap := List.map_congr_left hsame
  rw [hremoved, hevaluated] at hmap
  exact absurd hmap (by decide)

/-- **The pod removed is the one that has the name.**  In every interleaving of
creations, updates and removals of pods with runs on objects watched before:
the pod that an accepted delete or eviction acts on has the namespace and name
of the pod evaluated, and it has its uid exactly if no pod was created under
that name since the watch delivered the object evaluated. -/
theorem removed_same_iff [DecidableEq ι] {periodicResyncInterval : Option Duration}
    {π : List (PodLabel ι × PodSystem ι)}
    (hπ : Execution (PodStep periodicResyncInterval) .initial π) :
    ∀ x ∈ states .initial π, ∀ r ∈ x.removals, r.removed.key = r.evaluated.key ∧
      (r.removed.metadata.uid = r.evaluated.metadata.uid ↔ r.removedAt = r.evaluatedAt) := by
  have hconsistent := hπ.invariant (I := PodSystem.Consistent) (fun _ _ _ h hs => hs.step h)
    PodSystem.initial_consistent
  intro x hx
  exact (hconsistent x hx).removals

theorem removed_same_iff_recreated :
    ∃ π, follow (podStep none) (.initial : PodSystem Unit) recreated = some π ∧
      ∀ r ∈ (final .initial π).removals, r.removed.key = r.evaluated.key ∧
        (r.removed.metadata.uid = r.evaluated.metadata.uid ↔ r.removedAt = r.evaluatedAt) := by
  have hrun : ∃ π, follow (podStep none) (.initial : PodSystem Unit) recreated = some π :=
    ⟨_, rfl⟩
  obtain ⟨π, hfollow⟩ := hrun
  exact ⟨π, hfollow, removed_same_iff (execution_of_follow hfollow).1 _ (final_mem_states _ π)⟩

end KubeDepod
