/-
KubeDepod/Lib/Snapshots.lean

A source that changes and a copy of it that any number of parties refresh.
A refresh is two steps: a party *takes* the current version of the source,
and later *publishes* the version it holds as the new copy.  Nothing ties the
two together, so a party may publish a version older than the copy.

The copy never goes backwards if no publication *overtakes* another party,
that is, if whoever publishes finds no older version still held
(`published_mono`); then, whenever nobody holds a version, the copy is the
newest version ever taken (`newest_of_idle`).  For executions that end with
nobody holding a version the condition is also necessary
(`noOvertaking_of_mono`).
-/
import KubeDepod.Lib.Execution
import Mathlib.Logic.Function.Basic

namespace Snapshots

open Lts

variable {ι : Type*} [DecidableEq ι]

/-- The version of the source, the version of the copy, all the versions ever
taken, and the version each party holds. -/
structure State (ι : Type*) where
  version : Nat
  published : Nat
  taken : List Nat
  holding : ι → Option Nat

inductive Label (ι : Type*) where
  | change
  | take (i : ι)
  | publish (i : ι)
  | other

/-- Party `i` takes the current version. -/
def State.take (s : State ι) (i : ι) : State ι :=
  { s with
    taken := s.version :: s.taken
    holding := Function.update s.holding i (some s.version) }

/-- Party `i` publishes `v`. -/
def State.publish (s : State ι) (i : ι) (v : Nat) : State ι :=
  { s with published := v, holding := Function.update s.holding i none }

inductive Step : State ι → Label ι → State ι → Prop
  | change {s} : Step s .change { s with version := s.version + 1 }
  | take {s i} : s.holding i = none → Step s (.take i) (s.take i)
  | publish {s i v} : s.holding i = some v → Step s (.publish i) (s.publish i v)
  | other {s} : Step s .other s

section
variable {s : State ι} {i j : ι} {v : Nat}

@[simp] theorem holding_take_self : (s.take i).holding i = some s.version :=
  Function.update_self ..

theorem holding_take_of_ne (h : j ≠ i) : (s.take i).holding j = s.holding j :=
  Function.update_of_ne h ..

@[simp] theorem holding_publish_self : (s.publish i v).holding i = none :=
  Function.update_self ..

theorem holding_publish_of_ne (h : j ≠ i) : (s.publish i v).holding j = s.holding j :=
  Function.update_of_ne h ..

end

/-- Nobody holds a version. -/
def State.Idle (s : State ι) : Prop := ∀ i, s.holding i = none

/-- Whoever publishes finds no older version still held by another party. -/
def NoOvertaking (s : State ι) : Label ι → Prop
  | .publish i => ∀ v, s.holding i = some v → ∀ j w, s.holding j = some w → v ≤ w
  | _ => True

/-- The copy and what is held are versions that were taken; the copy is no
newer than what is held, which is no newer than the source; and nothing newer
than the copy was taken that is not still held. -/
structure Ordered (s : State ι) : Prop where
  published_le : s.published ≤ s.version
  published_taken : s.published = 0 ∨ s.published ∈ s.taken
  holding_le : ∀ i v, s.holding i = some v → s.published ≤ v ∧ v ≤ s.version ∧ v ∈ s.taken
  newest : ∀ v ∈ s.taken, v ≤ s.published ∨ ∃ i, s.holding i = some v

/-- A step without overtaking keeps the order and moves the copy forward. -/
theorem Ordered.step {s s' : State ι} {a : Label ι} (hstep : Step s a s')
    (hok : NoOvertaking s a) (hs : Ordered s) : Ordered s' ∧ s.published ≤ s'.published := by
  cases hstep with
  | change =>
      refine ⟨⟨Nat.le_succ_of_le hs.published_le, hs.published_taken, fun i v hi => ?_,
        hs.newest⟩, Nat.le_refl _⟩
      obtain ⟨hle, hge, htaken⟩ := hs.holding_le i v hi
      exact ⟨hle, Nat.le_succ_of_le hge, htaken⟩
  | @take i hi =>
      refine ⟨⟨hs.published_le, hs.published_taken.imp_right (List.mem_cons_of_mem _),
        fun j v hj => ?_, fun v hv => ?_⟩, Nat.le_refl _⟩
      · by_cases hji : j = i
        · subst hji
          rw [holding_take_self, Option.some.injEq] at hj
          subst hj
          exact ⟨hs.published_le, Nat.le_refl _, List.mem_cons_self ..⟩
        · rw [holding_take_of_ne hji] at hj
          obtain ⟨hle, hge, htaken⟩ := hs.holding_le j v hj
          exact ⟨hle, hge, List.mem_cons_of_mem _ htaken⟩
      · rcases List.mem_cons.mp hv with rfl | hv
        · exact .inr ⟨i, holding_take_self⟩
        · rcases hs.newest v hv with hle | ⟨j, hj⟩
          · exact .inl hle
          · -- the new holder held nothing before
            have hji : j ≠ i := by
              rintro rfl
              rw [hi] at hj
              cases hj
            exact .inr ⟨j, (holding_take_of_ne hji).trans hj⟩
  | @publish i v hi =>
      obtain ⟨hle, hge, htaken⟩ := hs.holding_le i v hi
      refine ⟨⟨hge, .inr htaken, fun j w hj => ?_, fun w hw => ?_⟩, hle⟩
      · by_cases hji : j = i
        · subst hji
          rw [holding_publish_self] at hj
          cases hj
        · rw [holding_publish_of_ne hji] at hj
          exact ⟨hok v hi j w hj, (hs.holding_le j w hj).2⟩
      · rcases hs.newest w hw with hwle | ⟨j, hj⟩
        · exact .inl (Nat.le_trans hwle hle)
        · by_cases hji : j = i
          · subst hji
            rw [hi, Option.some.injEq] at hj
            exact .inl (Nat.le_of_eq hj.symm)
          · exact .inr ⟨j, (holding_publish_of_ne hji).trans hj⟩
  | other => exact ⟨hs, Nat.le_refl _⟩

variable {s : State ι} {π : List (Label ι × State ι)}

/-- **Without overtaking the copy never goes backwards.** -/
theorem published_mono (hπ : Execution Step s π) (hok : StepsMeet NoOvertaking s π)
    (hs : Ordered s) : (states s π).Pairwise fun x y => x.published ≤ y.published := by
  refine hπ.pairwise_states (I := Ordered) ?_ ?_ ?_ hok hs
  · intro x y z hxy hyz
    exact Nat.le_trans hxy hyz
  · intro s a s' hstep hfirst hs
    exact (hs.step hstep hfirst).1
  · intro s a s' hstep hfirst hs
    exact (hs.step hstep hfirst).2

/-- Without overtaking, the copy in an idle state is the newest version taken,
if any was. -/
theorem newest_of_idle (hπ : Execution Step s π) (hok : StepsMeet NoOvertaking s π)
    (hs : Ordered s) : ∀ x ∈ states s π, x.Idle → x.taken ≠ [] →
      x.published ∈ x.taken ∧ ∀ v ∈ x.taken, v ≤ x.published := by
  intro x hx hidle hne
  have hordered : Ordered x := hπ.invariant_of_stepsMeet
    (fun _ _ _ hstep hfirst hs => (hs.step hstep hfirst).1) hok hs x hx
  have hle : ∀ v ∈ x.taken, v ≤ x.published := by
    intro v hv
    rcases hordered.newest v hv with hle | ⟨i, hi⟩
    · exact hle
    · rw [hidle i] at hi
      cases hi
  refine ⟨?_, hle⟩
  rcases hordered.published_taken with hzero | htaken
  · -- then every version taken is the first one
    obtain ⟨v, hv⟩ := List.exists_mem_of_ne_nil _ hne
    have hv0 : v = x.published := by
      have := hle v hv
      omega
    exact hv0 ▸ hv
  · exact htaken

/-- A held version is published before the execution can end idle. -/
theorem exists_published {i : ι} {v : Nat} (hπ : Execution Step s π) (hi : s.holding i = some v)
    (hidle : (final s π).Idle) : ∃ x ∈ states s π, x.published = v := by
  induction π generalizing s with
  | nil =>
      rw [final_nil] at hidle
      rw [hidle i] at hi
      cases hi
  | cons y π ih =>
      obtain ⟨a, s'⟩ := y
      obtain ⟨hstep, hπ⟩ := hπ
      -- either this step publishes it, or it is still held afterwards
      have hcase : s'.published = v ∨ s'.holding i = some v := by
        cases hstep with
        | change => exact .inr hi
        | @take j hj =>
            have hij : i ≠ j := by
              rintro rfl
              rw [hj] at hi
              cases hi
            exact .inr ((holding_take_of_ne hij).trans hi)
        | @publish j w hj =>
            by_cases hij : i = j
            · subst hij
              rw [hi, Option.some.injEq] at hj
              exact .inl hj.symm
            · exact .inr ((holding_publish_of_ne hij).trans hi)
        | other => exact .inr hi
      rcases hcase with hpublished | hi'
      · exact ⟨s', List.mem_cons_of_mem _ (List.mem_cons_self ..), hpublished⟩
      · obtain ⟨x, hx, hpublished⟩ := ih hπ hi' hidle
        exact ⟨x, List.mem_cons_of_mem _ hx, hpublished⟩

/-- In an execution that ends idle, the copy going forwards means that nothing
was overtaken. -/
theorem noOvertaking_of_mono (hπ : Execution Step s π) (hidle : (final s π).Idle)
    (hmono : (states s π).Pairwise fun x y => x.published ≤ y.published) :
    StepsMeet NoOvertaking s π := by
  induction π generalizing s with
  | nil => trivial
  | cons y π ih =>
      obtain ⟨a, s'⟩ := y
      obtain ⟨hstep, hπ⟩ := hπ
      obtain ⟨-, hmono⟩ := List.pairwise_cons.mp hmono
      refine ⟨?_, ih hπ hidle hmono⟩
      cases hstep with
      | change => trivial
      | take => trivial
      | other => trivial
      | @publish i v hi =>
          intro v' hv' j w hj
          obtain rfl : v = v' := Option.some.inj (hi.symm.trans hv')
          by_cases hji : j = i
          · subst hji
            obtain rfl : v = w := Option.some.inj (hi.symm.trans hj)
            exact Nat.le_refl v
          · -- what `j` holds is published later, and by then the copy is at least `v`
            obtain ⟨x, hx, rfl⟩ :=
              exists_published hπ ((holding_publish_of_ne hji).trans hj) hidle
            rcases List.mem_cons.mp hx with rfl | hx
            · exact Nat.le_refl _
            · exact (List.pairwise_cons.mp hmono).1 x hx

end Snapshots
