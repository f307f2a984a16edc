/-
KubeDepod/Lib/Execution.lean

Executions of a labelled transition relation, as alternating sequences: an
execution from `s` is the list of the labels taken and of the states they
lead to.  Nothing here depends on what is modelled.

Five rules carry the later developments:

* `Execution.invariant`: what every step preserves holds in every state;
* `Execution.invariant_of_stepsMeet`: the same for the executions whose
  steps all meet a condition on the state before the step;
* `Execution.invariant_iff`: an execution stays within an invariant exactly
  when its steps meet a condition, if single steps do;
* `Execution.pairwise_states`: a transitive relation between the states
  before and after each step relates every earlier state to every later one;
* `Execution.image`: a simulation maps executions to executions.
-/
import Mathlib.Data.List.Basic

namespace Lts

variable {σ α : Type*}

/-- `π` is an execution of `step` from the given state. -/
def Execution (step : σ → α → σ → Prop) : σ → List (α × σ) → Prop
  | _, [] => True
  | s, (a, s') :: π => step s a s' ∧ Execution step s' π

/-- The state in which the sequence ends. -/
def final : σ → List (α × σ) → σ
  | s, [] => s
  | _, (_, s') :: π => final s' π

/-- The states visited, the first one included. -/
def states (s : σ) (π : List (α × σ)) : List σ :=
  s :: π.map Prod.snd

/-- Every step is taken in a state in which `ok` allows its label. -/
def StepsMeet (ok : σ → α → Prop) : σ → List (α × σ) → Prop
  | _, [] => True
  | s, (a, s') :: π => ok s a ∧ StepsMeet ok s' π

instance decidableStepsMeet {ok : σ → α → Prop} [∀ s a, Decidable (ok s a)] :
    (s : σ) → (π : List (α × σ)) → Decidable (StepsMeet ok s π)
  | _, [] => .isTrue trivial
  | s, (a, s') :: π =>
      have : Decidable (StepsMeet ok s' π) := decidableStepsMeet s' π
      inferInstanceAs (Decidable (ok s a ∧ StepsMeet ok s' π))

variable {step : σ → α → σ → Prop} {ok : σ → α → Prop}

@[simp] theorem execution_nil (s : σ) : Execution step s [] := trivial

@[simp] theorem execution_cons {s s' : σ} {a : α} {π : List (α × σ)} :
    Execution step s ((a, s') :: π) ↔ step s a s' ∧ Execution step s' π := Iff.rfl

@[simp] theorem final_nil (s : σ) : final s ([] : List (α × σ)) = s := rfl

@[simp] theorem final_cons (s s' : σ) (a : α) (π : List (α × σ)) :
    final s ((a, s') :: π) = final s' π := rfl

@[simp] theorem stepsMeet_nil (s : σ) : StepsMeet ok s [] := trivial

@[simp] theorem stepsMeet_cons {s s' : σ} {a : α} {π : List (α × σ)} :
    StepsMeet ok s ((a, s') :: π) ↔ ok s a ∧ StepsMeet ok s' π := Iff.rfl

@[simp] theorem states_nil (s : σ) : states s ([] : List (α × σ)) = [s] := rfl

@[simp] theorem states_cons (s s' : σ) (a : α) (π : List (α × σ)) :
    states s ((a, s') :: π) = s :: states s' π := rfl

theorem final_mem_states (s : σ) (π : List (α × σ)) : final s π ∈ states s π := by
  induction π generalizing s with
  | nil => simp
  | cons x π ih =>
      obtain ⟨a, s'⟩ := x
      exact List.mem_cons_of_mem _ (ih s')

/-! ### Invariants -/

/-- What holds at the start and is preserved by the steps that meet `ok`
holds in every state of an execution all of whose steps meet `ok`. -/
theorem Execution.invariant_of_stepsMeet {I : σ → Prop}
    (hI : ∀ s a s', step s a s' → ok s a → I s → I s')
    {s : σ} {π : List (α × σ)} (hπ : Execution step s π) (hok : StepsMeet ok s π)
    (hs : I s) : ∀ x ∈ states s π, I x := by
  induction π generalizing s with
  | nil => simpa using hs
  | cons y π ih =>
      obtain ⟨a, s'⟩ := y
      intro x hx
      rcases List.mem_cons.mp hx with rfl | hx
      · exact hs
      · exact ih hπ.2 hok.2 (hI s a s' hπ.1 hok.1 hs) x hx

theorem stepsMeet_of_forall (h : ∀ s a, ok s a) (s : σ) (π : List (α × σ)) :
    StepsMeet ok s π := by
  induction π generalizing s with
  | nil => trivial
  | cons x π ih => exact ⟨h s x.1, ih x.2⟩

theorem StepsMeet.and {ok' : σ → α → Prop} {s : σ} {π : List (α × σ)} (h : StepsMeet ok s π)
    (h' : StepsMeet ok' s π) : StepsMeet (fun s a => ok s a ∧ ok' s a) s π := by
  induction π generalizing s with
  | nil => trivial
  | cons x π ih => exact ⟨⟨h.1, h'.1⟩, ih h.2 h'.2⟩

theorem StepsMeet.mono {ok' : σ → α → Prop} (himp : ∀ s a, ok s a → ok' s a) {s : σ}
    {π : List (α × σ)} (h : StepsMeet ok s π) : StepsMeet ok' s π := by
  induction π generalizing s with
  | nil => trivial
  | cons x π ih => exact ⟨himp _ _ h.1, ih h.2⟩

/-- Every step is one of a larger relation. -/
theorem Execution.mono {step' : σ → α → σ → Prop} (himp : ∀ s a s', step s a s' → step' s a s')
    {s : σ} {π : List (α × σ)} (hπ : Execution step s π) : Execution step' s π := by
  induction π generalizing s with
  | nil => trivial
  | cons x π ih => exact ⟨himp _ _ _ hπ.1, ih hπ.2⟩

/-- A condition that every step implies. -/
theorem Execution.stepsMeet (h : ∀ s a s', step s a s' → ok s a) {s : σ} {π : List (α × σ)}
    (hπ : Execution step s π) : StepsMeet ok s π := by
  induction π generalizing s with
  | nil => trivial
  | cons x π ih => exact ⟨h _ _ _ hπ.1, ih hπ.2⟩

/-- A condition that the steps meet because of an invariant. -/
theorem Execution.stepsMeet_of_invariant {ok' : σ → α → Prop} {I : σ → Prop}
    (hI : ∀ s a s', step s a s' → ok s a → I s → I s')
    (himp : ∀ s a s', step s a s' → I s → ok s a → ok' s a)
    {s : σ} {π : List (α × σ)} (hπ : Execution step s π) (hok : StepsMeet ok s π)
    (hs : I s) : StepsMeet ok' s π := by
  induction π generalizing s with
  | nil => trivial
  | cons x π ih =>
      obtain ⟨a, s'⟩ := x
      exact ⟨himp s a s' hπ.1 hs hok.1, ih hπ.2 hok.2 (hI s a s' hπ.1 hok.1 hs)⟩

/-- Two conditions that agree on the steps from `I`-states, as long as the
steps that meet them preserve `I`. -/
theorem Execution.stepsMeet_iff {ok' : σ → α → Prop} {I : σ → Prop}
    (hI : ∀ s a s', step s a s' → ok s a → I s → I s')
    (hiff : ∀ s a s', step s a s' → I s → (ok s a ↔ ok' s a))
    {s : σ} {π : List (α × σ)} (hπ : Execution step s π) (hs : I s) :
    StepsMeet ok s π ↔ StepsMeet ok' s π := by
  constructor
  · intro hok
    exact hπ.stepsMeet_of_invariant hI (fun s a s' h hs => (hiff s a s' h hs).mp) hok hs
  · intro hok
    exact hπ.stepsMeet_of_invariant
      (fun s a s' h ha hs => hI s a s' h ((hiff s a s' h hs).mpr ha) hs)
      (fun s a s' h hs => (hiff s a s' h hs).mpr) hok hs

/-- What holds at the start and is preserved by every step holds in every
state of an execution. -/
theorem Execution.invariant {I : σ → Prop} (hI : ∀ s a s', step s a s' → I s → I s')
    {s : σ} {π : List (α × σ)} (hπ : Execution step s π) (hs : I s) :
    ∀ x ∈ states s π, I x := by
  have hall : StepsMeet (fun _ _ => True) s π := stepsMeet_of_forall (fun _ _ => trivial) s π
  exact hπ.invariant_of_stepsMeet (fun s a s' h _ => hI s a s' h) hall hs

/-- What every step from an `I`-state leads to. -/
theorem Execution.forall_mem {I : σ → Prop} {Q : α → σ → Prop}
    (hI : ∀ s a s', step s a s' → I s → I s') (hQ : ∀ s a s', step s a s' → I s → Q a s')
    {s : σ} {π : List (α × σ)} (hπ : Execution step s π) (hs : I s) : ∀ x ∈ π, Q x.1 x.2 := by
  induction π generalizing s with
  | nil => exact fun x hx => nomatch hx
  | cons y π ih =>
      obtain ⟨a, s'⟩ := y
      intro x hx
      rcases List.mem_cons.mp hx with rfl | hx
      · exact hQ s a s' hπ.1 hs
      · exact ih hπ.2 (hI s a s' hπ.1 hs) x hx

/-- If a step from an `I`-state ends in one exactly when it meets `ok`, then an
execution stays within `I` exactly when all its steps meet `ok`. -/
theorem Execution.invariant_iff {I : σ → Prop}
    (hI : ∀ s a s', step s a s' → I s → (I s' ↔ ok s a))
    {s : σ} {π : List (α × σ)} (hπ : Execution step s π) (hs : I s) :
    (∀ x ∈ states s π, I x) ↔ StepsMeet ok s π := by
  induction π generalizing s with
  | nil => simpa using hs
  | cons y π ih =>
      obtain ⟨a, s'⟩ := y
      obtain ⟨hstep, hπ⟩ := hπ
      have hfirst := hI s a s' hstep hs
      rw [states_cons, List.forall_mem_cons, stepsMeet_cons, and_iff_right hs]
      constructor
      · intro hall
        have hs' : I s' := hall s' (List.mem_cons_self ..)
        exact ⟨hfirst.mp hs', (ih hπ hs').mp hall⟩
      · rintro ⟨hok, hrest⟩
        exact (ih hπ (hfirst.mpr hok)).mpr hrest

/-! ### Relations between earlier and later states -/

/-- If a transitive `r` relates the states before and after every step that
meets `ok` from an `I`-state, and such steps preserve `I`, then it relates
every state to every later one. -/
theorem Execution.pairwise_states {I : σ → Prop} {r : σ → σ → Prop}
    (htrans : ∀ x y z, r x y → r y z → r x z)
    (hI : ∀ s a s', step s a s' → ok s a → I s → I s')
    (hr : ∀ s a s', step s a s' → ok s a → I s → r s s')
    {s : σ} {π : List (α × σ)} (hπ : Execution step s π) (hok : StepsMeet ok s π)
    (hs : I s) : (states s π).Pairwise r := by
  induction π generalizing s with
  | nil => exact List.pairwise_singleton r s
  | cons y π ih =>
      obtain ⟨a, s'⟩ := y
      obtain ⟨hstep, hπ⟩ := hπ
      obtain ⟨hfirst, hok⟩ := hok
      have hs' : I s' := hI s a s' hstep hfirst hs
      refine List.pairwise_cons.mpr ⟨?_, ih hπ hok hs'⟩
      -- from the first step on, every state is an `I`-state related to `s`
      intro x hx
      have hinv := hπ.invariant_of_stepsMeet (I := fun x => I x ∧ r s x)
        (fun x b x' h hb hx => ⟨hI x b x' h hb hx.1, htrans s x x' hx.2 (hr x b x' h hb hx.1)⟩)
        hok ⟨hs', hr s a s' hstep hfirst hs⟩
      exact (hinv x hx).2

/-- Every state is related to the last one. -/
theorem rel_final {r : σ → σ → Prop} (hrefl : ∀ x, r x x) {s : σ} {π : List (α × σ)}
    (h : (states s π).Pairwise r) : ∀ x ∈ states s π, r x (final s π) := by
  induction π generalizing s with
  | nil =>
      intro x hx
      rw [List.mem_singleton.mp hx]
      exact hrefl s
  | cons y π ih =>
      obtain ⟨hfirst, hrest⟩ := List.pairwise_cons.mp h
      intro x hx
      rcases List.mem_cons.mp hx with rfl | hx
      · exact hfirst _ (final_mem_states y.2 π)
      · exact ih hrest x hx

/-! ### Simulation -/

variable {τ β : Type*}

/-- The image of an execution under a map of states and of labels. -/
def image (f : σ → τ) (g : σ → α → β) : σ → List (α × σ) → List (β × τ)
  | _, [] => []
  | s, (a, s') :: π => (g s a, f s') :: image f g s' π

variable {f : σ → τ} {g : σ → α → β}

theorem states_image (s : σ) (π : List (α × σ)) :
    states (f s) (image f g s π) = (states s π).map f := by
  induction π generalizing s with
  | nil => rfl
  | cons y π ih => exact congrArg (f s :: ·) (ih y.2)

theorem final_image (s : σ) (π : List (α × σ)) : final (f s) (image f g s π) = f (final s π) := by
  induction π generalizing s with
  | nil => rfl
  | cons y π ih => exact ih y.2

theorem stepsMeet_image {ok : τ → β → Prop} {s : σ} {π : List (α × σ)} :
    StepsMeet ok (f s) (image f g s π) ↔ StepsMeet (fun s a => ok (f s) (g s a)) s π := by
  induction π generalizing s with
  | nil => exact Iff.rfl
  | cons y π ih => exact and_congr_right fun _ => ih

/-- A simulation, under an invariant, maps executions to executions. -/
theorem Execution.image {step' : τ → β → τ → Prop} {I : σ → Prop}
    (hI : ∀ s a s', step s a s' → I s → I s')
    (hsim : ∀ s a s', step s a s' → I s → step' (f s) (g s a) (f s'))
    {s : σ} {π : List (α × σ)} (hπ : Execution step s π) (hs : I s) :
    Execution step' (f s) (Lts.image f g s π) := by
  induction π generalizing s with
  | nil => trivial
  | cons y π ih =>
      obtain ⟨a, s'⟩ := y
      exact ⟨hsim s a s' hπ.1 hs, ih hπ.2 (hI s a s' hπ.1 hs)⟩

/-! ### Deterministic steps -/

/-- Follow the labels of a partial step function. -/
def follow (next : σ → α → Option σ) : σ → List α → Option (List (α × σ))
  | _, [] => some []
  | s, a :: labels =>
      match next s a with
      | some s' => (follow next s' labels).map fun π => (a, s') :: π
      | none => none

theorem execution_of_follow {next : σ → α → Option σ} {s : σ} {labels : List α}
    {π : List (α × σ)} (h : follow next s labels = some π) :
    Execution (fun s a s' => next s a = some s') s π ∧ π.map Prod.fst = labels := by
  induction labels generalizing s π with
  | nil =>
      obtain rfl : [] = π := Option.some.inj h
      exact ⟨trivial, rfl⟩
  | cons a labels ih =>
      rcases hnext : next s a with - | s'
      · simp [follow, hnext] at h
      · simp only [follow, hnext, Option.map_eq_some_iff] at h
        obtain ⟨π', hπ', rfl⟩ := h
        obtain ⟨hexec, hlabels⟩ := ih hπ'
        exact ⟨⟨hnext, hexec⟩, by rw [List.map_cons, hlabels]⟩

/-- A condition on the labels alone. -/
theorem stepsMeet_of_labels {ok : α → Prop} {s : σ} {π : List (α × σ)}
    (h : ∀ a ∈ π.map Prod.fst, ok a) : StepsMeet (fun _ a => ok a) s π := by
  induction π generalizing s with
  | nil => trivial
  | cons x π ih =>
      obtain ⟨a, s'⟩ := x
      exact ⟨h a (by simp), ih fun b hb => h b (by simp_all)⟩

end Lts
