/-
KubeDepod/Lib/Potential.lean

The potential method for executions of a labelled transition relation.

Every step may cost something and may pay something in; both can depend on the
state before the step and on its label.  If no step costs more than what it
pays and what it takes from the potential, then no execution costs more than
all it pays and the potential it began with (`Execution.total_le`).  With a
cost of one for every step this bounds the length (`Execution.length_le`), and
where every step balances, the execution does (`Execution.total_eq`).
-/
import KubeDepod.Lib.Execution

namespace Lts

variable {σ α : Type*}

/-- What the steps of an execution cost together. -/
def totalAlong (cost : σ → α → Nat) : σ → List (α × σ) → Nat
  | _, [] => 0
  | s, (a, s') :: π => cost s a + totalAlong cost s' π

variable {step : σ → α → σ → Prop} {ok : σ → α → Prop} {cost gain : σ → α → Nat}

@[simp] theorem totalAlong_nil (s : σ) : totalAlong cost s [] = 0 := rfl

@[simp] theorem totalAlong_cons (s s' : σ) (a : α) (π : List (α × σ)) :
    totalAlong cost s ((a, s') :: π) = cost s a + totalAlong cost s' π := rfl

theorem totalAlong_zero (s : σ) (π : List (α × σ)) : totalAlong (fun _ _ => 0) s π = 0 := by
  induction π generalizing s with
  | nil => rfl
  | cons x π ih => exact (Nat.zero_add _).trans (ih x.2)

theorem totalAlong_one (s : σ) (π : List (α × σ)) : totalAlong (fun _ _ => 1) s π = π.length := by
  induction π generalizing s with
  | nil => rfl
  | cons x π ih =>
      obtain ⟨a, s'⟩ := x
      rw [totalAlong_cons, ih, List.length_cons, Nat.add_comm]

theorem totalAlong_const_mul (n : Nat) (s : σ) (π : List (α × σ)) :
    totalAlong (fun s a => n * cost s a) s π = n * totalAlong cost s π := by
  induction π generalizing s with
  | nil => rfl
  | cons x π ih =>
      obtain ⟨a, s'⟩ := x
      rw [totalAlong_cons, totalAlong_cons, ih, Nat.mul_add]

/-- **The potential method**, for the executions whose steps meet `ok`. -/
theorem Execution.total_le_of_stepsMeet {I : σ → Prop} (Φ : σ → Nat)
    (hI : ∀ s a s', step s a s' → I s → I s')
    (hΦ : ∀ s a s', step s a s' → ok s a → I s → cost s a + Φ s' ≤ Φ s + gain s a)
    {s : σ} {π : List (α × σ)} (hπ : Execution step s π) (hok : StepsMeet ok s π) (hs : I s) :
    totalAlong cost s π + Φ (final s π) ≤ Φ s + totalAlong gain s π := by
  induction π generalizing s with
  | nil => exact Nat.le_of_eq (Nat.zero_add _)
  | cons x π ih =>
      obtain ⟨a, s'⟩ := x
      have hfirst := hΦ s a s' hπ.1 hok.1 hs
      have hrest := ih hπ.2 hok.2 (hI s a s' hπ.1 hs)
      rw [totalAlong_cons, totalAlong_cons, final_cons]
      omega

/-- **The potential method.** -/
theorem Execution.total_le {I : σ → Prop} (Φ : σ → Nat)
    (hI : ∀ s a s', step s a s' → I s → I s')
    (hΦ : ∀ s a s', step s a s' → I s → cost s a + Φ s' ≤ Φ s + gain s a)
    {s : σ} {π : List (α × σ)} (hπ : Execution step s π) (hs : I s) :
    totalAlong cost s π + Φ (final s π) ≤ Φ s + totalAlong gain s π :=
  hπ.total_le_of_stepsMeet Φ hI (fun s a s' h (_ : True) => hΦ s a s' h)
    (stepsMeet_of_forall (fun _ _ => trivial) s π) hs

/-- Where every step balances, so does the whole execution. -/
theorem Execution.total_eq {I : σ → Prop} (Φ : σ → Nat)
    (hI : ∀ s a s', step s a s' → I s → I s')
    (hΦ : ∀ s a s', step s a s' → I s → cost s a + Φ s' = Φ s + gain s a)
    {s : σ} {π : List (α × σ)} (hπ : Execution step s π) (hs : I s) :
    totalAlong cost s π + Φ (final s π) = Φ s + totalAlong gain s π := by
  induction π generalizing s with
  | nil => exact Nat.zero_add _
  | cons x π ih =>
      obtain ⟨a, s'⟩ := x
      have hfirst := hΦ s a s' hπ.1 hs
      have hrest := ih hπ.2 (hI s a s' hπ.1 hs)
      rw [totalAlong_cons, totalAlong_cons, final_cons]
      omega

/-- A potential that every step lowers, but for what it pays in, bounds the
length. -/
theorem Execution.length_le {I : σ → Prop} (Φ : σ → Nat)
    (hI : ∀ s a s', step s a s' → I s → I s')
    (hΦ : ∀ s a s', step s a s' → I s → Φ s' + 1 ≤ Φ s + gain s a)
    {s : σ} {π : List (α × σ)} (hπ : Execution step s π) (hs : I s) :
    π.length + Φ (final s π) ≤ Φ s + totalAlong gain s π := by
  have hle : totalAlong (fun _ _ => 1) s π + Φ (final s π) ≤ Φ s + totalAlong gain s π :=
    hπ.total_le Φ hI (fun s a s' h hs => by rw [Nat.add_comm]; exact hΦ s a s' h hs) hs
  rwa [totalAlong_one] at hle

end Lts
