/-
KubeDepod/Lib/Polling.lean

Deadlines watched by polls.  The states of an execution are polls, each at its
time; a deadline is *ahead* of a poll until the poll's time has reached it.

`Polls` says what a poll may be followed by while deadlines are ahead: a poll
at least `gap` later, and at most `gap` after any deadline that was ahead.
Then no deadline is overslept by more than `gap` (`Polls.first_caught`), only
finitely many polls have a deadline ahead (`Polls.countP_ahead_lt`), and if
there always is a next poll, the last deadline is reached
(`Polls.exists_caught`).
-/
import KubeDepod.Lib.Execution
import Mathlib.Algebra.Order.Ring.Int
import Mathlib.Data.List.Count

namespace Polling

open Lts

variable {σ α : Type*}

/-- Some deadline is still to come. -/
def Ahead (deadlines : List Int) (t : Int) : Prop := ∃ d ∈ deadlines, t < d

instance (deadlines : List Int) (t : Int) : Decidable (Ahead deadlines t) :=
  inferInstanceAs (Decidable (∃ d ∈ deadlines, t < d))

/-- The steps from `I`-states are polls of the deadlines. -/
structure Polls (step : σ → α → σ → Prop) (I : σ → Prop) (time : σ → Int)
    (deadlines : List Int) (gap : Int) : Prop where
  keeps : ∀ s a s', step s a s' → I s → I s'
  later : ∀ s a s', step s a s' → I s → time s ≤ time s'
  advances : ∀ s a s', step s a s' → I s → Ahead deadlines (time s) → time s + gap ≤ time s'
  catches : ∀ s a s', step s a s' → I s → ∀ d ∈ deadlines, time s < d → time s' ≤ d + gap

variable {step : σ → α → σ → Prop} {I : σ → Prop} {time : σ → Int} {deadlines : List Int}
  {gap : Int} {s : σ} {π : List (α × σ)}

/-- **No deadline is overslept**: the first poll that a deadline is not ahead
of comes at most `gap` after it, or is the very first one. -/
theorem Polls.first_caught (h : Polls step I time deadlines gap) (hπ : Execution step s π)
    (hs : I s) {d : Int} (hd : d ∈ deadlines) {earlier later : List σ} {x : σ}
    (hsplit : states s π = earlier ++ x :: later) (hahead : ∀ y ∈ earlier, time y < d) :
    earlier = [] ∨ time x ≤ d + gap := by
  induction π generalizing s earlier with
  | nil =>
      left
      rw [states_nil, List.singleton_eq_append_iff] at hsplit
      rcases hsplit with ⟨hnil, -⟩ | ⟨-, hcons⟩
      · exact hnil
      · cases hcons
  | cons y π ih =>
      obtain ⟨a, s'⟩ := y
      obtain ⟨hstep, hπ⟩ := hπ
      cases earlier with
      | nil => exact .inl rfl
      | cons y earlier =>
          right
          rw [states_cons, List.cons_append] at hsplit
          obtain ⟨rfl, hrest⟩ := List.cons.inj hsplit
          have hfirst : time s < d := hahead s (List.mem_cons_self ..)
          rcases ih hπ (h.keeps s a s' hstep hs) hrest
            (fun y hy => hahead y (List.mem_cons_of_mem _ hy)) with rfl | hcaught
          · -- `x` is the poll right after `s`
            have hx : s' = x := (List.cons.inj hrest).1
            rw [← hx]
            exact h.catches s a s' hstep hs d hd hfirst
          · exact hcaught

/-- Once no deadline is ahead, none is ahead of any later poll. -/
theorem Polls.countP_ahead_of_not (h : Polls step I time deadlines gap)
    (hπ : Execution step s π) (hs : I s) (hnot : ¬ Ahead deadlines (time s)) :
    (states s π).countP (fun x => decide (Ahead deadlines (time x))) = 0 := by
  rw [List.countP_eq_zero]
  have hinv := hπ.invariant (I := fun x => I x ∧ ¬ Ahead deadlines (time x)) ?_ ⟨hs, hnot⟩
  · intro x hx
    rw [decide_eq_true_iff]
    exact (hinv x hx).2
  · rintro x a x' hstep ⟨hx, hnot⟩
    refine ⟨h.keeps x a x' hstep hx, ?_⟩
    rintro ⟨d, hd, hlt⟩
    exact hnot ⟨d, hd, Int.lt_of_le_of_lt (h.later x a x' hstep hx) hlt⟩

/-- **Finitely many polls**: up to a bound on the deadlines there is room for
so many polls that have one ahead. -/
theorem Polls.countP_ahead_lt (h : Polls step I time deadlines gap) (hgap : 0 < gap)
    {bound : Int} (hbound : ∀ d ∈ deadlines, d ≤ bound) (hπ : Execution step s π) (hs : I s) :
    (states s π).countP (fun x => decide (Ahead deadlines (time x))) * gap
      < max (bound - time s) 0 + gap := by
  induction π generalizing s with
  | nil =>
      rw [states_nil, List.countP_singleton]
      split
      case isTrue hahead =>
        obtain ⟨d, hd, hlt⟩ := of_decide_eq_true hahead
        have := hbound d hd
        omega
      case isFalse => omega
  | cons y π ih =>
      obtain ⟨a, s'⟩ := y
      obtain ⟨hstep, hπ⟩ := hπ
      by_cases hahead : Ahead deadlines (time s)
      · rw [states_cons, List.countP_cons, if_pos (decide_eq_true hahead), Nat.cast_succ,
          Int.add_mul, Int.one_mul]
        have hlater := h.advances s a s' hstep hs hahead
        have hrest := ih hπ (h.keeps s a s' hstep hs)
        obtain ⟨d, hd, hlt⟩ := hahead
        have hle := hbound d hd
        by_cases hroom : time s' < bound
        · omega
        · -- nothing is ahead of `s'`
          have hnone := h.countP_ahead_of_not hπ (h.keeps s a s' hstep hs) (by
            rintro ⟨d, hd, hlt⟩
            have := hbound d hd
            omega)
          rw [hnone]
          omega
      · have hnone := h.countP_ahead_of_not (π := (a, s') :: π) ⟨hstep, hπ⟩ hs hahead
        rw [hnone]
        omega

/-- **The last deadline is reached**, if every poll with one ahead is followed
by another. -/
theorem Polls.exists_caught (h : Polls step I time deadlines gap) (hgap : 0 < gap)
    {bound : Int} (hbound : ∀ d ∈ deadlines, d ≤ bound)
    (hnext : ∀ s, I s → Ahead deadlines (time s) → ∃ a s', step s a s') (hs : I s) :
    ∃ π, Execution step s π ∧ ¬ Ahead deadlines (time (final s π)) := by
  -- induction on the time left up to the bound
  induction hn : (bound - time s).toNat using Nat.strongRecOn generalizing s with
  | ind n ih =>
      by_cases hahead : Ahead deadlines (time s)
      · obtain ⟨a, s', hstep⟩ := hnext s hs hahead
        have hlater := h.advances s a s' hstep hs hahead
        have hlt : (bound - time s').toNat < n := by
          obtain ⟨d, hd, hlt⟩ := hahead
          have := hbound d hd
          omega
        obtain ⟨π, hπ, hcaught⟩ := ih _ hlt (h.keeps s a s' hstep hs) rfl
        exact ⟨(a, s') :: π, ⟨hstep, hπ⟩, hcaught⟩
      · exact ⟨[], trivial, hahead⟩

end Polling
