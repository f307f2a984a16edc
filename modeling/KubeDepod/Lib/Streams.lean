/-
KubeDepod/Lib/Streams.lean

Copies of a source that are kept up to date by queues of its changes.  A copy
*follows* the source if applying the changes still queued for it gives the
source.  Two queues fed from one source differ only in how far they have been
consumed (`OneHistory`); the changes that the first still has and the second
no longer has are its `lag`.
-/
import Mathlib.Data.List.Basic
import Mathlib.Data.List.Infix

namespace Streams

variable {σ δ : Type*}

/-! ### One queue -/

/-- The changes queued for the copy lead to the source. -/
def Follows (apply : σ → δ → σ) (copy : σ) (queue : List δ) (source : σ) : Prop :=
  queue.foldl apply copy = source

variable {apply : σ → δ → σ} {copy source : σ} {queue : List δ} {d : δ}

/-- The source changes. -/
theorem Follows.push (h : Follows apply copy queue source) :
    Follows apply copy (queue ++ [d]) (apply source d) := by
  rw [Follows, List.foldl_concat, h]

/-- The copy takes the next change. -/
theorem Follows.pop (h : Follows apply copy (d :: queue) source) :
    Follows apply (apply copy d) queue source := h

/-- With nothing queued the copy is the source. -/
theorem Follows.drained (h : Follows apply copy [] source) : copy = source := h

/-- What every queued change keeps, from the copy to the source. -/
theorem Follows.invariant {P : σ → Prop} (h : Follows apply copy queue source)
    (hP : ∀ s, ∀ d ∈ queue, P s → P (apply s d)) (hcopy : P copy) : P source := by
  induction queue generalizing copy with
  | nil => exact h.drained ▸ hcopy
  | cons d queue ih =>
      refine ih h.pop (fun s e he => hP s e (List.mem_cons_of_mem _ he)) ?_
      exact hP copy d (List.mem_cons_self ..) hcopy

/-! ### Two queues -/

/-- Both queues are what is left of one sequence of changes. -/
def OneHistory (queue queue' : List δ) : Prop := queue <:+ queue' ∨ queue' <:+ queue

/-- The changes of the first queue that the second no longer has. -/
def lag (queue queue' : List δ) : List δ := queue.take (queue.length - queue'.length)

variable {queue' : List δ}

theorem OneHistory.symm (h : OneHistory queue queue') : OneHistory queue' queue := Or.symm h

theorem suffix_concat (h : queue <:+ queue') : queue ++ [d] <:+ queue' ++ [d] := by
  obtain ⟨front, rfl⟩ := h
  exact ⟨front, (List.append_assoc ..).symm⟩

theorem OneHistory.push (h : OneHistory queue queue') :
    OneHistory (queue ++ [d]) (queue' ++ [d]) :=
  h.imp suffix_concat suffix_concat

theorem OneHistory.pop (h : OneHistory (d :: queue) queue') : OneHistory queue queue' := by
  rcases h with h | h
  · exact .inl ((List.suffix_cons d queue).trans h)
  · rcases List.suffix_cons_iff.mp h with rfl | h
    · exact .inl (List.suffix_cons d queue)
    · exact .inr h

/-- A change that only the first queue has is in its lag. -/
theorem OneHistory.mem_lag (h : OneHistory queue queue') (hmem : d ∈ queue)
    (hnot : d ∉ queue') : d ∈ lag queue queue' := by
  rcases h with h | ⟨front, rfl⟩
  · exact absurd (h.subset hmem) hnot
  · have hlag : lag (front ++ queue') queue' = front := by
      rw [lag, List.length_append, Nat.add_sub_cancel, List.take_left]
    rw [hlag]
    exact (List.mem_append.mp hmem).resolve_right hnot

end Streams
