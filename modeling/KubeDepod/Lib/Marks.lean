/-
KubeDepod/Lib/Marks.lean

Programs with marks.

A mark is an effect without an answer: it says that the program has come to a
certain place, and with what.  `erase` takes the marks out again.  A program
whose marked version erases to it does the same things in the same places, so
what holds of the marks of the one is a statement about the branches that the
other takes.
-/
import KubeDepod.Lib.Program

namespace Effects

variable {E : Type} {R : E → Type} {α β μ : Type}

/-- The replies of the effects; a mark has none. -/
abbrev Marked (R : E → Type) (μ : Type) : E ⊕ μ → Type
  | .inl e => R e
  | .inr _ => Unit

namespace Prog

/-- Leave a mark. -/
def mark (m : μ) : Prog (Marked R μ) Unit := .op (.inr m) .pure

/-- Perform an effect of the program without marks. -/
def unmarked (e : E) : Prog (Marked R μ) (R e) := .op (.inl e) .pure

/-- The program without its marks. -/
def erase : Prog (Marked R μ) α → Prog R α
  | .pure a => .pure a
  | .op (.inl e) k => .op e fun r => erase (k r)
  | .op (.inr _) k => erase (k ())

/-- Erasing commutes with sequential composition. -/
theorem erase_bind (p : Prog (Marked R μ) α) (f : α → Prog (Marked R μ) β) :
    (p >>= f).erase = p.erase >>= fun a => (f a).erase := by
  induction p with
  | pure a => rfl
  | op e k ih =>
      cases e with
      | inl e =>
          show Prog.op e (fun r => ((k r) >>= f).erase) = _
          rw [funext ih]
          rfl
      | inr m => exact ih ()

/-- The effects of the erased program are effects of the program. -/
theorem Uses.erase {Q : E ⊕ μ → Prop} {p : Prog (Marked R μ) α} (h : p.Uses Q) :
    p.erase.Uses fun e => Q (.inl e) := by
  induction p with
  | pure a => trivial
  | op e k ih =>
      cases e with
      | inl e => exact ⟨h.1, fun r => ih r (h.2 r)⟩
      | inr m => exact ih () (h.2 ())

end Prog

end Effects
