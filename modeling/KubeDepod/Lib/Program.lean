/-
KubeDepod/Lib/Program.lean

Effectful programs as syntax.  A program over a signature `R : E → Type`
either returns or performs an effect `e` and continues with the reply, a
value of `R e`.  What the effects do is not part of the program; it is given
by one of two kinds of environment:

* a *handler* `(e : E) → σ → R e × σ` answers every effect and updates its
  state; `run` executes a program against it;
* a *protocol* `Protocol R σ` says, for each effect, in which states it may
  be performed and which replies and successor states are possible; `Exec`
  is the big-step semantics against it.

`wp` is the weakest precondition of a program against a protocol: no
forbidden effect is ever performed, and every way the run can end satisfies
the postcondition.  It is compositional (`wp_bind`), monotone (`wp_mono`)
and sound for `Exec` (`Exec.of_wp`).  Because `wp` unfolds one effect at a
time (`wp_op`), the same assertion can be carried along a run that is
interleaved with other activities.
-/
import Mathlib.Logic.Basic

namespace Effects

/-- Programs that perform effects `e : E`, answered by replies in `R e`. -/
inductive Prog {E : Type} (R : E → Type) (α : Type) : Type where
  | pure (a : α)
  | op (e : E) (k : R e → Prog R α)

variable {E : Type} {R : E → Type} {α β σ : Type}

namespace Prog

/-- Sequential composition. -/
def bind : Prog R α → (α → Prog R β) → Prog R β
  | .pure a, f => f a
  | .op e k, f => .op e fun r => bind (k r) f

instance : Monad (Prog R) where
  pure := Prog.pure
  bind := Prog.bind

/-- Perform one effect and return its reply. -/
def perform (e : E) : Prog R (R e) := .op e .pure

@[simp] theorem pure_bind (a : α) (f : α → Prog R β) :
    ((Pure.pure a : Prog R α) >>= f) = f a := rfl

@[simp] theorem op_bind (e : E) (k : R e → Prog R α) (f : α → Prog R β) :
    (Prog.op e k >>= f) = Prog.op e fun r => k r >>= f := rfl

@[simp] theorem perform_bind (e : E) (f : R e → Prog R β) :
    (perform e >>= f) = Prog.op e f := rfl

theorem bind_assoc {γ : Type} (p : Prog R α) (f : α → Prog R β) (g : β → Prog R γ) :
    (p >>= f) >>= g = p >>= fun a => f a >>= g := by
  induction p with
  | pure a => rfl
  | op e k ih => exact congrArg (Prog.op e) (funext ih)

/-! ### Running a program against a handler -/

/-- Execute the program, answering each effect with the handler. -/
def run (h : (e : E) → σ → R e × σ) : Prog R α → σ → α × σ
  | .pure a, s => (a, s)
  | .op e k, s => run h (k (h e s).1) (h e s).2

variable (h : (e : E) → σ → R e × σ)

@[simp] theorem run_pure (a : α) (s : σ) : run h (Pure.pure a : Prog R α) s = (a, s) := rfl

@[simp] theorem run_op (e : E) (k : R e → Prog R α) (s : σ) :
    run h (.op e k) s = run h (k (h e s).1) (h e s).2 := rfl

@[simp] theorem run_bind (p : Prog R α) (f : α → Prog R β) (s : σ) :
    run h (p >>= f) s = run h (f (run h p s).1) (run h p s).2 := by
  induction p generalizing s with
  | pure a => rfl
  | op e k ih => exact ih _ _

@[simp] theorem run_perform (e : E) (s : σ) : run h (perform e) s = h e s := rfl

/-! ### The effects a program uses -/

/-- Every effect the program may come to perform satisfies `Q`. -/
def Uses (Q : E → Prop) : Prog R α → Prop
  | .pure _ => True
  | .op e k => Q e ∧ ∀ r, Uses Q (k r)

variable {Q : E → Prop}

theorem Uses.bind {p : Prog R α} {f : α → Prog R β} (hp : p.Uses Q) (hf : ∀ a, (f a).Uses Q) :
    (p >>= f).Uses Q := by
  induction p with
  | pure a => exact hf a
  | op e k ih => exact ⟨hp.1, fun r => ih r (hp.2 r)⟩

theorem Uses.mono {Q' : E → Prop} {p : Prog R α} (hQ : ∀ e, Q e → Q' e) (hp : p.Uses Q) :
    p.Uses Q' := by
  induction p with
  | pure a => trivial
  | op e k ih => exact ⟨hQ e hp.1, fun r => ih r (hp.2 r)⟩

end Prog

/-! ### Protocols -/

/-- An environment with choice: when an effect may be performed, and which
replies and successor states it may have. -/
structure Protocol (R : E → Type) (σ : Type) where
  allowed : E → σ → Prop
  reply : (e : E) → σ → R e → σ → Prop

/-- Big-step execution against a protocol. -/
inductive Exec (P : Protocol R σ) : Prog R α → σ → α → σ → Prop
  | pure {a s} : Exec P (.pure a) s a s
  | op {e k s r s' a s''} :
      P.reply e s r s' → Exec P (k r) s' a s'' → Exec P (.op e k) s a s''

/-- A handler whose answers the protocol permits yields an execution. -/
theorem exec_run {P : Protocol R σ} {h : (e : E) → σ → R e × σ}
    (hh : ∀ e s, P.reply e s (h e s).1 (h e s).2) (p : Prog R α) (s : σ) :
    Exec P p s (p.run h s).1 (p.run h s).2 := by
  induction p generalizing s with
  | pure a => exact .pure
  | op e k ih => exact .op (hh e s) (ih _ _)

/-! ### Weakest preconditions -/

/-- No forbidden effect is performed, and every way to end satisfies `post`. -/
def wp (P : Protocol R σ) : Prog R α → (α → σ → Prop) → σ → Prop
  | .pure a, post, s => post a s
  | .op e k, post, s => P.allowed e s ∧ ∀ r s', P.reply e s r s' → wp P (k r) post s'

variable {P : Protocol R σ} {post post' : α → σ → Prop}

theorem wp_op {e : E} {k : R e → Prog R α} {s : σ} :
    wp P (.op e k) post s ↔
      P.allowed e s ∧ ∀ r s', P.reply e s r s' → wp P (k r) post s' := Iff.rfl

theorem wp_mono {p : Prog R α} (hpost : ∀ a s, post a s → post' a s) {s : σ}
    (h : wp P p post s) : wp P p post' s := by
  induction p generalizing s with
  | pure a => exact hpost a s h
  | op e k ih => exact ⟨h.1, fun r s' hr => ih r (h.2 r s' hr)⟩

theorem wp_bind {p : Prog R β} {f : β → Prog R α} {s : σ} :
    wp P (p >>= f) post s ↔ wp P p (fun b => wp P (f b) post) s := by
  induction p generalizing s with
  | pure b => exact Iff.rfl
  | op e k ih =>
      simp only [Prog.op_bind, wp_op]
      exact and_congr_right fun _ => forall₃_congr fun r s' _ => ih r

/-- A program whose effects are all allowed and keep `I` keeps `I`. -/
theorem wp_of_uses {p : Prog R α} {Q : E → Prop} {I : σ → Prop} (hp : p.Uses Q)
    (hallowed : ∀ e s, Q e → I s → P.allowed e s)
    (hkeep : ∀ e s r s', Q e → I s → P.reply e s r s' → I s') {s : σ} (hs : I s) :
    wp P p (fun _ => I) s := by
  induction p generalizing s with
  | pure a => exact hs
  | op e k ih =>
      obtain ⟨he, hk⟩ := hp
      refine ⟨hallowed e s he hs, fun r s' hr => ?_⟩
      exact ih r (hk r) (hkeep e s r s' he hs hr)

/-- **Soundness**: an execution ends in a state that satisfies `post`. -/
theorem Exec.of_wp {p : Prog R α} {s s' : σ} {a : α} (hx : Exec P p s a s')
    (h : wp P p post s) : post a s' := by
  induction hx with
  | pure => exact h
  | op hr _ ih => exact ih (h.2 _ _ hr)

end Effects
