/-
KubeDepod/Engine/Cel.lean

The CEL evaluator's program cache.

The compiler is the `cel` crate's and is a parameter, `CelEngine`: all that
is used of it is that `Program::compile` is a function of the expression.  The
evaluator carries the soundness of its cache as a field: an entry is the
program its expression compiles to.
-/
import KubeDepod.Crd

namespace KubeDepod

/-- `cel::Program::compile`; an error is represented by its text. -/
structure CelEngine where
  Program : Type
  compile : String → Except String Program

/-- What validating an expression comes to: it compiles or it does not. -/
def CelEngine.verdict (cel : CelEngine) (expr : String) : Except Error Unit :=
  match cel.compile expr with
  | .ok _ => .ok ()
  | .error e => .error (.celCompilationError e)

/-- `CelEvaluator`. -/
structure CelEvaluator (cel : CelEngine) where
  expressionCache : String → Option cel.Program
  sound : ∀ expr program, expressionCache expr = some program → cel.compile expr = .ok program

namespace CelEvaluator

variable {cel : CelEngine}

/-- `CelEvaluator::new`. -/
def new : CelEvaluator cel where
  expressionCache := fun _ => none
  sound := by simp

/-- `expression_cache.insert(expr, program)`. -/
def insert (ev : CelEvaluator cel) (expr : String) (program : cel.Program)
    (h : cel.compile expr = .ok program) : CelEvaluator cel where
  expressionCache := fun e => if e = expr then some program else ev.expressionCache e
  sound := by
    intro e p he
    split at he
    case isTrue heq =>
      cases he
      rw [heq, h]
    case isFalse => exact ev.sound e p he

/-- `CelEvaluator::validate`. -/
def validate (ev : CelEvaluator cel) (expr : String) : Except Error Unit × CelEvaluator cel :=
  match ev.expressionCache expr with
  | some _ => (.ok (), ev)
  | none =>
      match h : cel.compile expr with
      | .ok program => (.ok (), ev.insert expr program h)
      | .error e => (.error (.celCompilationError e), ev)

/-- Cached or not, an expression is valid exactly when it compiles. -/
theorem validate_eq (ev : CelEvaluator cel) (expr : String) :
    (ev.validate expr).1 = cel.verdict expr := by
  unfold validate CelEngine.verdict
  split
  case h_1 program hcached => rw [ev.sound expr program hcached]
  case h_2 =>
    split
    case h_1 program h =>
      show Except.ok () = _
      rw [h]
    case h_2 e h =>
      show Except.error (Error.celCompilationError e) = _
      rw [h]

end CelEvaluator

/-- The policy has no CEL condition, or its expression compiles. -/
def CelEngine.accepts (cel : CelEngine) (policy : DepodPolicy) : Bool :=
  match policy.spec.when_.expression with
  | some expr => policy.spec.when_.conditionType != .cel || (cel.compile expr).isOk
  | none => true

/-- The policy is valid: its spec passes `validate` and its expression compiles. -/
def CelEngine.valid (cel : CelEngine) (policy : DepodPolicy) : Bool :=
  policy.spec.isValid && cel.accepts policy

end KubeDepod
