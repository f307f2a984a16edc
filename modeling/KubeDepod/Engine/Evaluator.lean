/-
KubeDepod/Engine/Evaluator.lean

The calls of the CEL evaluator, as programs over single operations of its cache.

`evaluate`, `validate` and `clear_cache` take `&self`, and each operation of the
`DashMap` is atomic by itself; what lies between two of them is the caller's
own.  The compiler and the interpreter are the `cel` crate's and parameters.
`evaluateFresh` is what `evaluate` would come to without a cache, and
`run_validate` ties the program of `validate` to `CelEvaluator.validate`, which
is the whole call in one step.
-/
import KubeDepod.Engine.Cel
import KubeDepod.Engine.Context
import KubeDepod.Lib.Program

namespace KubeDepod

open Effects

/-! ### Execution -/

/-- `cel::Value`, as far as `evaluate` tells the variants apart; a `Float` is
given by its bits. -/
inductive CelOutcome where
  | bool (b : Bool)
  | int (i : Int64)
  | uint (u : UInt64)
  | float (bits : UInt64)
  | other
deriving DecidableEq

/-- The truth value of a result; the two bit patterns are `0.0` and `-0.0`. -/
def CelOutcome.toBool : CelOutcome → Except Error Bool
  | .bool b => .ok b
  | .int i => .ok (i != 0)
  | .uint u => .ok (u != 0)
  | .float bits => .ok (bits != 0 && bits != 0x8000000000000000)
  | .other => .error (.celEvaluationError "Expression did not evaluate to boolean")

/-- `cel::Program::execute`; an error is represented by its text. -/
structure CelRuntime (cel : CelEngine) (conv : CelConversion) where
  execute : cel.Program → CelContext conv → Except String CelOutcome

namespace CelRuntime

variable {cel : CelEngine} {conv : CelConversion}

/-- What `evaluate` does with its program; the context reads the clock as
`now`. -/
def executeOn (rt : CelRuntime cel conv) (program : cel.Program) (pod : Pod) (now : DateTime) :
    Except Error Bool := do
  let context ← buildEvaluationContext conv pod now
  match rt.execute program context with
  | .ok result => result.toBool
  | .error e => throw (.celEvaluationError e)

/-- Compile afresh, and execute. -/
def evaluateFresh (rt : CelRuntime cel conv) (expr : String) (pod : Pod) (now : DateTime) :
    Except Error Bool :=
  match cel.compile expr with
  | .ok program => rt.executeOn program pod now
  | .error e => .error (.celCompilationError e)

end CelRuntime

/-! ### The cache -/

/-- `expression_cache`. -/
abbrev ExpressionCache (cel : CelEngine) := String → Option cel.Program

/-- The operations of the cache. -/
inductive CacheEffect (cel : CelEngine) where
  | get (expr : String)
  | containsKey (expr : String)
  | insert (expr : String) (program : cel.Program)
  | clear

/-- The reply to each operation. -/
abbrev CacheEffect.Reply {cel : CelEngine} : CacheEffect cel → Type
  | .get _ => Option cel.Program
  | .containsKey _ => Bool
  | .insert _ _ => Unit
  | .clear => Unit

namespace ExpressionCache

variable {cel : CelEngine} {conv : CelConversion}

/-- What each operation does. -/
def handler : (e : CacheEffect cel) → ExpressionCache cel → e.Reply × ExpressionCache cel
  | .get expr, cache => (cache expr, cache)
  | .containsKey expr, cache => ((cache expr).isSome, cache)
  | .insert expr program, cache => ((), fun e => if e = expr then some program else cache e)
  | .clear, _ => ((), fun _ => none)

/-- Every expression is mapped to its own compiled program. -/
def Sound (cache : ExpressionCache cel) : Prop :=
  ∀ expr program, cache expr = some program → cel.compile expr = .ok program

end ExpressionCache

/-! ### The calls -/

abbrev CelProg (cel : CelEngine) := Prog (@CacheEffect.Reply cel)

def performOn {cel : CelEngine} (e : CacheEffect cel) : CelProg cel e.Reply := Prog.perform e

namespace CelRuntime

variable {cel : CelEngine} {conv : CelConversion}

/-- `CelEvaluator::evaluate`; the policy's name is only logged. -/
def evaluate (rt : CelRuntime cel conv) (expr : String) (pod : Pod) (now : DateTime) :
    CelProg cel (Except Error Bool) := do
  match ← performOn (.get expr) with
  | some cached => return rt.executeOn cached pod now
  | none =>
      match cel.compile expr with
      | .ok prog => do
          let _ ← performOn (.insert expr prog)
          return rt.executeOn prog pod now
      | .error e => return .error (.celCompilationError e)

end CelRuntime

namespace CelEngine

/-- `CelEvaluator::validate`. -/
def validate (cel : CelEngine) (expr : String) : CelProg cel (Except Error Unit) := do
  if ← performOn (.containsKey expr) then
    return .ok ()
  else
    match cel.compile expr with
    | .ok prog => do
        let _ ← performOn (.insert expr prog)
        return .ok ()
    | .error e => return .error (.celCompilationError e)

/-- `CelEvaluator::clear_cache`. -/
def clearCache (cel : CelEngine) : CelProg cel Unit := performOn .clear

end CelEngine

/-- A call, with its arguments and the time at which it will read the clock. -/
inductive CelCall where
  | evaluate (expr : String) (pod : Pod) (now : DateTime)
  | validate (expr : String)
  | clearCache
deriving DecidableEq

/-- What a call returns. -/
inductive CelReply where
  | evaluated (result : Except Error Bool)
  | validated (result : Except Error Unit)
  | cleared

namespace CelRuntime

variable {cel : CelEngine} {conv : CelConversion}

def body (rt : CelRuntime cel conv) : CelCall → CelProg cel CelReply
  | .evaluate expr pod now => return .evaluated (← rt.evaluate expr pod now)
  | .validate expr => return .validated (← cel.validate expr)
  | .clearCache => do
      cel.clearCache
      return .cleared

/-- What the call would return without a cache. -/
def freshReply (rt : CelRuntime cel conv) : CelCall → CelReply
  | .evaluate expr pod now => .evaluated (rt.evaluateFresh expr pod now)
  | .validate expr => .validated (cel.verdict expr)
  | .clearCache => .cleared

end CelRuntime

/-! ### One call alone -/

namespace CelEvaluator

variable {cel : CelEngine} {ev : CelEvaluator cel} {expr : String} {program : cel.Program}

theorem validate_of_cached (h : ev.expressionCache expr = some program) :
    ev.validate expr = (.ok (), ev) := by
  unfold validate
  split
  case h_1 => rfl
  case h_2 hmiss => cases h.symm.trans hmiss

theorem validate_of_compiles (hmiss : ev.expressionCache expr = none)
    (h : cel.compile expr = .ok program) :
    ev.validate expr = (.ok (), ev.insert expr program h) := by
  unfold validate
  split
  case h_1 hcached => cases hmiss.symm.trans hcached
  case h_2 =>
    split
    case h_1 program' h' =>
      obtain rfl : program = program' := Except.ok.inj (h.symm.trans h')
      rfl
    case h_2 h' => cases h.symm.trans h'

theorem validate_of_fails (hmiss : ev.expressionCache expr = none) {e : String}
    (h : cel.compile expr = .error e) :
    ev.validate expr = (.error (.celCompilationError e), ev) := by
  unfold validate
  split
  case h_1 hcached => cases hmiss.symm.trans hcached
  case h_2 =>
    split
    case h_1 h' => cases h.symm.trans h'
    case h_2 e' h' =>
      obtain rfl : e = e' := Except.error.inj (h.symm.trans h')
      rfl

/-- Alone, `validate` is the operation of the evaluator. -/
theorem run_validate (ev : CelEvaluator cel) (expr : String) :
    (cel.validate expr).run ExpressionCache.handler ev.expressionCache
      = ((ev.validate expr).1, (ev.validate expr).2.expressionCache) := by
  rcases hlookup : ev.expressionCache expr with - | program
  · have hmiss : (ev.expressionCache expr).isSome = false := by rw [hlookup]; rfl
    rcases hcompile : cel.compile expr with e | program
    · rw [validate_of_fails hlookup hcompile]
      simp [CelEngine.validate, performOn, ExpressionCache.handler, hmiss, hcompile]
    · rw [validate_of_compiles hlookup hcompile]
      simp [CelEngine.validate, performOn, ExpressionCache.handler, hmiss, hcompile, insert]
  · have hhit : (ev.expressionCache expr).isSome = true := by rw [hlookup]; rfl
    rw [validate_of_cached hlookup]
    simp [CelEngine.validate, performOn, ExpressionCache.handler, hhit]

end CelEvaluator

end KubeDepod
