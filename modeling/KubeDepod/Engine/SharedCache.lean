/-
KubeDepod/Engine/SharedCache.lean

The CEL program cache under any number of callers.

A caller of the evaluator relies on one thing only: what it finds in the cache
under an expression is the program of that expression (`cacheProtocol`).  It
inserts nothing else, so that this always holds, and a `clear` between a lookup
and an insert does no harm.  The cache is therefore transparent
(`cache_transparent`): every reply is the one that a call without a cache would
have given.
-/
import KubeDepod.Engine.Evaluator
import KubeDepod.Lib.Sharing

namespace KubeDepod

open Effects Lts Sharing

variable {cel : CelEngine} {conv : CelConversion}

/-! ### What the calls rely on -/

/-- Only compiled programs are inserted, each under its own expression, and
only such are found. -/
def cacheProtocol (cel : CelEngine) : Protocol (@CacheEffect.Reply cel) Unit where
  allowed
    | .insert expr program, _ => cel.compile expr = .ok program
    | _, _ => True
  reply
    | .get expr, _, found, _ => ∀ program, found = some program → cel.compile expr = .ok program
    | .containsKey expr, _, found, _ =>
        found = true → ∃ program, cel.compile expr = .ok program
    | _, _, _, _ => True

/-- A sound cache keeps its side. -/
theorem serves_handler :
    Serves (@ExpressionCache.handler cel) (cacheProtocol cel) ExpressionCache.Sound where
  replies e cache hsound := by
    cases e with
    | get expr => exact hsound expr
    | containsKey expr =>
        intro hfound
        obtain ⟨program, hprogram⟩ := Option.isSome_iff_exists.mp hfound
        exact ⟨program, hsound expr program hprogram⟩
    | insert expr program => trivial
    | clear => trivial
  keeps e cache hsound hallowed := by
    cases e with
    | get expr => exact hsound
    | containsKey expr => exact hsound
    | insert expr program =>
        intro expr' program' hlookup
        simp only [ExpressionCache.handler] at hlookup
        split_ifs at hlookup with heq
        · obtain rfl := Option.some.inj hlookup
          rw [heq]
          exact hallowed
        · exact hsound expr' program' hlookup
    | clear =>
        intro expr program hlookup
        cases hlookup

/-- After a miss, `evaluate` and `validate` compile the expression, insert its
program if there is one, and go on with it. -/
theorem wp_miss {α : Type} (expr : String) (f : cel.Program → Except Error α) :
    wp (cacheProtocol cel)
      (match cel.compile expr with
        | .ok prog => do
            let _ ← performOn (.insert expr prog)
            return f prog
        | .error e => return .error (.celCompilationError e))
      (fun result _ => result = match cel.compile expr with
        | .ok prog => f prog
        | .error e => .error (.celCompilationError e)) () := by
  rcases hcompile : cel.compile expr with e | prog
  · exact rfl
  · exact ⟨hcompile, fun _ _ _ => rfl⟩

/-- `evaluate` keeps to the protocol and returns what a fresh evaluation would. -/
theorem wp_evaluate (rt : CelRuntime cel conv) (expr : String) (pod : Pod) (now : DateTime) :
    wp (cacheProtocol cel) (rt.evaluate expr pod now)
      (fun result _ => result = rt.evaluateFresh expr pod now) () := by
  refine ⟨trivial, fun found _ hfound => ?_⟩
  cases found with
  | none => exact wp_miss expr fun prog => rt.executeOn prog pod now
  | some program =>
      show rt.executeOn program pod now = rt.evaluateFresh expr pod now
      rw [CelRuntime.evaluateFresh, hfound program rfl]

theorem wp_validate (expr : String) :
    wp (cacheProtocol cel) (cel.validate expr) (fun result _ => result = cel.verdict expr) () := by
  refine ⟨trivial, fun found _ hfound => ?_⟩
  cases found with
  | false => exact wp_miss expr fun _ => .ok ()
  | true =>
      obtain ⟨program, hprogram⟩ := hfound rfl
      show Except.ok () = cel.verdict expr
      rw [CelEngine.verdict, hprogram]

/-- Every call, on its own. -/
theorem wp_body (rt : CelRuntime cel conv) (call : CelCall) :
    wp (cacheProtocol cel) (rt.body call) (fun reply _ => reply = rt.freshReply call) () := by
  cases call with
  | evaluate expr pod now =>
      refine wp_bind.mpr (wp_mono ?_ (wp_evaluate rt expr pod now))
      rintro result - rfl
      exact rfl
  | validate expr =>
      refine wp_bind.mpr (wp_mono ?_ (wp_validate expr))
      rintro result - rfl
      exact rfl
  | clearCache => exact ⟨trivial, fun _ _ _ => rfl⟩

/-! ### All calls together -/

/-- The callers of one evaluator. -/
abbrev CelCallers (cel : CelEngine) (ι : Type) :=
  Shared (@CacheEffect.Reply cel) ι CelCall CelReply (ExpressionCache cel)

/-- A new evaluator. -/
def CelCallers.new {ι : Type} : CelCallers cel ι :=
  Shared.initial (CelEvaluator.new : CelEvaluator cel).expressionCache

theorem verdict_eq_ok_iff (expr : String) :
    cel.verdict expr = .ok () ↔ ∃ program, cel.compile expr = .ok program := by
  unfold CelEngine.verdict
  rcases cel.compile expr with e | program
  · exact iff_of_false nofun fun h => nomatch h.choose_spec
  · exact iff_of_true rfl ⟨program, rfl⟩

/-- **The cache is transparent.**  For any calls of any number of callers,
interleaved in any order at the granularity of the cache operations: every call
that has returned gave the reply of a call without a cache; a `validate`
returned `Ok` exactly if the expression compiles; and the cache maps an
expression to its own program only. -/
theorem cache_transparent (rt : CelRuntime cel conv) {ι : Type} [DecidableEq ι]
    {π : List (Label ι CelCall × CelCallers cel ι)}
    (hπ : Execution (Step ExpressionCache.handler rt.body) CelCallers.new π) :
    ∀ s ∈ states CelCallers.new π,
      (∀ x ∈ s.returned, x.2 = rt.freshReply x.1) ∧
        (∀ expr result, (CelCall.validate expr, CelReply.validated result) ∈ s.returned →
          (result = .ok () ↔ ∃ program, cel.compile expr = .ok program)) ∧
        ∀ expr program, s.object expr = some program → cel.compile expr = .ok program := by
  intro s hs
  have hsound := sound_of_execution serves_handler (wp_body rt)
    (CelEvaluator.new : CelEvaluator cel).sound hπ s hs
  refine ⟨hsound.returned, fun expr result hreturned => ?_, hsound.object⟩
  obtain rfl := CelReply.validated.inj (hsound.returned _ hreturned)
  exact verdict_eq_ok_iff expr

/-! ### A run -/

/-- Of the language only the two literals. -/
def literalEngine : CelEngine where
  Program := Bool
  compile
    | "true" => .ok true
    | "false" => .ok false
    | _ => .error "not a literal"

def literalRuntime : CelRuntime literalEngine epochPodConversion where
  execute := fun program _ => .ok (.bool program)

/-- `evaluate` misses; `validate` misses too and inserts; the cache is cleared;
then `evaluate` inserts, and the next `validate` hits. -/
def clearedBetween : List (Label Bool CelCall) :=
  [.start true (.evaluate "true" epochPod .unixEpoch), .effect true,
    .start false (.validate "true"), .effect false, .effect false, .finish false,
    .start false .clearCache, .effect false, .finish false,
    .effect true, .finish true,
    .start false (.validate "true"), .effect false, .finish false]

theorem cache_transparent_cleared :
    ∃ π : List (Label Bool CelCall × CelCallers literalEngine Bool),
      follow (next ExpressionCache.handler literalRuntime.body) CelCallers.new clearedBetween
        = some π ∧
      ∀ s ∈ states CelCallers.new π,
        (∀ x ∈ s.returned, x.2 = literalRuntime.freshReply x.1) ∧
          (∀ expr result, (CelCall.validate expr, CelReply.validated result) ∈ s.returned →
            (result = .ok () ↔ ∃ program, literalEngine.compile expr = .ok program)) ∧
          ∀ expr program, s.object expr = some program →
            literalEngine.compile expr = .ok program := by
  have hfollow : ∃ π : List (Label Bool CelCall × CelCallers literalEngine Bool),
      follow (next ExpressionCache.handler literalRuntime.body) CelCallers.new clearedBetween
        = some π := ⟨_, rfl⟩
  obtain ⟨π, hπ⟩ := hfollow
  exact ⟨π, hπ, cache_transparent literalRuntime (execution_of_follow hπ).1⟩

end KubeDepod
