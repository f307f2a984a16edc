/-
KubeDepod/Engine/Compilations.lean

How often the CEL evaluator compiles.

A call asks the cache for its expression, compiles it on a miss, and inserts the
program.  Between the miss and the insert other calls may miss as well, and they
compile the same expression again.  But a caller has one call under way at a
time, and after the first insert nobody misses until the cache is cleared.  So
each caller compiles an expression once at most between two clears, and nobody
does while the cache has it (`compilations_le`); two callers that ask at once do
compile it twice (`compilations_le_two`).
-/
import KubeDepod.Engine.SharedCache
import KubeDepod.Lib.Potential
import Mathlib.Algebra.Order.BigOperators.Group.Finset

namespace KubeDepod

open Effects Lts Parties Sharing

variable {cel : CelEngine} {conv : CelConversion}

/-! ### One call -/

/-- How far a call is with its expression. -/
inductive CallPhase where
  | asks
  | missed (expr : String)
  | answered
deriving DecidableEq

namespace CacheEffect

/-- The expression that the operation looks for. -/
def asksFor : CacheEffect cel → Option String
  | .get expr => some expr
  | .containsKey expr => some expr
  | _ => none

def isClear : CacheEffect cel → Bool
  | .clear => true
  | _ => false

def phaseAfter : (e : CacheEffect cel) → e.Reply → CallPhase
  | .get expr, found => if found.isSome then .answered else .missed expr
  | .containsKey expr, found => if found then .answered else .missed expr
  | .insert _ _, _ => .answered
  | .clear, _ => .answered

theorem phaseAfter_of_asksFor {e : CacheEffect cel} {expr : String} (h : e.asksFor = some expr)
    (cache : ExpressionCache cel) :
    e.phaseAfter (ExpressionCache.handler e cache).1
        = (if (cache expr).isSome then .answered else .missed expr) ∧
      (ExpressionCache.handler e cache).2 = cache := by
  cases e with
  | get expr' =>
      obtain rfl : expr' = expr := Option.some.inj h
      exact ⟨rfl, rfl⟩
  | containsKey expr' =>
      obtain rfl : expr' = expr := Option.some.inj h
      exact ⟨rfl, rfl⟩
  | insert expr' program => cases h
  | clear => cases h

end CacheEffect

/-- A call asks once, and inserts once at most, after a miss and under the
expression it has missed. -/
def compileProtocol (cel : CelEngine) : Protocol (@CacheEffect.Reply cel) CallPhase where
  allowed
    | .insert expr _, phase => phase = .missed expr
    | _, phase => phase = .asks
  reply e _ reply phase := phase = e.phaseAfter reply

/-- A program that was missed and could be compiled has been inserted. -/
def CallPhase.Settled (cel : CelEngine) (phase : CallPhase) : Prop :=
  ∀ expr program, phase = .missed expr → cel.compile expr ≠ .ok program

theorem wp_compileMiss {α : Type} (expr : String) (f : cel.Program → Except Error α) :
    wp (compileProtocol cel)
      (match cel.compile expr with
        | .ok prog => do
            let _ ← performOn (.insert expr prog)
            return f prog
        | .error e => return .error (.celCompilationError e))
      (fun _ => CallPhase.Settled cel) (.missed expr) := by
  rcases hcompile : cel.compile expr with e | prog
  · rintro expr' program ⟨⟩ hok
    cases hcompile.symm.trans hok
  · refine ⟨rfl, ?_⟩
    rintro _ _ rfl
    exact nofun

theorem wp_compileBody (rt : CelRuntime cel conv) (call : CelCall) :
    wp (compileProtocol cel) (rt.body call) (fun _ => CallPhase.Settled cel) .asks := by
  cases call with
  | evaluate expr pod now =>
      refine wp_bind.mpr ⟨rfl, ?_⟩
      rintro found _ rfl
      cases found with
      | none => exact wp_compileMiss expr fun prog => rt.executeOn prog pod now
      | some program => exact nofun
  | validate expr =>
      refine wp_bind.mpr ⟨rfl, ?_⟩
      rintro found _ rfl
      cases found with
      | false => exact wp_compileMiss expr fun _ => .ok ()
      | true => exact nofun
  | clearCache =>
      refine ⟨rfl, ?_⟩
      rintro _ _ rfl
      exact nofun

/-- The call is about to insert a program for `expr`. -/
def inserting (expr : String) : Option (CelCall × CelProg cel CelReply) → Nat
  | some (_, .op (.insert expr' _) _) => if expr' = expr then 1 else 0
  | _ => 0

theorem inserting_le_one (expr : String) (x : Option (CelCall × CelProg cel CelReply)) :
    inserting expr x ≤ 1 := by
  unfold inserting
  split
  · split_ifs <;> decide
  · exact Nat.zero_le 1

/-- It is exactly when it has missed it. -/
theorem inserting_eq {expr : String} {program : cel.Program}
    (hcompile : cel.compile expr = .ok program) {call : CelCall} {p : CelProg cel CelReply}
    {phase : CallPhase} (h : wp (compileProtocol cel) p (fun _ => CallPhase.Settled cel) phase) :
    inserting expr (some (call, p)) = if phase = .missed expr then 1 else 0 := by
  cases p with
  | pure reply => exact (if_neg fun hmissed => h expr program hmissed hcompile).symm
  | op e k =>
      cases e with
      | insert expr' program' =>
          obtain rfl : phase = .missed expr' := h.1
          show (if expr' = expr then 1 else 0) = _
          simp only [CallPhase.missed.injEq]
      | _ =>
          obtain rfl : phase = .asks := h.1
          exact (if_neg nofun).symm

/-! ### All calls together -/

variable {ι : Type} [DecidableEq ι]

namespace CelCallers

/-- The operation that the step performs. -/
def performed (s : CelCallers cel ι) : Label ι CelCall → Option (CacheEffect cel)
  | .effect i =>
      match s.running i with
      | some (_, .op e _) => some e
      | _ => none
  | _ => none

omit [DecidableEq ι] in
theorem performed_effect {s : CelCallers cel ι} {i : ι} {call : CelCall} {e : CacheEffect cel}
    {k : e.Reply → CelProg cel CelReply} (h : s.running i = some (call, .op e k)) :
    performed s (.effect i) = some e := by
  simp only [performed, h]

/-- The step misses `expr`, so that the call compiles it. -/
def compiles (expr : String) (s : CelCallers cel ι) (label : Label ι CelCall) : Nat :=
  if (performed s label).bind CacheEffect.asksFor = some expr ∧ s.object expr = none then 1 else 0

def clears (s : CelCallers cel ι) (label : Label ι CelCall) : Nat :=
  ((performed s label).any CacheEffect.isClear).toNat

/-- Every call keeps to the protocol. -/
def Compiling (s : CelCallers cel ι) : Prop :=
  ∀ i x, s.running i = some x →
    ∃ phase, wp (compileProtocol cel) x.2 (fun _ => CallPhase.Settled cel) phase

variable {s s' : CelCallers cel ι} {label : Label ι CelCall}

theorem Compiling.step (rt : CelRuntime cel conv)
    (hstep : Step ExpressionCache.handler rt.body s label s') (hs : Compiling s) :
    Compiling s' := by
  obtain ⟨i, call, -, -, rfl⟩ | ⟨i, call, e, k, -, hi, rfl⟩ | ⟨i, call, a, -, -, rfl⟩ :=
    step_cases hstep
  · refine present_update hs ?_
    rintro x ⟨⟩
    exact ⟨.asks, wp_compileBody rt call⟩
  · refine present_update hs ?_
    rintro x ⟨⟩
    obtain ⟨phase, -, hcontinue⟩ := hs i _ hi
    exact ⟨_, hcontinue _ _ rfl⟩
  · refine present_update hs ?_
    rintro x ⟨⟩

variable [Fintype ι] {expr : String} {program : cel.Program}

/-- The calls that are about to insert a program for `expr`. -/
def pending (expr : String) (s : CelCallers cel ι) : Nat := ∑ i, inserting expr (s.running i)

omit [DecidableEq ι] in
theorem pending_le (expr : String) (s : CelCallers cel ι) : pending expr s ≤ Fintype.card ι := by
  calc (∑ i, inserting expr (s.running i)) ≤ ∑ _i : ι, 1 :=
        Finset.sum_le_sum fun i _ => inserting_le_one expr (s.running i)
    _ = Fintype.card ι := by rw [Finset.sum_const_nat fun _ _ => rfl, Nat.mul_one, Finset.card_univ]

theorem pending_update (expr : String) {i : ι} {x : Option (CelCall × CelProg cel CelReply)}
    (hrunning : s'.running = Function.update s.running i x) :
    pending expr s' + inserting expr (s.running i) = pending expr s + inserting expr x := by
  unfold pending
  rw [hrunning]
  exact sum_update_add (inserting expr) s.running i x

/-- The callers that may compile `expr` before it is in the cache. -/
def mayCompile (expr : String) (s : CelCallers cel ι) : Nat :=
  if s.object expr = none then Fintype.card ι - pending expr s else 0

omit [DecidableEq ι] in
theorem mayCompile_le (expr : String) (s : CelCallers cel ι) :
    mayCompile expr s ≤ Fintype.card ι * (if s.object expr = none then 1 else 0) := by
  unfold mayCompile
  split_ifs
  · rw [Nat.mul_one]
    exact Nat.sub_le _ _
  · exact Nat.zero_le _

omit [DecidableEq ι] [Fintype ι] in
/-- Only a lookup compiles. -/
theorem compiles_eq_zero (h : (performed s label).bind CacheEffect.asksFor = none) :
    compiles expr s label = 0 := by
  refine if_neg fun hmiss => ?_
  rw [h] at hmiss
  cases hmiss.1

omit [DecidableEq ι] in
theorem mayCompile_congr (hobject : s'.object expr = s.object expr)
    (hpending : pending expr s' = pending expr s) : mayCompile expr s' = mayCompile expr s := by
  rw [mayCompile, mayCompile, hobject, hpending]

omit [DecidableEq ι] in
/-- A step that is no lookup and leaves the program of `expr` alone. -/
theorem mayCompile_quiet (hlookup : (performed s label).bind CacheEffect.asksFor = none)
    (hobject : s'.object expr = s.object expr) (hpending : pending expr s' = pending expr s)
    (n : Nat) : compiles expr s label + mayCompile expr s' ≤ mayCompile expr s + n := by
  rw [compiles_eq_zero hlookup, mayCompile_congr hobject hpending, Nat.zero_add]
  exact Nat.le_add_right _ _

omit [DecidableEq ι] in
/-- A lookup that misses `expr` is paid for by its caller; any other changes
nothing. -/
theorem mayCompile_lookup {i : ι} {call : CelCall} {e : CacheEffect cel}
    {k : e.Reply → CelProg cel CelReply} {asked : String} (hasks : e.asksFor = some asked)
    (hi : s.running i = some (call, .op e k)) (hobject : s'.object = s.object)
    (hpending : pending expr s' = pending expr s
      + if e.phaseAfter (ExpressionCache.handler e s.object).1 = .missed expr then 1 else 0) :
    compiles expr s (.effect i) + mayCompile expr s' ≤ mayCompile expr s := by
  have hbound := pending_le expr s'
  rw [compiles, performed_effect hi, Option.bind_some, hasks]
  rw [(CacheEffect.phaseAfter_of_asksFor hasks s.object).1] at hpending
  unfold mayCompile
  rw [hobject]
  by_cases hmiss : some asked = some expr ∧ s.object expr = none
  · obtain ⟨hasked, hnone⟩ := hmiss
    obtain rfl := Option.some.inj hasked
    simp only [hnone, Option.isSome_none, Bool.false_eq_true, if_false, if_true] at hpending
    rw [if_pos ⟨rfl, hnone⟩, if_pos hnone, if_pos hnone]
    omega
  · have hsame : (if (s.object asked).isSome then CallPhase.answered else .missed asked)
        ≠ .missed expr := by
      split_ifs with hfound
      · exact nofun
      · rintro ⟨⟩
        exact hmiss ⟨rfl, Option.not_isSome_iff_eq_none.mp hfound⟩
    rw [if_neg hsame, Nat.add_zero] at hpending
    rw [if_neg hmiss, hpending, Nat.zero_add]

/-- **One step.**  A caller that compiles is one of those that may, and only a
clear lets them compile again. -/
theorem mayCompile_step (rt : CelRuntime cel conv) (hcompile : cel.compile expr = .ok program)
    (hstep : Step ExpressionCache.handler rt.body s label s') (hs : Compiling s) :
    compiles expr s label + mayCompile expr s'
      ≤ mayCompile expr s + Fintype.card ι * clears s label := by
  obtain ⟨i, call, rfl, hi, hs'⟩ | ⟨i, call, e, k, rfl, hi, hs'⟩ | ⟨i, call, a, rfl, hi, hs'⟩ :=
    step_cases hstep
  · have hpending := pending_update expr (congrArg Shared.running hs')
    have hbefore : inserting expr (s.running i) = 0 := by rw [hi]; rfl
    have hafter : inserting expr (some (call, rt.body call)) = 0 :=
      (inserting_eq hcompile (wp_compileBody rt call)).trans (if_neg nofun)
    rw [hbefore, hafter] at hpending
    exact mayCompile_quiet rfl (congrArg (fun s => s.object expr) hs') hpending _
  · obtain ⟨phase, hallowed, hcontinue⟩ := hs i _ hi
    have hafter : inserting expr (some (call, k (ExpressionCache.handler e s.object).1)) = _ :=
      inserting_eq hcompile (hcontinue _ _ rfl)
    have hpending := pending_update expr (congrArg Shared.running hs')
    have hobject : s'.object = (ExpressionCache.handler e s.object).2 :=
      congrArg Shared.object hs'
    rw [hafter, hi] at hpending
    cases e with
    | get asked => exact Nat.le_add_right_of_le (mayCompile_lookup rfl hi hobject hpending)
    | containsKey asked =>
        exact Nat.le_add_right_of_le (mayCompile_lookup rfl hi hobject hpending)
    | insert inserted program' =>
        have hlookup : (performed s (.effect i)).bind CacheEffect.asksFor = none := by
          rw [performed_effect hi]
          rfl
        have hobject : s'.object expr = if expr = inserted then some program' else s.object expr :=
          congrFun hobject expr
        have hpending : pending expr s' + (if inserted = expr then 1 else 0) = pending expr s :=
          hpending
        by_cases hsame : inserted = expr
        · -- now the cache has it, and nobody compiles it any more
          subst hsame
          rw [if_pos rfl] at hobject
          rw [compiles_eq_zero hlookup, mayCompile, hobject]
          exact Nat.zero_le _
        · rw [if_neg hsame, Nat.add_zero] at hpending
          rw [if_neg (Ne.symm hsame)] at hobject
          exact mayCompile_quiet hlookup hobject hpending _
    | clear =>
        have hlookup : (performed s (.effect i)).bind CacheEffect.asksFor = none := by
          rw [performed_effect hi]
          rfl
        have hclears : clears s (.effect i) = 1 := by
          rw [clears, performed_effect hi]
          rfl
        have hobject : s'.object expr = none := congrFun hobject expr
        have hle := mayCompile_le expr s'
        rw [if_pos hobject] at hle
        rw [compiles_eq_zero hlookup, hclears, Nat.zero_add]
        exact Nat.le_add_left_of_le hle
  · have hpending := pending_update expr (congrArg Shared.running hs')
    have hbefore : inserting expr (s.running i) = 0 := by rw [hi]; rfl
    rw [hbefore] at hpending
    exact mayCompile_quiet rfl (congrArg (fun s => s.object expr) hs') hpending _

end CelCallers

open CelCallers

variable [Fintype ι] {expr : String} {program : cel.Program}

/-- **Compilations.**  From any state that the callers can reach, in any order of
their cache operations: an expression that compiles is compiled once at most by
each caller if the cache does not have it, and once at most by each caller for
every time that the cache is cleared. -/
theorem compilations_le (rt : CelRuntime cel conv) (hcompile : cel.compile expr = .ok program)
    {π π' : List (Label ι CelCall × CelCallers cel ι)}
    (hπ : Execution (Step ExpressionCache.handler rt.body) CelCallers.new π)
    (hπ' : Execution (Step ExpressionCache.handler rt.body) (final CelCallers.new π) π') :
    totalAlong (compiles expr) (final CelCallers.new π) π'
      ≤ Fintype.card ι * ((if (final CelCallers.new π).object expr = none then 1 else 0)
          + totalAlong clears (final CelCallers.new π) π') := by
  have hkeep : ∀ (s : CelCallers cel ι) label s', Step ExpressionCache.handler rt.body s label s' →
      Compiling s → Compiling s' := fun _ _ _ hstep hs => hs.step rt hstep
  have hreached : Compiling (final CelCallers.new π) := by
    have hnew : Compiling (CelCallers.new : CelCallers cel ι) := by
      rintro i x ⟨⟩
    exact hπ.invariant hkeep hnew _ (final_mem_states _ _)
  have htotal : totalAlong (compiles expr) _ π' + mayCompile expr _ ≤ _ :=
    hπ'.total_le (mayCompile expr) hkeep
      (fun _ _ _ hstep hs => mayCompile_step rt hcompile hstep hs) hreached
  rw [totalAlong_const_mul] at htotal
  have hle := mayCompile_le expr (final CelCallers.new π)
  rw [Nat.mul_add]
  omega

/-! ### A run -/

/-- Both miss the expression before one of them inserts its program; a third call
finds it. -/
def missedTwice : List (Label Bool CelCall) :=
  [.start true (.validate "true"), .start false (.evaluate "true" epochPod .unixEpoch),
    .effect true, .effect false, .effect true, .effect false, .finish true,
    .start true (.validate "true"), .effect true, .finish true]

theorem compilations_le_two :
    let s : CelCallers literalEngine Bool := .new
    ∃ π, Execution (Step ExpressionCache.handler literalRuntime.body) s π ∧
      totalAlong (compiles "true") s π = 2 ∧
      totalAlong (compiles "true") s π ≤ 2 * (1 + totalAlong clears s π) := by
  intro s
  have hfollow : ∃ π : List (Label Bool CelCall × CelCallers literalEngine Bool),
      follow (next ExpressionCache.handler literalRuntime.body) s missedTwice = some π ∧
        totalAlong (compiles "true") s π = 2 := ⟨_, rfl, rfl⟩
  obtain ⟨π, hπ, htwo⟩ := hfollow
  have hrun := (execution_of_follow hπ).1
  have hcompile : literalEngine.compile "true" = .ok true := rfl
  exact ⟨π, hrun, htwo, compilations_le literalRuntime hcompile (π := []) trivial hrun⟩

end KubeDepod
