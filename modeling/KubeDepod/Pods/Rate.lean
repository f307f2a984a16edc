/-
KubeDepod/Pods/Rate.lean

How many deletes and evictions any number of runs of `reconcile_pod` can send.

The runs come and go and are interleaved effect by effect; every reply is
possible but that of the global limit.  Its bucket is shared, and a run that
asks it performs the atomic operations of `TokenBucket::allow` one by one,
interleaved with everything else.

A run sends a call only with a token that it has taken since it sent the last
one (`pays_reconcilePod`), so the calls are paid for by the bucket and its
refills.  A window that is restarted only when it is over is refilled once at
most, whichever order the refills come in; then the bound is the limit for each
window that fits (`calls_le`).
-/
import KubeDepod.Controller.ReconcilePod
import KubeDepod.Lib.Potential
import KubeDepod.RateLimiter.Concurrent

namespace KubeDepod

open Effects Lts Parties

/-! ### A run pays for its calls -/

/-- A delete or an eviction. -/
def PodEffect.isCall : PodEffect → Bool
  | .delete _ _ _ => true
  | .createEviction _ _ _ => true
  | _ => false

/-- The run holds a token of the global bucket: its last question was granted,
and it has sent no call since. -/
def creditAfter : (e : PodEffect) → e.Reply → Bool → Bool
  | .allowGlobal, granted, _ => granted
  | e, _, credit => credit && !e.isCall

/-- A call needs a token. -/
def creditProtocol : Protocol PodEffect.Reply Bool where
  allowed e credit := e.isCall = true → credit = true
  reply e credit r credit' := credit' = creditAfter e r credit

/-- What a program that pays for its calls may do. -/
abbrev Pays {α : Type} (p : PodProg α) (credit : Bool) : Prop :=
  wp creditProtocol p (fun _ _ => True) credit

variable {α β : Type} {pod : Pod} {policy : DepodPolicy} {credit : Bool}

theorem Pays.bind {p : PodProg α} {f : α → PodProg β} (hp : ∀ credit, Pays p credit)
    (hf : ∀ a credit, Pays (f a) credit) : ∀ credit, Pays (p >>= f) credit :=
  fun credit => wp_bind.mpr (wp_mono (fun a credit _ => hf a credit) (hp credit))

/-- An effect that is not a call needs nothing. -/
theorem Pays.perform_bind {e : PodEffect} (he : e.isCall = false) {k : e.Reply → PodProg α}
    (hk : ∀ r credit, Pays (k r) credit) : ∀ credit, Pays (perform e >>= k) credit :=
  fun _ => ⟨fun hcall => absurd (he.symm.trans hcall) Bool.false_ne_true,
    fun r credit' _ => hk r credit'⟩

/-- A token pays for any effect. -/
theorem Pays.perform_bind_true {e : PodEffect} {k : e.Reply → PodProg α}
    (hk : ∀ r credit, Pays (k r) credit) : Pays (perform e >>= k) true :=
  ⟨fun _ => rfl, fun r credit _ => hk r credit⟩

theorem Pays.pure (a : α) : ∀ credit, Pays (Pure.pure a : PodProg α) credit := fun _ => trivial

theorem pays_evaluateWhen (pod : Pod) (policy : DepodPolicy) (ttlRequeue : Option Nat) :
    ∀ credit, Pays (evaluateWhen pod policy ttlRequeue) credit := by
  have herror : ∀ (r : Bool × Option Nat) credit,
      Pays (incrementEvaluationErrors >>= fun _ => Pure.pure r) credit :=
    fun r => Pays.perform_bind rfl fun _ => Pays.pure r
  rw [evaluateWhen]
  rcases policy.spec.when_.conditionType with - | -
  · rcases policy.spec.when_.expression with - | expr
    · exact herror _
    · refine Pays.perform_bind rfl fun r => ?_
      rcases r with e | conditionResult
      · cases e <;> exact herror _
      · exact Pays.pure _
  · rcases policy.spec.when_.ttlSeconds with - | ttlSeconds
    · exact herror _
    · refine Pays.perform_bind rfl fun now => ?_
      split
      · exact Pays.pure _
      · split
        · split <;> exact Pays.pure _
        · exact Pays.pure _

/-- The two questions; with the grant of the first one the run goes on holding a
token. -/
theorem pays_askLimits {granted : PodProg EarlyReturn} (hgranted : Pays granted true) :
    ∀ credit, Pays (do
      let globalAllowed ← perform .allowGlobal
      let policyAllowed ←
        perform (.allowPolicy policy.nameAny policy.spec.limits.maxDeletesPerMinute)
      if !globalAllowed || !policyAllowed then do
        incrementRateLimited
        return some (.ok (.requeue (Duration.fromSecs 10)))
      else granted) credit := by
  have hdenied : ∀ credit, Pays (incrementRateLimited >>= fun _ =>
      Pure.pure (some (.ok (.requeue (Duration.fromSecs 10)))) : PodProg EarlyReturn) credit :=
    Pays.perform_bind rfl fun _ => Pays.pure _
  refine fun credit => ⟨nofun, fun globalAllowed credit' hglobal => ⟨nofun, ?_⟩⟩
  intro policyAllowed credit'' hpolicy
  obtain rfl : credit' = globalAllowed := hglobal
  obtain rfl : credit'' = (credit' && true) := hpolicy
  show Pays (if !credit' || !policyAllowed then _ else _) _
  cases credit' with
  | false => exact hdenied _
  | true =>
      cases policyAllowed with
      | false => exact hdenied _
      | true => exact hgranted

theorem pays_deleteArm (pod : Pod) (policy : DepodPolicy) :
    ∀ credit, Pays (deleteArm pod policy) credit := by
  rw [deleteArm]
  split
  · exact Pays.pure _
  · refine pays_askLimits (Pays.perform_bind_true fun reply => ?_)
    rcases reply with e | _
    · exact Pays.perform_bind rfl fun _ => Pays.pure _
    · exact Pays.perform_bind rfl fun _ => Pays.pure _

theorem pays_evictArm (pod : Pod) (policy : DepodPolicy) :
    ∀ credit, Pays (evictArm pod policy) credit := by
  rw [evictArm]
  split
  · exact Pays.pure _
  · -- serialising the request keeps the token
    refine pays_askLimits ⟨nofun, fun serialised credit hcredit => ?_⟩
    obtain rfl : credit = true := hcredit
    rcases serialised with e | _
    · trivial
    · refine Pays.perform_bind_true fun reply => ?_
      rcases reply with e | ⟨- | statusStr⟩
      · exact Pays.perform_bind rfl fun _ => Pays.pure _
      · exact Pays.perform_bind rfl fun _ => Pays.pure _
      · dsimp only
        split
        · exact Pays.perform_bind rfl fun _ => Pays.pure _
        · exact Pays.perform_bind rfl fun _ => Pays.pure _

/-- The loop, from any point of it. -/
theorem pays_reconcilePolicies (periodicResyncInterval : Option Duration)
    (policies : List DepodPolicy) (ttlRequeue : Option Nat) :
    ∀ credit, Pays (reconcilePolicies periodicResyncInterval pod policies ttlRequeue) credit := by
  induction policies generalizing ttlRequeue with
  | nil => exact Pays.pure _
  | cons policy policies ih =>
      rw [reconcilePolicies]
      split
      · exact ih ttlRequeue
      · split
        · exact ih ttlRequeue
        · refine Pays.perform_bind rfl fun _ =>
            Pays.bind (pays_evaluateWhen pod policy ttlRequeue) ?_
          rintro ⟨conditionMet, ttlRequeue⟩
          dsimp only
          split
          · exact ih ttlRequeue
          · split
            · exact ih ttlRequeue
            · refine Pays.bind (fun credit => ?_) fun result => ?_
              · rw [executeThen]
                split
                · exact pays_deleteArm pod policy credit
                · exact pays_evictArm pod policy credit
              · rcases result with - | result
                · exact ih ttlRequeue
                · exact Pays.pure result

/-- **A run pays for each of its calls** with a token of the global bucket,
whatever the replies are. -/
theorem pays_reconcilePod (periodicResyncInterval : Option Duration) (pod : Pod) :
    ∀ credit, Pays (reconcilePod periodicResyncInterval pod) credit :=
  Pays.perform_bind rfl fun _ => Pays.perform_bind rfl fun policies =>
    pays_reconcilePolicies periodicResyncInterval policies none

/-! ### Any number of runs and the bucket they share -/

/-- A run in flight: what is left of it, where it is in the question it asks the
global limit, and whether it holds a token. -/
structure PodTask where
  program : PodProg (Except Error Action)
  asking : AllowPc
  credit : Bool

/-- The global bucket, and the runs in flight. -/
structure PodPool (ι : Type) where
  bucket : TokenBucket
  tasks : ι → Option PodTask

/-- A run starts, performs one atomic operation of its question, has the answer,
performs any other effect, or returns. -/
inductive PoolLabel (ι : Type) where
  | start (i : ι) (pod : Pod)
  | limiter (i : ι) (op : AtomicOp)
  | answer (i : ι)
  | effect (i : ι) (answer : (e : PodEffect) → e.Reply)
  | finish (i : ι)

section
variable {ι : Type} [DecidableEq ι]

/-- Run `i` goes on as `task` and leaves the bucket as `bucket`. -/
def PodPool.set (s : PodPool ι) (bucket : TokenBucket) (i : ι) (task : Option PodTask) :
    PodPool ι where
  bucket := bucket
  tasks := Function.update s.tasks i task

def poolStep (periodicResyncInterval : Option Duration) (s : PodPool ι) :
    PoolLabel ι → Option (PodPool ι)
  | .start i pod =>
      match s.tasks i with
      | none =>
          some (s.set s.bucket i (some ⟨reconcilePod periodicResyncInterval pod, .start, false⟩))
      | some _ => none
  | .limiter i op =>
      match s.tasks i with
      | some ⟨.op .allowGlobal k, asking, credit⟩ =>
          match allowStep asking s.bucket op with
          | some (asking', bucket) =>
              some (s.set bucket i (some ⟨.op .allowGlobal k, asking', credit⟩))
          | none => none
      | _ => none
  | .answer i =>
      match s.tasks i with
      | some ⟨.op .allowGlobal k, .done granted, _⟩ =>
          some (s.set s.bucket i (some ⟨k granted, .start, granted⟩))
      | _ => none
  | .effect i answer =>
      match s.tasks i with
      | some ⟨.op e k, _, credit⟩ =>
          if e = .allowGlobal then none
          else
            some (s.set s.bucket i (some ⟨k (answer e), .start, creditAfter e (answer e) credit⟩))
      | _ => none
  | .finish i =>
      match s.tasks i with
      | some ⟨.pure _, _, _⟩ => some (s.set s.bucket i none)
      | _ => none

def PoolStep (periodicResyncInterval : Option Duration) (s : PodPool ι) (label : PoolLabel ι)
    (s' : PodPool ι) : Prop :=
  poolStep periodicResyncInterval s label = some s'

/-- The step sends a call. -/
def sendsCall (s : PodPool ι) : PoolLabel ι → Nat
  | .effect i _ =>
      match s.tasks i with
      | some ⟨.op e _, _, _⟩ => e.isCall.toNat
      | _ => 0
  | _ => 0

/-- The step refills the bucket. -/
def refills (_ : PodPool ι) : PoolLabel ι → Nat
  | .limiter _ .storeTokens => 1
  | _ => 0

/-- The clock reading that a restart of the window stores. -/
def restartReading (s : PodPool ι) : PoolLabel ι → Option Nat
  | .limiter i .storeReset =>
      match s.tasks i with
      | some ⟨_, .storeReset now, _⟩ => some now
      | _ => none
  | _ => none

/-- A restart of the window finds it over, and stores a reading up to `last`.
The code promises neither: two callers can read the clock at one time, and the
second then restarts a window that has just begun. -/
def RestartsInTime (last : Nat) (s : PodPool ι) (label : PoolLabel ι) : Prop :=
  ∀ now ∈ restartReading s label, s.bucket.lastReset + 60 ≤ now ∧ now ≤ last

instance (last : Nat) (s : PodPool ι) (label : PoolLabel ι) :
    Decidable (RestartsInTime last s label) :=
  inferInstanceAs
    (Decidable (∀ now ∈ restartReading s label, s.bucket.lastReset + 60 ≤ now ∧ now ≤ last))

/-- What a step can do. -/
inductive PoolCase (periodicResyncInterval : Option Duration) (s : PodPool ι) :
    PoolLabel ι → PodPool ι → Prop
  | start {i : ι} {pod : Pod} (hidle : s.tasks i = none) :
      PoolCase periodicResyncInterval s (.start i pod)
        (s.set s.bucket i (some ⟨reconcilePod periodicResyncInterval pod, .start, false⟩))
  | limiter {i : ι} {op : AtomicOp} {k : Bool → PodProg (Except Error Action)}
      {asking asking' : AllowPc} {credit : Bool} {bucket : TokenBucket}
      (htask : s.tasks i = some ⟨.op .allowGlobal k, asking, credit⟩)
      (hop : allowStep asking s.bucket op = some (asking', bucket)) :
      PoolCase periodicResyncInterval s (.limiter i op)
        (s.set bucket i (some ⟨.op .allowGlobal k, asking', credit⟩))
  | answer {i : ι} {k : Bool → PodProg (Except Error Action)} {granted credit : Bool}
      (htask : s.tasks i = some ⟨.op .allowGlobal k, .done granted, credit⟩) :
      PoolCase periodicResyncInterval s (.answer i)
        (s.set s.bucket i (some ⟨k granted, .start, granted⟩))
  | effect {i : ι} {answer : (e : PodEffect) → e.Reply} {e : PodEffect}
      {k : e.Reply → PodProg (Except Error Action)} {asking : AllowPc} {credit : Bool}
      (htask : s.tasks i = some ⟨.op e k, asking, credit⟩) (he : e ≠ .allowGlobal) :
      PoolCase periodicResyncInterval s (.effect i answer)
        (s.set s.bucket i (some ⟨k (answer e), .start, creditAfter e (answer e) credit⟩))
  | finish {i : ι} {result : Except Error Action} {asking : AllowPc} {credit : Bool}
      (htask : s.tasks i = some ⟨.pure result, asking, credit⟩) :
      PoolCase periodicResyncInterval s (.finish i) (s.set s.bucket i none)

variable {periodicResyncInterval : Option Duration} {s s' : PodPool ι} {label : PoolLabel ι}

theorem poolStep_cases (h : PoolStep periodicResyncInterval s label s') :
    PoolCase periodicResyncInterval s label s' := by
  unfold PoolStep at h
  cases label with
  | start i pod =>
      rw [poolStep] at h
      split at h
      case h_1 hidle => cases h; exact .start hidle
      case h_2 => cases h
  | limiter i op =>
      rw [poolStep] at h
      split at h
      case h_1 k asking credit htask =>
        split at h
        case h_1 asking' bucket hop => cases h; exact .limiter htask hop
        case h_2 => cases h
      case h_2 => cases h
  | answer i =>
      rw [poolStep] at h
      split at h
      case h_1 k granted credit htask => cases h; exact .answer htask
      case h_2 => cases h
  | effect i answer =>
      rw [poolStep] at h
      split at h
      case h_1 e k asking credit htask =>
        split_ifs at h with he
        cases h
        exact .effect htask he
      case h_2 => cases h
  | finish i =>
      rw [poolStep] at h
      split at h
      case h_1 result asking credit htask => cases h; exact .finish htask
      case h_2 => cases h

/-! ### What the calls are paid with -/

/-- The token that a run holds, or is about to be told of. -/
def tokensHeld : Option PodTask → Nat
  | some task => (task.credit || decide (task.asking = .done true)).toNat
  | none => 0

/-- The refill that a run has begun. -/
def refillsBegun : Option PodTask → Nat
  | some task => (decide (task.asking = .storeTokens)).toNat
  | none => 0

namespace PodPool

/-- Every run in flight pays for the calls it may still send. -/
def Sound (s : PodPool ι) : Prop :=
  ∀ i task, s.tasks i = some task → Pays task.program task.credit

theorem Sound.step (h : PoolStep periodicResyncInterval s label s') (hs : s.Sound) : s'.Sound := by
  cases poolStep_cases h with
  | start hidle =>
      refine present_update hs fun task htask => ?_
      obtain rfl := Option.some.inj htask
      exact pays_reconcilePod periodicResyncInterval _ false
  | limiter htask hop =>
      have hpays := hs _ _ htask
      refine present_update hs fun task htask' => ?_
      obtain rfl := Option.some.inj htask'
      exact hpays
  | answer htask =>
      refine present_update hs fun task htask' => ?_
      obtain rfl := Option.some.inj htask'
      exact (hs _ _ htask).2 _ _ rfl
  | effect htask he =>
      refine present_update hs fun task htask' => ?_
      obtain rfl := Option.some.inj htask'
      exact (hs _ _ htask).2 _ _ rfl
  | finish htask => exact present_update hs fun task => nofun

variable [Fintype ι]

/-- The tokens in the bucket and those that the runs hold. -/
def tokens (s : PodPool ι) : Nat := s.bucket.tokens + ∑ i, tokensHeld (s.tasks i)

/-- The refills begun, and the windows that can still be restarted up to
`last`. -/
def refillsLeft (last : Nat) (s : PodPool ι) : Nat :=
  (∑ i, refillsBegun (s.tasks i)) + (last - s.bucket.lastReset) / 60

theorem tokens_set (s : PodPool ι) (bucket : TokenBucket) (i : ι) (task : Option PodTask) :
    (s.set bucket i task).tokens + (tokensHeld (s.tasks i) + s.bucket.tokens)
      = s.tokens + (tokensHeld task + bucket.tokens) := by
  have hsum := sum_update_add tokensHeld s.tasks i task
  show bucket.tokens + (∑ j, tokensHeld (Function.update s.tasks i task j)) + _
    = s.bucket.tokens + (∑ j, tokensHeld (s.tasks j)) + _
  omega

theorem refillsLeft_set (last : Nat) (s : PodPool ι) (bucket : TokenBucket) (i : ι)
    (task : Option PodTask) :
    (s.set bucket i task).refillsLeft last
        + (refillsBegun (s.tasks i) + (last - s.bucket.lastReset) / 60)
      = s.refillsLeft last + (refillsBegun task + (last - bucket.lastReset) / 60) := by
  have hsum := sum_update_add refillsBegun s.tasks i task
  show (∑ j, refillsBegun (Function.update s.tasks i task j)) + (last - bucket.lastReset) / 60 + _
    = (∑ j, refillsBegun (s.tasks j)) + (last - s.bucket.lastReset) / 60 + _
  omega

end PodPool

/-! ### One step -/

omit [DecidableEq ι] in
/-- One operation of a question takes at most one token, which the run then
holds; a refill brings the limit. -/
theorem tokensHeld_allowStep {program : PodProg (Except Error Action)} {asking asking' : AllowPc}
    {credit : Bool} {b b' : TokenBucket} {op : AtomicOp} {i : ι}
    (h : allowStep asking b op = some (asking', b')) :
    tokensHeld (some ⟨program, asking', credit⟩) + b'.tokens
      ≤ tokensHeld (some ⟨program, asking, credit⟩) + b.tokens
        + b.maxPerMinute * refills s (.limiter i op) := by
  obtain ⟨hbefore, -, hcases⟩ := allowStep_cases h
  have hheld : tokensHeld (some ⟨program, asking, credit⟩) = credit.toNat := by
    rw [tokensHeld, decide_eq_false hbefore, Bool.or_false]
  have hle : tokensHeld (some ⟨program, asking', credit⟩)
      ≤ credit.toNat + (decide (asking' = .done true)).toNat := by
    rw [tokensHeld]
    cases credit
    · exact Nat.le_of_eq (Nat.zero_add _).symm
    · exact Nat.le_add_right 1 _
  rw [hheld]
  rcases hcases with ⟨rfl, hafter, htokens⟩ | ⟨hop, hafter, htokens⟩ | ⟨hop, rfl, htokens⟩
  · rw [decide_eq_false hafter, Bool.toNat_false] at hle
    rw [refills, Nat.mul_one]
    omega
  · rw [decide_eq_false hafter, Bool.toNat_false] at hle
    omega
  · rw [decide_eq_true rfl, Bool.toNat_true] at hle
    omega

/-- **Nothing is paid twice.**  A call is paid with a token that the run holds,
a run takes a token that is in the bucket, and only a refill brings new ones. -/
theorem PodPool.tokens_step [Fintype ι] (h : PoolStep periodicResyncInterval s label s')
    (hs : s.Sound) :
    s'.bucket.maxPerMinute = s.bucket.maxPerMinute ∧
      sendsCall s label + s'.tokens ≤ s.tokens + s.bucket.maxPerMinute * refills s label := by
  cases poolStep_cases h with
  | @start i pod hidle =>
      refine ⟨rfl, ?_⟩
      have hset := s.tokens_set s.bucket i
        (some ⟨reconcilePod periodicResyncInterval pod, .start, false⟩)
      rw [hidle] at hset
      have hfresh :
          tokensHeld (some ⟨reconcilePod periodicResyncInterval pod, .start, false⟩) = 0 :=
        rfl
      have hnone : sendsCall s (.start i pod) = 0 := rfl
      omega
  | @limiter i op k asking asking' credit bucket htask hop =>
      refine ⟨(allowStep_cases hop).2.1, ?_⟩
      have hset := s.tokens_set bucket i (some ⟨.op .allowGlobal k, asking', credit⟩)
      have hheld : tokensHeld (some ⟨.op .allowGlobal k, asking', credit⟩) + bucket.tokens
          ≤ tokensHeld (some ⟨.op .allowGlobal k, asking, credit⟩) + s.bucket.tokens
            + s.bucket.maxPerMinute * refills s (.limiter i op) := tokensHeld_allowStep hop
      rw [htask] at hset
      have hnone : sendsCall s (.limiter i op) = 0 := rfl
      omega
  | @answer i k granted credit htask =>
      refine ⟨rfl, ?_⟩
      have hset := s.tokens_set s.bucket i (some ⟨k granted, .start, granted⟩)
      rw [htask] at hset
      have hheld : tokensHeld (some ⟨k granted, .start, granted⟩)
          ≤ tokensHeld (some ⟨.op .allowGlobal k, .done granted, credit⟩) := by
        cases granted
        · exact Nat.zero_le _
        · rw [tokensHeld, tokensHeld, decide_eq_true rfl, Bool.or_true]
          exact Nat.le_refl _
      have hnone : sendsCall s (.answer i) = 0 := rfl
      omega
  | @effect i answer e k asking credit htask he =>
      refine ⟨rfl, ?_⟩
      have hset := s.tokens_set s.bucket i
        (some ⟨k (answer e), .start, creditAfter e (answer e) credit⟩)
      have hcall : sendsCall s (.effect i answer) = e.isCall.toNat := by rw [sendsCall, htask]
      have hpays : e.isCall = true → credit = true := (hs i _ htask).1
      rw [htask] at hset
      have hheld : e.isCall.toNat
          + tokensHeld (some ⟨k (answer e), .start, creditAfter e (answer e) credit⟩)
          ≤ tokensHeld (some ⟨.op e k, asking, credit⟩) := by
        have hafter : creditAfter e (answer e) credit = (credit && !e.isCall) := by
          cases e <;> first | rfl | exact absurd rfl he
        rw [tokensHeld, tokensHeld, hafter]
        cases hc : e.isCall
        · cases credit <;> simp
        · rw [hpays hc]
          simp
      omega
  | @finish i result asking credit htask =>
      refine ⟨rfl, ?_⟩
      have hset := s.tokens_set s.bucket i none
      rw [htask] at hset
      have hfresh : tokensHeld none = 0 := rfl
      have hnone : sendsCall s (.finish i) = 0 := rfl
      omega

/-- What an operation does to the window: the store of `last_reset` restarts it
and begins a refill, the store of `tokens` ends the refill. -/
theorem allowStep_window {pc pc' : AllowPc} {b b' : TokenBucket} {op : AtomicOp}
    (h : allowStep pc b op = some (pc', b')) :
    (op = .storeReset ∧ pc = .storeReset b'.lastReset ∧ pc' = .storeTokens) ∨
      (op = .storeTokens ∧ pc = .storeTokens ∧ pc' ≠ .storeTokens ∧
        b'.lastReset = b.lastReset) ∨
      (op ≠ .storeTokens ∧ pc ≠ .storeTokens ∧ pc' ≠ .storeTokens ∧
        b'.lastReset = b.lastReset) := by
  unfold allowStep at h
  split at h
  case h_1 => cases h; simp
  case h_2 => cases h; split_ifs <;> simp
  case h_3 => cases h; exact .inl ⟨rfl, rfl, rfl⟩
  case h_4 => cases h; exact .inr (.inl ⟨rfl, rfl, nofun, rfl⟩)
  case h_5 => cases h; simp
  case h_6 => split_ifs at h <;> cases h <;> simp [TokenBucket.take]
  case h_7 => split_ifs at h; cases h; simp
  case h_8 => cases h

/-- **A window is refilled at most once**: a refill is begun by a restart, and a
restart in time uses up a window. -/
theorem PodPool.refillsLeft_step [Fintype ι] {last : Nat}
    (h : PoolStep periodicResyncInterval s label s') (hok : RestartsInTime last s label) :
    refills s label + s'.refillsLeft last ≤ s.refillsLeft last := by
  cases poolStep_cases h with
  | @start i pod hidle =>
      have hset := s.refillsLeft_set last s.bucket i
        (some ⟨reconcilePod periodicResyncInterval pod, .start, false⟩)
      rw [hidle] at hset
      have hfresh :
          refillsBegun (some ⟨reconcilePod periodicResyncInterval pod, .start, false⟩) = 0 := rfl
      have hnone : refills s (.start i pod) = 0 := rfl
      omega
  | @limiter i op k asking asking' credit bucket htask hop =>
      have hset := s.refillsLeft_set last bucket i (some ⟨.op .allowGlobal k, asking', credit⟩)
      have hbegun : ∀ pc, refillsBegun (some ⟨.op .allowGlobal k, pc, credit⟩)
          = (decide (pc = .storeTokens)).toNat := fun _ => rfl
      rw [htask, hbegun, hbegun] at hset
      rcases allowStep_window hop with ⟨rfl, hpc, rfl⟩ | ⟨rfl, rfl, hafter, hreset⟩ |
        ⟨hop', hbefore, hafter, hreset⟩
      · have hreading : restartReading s (.limiter i .storeReset) = some bucket.lastReset := by
          rw [restartReading, htask, hpc]
        obtain ⟨hover, hlast⟩ := hok bucket.lastReset hreading
        rw [hpc, decide_eq_true rfl, decide_eq_false nofun] at hset
        have hnone : refills s (.limiter i .storeReset) = 0 := rfl
        rw [Bool.toNat_true, Bool.toNat_false] at hset
        omega
      · rw [decide_eq_true rfl, decide_eq_false hafter, hreset, Bool.toNat_true,
          Bool.toNat_false] at hset
        have hone : refills s (.limiter i .storeTokens) = 1 := rfl
        omega
      · rw [decide_eq_false hbefore, decide_eq_false hafter, hreset, Bool.toNat_false] at hset
        have hnone : refills s (.limiter i op) = 0 := by
          cases op <;> first | rfl | exact absurd rfl hop'
        omega
  | @answer i k granted credit htask =>
      have hset := s.refillsLeft_set last s.bucket i (some ⟨k granted, .start, granted⟩)
      have hfresh : refillsBegun (some ⟨k granted, .start, granted⟩) = 0 := rfl
      have hnone : refills s (.answer i) = 0 := rfl
      omega
  | @effect i answer e k asking credit htask he =>
      have hset := s.refillsLeft_set last s.bucket i
        (some ⟨k (answer e), .start, creditAfter e (answer e) credit⟩)
      have hfresh : refillsBegun
          (some ⟨k (answer e), .start, creditAfter e (answer e) credit⟩) = 0 := rfl
      have hnone : refills s (.effect i answer) = 0 := rfl
      omega
  | @finish i result asking credit htask =>
      have hset := s.refillsLeft_set last s.bucket i none
      have hfresh : refillsBegun none = 0 := rfl
      have hnone : refills s (.finish i) = 0 := rfl
      omega

/-! ### Whole executions -/

/-- No run is in flight. -/
def PodPool.idle (bucket : TokenBucket) : PodPool ι := ⟨bucket, fun _ => none⟩

/-- **The bound on the calls.**  In every interleaving of any number of runs of
`reconcile_pod`, with the questions to the global limit taken apart into their
atomic operations and every other reply possible, the deletes and evictions
sent are at most the limit for the first window and for each refill.  If every
restart of the window finds it over, and none stores a reading after `last`,
there is one refill at most for every sixty seconds from the start of the first
window. -/
theorem calls_le [Fintype ι] (periodicResyncInterval : Option Duration) (bucket : TokenBucket)
    {π : List (PoolLabel ι × PodPool ι)}
    (hπ : Execution (PoolStep periodicResyncInterval) (PodPool.idle bucket) π) :
    totalAlong sendsCall (.idle bucket) π
        ≤ bucket.maxPerMinute * (1 + totalAlong refills (.idle bucket) π) ∧
      ∀ last, StepsMeet (RestartsInTime last) (.idle bucket) π →
        totalAlong sendsCall (.idle bucket) π
          ≤ bucket.maxPerMinute * (1 + (last - bucket.lastReset) / 60) := by
  let I (s : PodPool ι) : Prop := s.Sound ∧ s.bucket.maxPerMinute = bucket.maxPerMinute
  have hI : ∀ s label s', PoolStep periodicResyncInterval s label s' → I s → I s' :=
    fun s label s' h hs => ⟨hs.1.step h, (PodPool.tokens_step h hs.1).1.trans hs.2⟩
  have hidle : I (.idle bucket) := ⟨fun _ _ => nofun, rfl⟩
  have hheld : (∑ _i : ι, tokensHeld none) = 0 := Finset.sum_eq_zero fun _ _ => rfl
  have hbegun : (∑ _i : ι, refillsBegun none) = 0 := Finset.sum_eq_zero fun _ _ => rfl
  have hcalls : totalAlong sendsCall (.idle bucket) π
      ≤ bucket.maxPerMinute * (1 + totalAlong refills (.idle bucket) π) := by
    have hle := hπ.total_le PodPool.tokens hI
      (fun s label s' h hs => (PodPool.tokens_step h hs.1).2.trans_eq (by rw [hs.2])) hidle
    rw [totalAlong_const_mul] at hle
    have htokens : (PodPool.idle (ι := ι) bucket).tokens = bucket.tokens := by
      show bucket.tokens + (∑ _i : ι, tokensHeld none) = _
      rw [hheld, Nat.add_zero]
    have hlimit := bucket.tokens_le
    rw [Nat.mul_add, Nat.mul_one]
    omega
  refine ⟨hcalls, fun last hok => ?_⟩
  have hle := hπ.total_le_of_stepsMeet (PodPool.refillsLeft last) hI
    (fun s label s' h hok _ => (PodPool.refillsLeft_step h hok).trans_eq (Nat.add_zero _).symm)
    hok hidle
  rw [totalAlong_zero] at hle
  have hleft :
      (PodPool.idle (ι := ι) bucket).refillsLeft last = (last - bucket.lastReset) / 60 := by
    show (∑ _i : ι, refillsBegun none) + _ = _
    rw [hbegun, Nat.zero_add]
    rfl
  have hwindows : 1 + totalAlong refills (.idle bucket) π ≤ 1 + (last - bucket.lastReset) / 60 := by
    omega
  exact Nat.le_trans hcalls (Nat.mul_le_mul_left _ hwindows)

/-- Two runs: the first one deletes its pod with the only token, the second one
with the token that it refills the bucket with a second later. -/
theorem calls_le_one :
    let s : PodPool Unit := .idle (.new 1 0)
    ∃ π, Execution (PoolStep none) s π ∧ StepsMeet (RestartsInTime 60) s π ∧
      totalAlong refills s π = 1 ∧ totalAlong sendsCall s π = 2 ∧
      totalAlong sendsCall s π ≤ 1 * (1 + (60 - 0) / 60) := by
  intro s
  let effect : PoolLabel Unit := .effect () (answersWith [celPolicy "cleanup" "true"] true)
  -- what a run does before it looks at the window, and after
  let before (name : String) : List (PoolLabel Unit) :=
    [.start () (optedInPod name "4e1f"), effect, effect, effect, effect]
  let after : List (PoolLabel Unit) :=
    [.limiter () .loadTokens, .limiter () (.compareExchange false), .answer (), effect, effect,
      effect, .finish ()]
  have hrun : ∃ π, follow (poolStep none) s
      (before "web-0" ++ [.limiter () (.readClock 59), .limiter () .loadReset] ++ after ++
        before "web-1" ++ [.limiter () (.readClock 60), .limiter () .loadReset,
          .limiter () .storeReset, .limiter () .storeTokens] ++ after) = some π ∧
      StepsMeet (RestartsInTime 60) s π ∧ totalAlong refills s π = 1 ∧
      totalAlong sendsCall s π = 2 :=
    ⟨_, rfl, by decide +kernel, by decide +kernel, by decide +kernel⟩
  obtain ⟨π, hfollow, hok, hrefills, htwo⟩ := hrun
  have hπ := (execution_of_follow hfollow).1
  exact ⟨π, hπ, hok, hrefills, htwo, (calls_le none (.new 1 0) hπ).2 60 hok⟩

end

end KubeDepod
