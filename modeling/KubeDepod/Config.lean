/-
KubeDepod/Config.lean

The operator's configuration, and the context that `main` builds from it.

Every variable is optional, and a number that does not parse counts as absent.
What is read is then taken as it is: there is no lower bound on the resync
interval, which is zero exactly for a text of zeros (`resyncInterval_lt_iff`).
-/
import KubeDepod.RateLimiter

namespace KubeDepod

/-- The environment variables; `none` is the error of `std::env::var`, for a
variable that is not set or not Unicode. -/
abbrev Environment := String → Option String

/-- `Config`. -/
structure Config where
  rateLimitPerMinute : Nat
  podPatchConcurrencyLimit : Nat
  serverPort : Nat
  operatorPodName : String
  periodicResyncInterval : Option Duration
deriving DecidableEq

namespace Environment

/-- `std::env::var(name).ok().and_then(|v| v.parse().ok())`, for a number type
below `size`. -/
def parse (vars : Environment) (size : Nat) (name : String) : Option Nat :=
  (vars name).bind (parseUnsigned size)

/-- The test of `RESYNC_ENABLE`. -/
def resyncEnabled (vars : Environment) : Bool :=
  eqIgnoreAsciiCase ((vars "RESYNC_ENABLE").getD "true") "true"

end Environment

/-- `Config::from_env`, where `usize` has 64 bits. -/
def Config.fromEnv (vars : Environment) : Config where
  rateLimitPerMinute := (vars.parse UInt64.size "RATE_LIMIT_PER_MINUTE").getD 20
  podPatchConcurrencyLimit := (vars.parse UInt64.size "POD_PATCH_CONCURRENCY_LIMIT").getD 10
  serverPort :=
    ((vars.parse UInt16.size "SERVER_PORT").or (vars.parse UInt16.size "SERVER_PORT_DOWNWARD")).getD
      8080
  operatorPodName := (vars "OPERATOR_POD_NAME").getD "kube-depod-unknown"
  periodicResyncInterval :=
    if vars.resyncEnabled then
      let intervalSeconds := (vars.parse UInt64.size "RESYNC_INTERVAL_SECONDS").getD 3600
      some (Duration.fromSecs intervalSeconds)
    else
      none

/-- What the configuration determines of the `Context`. -/
structure Context where
  rateLimiter : RateLimiter
  operatorPodName : String
  periodicResyncInterval : Option Duration
  podPatchConcurrencyLimit : Nat

/-- The `Context` of `main`; the bucket of the limiter is created at clock
reading `now`. -/
def Context.ofConfig (config : Config) (now : Nat) : Context where
  rateLimiter := RateLimiter.new config.rateLimitPerMinute now
  operatorPodName := config.operatorPodName
  periodicResyncInterval := config.periodicResyncInterval
  podPatchConcurrencyLimit := config.podPatchConcurrencyLimit

/-! ### Reading zero -/

/-- One or more zeros, after an optional `+`. -/
def AllZeros (s : String) : Prop :=
  ∃ n, s.toList = List.replicate (n + 1) '0' ∨ s.toList = '+' :: List.replicate (n + 1) '0'

/-- The value of the digits. -/
def digitsValue (n : Nat) (digits : List Char) : Nat :=
  digits.foldl (fun n digit => n * 10 + (digit.toNat - '0'.toNat)) n

theorem eq_zero_of_isDigit {c : Char} (h : c.isDigit = true) (hzero : c.toNat - '0'.toNat = 0) :
    c = '0' := by
  have hdigit : (decide (c.val ≥ '0'.val) && decide (c.val ≤ '9'.val)) = true := h
  have hge : '0'.toNat ≤ c.toNat := of_decide_eq_true (Bool.and_eq_true_iff.mp hdigit).1
  exact Char.toNat_inj.mp (by omega)

theorem digitsValue_eq_zero_iff {digits : List Char} (h : digits.all Char.isDigit = true)
    (n : Nat) : digitsValue n digits = 0 ↔ n = 0 ∧ ∀ c ∈ digits, c = '0' := by
  induction digits generalizing n with
  | nil => simp [digitsValue]
  | cons c digits ih =>
      rw [List.all_cons, Bool.and_eq_true] at h
      show digitsValue (n * 10 + (c.toNat - '0'.toNat)) digits = 0 ↔ _
      rw [ih h.2, List.forall_mem_cons]
      constructor
      · rintro ⟨hn, hrest⟩
        exact ⟨by omega, eq_zero_of_isDigit h.1 (by omega), hrest⟩
      · rintro ⟨rfl, rfl, hrest⟩
        exact ⟨rfl, hrest⟩

/-- A text of digits reads as zero exactly if they all are. -/
theorem parseDigits_eq_zero_iff {size : Nat} (hsize : 0 < size) (digits : List Char) :
    (if digits.isEmpty || !digits.all Char.isDigit then none
      else if digitsValue 0 digits < size then some (digitsValue 0 digits) else none) = some 0 ↔
      ∃ n, digits = List.replicate (n + 1) '0' := by
  constructor
  · intro h
    split_ifs at h with hinvalid hlt
    simp only [Bool.or_eq_true, not_or, Bool.not_eq_true', Bool.not_eq_false,
      List.isEmpty_iff] at hinvalid
    obtain ⟨hne, hdigits⟩ := hinvalid
    obtain ⟨-, hzeros⟩ := (digitsValue_eq_zero_iff hdigits 0).mp (Option.some.inj h)
    refine ⟨digits.length - 1, List.eq_replicate_iff.mpr ⟨?_, hzeros⟩⟩
    have := List.length_pos_of_ne_nil hne
    omega
  · rintro ⟨n, rfl⟩
    have hdigits : (List.replicate (n + 1) '0').all Char.isDigit = true := by
      rw [List.all_eq_true]
      intro c hc
      rw [List.eq_of_mem_replicate hc]
      rfl
    have hzero : digitsValue 0 (List.replicate (n + 1) '0') = 0 :=
      (digitsValue_eq_zero_iff hdigits 0).mpr ⟨rfl, fun c hc => List.eq_of_mem_replicate hc⟩
    rw [hzero, hdigits, if_neg (by simp), if_pos hsize]

/-- **The texts that read as zero.** -/
theorem parseUnsigned_eq_zero_iff {size : Nat} (hsize : 0 < size) (s : String) :
    parseUnsigned size s = some 0 ↔ AllZeros s := by
  unfold parseUnsigned AllZeros
  split
  case h_1 digits htext =>
    rw [htext]
    refine (parseDigits_eq_zero_iff hsize digits).trans (exists_congr fun n => ?_)
    constructor
    · intro h
      exact .inr (congrArg _ h)
    · rintro (h | h)
      · -- a `+` is not a zero
        rw [List.replicate_succ] at h
        exact absurd (List.head_eq_of_cons_eq h) (by decide)
      · exact List.tail_eq_of_cons_eq h
  case h_2 digits hplain =>
    refine (parseDigits_eq_zero_iff hsize _).trans (exists_congr fun n => ?_)
    refine (or_iff_left ?_).symm
    exact fun h => hplain _ h

/-! ### The resync interval -/

/-- The configured interval is zero. -/
def Environment.ZeroInterval (vars : Environment) : Prop :=
  vars.resyncEnabled = true ∧ ∃ s, vars "RESYNC_INTERVAL_SECONDS" = some s ∧ AllZeros s

/-- An interval of less than a second is zero. -/
theorem resyncInterval_lt_iff (vars : Environment) :
    (∃ interval, (Config.fromEnv vars).periodicResyncInterval = some interval ∧
      interval.nanos < (Duration.fromSecs 1).nanos) ↔ vars.ZeroInterval := by
  have hsize : 0 < UInt64.size := by decide
  have hzero : (vars.parse UInt64.size "RESYNC_INTERVAL_SECONDS").getD 3600 = 0 ↔
      ∃ s, vars "RESYNC_INTERVAL_SECONDS" = some s ∧ AllZeros s := by
    simp only [← parseUnsigned_eq_zero_iff hsize, ← Option.bind_eq_some_iff]
    rw [Environment.parse]
    cases (vars "RESYNC_INTERVAL_SECONDS").bind (parseUnsigned UInt64.size) with
    | none => simp
    | some n => simp
  rw [Environment.ZeroInterval, ← hzero, Config.fromEnv]
  dsimp only
  rcases henabled : vars.resyncEnabled with - | -
  · -- no resync
    rw [if_neg Bool.false_ne_true]
    exact iff_of_false (fun h => nomatch h.choose_spec.1) fun h => nomatch h.1
  · rw [if_pos rfl, and_iff_right rfl]
    constructor
    · rintro ⟨interval, hinterval, hless⟩
      rw [← Option.some.inj hinterval, Duration.fromSecs, Duration.fromSecs] at hless
      dsimp only at hless
      omega
    · intro h
      rw [h]
      exact ⟨_, rfl, by decide⟩

end KubeDepod
