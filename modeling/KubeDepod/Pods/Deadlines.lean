/-
KubeDepod/Pods/Deadlines.lean

Time-to-live deadlines along a chain of wake-ups.

Each run happens exactly the requeue delay after the one before.  Ages are in
whole seconds, truncated towards zero, and the comparison with the TTL is
strict, so a policy with TTL `T` is met from age `T + 1` seconds on
(`evaluateTtlCondition_iff`).  The delay is at least one second and wakes
no later than one second after the deadline of any pending policy
(`ttlLeft_spec`); that makes the runs polls of the deadlines
(`TtlWatch.polls`), and `ttl_deadlines` follows.
-/
import KubeDepod.Controller.Ages
import KubeDepod.Lib.Polling
import KubeDepod.Pods.Requeue

namespace KubeDepod

open Lts Polling

/-! ### Deadlines and delays -/

/-- The TTL of a policy in seconds. -/
def ttlOf (policy : DepodPolicy) : Int := (policy.spec.when_.ttlSeconds.getD 0).toInt

/-- The first instant at which the policy is met. -/
def deadline (created : DateTime) (policy : DepodPolicy) : Int :=
  created.nanos + (ttlOf policy + 1) * nanosPerSecond

/-- `max(ttl - age, 1)`, in seconds. -/
def ttlLeft (created : DateTime) (policy : DepodPolicy) (t : DateTime) : Nat :=
  (max (ttlOf policy - (t.nanos - created.nanos).tdiv nanosPerSecond) 1).toNat

variable {created t : DateTime} {pod : Pod} {policy : DepodPolicy}

/-- While the policy is pending, the delay is at least a second and ends at
most a second after the deadline. -/
theorem ttlLeft_spec (hpos : 0 < ttlOf policy) (hpending : t.nanos < deadline created policy) :
    1 ≤ ttlLeft created policy t ∧
      t.nanos + ttlLeft created policy t * nanosPerSecond
        ≤ deadline created policy + nanosPerSecond := by
  have hpos : 1 ≤ ttlOf policy := hpos
  obtain ⟨hnonneg, hneg⟩ := tdiv_spec (t.nanos - created.nanos)
  simp only [ttlLeft, deadline, nanosPerSecond] at *
  omega

/-! ### The chain of wake-ups -/

/-- A pod under built-in policies, watched from the run at `first` on.  The run
at `t` reads the clock as `t`, and neither an accepted call nor a denied query
cuts it short. -/
structure TtlWatch (periodicResyncInterval : Option Duration) (world : DateTime → PodEnv)
    (pod : Pod) (policies : List DepodPolicy) (created first : DateTime) : Prop where
  creation : pod.metadata.creationTimestamp = some created
  snapshot : ∀ t, (world t).policies = policies
  clock : ∀ t n, (world t).clock n = t
  considers : ∀ policy ∈ policies, considered pod policy = true
  valid : ∀ policy ∈ policies, policy.spec.isValid = true
  builtin : ∀ policy ∈ policies, policy.spec.when_.conditionType = .builtin
  fits : ∀ policy ∈ policies, ∀ ttl, policy.spec.when_.ttlSeconds = some ttl →
    ttl.toInt - (first.sub created).numSeconds.toInt < 2 ^ 63
  serialises : ∀ t eviction, (world t).toVec eviction = .ok ()
  uncut : ∀ t, first.nanos ≤ t.nanos → ∀ metrics,
    ∀ e ∈ (runPod periodicResyncInterval (world t) pod metrics).2.log, e.cutsShort = false

/-- The run at `t` asks to be woken at `t'`. -/
def WakeUp (periodicResyncInterval : Option Duration) (world : DateTime → PodEnv) (pod : Pod)
    (t : DateTime) (metrics : Metrics) (t' : DateTime) : Prop :=
  ∃ delay, (runPod periodicResyncInterval (world t) pod metrics).1 = .ok (.requeue delay) ∧
    t'.nanos = t.nanos + delay.nanos

/-- The run at `t` finds the condition of the policy met. -/
def MetAt (world : DateTime → PodEnv) (pod : Pod) (t : DateTime) (policy : DepodPolicy) : Prop :=
  conditionHolds (world t).oracle pod policy t = true

namespace TtlWatch

variable {periodicResyncInterval : Option Duration} {world : DateTime → PodEnv}
  {policies : List DepodPolicy} {first : DateTime} {metrics : Metrics}

theorem exists_ttl (h : TtlWatch periodicResyncInterval world pod policies created first)
    (hpolicy : policy ∈ policies) :
    ∃ ttl, policy.spec.when_.ttlSeconds = some ttl ∧ 0 < ttl ∧ ttlOf policy = ttl.toInt := by
  obtain ⟨ttl, hsome, hpos⟩ := ttl_of_isValid (h.valid policy hpolicy) (h.builtin policy hpolicy)
  refine ⟨ttl, hsome, hpos, ?_⟩
  rw [ttlOf, hsome]
  rfl

theorem ttlOf_pos (h : TtlWatch periodicResyncInterval world pod policies created first)
    (hpolicy : policy ∈ policies) : 0 < ttlOf policy := by
  obtain ⟨ttl, -, hpos, httl⟩ := h.exists_ttl hpolicy
  rw [httl]
  exact Int64.lt_iff_toInt_lt.mp hpos

/-- A policy is met from its deadline on. -/
theorem metAt_iff (h : TtlWatch periodicResyncInterval world pod policies created first)
    (hpolicy : policy ∈ policies) (t : DateTime) :
    MetAt world pod t policy ↔ deadline created policy ≤ t.nanos := by
  obtain ⟨ttl, hsome, hpos, httl⟩ := h.exists_ttl hpolicy
  rw [MetAt, conditionHolds, h.builtin policy hpolicy, deadline, httl]
  simp only [hsome]
  exact evaluateTtlCondition_iff h.creation hpos

/-- Until then it leaves its delay. -/
theorem pendingTtl_eq (h : TtlWatch periodicResyncInterval world pod policies created first)
    (hpolicy : policy ∈ policies) (hfirst : first.nanos ≤ t.nanos) :
    pendingTtl pod (policy, t)
      = if deadline created policy ≤ t.nanos then none
        else some (ttlLeft created policy t) := by
  obtain ⟨ttl, hsome, hpos, httl⟩ := h.exists_ttl hpolicy
  have hreads : readsClock pod policy = true := by
    rw [readsClock, h.considers policy hpolicy, h.builtin policy hpolicy, hsome]
    rfl
  have hmet : evaluateTtlCondition pod ttl t = true ↔ deadline created policy ≤ t.nanos := by
    rw [deadline, httl]
    exact evaluateTtlCondition_iff h.creation hpos
  simp only [pendingTtl, hreads, if_true, hsome, Option.bind_some]
  by_cases hdue : deadline created policy ≤ t.nanos
  · rw [if_pos (hmet.mpr hdue), if_pos hdue]
  · rw [if_neg fun hmet' => hdue (hmet.mp hmet'), if_neg hdue]
    -- the age has not decreased since the first run
    have hfits : ttl.toInt - (t.nanos - created.nanos).tdiv nanosPerSecond < 2 ^ 63 := by
      have hfits := h.fits policy hpolicy ttl hsome
      rw [toInt_numSeconds] at hfits
      have hle := Int.tdiv_le_tdiv (show 0 < nanosPerSecond by decide)
        (show first.nanos - created.nanos ≤ t.nanos - created.nanos by omega)
      omega
    rw [calculateTtlRequeue_eq h.creation hpos hfits, ttlLeft, httl]

/-- The delays pending at `t`. -/
theorem mem_delays_iff (h : TtlWatch periodicResyncInterval world pod policies created first)
    (hfirst : first.nanos ≤ t.nanos) {seconds : Nat} :
    seconds ∈ (stamp pod (world t).clock 0 (world t).policies).filterMap (pendingTtl pod) ↔
      ∃ policy ∈ policies, t.nanos < deadline created policy ∧
        ttlLeft created policy t = seconds := by
  rw [stamp_of_clock (h.clock t), h.snapshot, List.mem_filterMap]
  constructor
  · rintro ⟨entry, hentry, hpending⟩
    obtain ⟨policy, hpolicy, rfl⟩ := List.mem_map.mp hentry
    rw [h.pendingTtl_eq hpolicy hfirst] at hpending
    split at hpending
    case isTrue => cases hpending
    case isFalse hdue => exact ⟨policy, hpolicy, Int.not_le.mp hdue, Option.some.inj hpending⟩
  · rintro ⟨policy, hpolicy, hpending, rfl⟩
    refine ⟨(policy, t), List.mem_map_of_mem hpolicy, ?_⟩
    rw [h.pendingTtl_eq hpolicy hfirst, if_neg (Int.not_le.mpr hpending)]

/-- What the run at `t` returns: the least delay while a deadline is ahead,
then what it returns without any. -/
theorem result (h : TtlWatch periodicResyncInterval world pod policies created first)
    (hfirst : first.nanos ≤ t.nanos) (metrics : Metrics) :
    (Ahead (policies.map (deadline created)) t.nanos →
      ∃ seconds : Nat,
        (runPod periodicResyncInterval (world t) pod metrics).1
            = .ok (.requeue (Duration.fromSecs seconds)) ∧
          1 ≤ seconds ∧
          ∀ d ∈ policies.map (deadline created), t.nanos < d →
            t.nanos + seconds * nanosPerSecond ≤ d + nanosPerSecond) ∧
    (¬ Ahead (policies.map (deadline created)) t.nanos →
      (runPod periodicResyncInterval (world t) pod metrics).1
        = .ok (actionAfterLoop periodicResyncInterval none)) := by
  rw [runPod_uncut (h.serialises t) metrics (h.uncut t hfirst metrics)]
  rcases hmin : ((stamp pod (world t).clock 0 (world t).policies).filterMap
      (pendingTtl pod)).min? with - | least
  · have hnil := List.min?_eq_none_iff.mp hmin
    refine ⟨fun hahead => ?_, fun _ => rfl⟩
    obtain ⟨_, hd, hlt⟩ := hahead
    obtain ⟨policy, hpolicy, rfl⟩ := List.mem_map.mp hd
    have hmem := (h.mem_delays_iff hfirst).mpr ⟨policy, hpolicy, hlt, rfl⟩
    rw [hnil] at hmem
    cases hmem
  · obtain ⟨hmem, hleast⟩ := List.min?_eq_some_iff.mp hmin
    obtain ⟨policy, hpolicy, hpending, rfl⟩ := (h.mem_delays_iff hfirst).mp hmem
    refine ⟨fun _ => ⟨_, rfl, (ttlLeft_spec (h.ttlOf_pos hpolicy) hpending).1, ?_⟩,
      fun hnot => ?_⟩
    · -- the least delay is no longer than what is left of any other TTL
      intro d hd hlt
      obtain ⟨other, hother, rfl⟩ := List.mem_map.mp hd
      have hle := hleast _ ((h.mem_delays_iff hfirst).mpr ⟨other, hother, hlt, rfl⟩)
      have hend := (ttlLeft_spec (h.ttlOf_pos hother) hlt).2
      simp only [nanosPerSecond] at *
      omega
    · exact absurd ⟨_, List.mem_map_of_mem hpolicy, hpending⟩ hnot

/-- **The runs are polls of the deadlines.** -/
theorem polls (h : TtlWatch periodicResyncInterval world pod policies created first) :
    Polls (WakeUp periodicResyncInterval world pod) (fun t => first.nanos ≤ t.nanos)
      DateTime.nanos (policies.map (deadline created)) nanosPerSecond where
  keeps := by
    rintro t metrics t' ⟨delay, -, ht'⟩ hfirst
    show first.nanos ≤ t'.nanos
    have hfirst : first.nanos ≤ t.nanos := hfirst
    omega
  later := by
    rintro t metrics t' ⟨delay, -, ht'⟩ -
    omega
  advances := by
    rintro t metrics t' ⟨delay, hdelay, ht'⟩ hfirst hahead
    obtain ⟨seconds, hresult, hone, -⟩ := (h.result hfirst metrics).1 hahead
    rw [hresult] at hdelay
    obtain rfl : Duration.fromSecs seconds = delay := Action.requeue.inj (Except.ok.inj hdelay)
    have hnanos : (Duration.fromSecs seconds).nanos = seconds * 1000000000 := rfl
    rw [ht', hnanos, nanosPerSecond]
    omega
  catches := by
    rintro t metrics t' ⟨delay, hdelay, ht'⟩ hfirst d hd hlt
    obtain ⟨seconds, hresult, -, hcaught⟩ := (h.result hfirst metrics).1 ⟨d, hd, hlt⟩
    rw [hresult] at hdelay
    obtain rfl : Duration.fromSecs seconds = delay := Action.requeue.inj (Except.ok.inj hdelay)
    have hcaught := hcaught d hd hlt
    have hnanos : (Duration.fromSecs seconds).nanos = seconds * 1000000000 := rfl
    rw [ht', hnanos]
    rw [nanosPerSecond] at hcaught ⊢
    omega

/-- Some deadline is ahead exactly while some policy is not met. -/
theorem ahead_iff (h : TtlWatch periodicResyncInterval world pod policies created first)
    (t : DateTime) :
    Ahead (policies.map (deadline created)) t.nanos ↔
      ∃ policy ∈ policies, ¬ MetAt world pod t policy := by
  constructor
  · rintro ⟨_, hd, hlt⟩
    obtain ⟨policy, hpolicy, rfl⟩ := List.mem_map.mp hd
    exact ⟨policy, hpolicy, fun hmet => Int.not_le.mpr hlt ((h.metAt_iff hpolicy t).mp hmet)⟩
  · rintro ⟨policy, hpolicy, hnot⟩
    refine ⟨_, List.mem_map_of_mem hpolicy, Int.not_le.mp fun hle => hnot ?_⟩
    exact (h.metAt_iff hpolicy t).mpr hle

theorem deadline_le_of_mem (h : TtlWatch periodicResyncInterval world pod policies created first) :
    ∀ d ∈ policies.map (deadline created), d ≤ created.nanos + 2 ^ 63 * nanosPerSecond := by
  intro d hd
  obtain ⟨policy, hpolicy, rfl⟩ := List.mem_map.mp hd
  obtain ⟨ttl, -, -, httl⟩ := h.exists_ttl hpolicy
  have hlt := ttl.toInt_lt
  rw [deadline, httl, nanosPerSecond]
  omega

/-- A run with a pending policy can be followed by the next, if the instants
up to two seconds past the TTL exist. -/
theorem exists_wakeUp (h : TtlWatch periodicResyncInterval world pod policies created first)
    (hrange : ∀ policy ∈ policies,
      deadline created policy + nanosPerSecond < (8210266876799 + 1) * nanosPerSecond)
    (hfirst : first.nanos ≤ t.nanos) (hahead : Ahead (policies.map (deadline created)) t.nanos) :
    ∃ metrics t', WakeUp periodicResyncInterval world pod t metrics t' := by
  obtain ⟨seconds, hresult, -, hcaught⟩ := (h.result hfirst .new).1 hahead
  obtain ⟨_, hd, hlt⟩ := hahead
  obtain ⟨policy, hpolicy, rfl⟩ := List.mem_map.mp hd
  have hcaught := hcaught _ hd hlt
  have hrange := hrange policy hpolicy
  have hmin := t.min_le
  have hnanos : (Duration.fromSecs seconds).nanos = seconds * 1000000000 := rfl
  simp only [nanosPerSecond] at hcaught hrange hmin
  refine ⟨.new, ⟨t.nanos + seconds * 1000000000, ?_, ?_⟩, _, hresult, ?_⟩
  · rw [nanosPerSecond]
    omega
  · rw [nanosPerSecond]
    omega
  · show t.nanos + seconds * 1000000000 = _
    rw [hnanos]
    omega

variable {π : List (Metrics × DateTime)}

/-- The clock of the runs does not go back. -/
theorem first_le (h : TtlWatch periodicResyncInterval world pod policies created first)
    (hπ : Execution (WakeUp periodicResyncInterval world pod) first π) :
    ∀ t ∈ states first π, first.nanos ≤ t.nanos :=
  hπ.invariant (I := fun t => first.nanos ≤ t.nanos) h.polls.keeps (Int.le_refl _)

/-- The first run that finds a policy met comes at most a second after its
deadline, or is the very first one. -/
theorem first_met_le (h : TtlWatch periodicResyncInterval world pod policies created first)
    (hπ : Execution (WakeUp periodicResyncInterval world pod) first π) (hpolicy : policy ∈ policies)
    {earlier later : List DateTime} (hsplit : states first π = earlier ++ t :: later)
    (hunmet : ∀ u ∈ earlier, ¬ MetAt world pod u policy) :
    earlier = [] ∨ t.nanos ≤ deadline created policy + nanosPerSecond := by
  refine h.polls.first_caught hπ (Int.le_refl _) (List.mem_map_of_mem hpolicy) hsplit ?_
  intro u hu
  exact Int.not_le.mp fun hle => hunmet u hu ((h.metAt_iff hpolicy u).mpr hle)

/-- There is no room for more runs with a pending policy than seconds up to the
last deadline that a TTL can have. -/
theorem pending_length_le (h : TtlWatch periodicResyncInterval world pod policies created first)
    (hπ : Execution (WakeUp periodicResyncInterval world pod) first π) {pending : List DateTime}
    (hsub : pending.Sublist (states first π))
    (hunmet : ∀ t ∈ pending, ∃ policy ∈ policies, ¬ MetAt world pod t policy) :
    pending.length ≤ (created.nanos + 2 ^ 63 * nanosPerSecond - first.nanos).toNat + 1 := by
  have hlt := h.polls.countP_ahead_lt (by decide) h.deadline_le_of_mem hπ (Int.le_refl _)
  have hall : pending.countP (fun t => decide (Ahead (policies.map (deadline created)) t.nanos))
      = pending.length :=
    List.countP_eq_length.mpr fun t ht => decide_eq_true ((h.ahead_iff t).mpr (hunmet t ht))
  have hle := hsub.countP_le (p := fun t =>
    decide (Ahead (policies.map (deadline created)) t.nanos))
  rw [hall] at hle
  simp only [nanosPerSecond] at hlt ⊢
  omega

end TtlWatch

/-! ### Deadlines -/

variable {periodicResyncInterval : Option Duration} {world : DateTime → PodEnv}
  {policies : List DepodPolicy} {first : DateTime}

/-- **No deadline is acted on early, and none is overslept.**  Along every
chain of wake-ups, and for every policy with TTL `ttl`: a run that finds the
policy met is at least `ttl + 1` seconds after the creation of the pod, and
the first such run is at most `ttl + 2` seconds after it or is the very first
run.  A run requeues for a TTL, after a second or more, exactly while some
policy is not met; there is a bound on the number of these runs; and the chain
reaches a run that finds all policies met, as far as the clock can. -/
theorem ttl_deadlines
    (h : TtlWatch periodicResyncInterval world pod policies created first) :
    (∀ π, Execution (WakeUp periodicResyncInterval world pod) first π →
      ∀ policy ∈ policies, ∀ ttl, policy.spec.when_.ttlSeconds = some ttl →
        (∀ t ∈ states first π, MetAt world pod t policy →
          created.nanos + (ttl.toInt + 1) * nanosPerSecond ≤ t.nanos) ∧
        ∀ earlier t later, states first π = earlier ++ t :: later →
          (∀ u ∈ earlier, ¬ MetAt world pod u policy) →
          earlier = [] ∨ t.nanos ≤ created.nanos + (ttl.toInt + 2) * nanosPerSecond) ∧
    (∀ π, Execution (WakeUp periodicResyncInterval world pod) first π →
      ∀ t ∈ states first π, ∀ metrics,
        ((∃ policy ∈ policies, ¬ MetAt world pod t policy) →
          ∃ seconds : Nat, 1 ≤ seconds ∧
            (runPod periodicResyncInterval (world t) pod metrics).1
              = .ok (.requeue (Duration.fromSecs seconds))) ∧
        ((∀ policy ∈ policies, MetAt world pod t policy) →
          (runPod periodicResyncInterval (world t) pod metrics).1
            = .ok (actionAfterLoop periodicResyncInterval none))) ∧
    (∃ bound, ∀ π, Execution (WakeUp periodicResyncInterval world pod) first π →
      ∀ pending : List DateTime, pending.Sublist (states first π) →
        (∀ t ∈ pending, ∃ policy ∈ policies, ¬ MetAt world pod t policy) →
        pending.length ≤ bound) ∧
    ((∀ policy ∈ policies,
        deadline created policy + nanosPerSecond < (8210266876799 + 1) * nanosPerSecond) →
      ∃ π, Execution (WakeUp periodicResyncInterval world pod) first π ∧
        ∀ policy ∈ policies, MetAt world pod (final first π) policy) := by
  refine ⟨fun π hπ policy hpolicy ttl httl => ?_, fun π hπ t ht metrics => ?_,
    ⟨_, fun π hπ pending hsub hunmet => h.pending_length_le hπ hsub hunmet⟩, fun hrange => ?_⟩
  · -- the deadline of this policy
    obtain ⟨ttl', hsome, -, hof⟩ := h.exists_ttl hpolicy
    obtain rfl : ttl' = ttl := Option.some.inj (hsome.symm.trans httl)
    have hdeadline : deadline created policy
        = created.nanos + (ttl'.toInt + 1) * nanosPerSecond := by
      rw [deadline, hof]
    refine ⟨fun t _ hmet => ?_, fun earlier t later hsplit hunmet => ?_⟩
    · rw [← hdeadline]
      exact (h.metAt_iff hpolicy t).mp hmet
    · refine (h.first_met_le hπ hpolicy hsplit hunmet).imp_right fun hle => ?_
      rw [hdeadline] at hle
      simp only [nanosPerSecond] at hle ⊢
      omega
  · obtain ⟨hahead, hnone⟩ := h.result (h.first_le hπ t ht) metrics
    rw [h.ahead_iff] at hahead hnone
    refine ⟨fun hunmet => ?_, fun hmet => hnone ?_⟩
    · obtain ⟨seconds, hresult, hone, -⟩ := hahead hunmet
      exact ⟨seconds, hone, hresult⟩
    · rintro ⟨policy, hpolicy, hnot⟩
      exact hnot (hmet policy hpolicy)
  · obtain ⟨π, hπ, hcaught⟩ := h.polls.exists_caught (by decide) h.deadline_le_of_mem
      (fun t hfirst hahead => h.exists_wakeUp hrange hfirst hahead) (Int.le_refl _)
    refine ⟨π, hπ, fun policy hpolicy => ?_⟩
    rw [h.ahead_iff] at hcaught
    exact Classical.not_not.mp fun hnot => hcaught ⟨policy, hpolicy, hnot⟩

/-- A dry run of a policy with a TTL of one minute. -/
def dryRunPolicy : DepodPolicy :=
  { ttlPolicy "cleanup" 60 with
    spec :=
      { (ttlPolicy "cleanup" 60).spec with then_ := { actionType := .delete, dryRun := true } } }

def dryRunWorld (t : DateTime) : PodEnv :=
  { acceptingEnv [dryRunPolicy] with clock := fun _ => t }

theorem ttlWatch_dryRun :
    TtlWatch none dryRunWorld epochPod [dryRunPolicy] .unixEpoch .unixEpoch where
  creation := rfl
  snapshot := fun _ => rfl
  clock := fun _ _ => rfl
  considers := by decide
  valid := by decide
  builtin := by decide
  fits := by
    intro policy hpolicy ttl httl
    obtain rfl := List.mem_singleton.mp hpolicy
    obtain rfl : (60 : Int64) = ttl := Option.some.inj httl
    decide
  serialises := fun _ _ => rfl
  uncut := by
    intro t _ metrics e he
    obtain ⟨-, hlog, -⟩ := runPod_spec none (dryRunWorld t) epochPod metrics
    have hnone : eligiblePolicies (dryRunWorld t).oracle epochPod
        (stamp epochPod (dryRunWorld t).clock 0 (dryRunWorld t).policies) = [] := by
      simp [stamp, dryRunWorld, acceptingEnv, eligiblePolicies, eligible, dryRunPolicy]
    rw [hlog, reference, hnone] at he
    cases he

/-- The chain of a dry run reaches the end of the minute. -/
theorem ttl_deadlines_dryRun :
    ∃ π, Execution (WakeUp none dryRunWorld epochPod) .unixEpoch π ∧
      ∀ policy ∈ [dryRunPolicy], MetAt dryRunWorld epochPod (final .unixEpoch π) policy :=
  (ttl_deadlines ttlWatch_dryRun).2.2.2 (by decide)

end KubeDepod
