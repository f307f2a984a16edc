/-
KubeDepod/Pods/Requeue.lean

When a pod comes back to `reconcile_pod`.

A run that no accepted call and no denied query cuts short returns after the
loop (`serve_uncut`): with the least delay of a pending TTL if there is one,
and with the periodic resync only if there is none.  A pending TTL that is
farther away than the resync therefore puts the resync off
(`pending_ttl_delays_resync`, `resyncHonoured_iff`).
-/
import KubeDepod.Pods.Denied

namespace KubeDepod

variable {env : PodEnv} {pod : Pod} {n : Nat} {policies : List DepodPolicy} {fallback : Action}
  {periodicResyncInterval : Option Duration}

/-! ### Runs that nothing cuts short -/

/-- An accepted call or a denied query. -/
def PodEvent.cutsShort (e : PodEvent) : Bool := e.accepted || e.isDenied

/-- If both queries are granted, the request serialises and the call is not
accepted, the loop goes on. -/
theorem attempt_uncut (htoVec : ∀ eviction, env.toVec eviction = .ok ()) {policy : DepodPolicy}
    (h : ∀ e ∈ (attempt env pod n policy).1, e.cutsShort = false) :
    (attempt env pod n policy).2 = none := by
  rcases hgranted : bothGrant env n with - | -
  · -- one of the two queries was denied
    exfalso
    rw [attempt_of_denied hgranted] at h
    have hglobal := h _ (List.mem_cons_self ..)
    have hpolicy := h _ (List.mem_cons_of_mem _ (List.mem_cons_self ..))
    simp only [PodEvent.cutsShort, PodEvent.accepted, PodEvent.isDenied, Bool.false_or,
      Bool.not_eq_false'] at hglobal hpolicy
    rw [bothGrant, hglobal, hpolicy] at hgranted
    cases hgranted
  · have hserialises : env.serialises pod policy = true := by
      rw [PodEnv.serialises]
      split
      · rfl
      · rw [htoVec]
        rfl
    obtain ⟨call, hcall⟩ := exists_call_of_serialises hserialises (n + 2)
    rw [attempt_of_call hgranted hcall] at h ⊢
    have hcut := h call (List.mem_append_right _ (List.mem_singleton_self call))
    rw [PodEvent.cutsShort, Bool.or_eq_false_iff] at hcut
    rw [hcut.1]
    rfl

/-- A run that nothing cuts short serves all policies. -/
theorem serve_uncut (htoVec : ∀ eviction, env.toVec eviction = .ok ())
    (h : ∀ e ∈ (serve env pod fallback n policies).1, e.cutsShort = false) :
    (serve env pod fallback n policies).2 = .ok fallback := by
  induction policies generalizing n with
  | nil => rfl
  | cons policy policies ih =>
      rw [serve_cons] at h
      have hfirst := attempt_uncut htoVec fun e he => h e (List.mem_append_left _ he)
      rw [hfirst] at h
      have hrest := ih fun e he => h e (List.mem_append_right _ he)
      rcases hattempt : attempt env pod n policy with ⟨events, result⟩
      rw [hattempt] at hfirst hrest
      obtain rfl : result = none := hfirst
      rw [serve, hattempt]
      exact hrest

/-- **The result of a run that nothing cuts short.** -/
theorem runPod_uncut (htoVec : ∀ eviction, env.toVec eviction = .ok ()) (metrics : Metrics)
    (h : ∀ e ∈ (runPod periodicResyncInterval env pod metrics).2.log, e.cutsShort = false) :
    (runPod periodicResyncInterval env pod metrics).1
      = .ok (actionAfterLoop periodicResyncInterval
          ((stamp pod env.clock 0 env.policies).filterMap (pendingTtl pod)).min?) := by
  obtain ⟨hresult, hlog, -⟩ := runPod_spec periodicResyncInterval env pod metrics
  rw [hlog] at h
  rw [hresult]
  exact serve_uncut htoVec h

/-! ### The periodic resync -/

/-- The run returns a requeue after at most `interval`. -/
def RequeuesWithin (interval : Duration) (result : Except Error Action) : Prop :=
  ∃ delay, result = .ok (.requeue delay) ∧ delay.nanos ≤ interval.nanos

/-- The least pending delay decides, if there is one. -/
theorem requeuesWithin_actionAfterLoop_iff (interval : Duration) (delays : List Nat) :
    RequeuesWithin interval (.ok (actionAfterLoop (some interval) delays.min?)) ↔
      delays = [] ∨ ∃ ttlLeft ∈ delays, (Duration.fromSecs ttlLeft).nanos ≤ interval.nanos := by
  rcases hmin : delays.min? with - | least
  · have hnil : delays = [] := List.min?_eq_none_iff.mp hmin
    exact iff_of_true ⟨interval, rfl, Nat.le_refl _⟩ (.inl hnil)
  · obtain ⟨hmem, hleast⟩ := List.min?_eq_some_iff.mp hmin
    constructor
    · rintro ⟨delay, hdelay, hle⟩
      obtain rfl : Duration.fromSecs least = delay := Action.requeue.inj (Except.ok.inj hdelay)
      exact .inr ⟨least, hmem, hle⟩
    · -- the least delay is at most the one that is within the interval
      rintro (rfl | ⟨ttlLeft, httl, hle⟩)
      · cases hmem
      · refine ⟨Duration.fromSecs least, rfl, Nat.le_trans ?_ hle⟩
        exact Nat.mul_le_mul_right _ (hleast ttlLeft httl)

/-- `web-0` is one hour from its TTL and is also under a CEL policy; it comes
back after the hour, not after the minute of the resync. -/
theorem pending_ttl_delays_resync :
    ¬ ∀ (interval : Duration) (env : PodEnv) (pod : Pod) (metrics : Metrics),
      (∀ eviction, env.toVec eviction = .ok ()) →
      (∀ e ∈ (runPod (some interval) env pod metrics).2.log, e.cutsShort = false) →
      RequeuesWithin interval (runPod (some interval) env pod metrics).1 := by
  intro h
  let pod := optedInPod "web-0" "4e1f"
  let created : Pod :=
    { pod with metadata := { pod.metadata with creationTimestamp := some .unixEpoch } }
  let env : PodEnv :=
    { acceptingEnv [ttlPolicy "hourly" 3600, celPolicy "cron" "age > 1800"] with
      oracle := fun _ _ => .ok false }
  have huncut : ∀ e ∈ (runPod (some (Duration.fromSecs 60)) env created .new).2.log,
      e.cutsShort = false := by
    have hlog : (runPod (some (Duration.fromSecs 60)) env created .new).2.log = [] := rfl
    rw [hlog]
    intro e he
    cases he
  have hdelays : (stamp created env.clock 0 env.policies).filterMap (pendingTtl created)
      = [3600] := by decide
  -- so the run comes back after the hour that is left of the TTL
  obtain ⟨delay, hdelay, hle⟩ := h (Duration.fromSecs 60) env created .new (fun _ => rfl) huncut
  rw [runPod_uncut (fun _ => rfl) .new huncut, hdelays] at hdelay
  obtain rfl : Duration.fromSecs 3600 = delay := Action.requeue.inj (Except.ok.inj hdelay)
  exact absurd hle (by decide)

/-- **When the periodic resync is honoured.**  For every pod, snapshot, clock,
CEL oracle, limiter and API server: a run that nothing cuts short requeues
within the resync interval exactly if no TTL is pending, or the delay that
`calculate_ttl_requeue` gives for a pending one is within the interval. -/
theorem resyncHonoured_iff (interval : Duration) (env : PodEnv) (pod : Pod) (metrics : Metrics)
    (htoVec : ∀ eviction, env.toVec eviction = .ok ())
    (huncut : ∀ e ∈ (runPod (some interval) env pod metrics).2.log, e.cutsShort = false) :
    RequeuesWithin interval (runPod (some interval) env pod metrics).1 ↔
      let delays := (stamp pod env.clock 0 env.policies).filterMap (pendingTtl pod)
      delays = [] ∨ ∃ ttlLeft ∈ delays, (Duration.fromSecs ttlLeft).nanos ≤ interval.nanos := by
  rw [runPod_uncut htoVec metrics huncut]
  exact requeuesWithin_actionAfterLoop_iff interval _

/-- A CEL policy alone. -/
theorem resyncHonoured_iff_celOnly :
    RequeuesWithin (Duration.fromSecs 60)
      (runPod (some (Duration.fromSecs 60))
        { acceptingEnv [celPolicy "cron" "age > 1800"] with oracle := fun _ _ => .ok false }
        (optedInPod "web-0" "4e1f") .new).1 := by
  have hlog : (runPod (some (Duration.fromSecs 60))
      { acceptingEnv [celPolicy "cron" "age > 1800"] with oracle := fun _ _ => .ok false }
      (optedInPod "web-0" "4e1f") .new).2.log = [] := rfl
  refine (resyncHonoured_iff (Duration.fromSecs 60) _ _ _ (fun _ => rfl) ?_).mpr (.inl rfl)
  rw [hlog]
  intro e he
  cases he

end KubeDepod
