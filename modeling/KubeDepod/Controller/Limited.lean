/-
KubeDepod/Controller/Limited.lean

Runs of `reconcile_pod` against the rate limiter.

`PodEnv` answers the limiter queries of a run as it likes.  Here the limiter
itself answers them (`limitedHandler`) and carries its buckets from one query
to the next.  `runLimited_spec` says that such a run is one of those the
reference describes, and that the limiter gave the replies in its log.
-/
import KubeDepod.Controller.Reference
import KubeDepod.RateLimiter

namespace KubeDepod

open Effects

/-- The environment's answer to each effect, with the limiter answering for
itself; the `n`-th request of the run finds the readings `readings n`. -/
def PodEnv.limitedHandler (env : PodEnv) (readings : Nat → LimiterReading) :
    (e : PodEffect) → PodRun × RateLimiter → e.Reply × PodRun × RateLimiter
  | .allowGlobal, (s, l) =>
      let answer := l.allowGlobal (readings s.log.length).now
      (answer.1, s.record (.allowGlobal answer.1), answer.2)
  | .allowPolicy policyName maxPerMinute, (s, l) =>
      let answer := l.allowPolicy policyName maxPerMinute (readings s.log.length).created
        (readings s.log.length).now
      (answer.1, s.record (.allowPolicy policyName maxPerMinute answer.1), answer.2)
  | e, (s, l) =>
      let answer := env.handler e s
      (answer.1, answer.2, l)

/-- One run of `reconcile_pod` against the limiter. -/
def runLimited (periodicResyncInterval : Option Duration) (env : PodEnv)
    (readings : Nat → LimiterReading) (pod : Pod) (metrics : Metrics) (l : RateLimiter) :
    Except Error Action × PodRun × RateLimiter :=
  (reconcilePod periodicResyncInterval pod).run (env.limitedHandler readings)
    (⟨metrics, 0, []⟩, l)

/-! ### The limiter and the log -/

/-- The limiter gives the reply recorded in the event. -/
def RateLimiter.Gives (l : RateLimiter) (reading : LimiterReading) : PodEvent → Prop
  | .allowGlobal reply => reply = (l.allowGlobal reading.now).1
  | .allowPolicy policyName maxPerMinute reply =>
      reply = (l.allowPolicy policyName maxPerMinute reading.created reading.now).1
  | .delete _ _ _ _ => True
  | .evict _ _ _ _ => True

/-- The limiter after the event. -/
def RateLimiter.after (l : RateLimiter) (reading : LimiterReading) : PodEvent → RateLimiter
  | .allowGlobal _ => (l.allowGlobal reading.now).2
  | .allowPolicy policyName maxPerMinute _ =>
      (l.allowPolicy policyName maxPerMinute reading.created reading.now).2
  | .delete _ _ _ _ => l
  | .evict _ _ _ _ => l

/-- The limiter answers the requests from the `n`-th on and ends as `l'`. -/
def Answers (readings : Nat → LimiterReading) :
    Nat → RateLimiter → List PodEvent → RateLimiter → Prop
  | _, l, [], l' => l' = l
  | n, l, event :: events, l' =>
      l.Gives (readings n) event ∧ Answers readings (n + 1) (l.after (readings n) event) events l'

/-- The replies recorded in a log. -/
def repliesOf (log : List PodEvent) (n : Nat) : Bool :=
  match log[n]? with
  | some (.allowGlobal reply) => reply
  | some (.allowPolicy _ _ reply) => reply
  | _ => false

theorem answers_append {readings : Nat → LimiterReading} {n : Nat} {l l' : RateLimiter}
    {events events' : List PodEvent} :
    Answers readings n l (events ++ events') l' ↔
      ∃ m, Answers readings n l events m ∧
        Answers readings (n + events.length) m events' l' := by
  induction events generalizing n l with
  | nil => simp [Answers]
  | cons event events ih =>
      rw [List.cons_append, Answers, ih]
      simp only [Answers, List.length_cons, and_assoc]
      constructor
      · rintro ⟨hgives, m, h, h'⟩
        exact ⟨m, hgives, h, by rwa [← Nat.add_assoc, Nat.add_right_comm] ⟩
      · rintro ⟨m, hgives, h, h'⟩
        exact ⟨hgives, m, h, by rwa [← Nat.add_assoc, Nat.add_right_comm] at h'⟩

theorem repliesOf_of_prefix {log log' : List PodEvent} {event : PodEvent}
    (h : log ++ [event] <+: log') :
    log'[log.length]? = some event := by
  obtain ⟨rest, rfl⟩ := h
  simp

/-- One effect: the log grows by what the limiter answers, and the replies in
any longer log lead to the same answer and state. -/
theorem limitedHandler_spec (env : PodEnv) (readings : Nat → LimiterReading) (e : PodEffect)
    (s : PodRun) (l : RateLimiter) :
    ∃ events, (env.limitedHandler readings e (s, l)).2.1.log = s.log ++ events ∧
      Answers readings s.log.length l events (env.limitedHandler readings e (s, l)).2.2 ∧
      ∀ log, (env.limitedHandler readings e (s, l)).2.1.log <+: log →
        ({ env with limiter := repliesOf log } : PodEnv).handler e s
          = ((env.limitedHandler readings e (s, l)).1,
              (env.limitedHandler readings e (s, l)).2.1) := by
  cases e with
  | allowGlobal =>
      refine ⟨[_], rfl, ⟨rfl, rfl⟩, fun log hlog => ?_⟩
      have hreply := repliesOf_of_prefix hlog
      simp only [PodEnv.handler, repliesOf, hreply]
      rfl
  | allowPolicy policyName maxPerMinute =>
      refine ⟨[_], rfl, ⟨rfl, rfl⟩, fun log hlog => ?_⟩
      have hreply := repliesOf_of_prefix hlog
      simp only [PodEnv.handler, repliesOf, hreply]
      rfl
  | delete ns name dp => exact ⟨[_], rfl, ⟨trivial, rfl⟩, fun _ _ => rfl⟩
  | createEviction ns name body => exact ⟨[_], rfl, ⟨trivial, rfl⟩, fun _ _ => rfl⟩
  | increment counter => exact ⟨[], (List.append_nil _).symm, rfl, fun _ _ => rfl⟩
  | loadPolicies => exact ⟨[], (List.append_nil _).symm, rfl, fun _ _ => rfl⟩
  | now => exact ⟨[], (List.append_nil _).symm, rfl, fun _ _ => rfl⟩
  | evaluate expr pod policyName => exact ⟨[], (List.append_nil _).symm, rfl, fun _ _ => rfl⟩
  | toVec eviction => exact ⟨[], (List.append_nil _).symm, rfl, fun _ _ => rfl⟩

/-- A program run against the limiter runs alike against the replies in its
log. -/
theorem run_limitedHandler {α : Type} (env : PodEnv) (readings : Nat → LimiterReading)
    (p : PodProg α) (s : PodRun) (l : RateLimiter) :
    ∃ events, (p.run (env.limitedHandler readings) (s, l)).2.1.log = s.log ++ events ∧
      Answers readings s.log.length l events (p.run (env.limitedHandler readings) (s, l)).2.2 ∧
      ∀ log, (p.run (env.limitedHandler readings) (s, l)).2.1.log <+: log →
        p.run ({ env with limiter := repliesOf log } : PodEnv).handler s
          = ((p.run (env.limitedHandler readings) (s, l)).1,
              (p.run (env.limitedHandler readings) (s, l)).2.1) := by
  induction p generalizing s l with
  | pure a => exact ⟨[], (List.append_nil _).symm, rfl, fun _ _ => rfl⟩
  | op e k ih =>
      obtain ⟨events, hlog, hanswers, hreplay⟩ := limitedHandler_spec env readings e s l
      obtain ⟨events', hlog', hanswers', hreplay'⟩ :=
        ih _ (env.limitedHandler readings e (s, l)).2.1 (env.limitedHandler readings e (s, l)).2.2
      rw [hlog, List.append_assoc] at hlog'
      rw [hlog, List.length_append] at hanswers'
      refine ⟨events ++ events', hlog', answers_append.mpr ⟨_, hanswers, hanswers'⟩, ?_⟩
      intro log hprefix
      have hfirst := hreplay log (by
        rw [hlog]
        refine List.IsPrefix.trans ⟨events', ?_⟩ hprefix
        rw [List.append_assoc]
        exact hlog'.symm)
      rw [Prog.run_op, hfirst]
      exact hreplay' log hprefix

/-- **A run against the limiter is a run of the reference**, with the replies
that the limiter gives. -/
theorem runLimited_spec (periodicResyncInterval : Option Duration) (env : PodEnv)
    (readings : Nat → LimiterReading) (pod : Pod) (metrics : Metrics) (l : RateLimiter) :
    let run := runLimited periodicResyncInterval env readings pod metrics l
    Answers readings 0 l run.2.1.log run.2.2 ∧
      (run.2.1.log, run.1) = reference periodicResyncInterval
        { env with limiter := repliesOf run.2.1.log } pod := by
  obtain ⟨events, hlog, hanswers, hreplay⟩ := run_limitedHandler env readings
    (reconcilePod periodicResyncInterval pod) ⟨metrics, 0, []⟩ l
  rw [List.nil_append] at hlog
  intro run
  have hrun : runPod periodicResyncInterval { env with limiter := repliesOf run.2.1.log } pod
      metrics = (run.1, run.2.1) := hreplay _ (List.prefix_refl _)
  obtain ⟨hresult, hrequests, -⟩ := runPod_spec periodicResyncInterval
    { env with limiter := repliesOf run.2.1.log } pod metrics
  rw [hrun] at hresult hrequests
  refine ⟨?_, Prod.ext hrequests hresult⟩
  have hrunlog : run.2.1.log = events := hlog
  rw [hrunlog]
  exact hanswers

end KubeDepod
