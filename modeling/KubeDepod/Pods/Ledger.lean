/-
KubeDepod/Pods/Ledger.lean

What the metric counters count.

A run, once it has started, owes a count of itself; a failed evaluation, a
denial, an accepted call and a failed one leave it owing a count of that kind.
Whatever happens, a run counts what it owes before it does anything else, counts
nothing that it does not owe, and owes nothing when it ends (`wp_reconcilePod`);
the matches alone are counted without an effect before them.

So in any interleaving of any number of runs a counter lags behind what has
happened by the runs that owe to it, and by nothing else (`counters_exact`).
The cache that the runs load holds spec-valid policies only, which is what keeps
them out of the branches for misconfigured policies; those count an error with
nothing before it.
-/
import KubeDepod.Lib.Potential
import KubeDepod.Pods.Counters
import KubeDepod.Policies.Validity

namespace KubeDepod

open Effects Lts Parties

/-! ### What a run owes -/

/-- The counter that the effect increments. -/
def PodEffect.counted : PodEffect → Option Counter
  | .increment counter => some counter
  | _ => none

/-- What has happened in a run and is not counted yet, and the last answer of the
global limit. -/
structure Ledger where
  owed : Option Counter
  globalGranted : Bool

namespace Ledger

/-- The run has started. -/
def initial : Ledger := ⟨some .podsEvaluated, false⟩

/-- The counter for what has happened with this reply. -/
def counterFor (ledger : Ledger) : (e : PodEffect) → e.Reply → Option Counter
  | .evaluate _ _ _, .error _ => some .evaluationErrors
  | .allowPolicy _ _, policyAllowed =>
      if ledger.globalGranted && policyAllowed then none else some .rateLimited
  | .delete _ _ _, .ok _ => some .podsDeleted
  | .delete _ _ _, .error _ => some .evaluationErrors
  | .createEviction ns name body, reply =>
      if (PodEvent.evict ns name body reply).accepted then some .podsDeleted
      else some .evaluationErrors
  | _, _ => none

def after (ledger : Ledger) (e : PodEffect) (r : e.Reply) : Ledger where
  owed := ledger.counterFor e r
  globalGranted := match e, r with
    | .allowGlobal, globalAllowed => globalAllowed
    | _, _ => ledger.globalGranted

/-- What the ledger allows: to count what is owed, and if nothing is, to count a
match or to go on. -/
def Allows (ledger : Ledger) : PodEffect → Prop
  | .increment counter =>
      ledger.owed = some counter ∨ counter = .policyMatches ∧ ledger.owed = none
  | _ => ledger.owed = none

end Ledger

/-- The cache holds spec-valid policies; every other reply is possible. -/
def PodEffect.Plausible : (e : PodEffect) → e.Reply → Prop
  | .loadPolicies, policies => ∀ q ∈ policies, q.spec.isValid = true
  | _, _ => True

def ledgerProtocol : Protocol PodEffect.Reply Ledger where
  allowed e ledger := ledger.Allows e
  reply e ledger r ledger' := e.Plausible r ∧ ledger' = ledger.after e r

namespace Ledger

variable {α : Type} {pod : Pod} {policy : DepodPolicy} {ledger : Ledger}
variable {post : α → Ledger → Prop}

/-- Nothing is owed. -/
def Settled (ledger : Ledger) : Prop := ledger.owed = none

/-- An effect that counts nothing. -/
theorem wp_effect {e : PodEffect} (he : e.counted = none) (h : ledger.Settled)
    {k : e.Reply → PodProg α}
    (hk : ∀ r, e.Plausible r → wp ledgerProtocol (k r) post (ledger.after e r)) :
    wp ledgerProtocol (perform e >>= k) post ledger := by
  refine ⟨?_, fun r ledger' hr => hr.2 ▸ hk r hr.1⟩
  cases e with
  | increment counter => cases he
  | _ => exact h

/-- What is owed, or a match, is counted. -/
theorem wp_increment {counter : Counter} (h : ledger.Allows (.increment counter))
    {k : Unit → PodProg α}
    (hk : ∀ ledger' : Ledger, ledger'.Settled → wp ledgerProtocol (k ()) post ledger') :
    wp ledgerProtocol (perform (.increment counter) >>= k) post ledger :=
  ⟨h, fun _ _ hr => hr.2 ▸ hk _ rfl⟩

theorem wp_evaluateWhen (hvalid : policy.spec.isValid = true) (ttlRequeue : Option Nat)
    (h : ledger.Settled) :
    wp ledgerProtocol (evaluateWhen pod policy ttlRequeue) (fun _ ledger => ledger.Settled)
      ledger := by
  rw [evaluateWhen]
  rcases htype : policy.spec.when_.conditionType with - | -
  · obtain ⟨expr, hexpr⟩ := expression_of_isValid hvalid htype
    rw [hexpr]
    refine wp_effect rfl h fun verdict _ => ?_
    rcases verdict with e | conditionResult
    · cases e <;> exact wp_increment (.inl rfl) fun _ hsettled => hsettled
    · exact rfl
  · obtain ⟨ttlSeconds, httl, -⟩ := ttl_of_isValid hvalid htype
    rw [httl]
    refine wp_effect rfl h fun now _ => ?_
    split
    · exact rfl
    · split
      · split <;> exact rfl
      · exact rfl

/-- Both arms ask the limits first; a denial is counted. -/
theorem wp_askLimits {granted : PodProg EarlyReturn} (h : ledger.Settled)
    (hgranted : ∀ ledger' : Ledger, ledger'.Settled →
      wp ledgerProtocol granted (fun _ ledger => ledger.Settled) ledger') :
    wp ledgerProtocol (do
      let globalAllowed ← perform .allowGlobal
      let policyAllowed ←
        perform (.allowPolicy policy.nameAny policy.spec.limits.maxDeletesPerMinute)
      if !globalAllowed || !policyAllowed then do
        incrementRateLimited
        return some (.ok (.requeue (Duration.fromSecs 10)))
      else granted) (fun _ ledger => ledger.Settled) ledger := by
  refine wp_effect rfl h fun globalAllowed _ => ?_
  have hasked : (ledger.after .allowGlobal globalAllowed).Settled := rfl
  refine wp_effect rfl hasked fun policyAllowed _ => ?_
  cases globalAllowed with
  | false => exact wp_increment (.inl rfl) fun _ hsettled => hsettled
  | true =>
      cases policyAllowed with
      | false => exact wp_increment (.inl rfl) fun _ hsettled => hsettled
      | true => exact hgranted _ rfl

theorem wp_deleteArm (h : ledger.Settled) :
    wp ledgerProtocol (deleteArm pod policy) (fun _ ledger => ledger.Settled) ledger := by
  rw [deleteArm]
  split
  · exact h
  · refine wp_askLimits h fun ledger hsettled => ?_
    refine wp_effect rfl hsettled fun reply _ => ?_
    cases reply <;> exact wp_increment (.inl rfl) fun _ hsettled => hsettled

theorem wp_evictArm (h : ledger.Settled) :
    wp ledgerProtocol (evictArm pod policy) (fun _ ledger => ledger.Settled) ledger := by
  rw [evictArm]
  split
  · exact h
  · refine wp_askLimits h fun ledger hsettled => ?_
    refine wp_effect rfl hsettled fun bytes _ => ?_
    rcases bytes with e | _
    · exact rfl
    · have hserialised : (ledger.after (.toVec (evictionOf pod policy)) (.ok ())).Settled := rfl
      refine wp_effect rfl hserialised fun reply _ => ?_
      rcases reply with e | ⟨- | statusStr⟩
      · exact wp_increment (.inl rfl) fun _ hsettled => hsettled
      · exact wp_increment (.inl rfl) fun _ hsettled => hsettled
      · -- the same test decides what has happened and what is counted
        dsimp only
        rcases hsuccess : statusStr == "Success" with - | -
        · refine wp_increment (.inl ?_) fun _ hsettled => hsettled
          simp [after, counterFor, PodEvent.accepted, hsuccess]
        · refine wp_increment (.inl ?_) fun _ hsettled => hsettled
          simp [after, counterFor, PodEvent.accepted, hsuccess]

/-- The loop, from any point of it. -/
theorem wp_reconcilePolicies (periodicResyncInterval : Option Duration)
    (policies : List DepodPolicy) (hvalid : ∀ q ∈ policies, q.spec.isValid = true)
    (ttlRequeue : Option Nat) (h : ledger.Settled) :
    wp ledgerProtocol (reconcilePolicies periodicResyncInterval pod policies ttlRequeue)
      (fun _ ledger => ledger.Settled) ledger := by
  induction policies generalizing ttlRequeue ledger with
  | nil => exact h
  | cons policy policies ih =>
      obtain ⟨hpolicy, hpolicies⟩ := List.forall_mem_cons.mp hvalid
      rw [reconcilePolicies]
      split
      · exact ih hpolicies ttlRequeue h
      · split
        · exact ih hpolicies ttlRequeue h
        · refine wp_increment (.inr ⟨rfl, h⟩) fun ledger hcounted => ?_
          refine wp_bind.mpr (wp_mono ?_ (wp_evaluateWhen hpolicy ttlRequeue hcounted))
          rintro ⟨conditionMet, ttlRequeue⟩ ledger hsettled
          dsimp only
          split
          · exact ih hpolicies ttlRequeue hsettled
          · split
            · exact ih hpolicies ttlRequeue hsettled
            · have hthen : wp ledgerProtocol (executeThen pod policy)
                  (fun _ ledger => ledger.Settled) ledger := by
                rw [executeThen]
                split
                · exact wp_deleteArm hsettled
                · exact wp_evictArm hsettled
              refine wp_bind.mpr (wp_mono ?_ hthen)
              rintro (- | result) ledger hsettled
              · exact ih hpolicies ttlRequeue hsettled
              · exact hsettled

/-- **A run counts what it owes, and nothing else**, whatever the replies are. -/
theorem wp_reconcilePod (periodicResyncInterval : Option Duration) (pod : Pod) :
    wp ledgerProtocol (reconcilePod periodicResyncInterval pod)
      (fun _ ledger => ledger.Settled) .initial := by
  refine wp_increment (.inl rfl) fun ledger hsettled => ?_
  refine wp_effect rfl hsettled fun policies hvalid => ?_
  exact wp_reconcilePolicies periodicResyncInterval policies hvalid none rfl

end Ledger

/-! ### Any number of runs -/

/-- What is left of a run, and what it owes. -/
structure LedgerRun where
  program : PodProg (Except Error Action)
  ledger : Ledger

/-- The counters, and the runs in flight. -/
structure Books (ι : Type) where
  metrics : Metrics
  runs : ι → Option LedgerRun

/-- A run starts, performs its next effect, or returns. -/
inductive BooksLabel (ι : Type) where
  | start (i : ι) (pod : Pod)
  | effect (i : ι) (answer : (e : PodEffect) → e.Reply)
  | finish (i : ι)

instance (e : PodEffect) (r : e.Reply) : Decidable (e.Plausible r) :=
  match e, r with
  | .loadPolicies, policies =>
      inferInstanceAs (Decidable (∀ q ∈ policies, q.spec.isValid = true))
  | .increment _, _ => .isTrue trivial
  | .now, _ => .isTrue trivial
  | .evaluate _ _ _, _ => .isTrue trivial
  | .allowGlobal, _ => .isTrue trivial
  | .allowPolicy _ _, _ => .isTrue trivial
  | .toVec _, _ => .isTrue trivial
  | .delete _ _ _, _ => .isTrue trivial
  | .createEviction _ _ _, _ => .isTrue trivial

section
variable {ι : Type}

/-- All counters are zero, and no run is in flight. -/
def Books.initial : Books ι := ⟨.new, fun _ => none⟩

/-- What the step makes happen, for each counter. -/
def happened (counter : Counter) (s : Books ι) : BooksLabel ι → Nat
  | .start _ _ => if counter = .podsEvaluated then 1 else 0
  | .effect i answer =>
      match s.runs i with
      | some ⟨.op e _, ledger⟩ =>
          if ledger.counterFor e (answer e) = some counter then 1 else 0
      | _ => 0
  | .finish _ => 0

/-- What the step counts. -/
def counted (counter : Counter) (s : Books ι) : BooksLabel ι → Nat
  | .effect i _ =>
      match s.runs i with
      | some ⟨.op e _, _⟩ => if e.counted = some counter then 1 else 0
      | _ => 0
  | _ => 0

/-- What a run owes to the counter. -/
def owing (counter : Counter) : Option LedgerRun → Nat
  | some run => if run.ledger.owed = some counter then 1 else 0
  | none => 0

variable [DecidableEq ι]

def Books.set (s : Books ι) (metrics : Metrics) (i : ι) (run : Option LedgerRun) : Books ι where
  metrics := metrics
  runs := Function.update s.runs i run

def booksStep (periodicResyncInterval : Option Duration) (s : Books ι) :
    BooksLabel ι → Option (Books ι)
  | .start i pod =>
      match s.runs i with
      | none => some (s.set s.metrics i (some ⟨reconcilePod periodicResyncInterval pod, .initial⟩))
      | some _ => none
  | .effect i answer =>
      match s.runs i with
      | some ⟨.op e k, ledger⟩ =>
          if e.Plausible (answer e) then
            some (s.set (s.metrics.after e) i (some ⟨k (answer e), ledger.after e (answer e)⟩))
          else
            none
      | _ => none
  | .finish i =>
      match s.runs i with
      | some ⟨.pure _, _⟩ => some (s.set s.metrics i none)
      | _ => none

def BooksStep (periodicResyncInterval : Option Duration) (s : Books ι) (label : BooksLabel ι)
    (s' : Books ι) : Prop :=
  booksStep periodicResyncInterval s label = some s'

/-- What a step can do. -/
inductive BooksCase (periodicResyncInterval : Option Duration) (s : Books ι) :
    BooksLabel ι → Books ι → Prop
  | start {i : ι} {pod : Pod} (hidle : s.runs i = none) :
      BooksCase periodicResyncInterval s (.start i pod)
        (s.set s.metrics i (some ⟨reconcilePod periodicResyncInterval pod, .initial⟩))
  | effect {i : ι} {answer : (e : PodEffect) → e.Reply} {e : PodEffect}
      {k : e.Reply → PodProg (Except Error Action)} {ledger : Ledger}
      (hrun : s.runs i = some ⟨.op e k, ledger⟩) (hpossible : e.Plausible (answer e)) :
      BooksCase periodicResyncInterval s (.effect i answer)
        (s.set (s.metrics.after e) i (some ⟨k (answer e), ledger.after e (answer e)⟩))
  | finish {i : ι} {result : Except Error Action} {ledger : Ledger}
      (hrun : s.runs i = some ⟨.pure result, ledger⟩) :
      BooksCase periodicResyncInterval s (.finish i) (s.set s.metrics i none)

variable {periodicResyncInterval : Option Duration} {s s' : Books ι} {label : BooksLabel ι}
variable {counter : Counter}

theorem booksStep_cases (h : BooksStep periodicResyncInterval s label s') :
    BooksCase periodicResyncInterval s label s' := by
  rw [BooksStep] at h
  cases label with
  | start i pod =>
      rw [booksStep] at h
      split at h
      case h_1 hidle => cases h; exact .start hidle
      case h_2 => cases h
  | effect i answer =>
      rw [booksStep] at h
      split at h
      case h_1 e k ledger hrun =>
        split_ifs at h with hpossible
        cases h
        exact .effect hrun hpossible
      case h_2 => cases h
  | finish i =>
      rw [booksStep] at h
      split at h
      case h_1 result ledger hrun => cases h; exact .finish hrun
      case h_2 => cases h

/-- Every run in flight keeps to its ledger. -/
def Books.Sound (s : Books ι) : Prop :=
  ∀ i run, s.runs i = some run →
    wp ledgerProtocol run.program (fun _ ledger => ledger.Settled) run.ledger

theorem Books.Sound.step (h : BooksStep periodicResyncInterval s label s') (hs : s.Sound) :
    s'.Sound := by
  cases booksStep_cases h with
  | start hidle =>
      refine present_update hs fun run hrun => ?_
      obtain rfl := Option.some.inj hrun
      exact Ledger.wp_reconcilePod periodicResyncInterval _
  | effect hrun hpossible =>
      refine present_update hs fun run hrun' => ?_
      obtain rfl := Option.some.inj hrun'
      exact (hs _ _ hrun).2 _ _ ⟨hpossible, rfl⟩
  | finish hrun => exact present_update hs fun run => nofun

/-! ### The books balance -/

omit [DecidableEq ι] in
/-- An effect that the ledger allows pays what was owed, and what happens with
it is owed afterwards. -/
theorem Ledger.Allows.balance {ledger : Ledger} {e : PodEffect} (h : ledger.Allows e)
    (r : e.Reply) (hne : counter ≠ .policyMatches) :
    (if e.counted = some counter then 1 else 0)
        + (if (ledger.after e r).owed = some counter then 1 else 0)
      = (if ledger.owed = some counter then 1 else 0)
        + (if ledger.counterFor e r = some counter then 1 else 0) := by
  show _ + (if ledger.counterFor e r = some counter then 1 else 0) = _
  congr 1
  cases e with
  | increment c =>
      rcases h with howed | ⟨rfl, howed⟩
      · rw [howed]
        rfl
      · -- a match is another counter's
        have hother : (PodEffect.increment .policyMatches).counted ≠ some counter :=
          fun hsome => hne (Option.some.inj hsome).symm
        rw [howed, if_neg hother, if_neg (Option.some_ne_none counter).symm]
  | _ =>
      rw [show ledger.owed = none from h]
      rfl

variable [Fintype ι]

/-- What is owed to the counter. -/
def Books.owing (s : Books ι) (counter : Counter) : Nat :=
  ∑ i, KubeDepod.owing counter (s.runs i)

theorem Books.owing_set (s : Books ι) (counter : Counter) (metrics : Metrics) (i : ι)
    (run : Option LedgerRun) :
    (s.set metrics i run).owing counter + KubeDepod.owing counter (s.runs i)
      = s.owing counter + KubeDepod.owing counter run :=
  sum_update_add (KubeDepod.owing counter) s.runs i run

/-- **Every step balances.** -/
theorem Books.balance_step (hne : counter ≠ .policyMatches)
    (h : BooksStep periodicResyncInterval s label s') (hs : s.Sound) :
    counted counter s label + s'.owing counter = s.owing counter + happened counter s label := by
  cases booksStep_cases h with
  | @start i pod hidle =>
      have hset := s.owing_set counter s.metrics i
        (some ⟨reconcilePod periodicResyncInterval pod, .initial⟩)
      have hbefore : KubeDepod.owing counter (s.runs i) = 0 := by rw [hidle, KubeDepod.owing]
      have hafter : KubeDepod.owing counter
          (some ⟨reconcilePod periodicResyncInterval pod, .initial⟩)
            = happened counter s (.start i pod) := by
        cases counter <;> rfl
      have hcounted : counted counter s (.start i pod) = 0 := rfl
      omega
  | @effect i answer e k ledger hrun hpossible =>
      have hset := s.owing_set counter (s.metrics.after e) i
        (some ⟨k (answer e), ledger.after e (answer e)⟩)
      have hallows : ledger.Allows e := (hs i _ hrun).1
      have hbalance := hallows.balance (answer e) hne
      have hcounted : counted counter s (.effect i answer)
          = if e.counted = some counter then 1 else 0 := by rw [counted, hrun]
      have hhappened : happened counter s (.effect i answer)
          = if ledger.counterFor e (answer e) = some counter then 1 else 0 := by
        rw [happened, hrun]
      rw [hrun] at hset
      simp only [KubeDepod.owing] at hset
      omega
  | @finish i result ledger hrun =>
      have hset := s.owing_set counter s.metrics i none
      -- a run that has ended owes nothing
      have hsettled : ledger.owed = none := hs i _ hrun
      rw [hrun] at hset
      simp only [KubeDepod.owing, hsettled, if_neg (Option.some_ne_none counter).symm] at hset
      have hcounted : counted counter s (.finish i) = 0 := rfl
      have hhappened : happened counter s (.finish i) = 0 := rfl
      omega

omit [Fintype ι] in
/-- A counter changes by what is counted. -/
theorem value_step (counter : Counter) (h : BooksStep periodicResyncInterval s label s') :
    s'.metrics.value counter
      = s.metrics.value counter + UInt64.ofNat (counted counter s label) := by
  cases booksStep_cases h with
  | start hidle => exact (UInt64.add_zero _).symm
  | @effect i answer e k ledger hrun hpossible =>
      have hcounted : counted counter s (.effect i answer)
          = if e = .increment counter then 1 else 0 := by
        rw [counted, hrun]
        cases e <;> simp [PodEffect.counted]
      rw [hcounted]
      exact PodReconcilers.value_after s.metrics e counter
  | finish hrun => exact (UInt64.add_zero _).symm

omit [Fintype ι] in
theorem value_final (counter : Counter) {π : List (BooksLabel ι × Books ι)}
    (hπ : Execution (BooksStep periodicResyncInterval) s π) :
    (final s π).metrics.value counter
      = s.metrics.value counter + UInt64.ofNat (totalAlong (counted counter) s π) := by
  induction π generalizing s with
  | nil => exact (UInt64.add_zero _).symm
  | cons x π ih =>
      obtain ⟨label, s'⟩ := x
      rw [final_cons, ih hπ.2, value_step counter hπ.1, totalAlong_cons, UInt64.ofNat_add,
        UInt64.add_assoc]

/-- **The counters are exact.**  In every interleaving of any number of runs of
`reconcile_pod`, on caches of spec-valid policies and with any other replies: a
counter, but that of the matches, is what has happened of its kind less what the
runs in flight still owe to it, modulo `2^64`; and once all runs have ended it is
what has happened. -/
theorem counters_exact (periodicResyncInterval : Option Duration)
    (hne : counter ≠ .policyMatches) {π : List (BooksLabel ι × Books ι)}
    (hπ : Execution (BooksStep periodicResyncInterval) .initial π) :
    (∃ n, (final .initial π).metrics.value counter = UInt64.ofNat n ∧
        n + (final .initial π).owing counter = totalAlong (happened counter) .initial π) ∧
      ((∀ i run, (final .initial π).runs i = some run → ∃ result, run.program = .pure result) →
        (final .initial π).metrics.value counter
          = UInt64.ofNat (totalAlong (happened counter) .initial π)) := by
  have hstep : ∀ (s : Books ι) (label : BooksLabel ι) (s' : Books ι),
      BooksStep periodicResyncInterval s label s' → s.Sound → s'.Sound :=
    fun s label s' h hs => hs.step h
  have hinitial : (Books.initial : Books ι).Sound := fun _ _ hrun => nomatch hrun
  have hsound := hπ.invariant hstep hinitial
  have hvalue : (final .initial π).metrics.value counter
      = UInt64.ofNat (totalAlong (counted counter) .initial π) := by
    rw [value_final counter hπ]
    exact UInt64.zero_add _
  have hbalance := hπ.total_eq (fun s => s.owing counter) hstep
    (fun s label s' h hs => Books.balance_step hne h hs) hinitial
  have hnothing : (Books.initial : Books ι).owing counter = 0 := Finset.sum_eq_zero fun _ _ => rfl
  rw [hnothing, Nat.zero_add] at hbalance
  refine ⟨⟨_, hvalue, hbalance⟩, fun hended => ?_⟩
  have hpaid : (final .initial π).owing counter = 0 := by
    refine Finset.sum_eq_zero fun i _ => ?_
    rcases hrun : (final .initial π).runs i with - | run
    · rw [hrun]
      rfl
    · obtain ⟨result, hprogram⟩ := hended i run hrun
      have hwp := hsound _ (final_mem_states _ π) i run hrun
      rw [hprogram] at hwp
      have hsettled : run.ledger.owed = none := hwp
      rw [hrun, KubeDepod.owing, hsettled]
      exact if_neg (Option.some_ne_none counter).symm
  rw [hvalue, ← hbalance, hpaid, Nat.add_zero]

/-- One run that deletes its pod, and one that is denied and still owes its
count. -/
theorem counters_exact_delete :
    ∃ π, Execution (BooksStep none) (.initial : Books Bool) π ∧
      totalAlong (happened .podsDeleted) .initial π = 1 ∧
      ∃ n, (final .initial π).metrics.value .podsDeleted = UInt64.ofNat n ∧
        n + (final .initial π).owing .podsDeleted = 1 := by
  let answer := answersWith [celPolicy "cleanup" "true"]
  have hrun : ∃ π, follow (booksStep none) (.initial : Books Bool)
      [.start true (optedInPod "web-0" "4e1f"), .start false (optedInPod "web-1" "5a20"),
        .effect true (answer true), .effect false (answer false), .effect true (answer true),
        .effect true (answer true), .effect false (answer false), .effect true (answer true),
        .effect false (answer false), .effect true (answer true), .effect false (answer false),
        .effect true (answer true), .effect false (answer false), .effect true (answer true),
        .effect false (answer false), .effect true (answer true), .finish true] = some π ∧
      totalAlong (happened .podsDeleted) .initial π = 1 :=
    ⟨_, rfl, by decide +kernel⟩
  obtain ⟨π, hfollow, hone⟩ := hrun
  obtain ⟨hπ, -⟩ := execution_of_follow hfollow
  have hne : Counter.podsDeleted ≠ .policyMatches := by decide
  obtain ⟨n, hvalue, hn⟩ := (counters_exact none hne hπ).1
  exact ⟨π, hπ, hone, n, hvalue, hn.trans hone⟩

end

end KubeDepod
