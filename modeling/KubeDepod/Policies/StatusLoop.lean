/-
KubeDepod/Policies/StatusLoop.lean

The status patches of a policy and the watch that answers them.

A patch changes the object, so the watch delivers the object again, and the
controller runs `reconcile_policy` again.  Here this loop is closed around one
policy: a user edits its spec, the watch delivers the versions in order and may
skip some, the scheduler keeps one request, and the run is interleaved with all
that effect by effect, on the version it began with.

A run reports once at most, what its own version calls for
(`wp_reportProtocol`).  So after the last edit the loop sends no more than two
patches for each version still on its way, and no more than two for each time a
run asks to come back; and when it is at rest, with no patch refused, the status
shows the verdict on the latest spec (`statusLoop_settles`).
-/
import Mathlib.Algebra.GroupWithZero.Nat
import KubeDepod.Lib.Potential
import KubeDepod.Policies.Status

namespace KubeDepod

open Effects Lts

/-! ### What one run reports -/

instance : DecidableEq Verdict := fun v w =>
  decidable_of_iff _ (Verdict.reported_condition_iff w v "")

/-- The reply of the CEL evaluator is its verdict; every other reply is
possible. -/
def CelEngine.Replies (cel : CelEngine) : (e : PolicyEffect) → e.Reply → Prop
  | .validate expr, r => r = cel.verdict expr
  | .nowText, _ => True
  | .patchStatus _ _ _, _ => True
  | .storeState, _ => True
  | .publish _, _ => True
  | .listPods _ _, _ => True
  | .patchPod _ _ _, _ => True

def PolicyEffect.isReport : PolicyEffect → Bool
  | .patchStatus _ _ _ => true
  | _ => false

/-- The status of the policy does not show the verdict yet. -/
def DepodPolicy.mustReport (policy : DepodPolicy) (v : Verdict) : Bool :=
  shouldUpdate policy.status v.reported

/-- The one patch that a run may send, before which `reported` is false. -/
def DepodPolicy.MayReport (policy : DepodPolicy) (v : Verdict) (reported : Bool) :
    PolicyEffect → Prop
  | .patchStatus ns name status =>
      reported = false ∧ policy.mustReport v = true ∧ ns = getPolicyNamespace policy ∧
        name = policy.nameAny ∧ ∃ now, status = { conditions := [v.condition now] }
  | _ => True

/-- The run is on this policy and comes to this verdict. -/
def reportProtocol (cel : CelEngine) (policy : DepodPolicy) (v : Verdict) :
    Protocol PolicyEffect.Reply Bool where
  allowed e reported := policy.MayReport v reported e
  reply e reported r reported' := cel.Replies e r ∧ reported' = (reported || e.isReport)

variable {cel : CelEngine} {policy : DepodPolicy} {v : Verdict} {reported : Bool}

/-- An effect that is not a report. -/
theorem wp_noReport {α : Type} {e : PolicyEffect} {k : e.Reply → PolicyProg α}
    {post : α → Bool → Prop} (he : e.isReport = false)
    (hk : ∀ r, cel.Replies e r → wp (reportProtocol cel policy v) (k r) post reported) :
    wp (reportProtocol cel policy v) (request e >>= k) post reported := by
  refine ⟨?_, fun r reported' hr => ?_⟩
  · cases e with
    | patchStatus _ _ _ => cases he
    | _ => trivial
  · obtain ⟨hreply, rfl⟩ := hr
    rw [he, Bool.or_false]
    exact hk r hreply

/-- The verdict is reported if the status calls for it. -/
theorem wp_reportOnce (v : Verdict) :
    wp (reportProtocol cel policy v) (report policy v.reported v.condition)
      (fun _ reported => reported = policy.mustReport v) false := by
  unfold report
  split
  case isTrue hupdate =>
    refine wp_noReport rfl fun now _ => ⟨⟨rfl, hupdate, rfl, rfl, now, rfl⟩, ?_⟩
    rintro r reported' ⟨-, rfl⟩
    exact hupdate.symm
  case isFalse hupdate => exact ((Bool.not_eq_true _).mp hupdate).symm

theorem wp_touchNoReport {α : Type} {p : PolicyProg α} (hp : p.Uses PolicyEffect.IsTouch) :
    wp (reportProtocol cel policy v) p (fun _ reported' => reported' = reported) reported := by
  refine wp_of_uses hp (fun e reported' htouch _ => ?_) ?_ rfl
  · cases e with
    | patchStatus _ _ _ => exact htouch.elim
    | _ => trivial
  · rintro e reported' r _ htouch rfl ⟨-, rfl⟩
    cases e with
    | patchStatus _ _ _ => exact htouch.elim
    | _ => exact Bool.or_false _

/-- The two validations: a run that leaves has reported. -/
theorem wp_checkPolicyOnce (policy : DepodPolicy) :
    wp (reportProtocol cel policy (cel.verdictOn policy.spec)) (checkPolicy policy)
      (fun checked reported =>
        if checked then cel.verdictOn policy.spec = .ready ∧ reported = false
        else reported = policy.mustReport (cel.verdictOn policy.spec)) false := by
  rw [checkPolicy, CelEngine.verdictOn]
  rcases policy.spec.validate with e | _
  · exact wp_bind.mpr (wp_reportOnce (.invalidSpec e.toString))
  rcases policy.spec.when_.expression with - | expr
  · exact ⟨rfl, rfl⟩
  rcases policy.spec.when_.conditionType with - | -
  · -- the reply to the effect is the verdict on the expression
    dsimp only
    generalize hverdict : cel.verdict expr = verdict
    refine wp_noReport rfl fun r hr => ?_
    obtain rfl : r = verdict := Eq.trans hr hverdict
    rcases r with e | _
    · exact wp_bind.mpr (wp_reportOnce (.invalidCel ("CEL compilation failed: " ++ e.toString)))
    · exact ⟨rfl, rfl⟩
  · exact ⟨rfl, rfl⟩

/-- **A run reports its verdict, once, if the status calls for it.** -/
theorem wp_reportProtocol (operatorPodName : String) (policy : DepodPolicy) :
    wp (reportProtocol cel policy (cel.verdictOn policy.spec))
      (reconcilePolicy operatorPodName policy)
      (fun _ reported => reported = policy.mustReport (cel.verdictOn policy.spec)) false := by
  rw [reconcilePolicy, wp_bind]
  refine wp_mono (fun checked reported hchecked => ?_) (wp_checkPolicyOnce policy)
  cases checked with
  | false => exact hchecked
  | true =>
      obtain ⟨hready, rfl⟩ := hchecked
      rw [hready]
      -- the refresh takes the store and publishes
      refine wp_noReport rfl fun _ _ => wp_noReport rfl fun _ _ => ?_
      show wp _ (afterRefresh operatorPodName policy) _ _
      rw [afterRefresh_eq, wp_bind]
      refine wp_mono (fun _ reported hreported => ?_) (wp_reportOnce .ready)
      refine wp_noReport rfl fun now _ => ?_
      refine wp_mono (fun _ reported' hsame => ?_) (wp_touchNoReport (touch_uses ..))
      rw [hsame]
      exact hreported

/-! ### The loop -/

/-- A run in flight: the version it began with, that version as a policy, what
is left of the run, and whether it has sent its patch. -/
structure StatusRun where
  version : PolicyObject
  policy : DepodPolicy
  program : PolicyProg (Except Error Action)
  reported : Bool

/-- The object at the API server; its versions that the watch has yet to
deliver, the oldest first; the version in the reflector's store; whether the
scheduler has a request for it; and the run in flight. -/
structure StatusLoop where
  object : PolicyObject
  pending : List PolicyObject
  seen : PolicyObject
  queued : Bool
  run : Option StatusRun

namespace StatusLoop

/-- The object is in the store and its run is due. -/
def initial (object : PolicyObject) : StatusLoop where
  object := object
  pending := []
  seen := object
  queued := true
  run := none

/-- A new version of the object. -/
def changed (s : StatusLoop) (object : PolicyObject) : StatusLoop :=
  { s with object, pending := s.pending ++ [object] }

/-- The request is for the object. -/
def Addresses (s : StatusLoop) (ns name : String) : Prop := ns = s.object.ns ∧ name = s.object.name

instance (s : StatusLoop) (ns name : String) : Decidable (s.Addresses ns name) :=
  inferInstanceAs (Decidable (_ ∧ _))

/-- What a reply to a run does to the object: a status patch that is accepted
makes a new version. -/
def afterReply (s : StatusLoop) : (e : PolicyEffect) → e.Reply → StatusLoop
  | .patchStatus ns name status, .ok _ =>
      if s.Addresses ns name then s.changed (s.object.patched status) else s
  | _, _ => s

end StatusLoop

/-- The run asks to come back. -/
def requeues : Except Error Action → Bool
  | .ok .awaitChange => false
  | _ => true

/-- The user edits the spec; the watch delivers a version; a run starts,
performs its next effect, or returns. -/
inductive StatusLabel where
  | edit (spec : DepodPolicySpec)
  | deliver
  | start
  | effect (e : PolicyEffect) (r : e.Reply)
  | finish (result : Except Error Action)

inductive StatusLoopStep (cel : CelEngine) (operatorPodName : String) :
    StatusLoop → StatusLabel → StatusLoop → Prop
  | edit {s : StatusLoop} (spec : DepodPolicySpec) :
      StatusLoopStep cel operatorPodName s (.edit spec) (s.changed (s.object.edited spec))
  | deliver {s : StatusLoop} {skipped versions : List PolicyObject} {version : PolicyObject}
      (hpending : s.pending = skipped ++ version :: versions) :
      StatusLoopStep cel operatorPodName s .deliver
        { s with pending := versions, seen := version, queued := true }
  | start {s : StatusLoop} {policy : DepodPolicy} (hqueued : s.queued = true)
      (hidle : s.run = none) (hdelivered : s.seen.DeliveredAs policy) :
      StatusLoopStep cel operatorPodName s .start
        { s with
          queued := false
          run := some ⟨s.seen, policy, reconcilePolicy operatorPodName policy, false⟩ }
  | effect {s : StatusLoop} {run : StatusRun} {e : PolicyEffect}
      {k : e.Reply → PolicyProg (Except Error Action)} {r : e.Reply} (hrun : s.run = some run)
      (hnext : run.program = .op e k) (hreply : cel.Replies e r) :
      StatusLoopStep cel operatorPodName s (.effect e r)
        { s.afterReply e r with
          run := some { run with program := k r, reported := run.reported || e.isReport } }
  | finish {s : StatusLoop} {run : StatusRun} {result : Except Error Action}
      (hrun : s.run = some run) (hdone : run.program = .pure result) :
      StatusLoopStep cel operatorPodName s (.finish result)
        { s with queued := s.queued || requeues result, run := none }

/-- A status patch is accepted. -/
def StatusLoop.Accepts (_ : StatusLoop) : StatusLabel → Prop
  | .effect (.patchStatus _ _ _) r => r.isOk = true
  | _ => True

/-! ### What holds of the loop -/

namespace StatusRun

/-- The verdict that the run comes to. -/
def verdict (run : StatusRun) (cel : CelEngine) : Verdict := cel.verdictOn run.version.spec

/-- The run is on a version of the object and has yet to report at most what that
version calls for. -/
structure Sound (cel : CelEngine) (ns name : String) (run : StatusRun) : Prop where
  delivered : run.version.DeliveredAs run.policy
  ns_eq : run.version.ns = ns
  name_eq : run.version.name = name
  remaining : wp (reportProtocol cel run.policy (run.verdict cel)) run.program
    (fun _ reported => reported = run.policy.mustReport (run.verdict cel)) run.reported

end StatusRun

namespace StatusLoop

/-- All versions are of one object, and the run in flight is sound. -/
structure Sound (cel : CelEngine) (ns name : String) (s : StatusLoop) : Prop where
  object : s.object.ns = ns ∧ s.object.name = name
  seen : s.seen.ns = ns ∧ s.seen.name = name
  pending : ∀ version ∈ s.pending, version.ns = ns ∧ version.name = name
  run : ∀ run, s.run = some run → run.Sound cel ns name

end StatusLoop

variable {operatorPodName ns name : String} {s s' : StatusLoop} {label : StatusLabel}
  {run : StatusRun}

theorem StatusRun.Sound.effect (h : run.Sound cel ns name) {e : PolicyEffect}
    {k : e.Reply → PolicyProg (Except Error Action)} (hnext : run.program = .op e k) {r : e.Reply}
    (hreply : cel.Replies e r) :
    StatusRun.Sound cel ns name
      { run with program := k r, reported := run.reported || e.isReport } := by
  have hwp := h.remaining
  rw [hnext] at hwp
  exact ⟨h.delivered, h.ns_eq, h.name_eq, hwp.2 r _ ⟨hreply, rfl⟩⟩

namespace StatusLoop

theorem afterReply_of_noReport {e : PolicyEffect} (he : e.isReport = false) (r : e.Reply) :
    s.afterReply e r = s := by
  cases e with
  | patchStatus _ _ _ => cases he
  | _ => rfl

/-- **A report of a run.**  It is the first of the run, its version calls for it,
and unless it is refused it makes a new version with the verdict of the run. -/
theorem Sound.report (hs : s.Sound cel ns name) (hrun : s.run = some run) {e : PolicyEffect}
    {k : e.Reply → PolicyProg (Except Error Action)} (hnext : run.program = .op e k)
    (he : e.isReport = true) (r : e.Reply) :
    run.reported = false ∧ run.policy.mustReport (run.verdict cel) = true ∧
      (s.afterReply e r = s ∧ ¬ s.Accepts (.effect e r) ∨ ∃ now, s.afterReply e r
        = s.changed (s.object.patched { conditions := [(run.verdict cel).condition now] })) := by
  obtain ⟨hdelivered, hns, hname, hwp⟩ := hs.run run hrun
  rw [hnext] at hwp
  cases e with
  | patchStatus ns' name' status =>
      obtain ⟨⟨hfirst, hmust, rfl, rfl, now, rfl⟩, -⟩ := hwp
      refine ⟨hfirst, hmust, ?_⟩
      have haddresses : s.Addresses (getPolicyNamespace run.policy) run.policy.nameAny := by
        constructor
        · simp only [getPolicyNamespace, hdelivered.namespace_]
          exact hns.trans hs.object.1.symm
        · simp only [DepodPolicy.nameAny, ObjectMeta.nameAny, hdelivered.name, Option.some_or,
            Option.getD_some]
          exact hname.trans hs.object.2.symm
      rcases r with error | ⟨⟩
      · exact .inl ⟨rfl, Bool.false_ne_true⟩
      · exact .inr ⟨now, if_pos haddresses⟩
  | _ => cases he

/-- A new version of the same object. -/
theorem Sound.changed (hs : s.Sound cel ns name) {object : PolicyObject}
    (hns : object.ns = s.object.ns) (hname : object.name = s.object.name) :
    (s.changed object).Sound cel ns name := by
  have hobject : object.ns = ns ∧ object.name = name :=
    ⟨hns.trans hs.object.1, hname.trans hs.object.2⟩
  refine ⟨hobject, hs.seen, fun version hversion => ?_, hs.run⟩
  rcases List.mem_append.mp hversion with hversion | hversion
  · exact hs.pending version hversion
  · rw [List.mem_singleton.mp hversion]
    exact hobject

theorem Sound.step (h : StatusLoopStep cel operatorPodName s label s')
    (hs : s.Sound cel ns name) : s'.Sound cel ns name := by
  cases h with
  | edit spec => exact hs.changed rfl rfl
  | @deliver skipped versions version hpending =>
      have hmem : ∀ v ∈ version :: versions, v.ns = ns ∧ v.name = name := fun v hv =>
        hs.pending v (hpending ▸ List.mem_append_right skipped hv)
      exact ⟨hs.object, hmem version (List.mem_cons_self ..),
        fun v hv => hmem v (List.mem_cons_of_mem _ hv), hs.run⟩
  | @start policy hqueued hidle hdelivered =>
      refine ⟨hs.object, hs.seen, hs.pending, fun run hrun => ?_⟩
      obtain rfl := Option.some.inj hrun
      have hwp : wp (reportProtocol cel policy (cel.verdictOn policy.spec)) _ _ false :=
        wp_reportProtocol operatorPodName policy
      rw [hdelivered.spec] at hwp
      exact ⟨hdelivered, hs.seen.1, hs.seen.2, hwp⟩
  | @effect run e k r hrun hnext hreply =>
      have hafter : (s.afterReply e r).Sound cel ns name := by
        cases he : e.isReport with
        | false =>
            rw [afterReply_of_noReport he]
            exact hs
        | true =>
            obtain ⟨-, -, ⟨hsame, -⟩ | ⟨now, hchanged⟩⟩ := hs.report hrun hnext he r
            · rw [hsame]
              exact hs
            · rw [hchanged]
              exact hs.changed rfl rfl
      refine ⟨hafter.object, hafter.seen, hafter.pending, fun run' hrun' => ?_⟩
      obtain rfl := Option.some.inj hrun'
      exact (hs.run run hrun).effect hnext hreply
  | finish hrun hdone =>
      refine ⟨hs.object, hs.seen, hs.pending, fun run hnone => ?_⟩
      cases hnone

theorem initial_sound (cel : CelEngine) (object : PolicyObject) :
    (initial object).Sound cel object.ns object.name := by
  refine ⟨⟨rfl, rfl⟩, ⟨rfl, rfl⟩, fun version hversion => ?_, fun run hrun => ?_⟩
  · cases hversion
  · cases hrun

end StatusLoop

/-! ### What is still to be sent -/

namespace PolicyObject

/-- A run on this version reports. -/
def unreported (cel : CelEngine) (object : PolicyObject) : Bool :=
  match object.readStatus with
  | some status => shouldUpdate status (cel.verdictOn object.spec).reported
  | none => false

/-- The patches that this version leads to while the verdict on the latest spec
is `v`: its own, and another one if its own is out of date. -/
def weight (cel : CelEngine) (v : Verdict) (object : PolicyObject) : Nat :=
  if object.unreported cel then if cel.verdictOn object.spec = v then 1 else 2 else 0

variable {object : PolicyObject}

theorem DeliveredAs.unreported_eq (h : object.DeliveredAs policy) :
    object.unreported cel = policy.mustReport (cel.verdictOn object.spec) := by
  rw [unreported, h.status]
  rfl

theorem DeliveredAs.shows (h : object.DeliveredAs policy)
    (hnone : policy.mustReport (cel.verdictOn object.spec) = false) : object.Shows cel := by
  have hread := h.status
  rw [DepodPolicy.mustReport] at hnone
  rcases hstatus : policy.status with - | status
  · rw [hstatus] at hnone
    cases hnone
  · rw [hstatus, shouldUpdate_some, Bool.not_eq_false'] at hnone
    exact ⟨status, hread.trans (congrArg some hstatus), hnone⟩

theorem weight_le_two (cel : CelEngine) (v : Verdict) (object : PolicyObject) :
    object.weight cel v ≤ 2 := by
  unfold weight
  split_ifs <;> decide

theorem sum_weight_le (cel : CelEngine) (v : Verdict) (versions : List PolicyObject) :
    (versions.map (PolicyObject.weight cel v)).sum ≤ 2 * versions.length := by
  induction versions with
  | nil => exact Nat.le_refl 0
  | cons version versions ih =>
      have hle := version.weight_le_two cel v
      rw [List.map_cons, List.sum_cons, List.length_cons]
      omega

/-- After a patch the spec calls for another one only if the patch was out of
date. -/
theorem weight_patched (object : PolicyObject) (w : Verdict) (now : String) :
    (object.patched { conditions := [w.condition now] }).weight cel (cel.verdictOn object.spec)
      = if w = cel.verdictOn object.spec then 0 else 1 := by
  have hspec : (object.patched { conditions := [w.condition now] }).spec = object.spec := rfl
  have hunreported : (object.patched { conditions := [w.condition now] }).unreported cel
      = !((cel.verdictOn object.spec).reported (w.condition now)) := by
    rw [unreported, readStatus_patched, hspec]
    show (!(_ || false)) = _
    rw [Bool.or_false]
  have hreported := Verdict.reported_condition_iff (cel.verdictOn object.spec) w now
  rw [weight, hunreported, hspec, if_pos rfl]
  by_cases hw : w = cel.verdictOn object.spec
  · rw [if_pos hw, hreported.mpr hw]
    rfl
  · rw [if_neg hw, Bool.eq_false_iff.mpr (mt hreported.mp hw)]
    rfl

end PolicyObject

/-- What the run in flight may still send. -/
def runWeight (cel : CelEngine) (v : Verdict) : Option StatusRun → Nat
  | some run => if run.reported then 0 else run.version.weight cel v
  | none => 0

/-- The run in flight sends a status patch. -/
def sendsStatus (_ : StatusLoop) : StatusLabel → Nat
  | .effect e _ => e.isReport.toNat
  | _ => 0

/-- The run returns and asks to come back. -/
def comesBack (_ : StatusLoop) : StatusLabel → Nat
  | .finish result => (requeues result).toNat
  | _ => 0

/-- No edit. -/
def NoEdit (_ : StatusLoop) (label : StatusLabel) : Prop := ∀ spec, label ≠ .edit spec

namespace StatusLoop

/-- The patches that the versions on their way lead to while the verdict on the
latest spec is `v`. -/
def weight (cel : CelEngine) (v : Verdict) (s : StatusLoop) : Nat :=
  (s.pending.map (PolicyObject.weight cel v)).sum
    + (if s.queued then s.seen.weight cel v else 0) + runWeight cel v s.run

def patchesLeft (cel : CelEngine) (s : StatusLoop) : Nat :=
  s.weight cel (cel.verdictOn s.object.spec)

/-- The versions on their way to a report: those that the watch has not
delivered, the one whose run is due, and the one of the run in flight. -/
def onTheWay (s : StatusLoop) : Nat :=
  s.pending.length + s.queued.toNat + s.run.isSome.toNat

theorem patchesLeft_le (cel : CelEngine) (s : StatusLoop) :
    s.patchesLeft cel ≤ 2 * s.onTheWay := by
  let v := cel.verdictOn s.object.spec
  have hpending := PolicyObject.sum_weight_le cel v s.pending
  have hqueued : (if s.queued then s.seen.weight cel v else 0) ≤ 2 * s.queued.toNat := by
    cases s.queued with
    | false => exact Nat.le_refl 0
    | true => exact s.seen.weight_le_two cel v
  have hrun : runWeight cel v s.run ≤ 2 * s.run.isSome.toNat := by
    rcases s.run with - | run
    · exact Nat.le_refl 0
    · show (if run.reported then 0 else run.version.weight cel v) ≤ 2
      split_ifs
      · exact Nat.zero_le 2
      · exact run.version.weight_le_two cel v
  rw [onTheWay]
  show (s.pending.map (PolicyObject.weight cel v)).sum
    + (if s.queued then s.seen.weight cel v else 0) + runWeight cel v s.run ≤ _
  omega

/-- **Every patch uses up what is left.**  The patch of a version whose verdict is
the latest leaves nothing to report; any other leaves one patch to send. -/
theorem patchesLeft_step (h : StatusLoopStep cel operatorPodName s label s')
    (hnoEdit : NoEdit s label) (hs : s.Sound cel ns name) :
    sendsStatus s label + s'.patchesLeft cel ≤ s.patchesLeft cel + 2 * comesBack s label := by
  let v := cel.verdictOn s.object.spec
  have hleft : s.patchesLeft cel = (s.pending.map (PolicyObject.weight cel v)).sum
      + (if s.queued then s.seen.weight cel v else 0) + runWeight cel v s.run := rfl
  rw [hleft]
  cases h with
  | edit spec => exact absurd rfl (hnoEdit spec)
  | @deliver skipped versions version hpending =>
      rw [hpending, List.map_append, List.map_cons, List.sum_append, List.sum_cons]
      show 0 + ((versions.map (PolicyObject.weight cel v)).sum + version.weight cel v
        + runWeight cel v s.run) ≤ _
      omega
  | @start policy hqueued hidle hdelivered =>
      rw [hqueued, hidle, if_pos rfl]
      show 0 + ((s.pending.map (PolicyObject.weight cel v)).sum + 0 + s.seen.weight cel v)
        ≤ _ + _ + 0 + 2 * 0
      omega
  | @effect run e k r hrun hnext hreply =>
      cases he : e.isReport with
      | false =>
          have hnone : sendsStatus s (.effect e r) = 0 := by
            rw [sendsStatus, he]
            rfl
          rw [hnone, afterReply_of_noReport he, Bool.or_false, Nat.zero_add, hrun]
          exact Nat.le_refl _
      | true =>
          obtain ⟨hfirst, hmust, hafter⟩ := hs.report hrun hnext he r
          have hone : sendsStatus s (.effect e r) = 1 := by
            rw [sendsStatus, he]
            rfl
          have hunreported : run.version.unreported cel = true :=
            (hs.run run hrun).delivered.unreported_eq.trans hmust
          have hbefore : runWeight cel v s.run = if run.verdict cel = v then 1 else 2 := by
            rw [hrun, runWeight, hfirst, PolicyObject.weight, hunreported]
            rfl
          rw [hone, hbefore, Bool.or_true]
          rcases hafter with ⟨hsame, -⟩ | ⟨now, hchanged⟩
          · rw [hsame]
            show 1 + ((s.pending.map (PolicyObject.weight cel v)).sum
              + (if s.queued then s.seen.weight cel v else 0) + 0) ≤ _ + _ + _ + 2 * 0
            split_ifs <;> omega
          · rw [hchanged]
            let object := s.object.patched { conditions := [(run.verdict cel).condition now] }
            have hpatched : object.weight cel v = if run.verdict cel = v then 0 else 1 :=
              s.object.weight_patched (run.verdict cel) now
            show 1 + (((s.pending ++ [object]).map (PolicyObject.weight cel v)).sum
              + (if s.queued then s.seen.weight cel v else 0) + 0) ≤ _ + _ + _ + 2 * 0
            rw [List.map_append, List.sum_append, List.map_singleton, List.sum_singleton, hpatched]
            split_ifs <;> omega
  | @finish run result hrun hdone =>
      have hle := s.seen.weight_le_two cel v
      show 0 + ((s.pending.map (PolicyObject.weight cel v)).sum
          + (if s.queued || requeues result then s.seen.weight cel v else 0) + 0)
        ≤ _ + _ + _ + 2 * (requeues result).toNat
      cases s.queued <;> cases requeues result <;> simp <;> omega

/-! ### At rest -/

/-- Nothing is on its way. -/
structure AtRest (s : StatusLoop) : Prop where
  pending : s.pending = []
  queued : s.queued = false
  run : s.run = none

/-- A run on the latest version has not reported yet. -/
def Reporting (s : StatusLoop) : Prop :=
  ∃ run, s.run = some run ∧ run.version = s.object ∧ run.reported = false

/-- The store holds the latest version or one is on its way; and where it holds
the latest version, that is to be reported or shows its verdict. -/
structure Informed (cel : CelEngine) (s : StatusLoop) : Prop where
  latest : (s.seen :: s.pending).getLast? = some s.object
  shows : s.pending = [] → s.queued = true ∨ s.Reporting ∨ s.object.Shows cel

theorem Informed.changed (s : StatusLoop) (object : PolicyObject) :
    (s.changed object).Informed cel := by
  refine ⟨?_, fun hnone => ?_⟩
  · show (s.seen :: (s.pending ++ [object])).getLast? = some object
    rw [← List.cons_append, List.getLast?_concat]
  · exact absurd hnone (by simp [StatusLoop.changed])

theorem Informed.step (h : StatusLoopStep cel operatorPodName s label s')
    (haccepts : s.Accepts label) (hs : s.Sound cel ns name) (hinformed : s.Informed cel) :
    s'.Informed cel := by
  obtain ⟨hlatest, hshows⟩ := hinformed
  cases h with
  | edit spec => exact Informed.changed s _
  | @deliver skipped versions version hpending =>
      refine ⟨?_, fun _ => .inl rfl⟩
      rw [hpending, ← List.cons_append, List.getLast?_append_of_ne_nil _ (List.cons_ne_nil _ _)]
        at hlatest
      exact hlatest
  | @start policy hqueued hidle hdelivered =>
      refine ⟨hlatest, fun hnone => .inr (.inl ⟨_, rfl, ?_, rfl⟩)⟩
      rw [hnone] at hlatest
      exact Option.some.inj hlatest
  | @effect run e k r hrun hnext hreply =>
      cases he : e.isReport with
      | false =>
          rw [afterReply_of_noReport he, Bool.or_false]
          refine ⟨hlatest, fun hnone => ?_⟩
          rcases hshows hnone with hqueued | ⟨run', hrun', hversion, hfirst⟩ | hshown
          · exact .inl hqueued
          · obtain rfl := Option.some.inj (hrun.symm.trans hrun')
            exact .inr (.inl ⟨_, rfl, hversion, hfirst⟩)
          · exact .inr (.inr hshown)
      | true =>
          obtain ⟨-, -, ⟨-, hrefused⟩ | ⟨now, hchanged⟩⟩ := hs.report hrun hnext he r
          · exact absurd haccepts hrefused
          · rw [hchanged]
            let object := s.object.patched { conditions := [(run.verdict cel).condition now] }
            have hinformed' : (s.changed object).Informed cel := .changed s object
            refine ⟨hinformed'.latest, fun hnone => absurd hnone ?_⟩
            simp [StatusLoop.changed]
  | @finish run result hrun hdone =>
      refine ⟨hlatest, fun hnone => ?_⟩
      rcases hshows hnone with hqueued | ⟨run', hrun', hversion, hfirst⟩ | hshown
      · exact .inl (by rw [hqueued, Bool.true_or])
      · -- the run has ended without a report, so none was called for
        obtain rfl := Option.some.inj (hrun.symm.trans hrun')
        have hsound := hs.run run hrun
        have hend := hsound.remaining
        rw [hdone] at hend
        have hmust : run.policy.mustReport (cel.verdictOn run.version.spec) = false :=
          Eq.trans (Eq.symm hend) hfirst
        exact .inr (.inr (hversion ▸ hsound.delivered.shows hmust))
      · exact .inr (.inr hshown)

theorem initial_informed (cel : CelEngine) (object : PolicyObject) :
    (initial object).Informed cel :=
  ⟨rfl, fun _ => .inl rfl⟩

end StatusLoop

/-- **The loop settles, and tells the truth when it does.**  From every state the
loop can reach: without further edits the runs send at most two status patches
for each version on its way, and two more for each run that asks to come back;
and when nothing is on its way and no patch has been refused, the status of the
object shows the verdict on its spec. -/
theorem statusLoop_settles (operatorPodName : String) (object : PolicyObject)
    {π : List (StatusLabel × StatusLoop)}
    (hπ : Execution (StatusLoopStep cel operatorPodName) (.initial object) π) :
    let s := final (.initial object) π
    (∀ π', Execution (StatusLoopStep cel operatorPodName) s π' → StepsMeet NoEdit s π' →
        totalAlong sendsStatus s π' ≤ 2 * s.onTheWay + 2 * totalAlong comesBack s π') ∧
      (StepsMeet StatusLoop.Accepts (.initial object) π → s.AtRest → s.object.Shows cel) := by
  intro s
  have hkeep : ∀ s label s', StatusLoopStep cel operatorPodName s label s' →
      s.Sound cel object.ns object.name → s'.Sound cel object.ns object.name :=
    fun _ _ _ h hs => hs.step h
  have hsound : s.Sound cel object.ns object.name :=
    hπ.invariant hkeep (StatusLoop.initial_sound cel object) s (final_mem_states _ π)
  constructor
  · intro π' hπ' hnoEdit
    have hle : totalAlong sendsStatus s π' + (final s π').patchesLeft cel
        ≤ s.patchesLeft cel + totalAlong (fun s label => 2 * comesBack s label) s π' :=
      hπ'.total_le_of_stepsMeet (StatusLoop.patchesLeft cel) hkeep
        (fun _ _ _ h hok hs => StatusLoop.patchesLeft_step h hok hs) hnoEdit hsound
    have hleft := StatusLoop.patchesLeft_le cel s
    rw [totalAlong_const_mul] at hle
    omega
  · intro haccepts hrest
    have hinformed := hπ.invariant_of_stepsMeet
      (I := fun s => s.Sound cel object.ns object.name ∧ s.Informed cel)
      (fun s label s' h hok hs => ⟨hs.1.step h, hs.2.step h hok hs.1⟩) haccepts
      ⟨StatusLoop.initial_sound cel object, StatusLoop.initial_informed cel object⟩ s
      (final_mem_states _ π)
    rcases hinformed.2.shows hrest.pending with hqueued | ⟨run, hrun, -⟩ | hshown
    · rw [hrest.queued] at hqueued
      cases hqueued
    · rw [hrest.run] at hrun
      cases hrun
    · exact hshown

/-- An invalid policy, reported and then left alone. -/
theorem statusLoop_settles_invalid :
    let cel : CelEngine := ⟨Unit, fun _ => .ok ()⟩
    let object := cleanupObject.edited (ttlPolicy "cleanup" 0).spec
    ∃ π, Execution (StatusLoopStep cel "operator") (.initial object) π ∧
      (final (.initial object) π).AtRest ∧ (final (.initial object) π).object.Shows cel := by
  intro cel object
  let v := cel.verdictOn object.spec
  let now := "2024-01-01T00:00:00.000Z"
  let policy (status : Option DepodPolicyStatus) : DepodPolicy :=
    { metadata := { namespace_ := some object.ns, name := some object.name }, spec := object.spec
      status }
  have hrun : ∃ π, Execution (StatusLoopStep cel "operator") (.initial object) π ∧
      StepsMeet StatusLoop.Accepts (.initial object) π ∧ (final (.initial object) π).AtRest := by
    -- the first run reports, the second finds the report
    have hread : (object.patched { conditions := [v.condition now] }).readStatus
        = some (policy (some { conditions := [v.condition now] })).status :=
      object.readStatus_patched _
    refine ⟨[(.start, _), (.effect .nowText now, _),
        (.effect (.patchStatus "default" "cleanup" { conditions := [v.condition now] })
          (.ok ()), _),
        (.finish (.ok .awaitChange), _), (.deliver, _), (.start, _),
        (.finish (.ok .awaitChange), _)],
      ⟨@StatusLoopStep.start _ _ _ (policy none) rfl rfl ⟨rfl, rfl, rfl, rfl⟩,
        .effect rfl rfl trivial, .effect rfl rfl trivial, .finish rfl rfl,
        @StatusLoopStep.deliver _ _ _ [] _ _ rfl,
        @StatusLoopStep.start _ _ _ (policy (some { conditions := [v.condition now] })) rfl rfl
          ⟨rfl, rfl, rfl, hread⟩,
        .finish rfl rfl, trivial⟩,
      ⟨trivial, trivial, rfl, trivial, trivial, trivial, trivial, trivial⟩, rfl, rfl, rfl⟩
  obtain ⟨π, hπ, haccepts, hrest⟩ := hrun
  exact ⟨π, hπ, hrest, (statusLoop_settles "operator" object hπ).2 haccepts hrest⟩

end KubeDepod
