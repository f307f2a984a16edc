/-
KubeDepod/RateLimiter/FirstUse.lean

`RateLimiter::allow_policy` as a sequence of atomic operations, and any number
of calls interleaved at that granularity.

A call looks the bucket of its policy up; if there is none, or one with
another limit, it creates a bucket and inserts it, without looking again.
Calls that all look before the first of them inserts therefore each take their
tokens from a bucket of their own: `first_use_mints_tokens` is such a run.  As
long as no insert replaces a bucket, all calls share one and the limit holds
(`policyGranted_le_of_insertsNew`).

The map's shard lock, which the source holds while it uses a bucket it has
found, is left out; it only rules interleavings out.
-/
import KubeDepod.RateLimiter.Concurrent

namespace KubeDepod

open Lts Parties

/-! ### The map and its buckets -/

/-- An `Arc<TokenBucket>`, named by where it comes from: the map as it was at
the start, or the call that created it. -/
inductive BucketRef (ι : Type) where
  | initial (policyName : String)
  | createdBy (i : ι)
deriving DecidableEq

/-- `policy_limiters`, and the buckets that exist. -/
structure Limiters (ι : Type) where
  map : String → Option (BucketRef ι)
  bucket : BucketRef ι → Option TokenBucket

namespace Limiters

variable {ι : Type} [DecidableEq ι]

/-- The limiter before any of the calls. -/
def initial (l : RateLimiter) : Limiters ι where
  map policyName := (l.policyLimiters policyName).map fun _ => .initial policyName
  bucket
    | .initial policyName => l.policyLimiters policyName
    | .createdBy _ => none

/-- `policy_limiters.get(name)` -/
def get (m : Limiters ι) (policyName : String) : Option (BucketRef ι × TokenBucket) :=
  (m.map policyName).bind fun ref => (m.bucket ref).map fun b => (ref, b)

/-- `policy_limiters.insert(name, bucket)` -/
def insert (m : Limiters ι) (policyName : String) (ref : BucketRef ι) : Limiters ι :=
  { m with map := Function.update m.map policyName (some ref) }

/-- A bucket is created or changes. -/
def setBucket (m : Limiters ι) (ref : BucketRef ι) (b : TokenBucket) : Limiters ι :=
  { m with bucket := Function.update m.bucket ref (some b) }

end Limiters

/-! ### The operations of one call -/

/-- Where a call of `allow_policy` is. -/
inductive AllowPolicyPc (ι : Type) where
  | start
  | create (limit : Nat)
  | insert
  | allow (ref : BucketRef ι) (pc : AllowPc)
  /-- returned true: no limit, or an invalid one -/
  | unlimited
deriving DecidableEq

/-- What the call has returned. -/
def AllowPolicyPc.returned {ι : Type} : AllowPolicyPc ι → Option Bool
  | .allow _ (.done granted) => some granted
  | .unlimited => some true
  | _ => none

theorem AllowPolicyPc.returned_allow {ι : Type} {ref : BucketRef ι} {pc : AllowPc} :
    (AllowPolicyPc.allow ref pc).returned = some true ↔ pc = .done true := by
  cases pc <;> simp [returned]

/-- The atomic operations of a call. -/
inductive AllowPolicyOp where
  /-- the guard on the limit, and `policy_limiters.get()` -/
  | get
  /-- `TokenBucket::new()`, at the given clock reading -/
  | create (now : Nat)
  /-- `policy_limiters.insert()` -/
  | insert
  /-- an operation of `TokenBucket::allow` -/
  | bucket (op : AtomicOp)
deriving DecidableEq

/-- The clock reading an operation takes. -/
def AllowPolicyOp.reading : AllowPolicyOp → Option Nat
  | .create now => some now
  | .bucket (.readClock now) => some now
  | _ => none

section
variable {ι : Type} [DecidableEq ι]

/-- One operation of the call `i`. -/
def allowPolicyStep (i : ι) (policyName : String) (maxPerMinute : Option Int32) :
    AllowPolicyPc ι → Limiters ι → AllowPolicyOp → Option (AllowPolicyPc ι × Limiters ι)
  | .start, m, .get =>
      match maxPerMinute with
      | some limit =>
          if 0 < limit then
            let limit := limit.toNatClampNeg
            match m.get policyName with
            | some (ref, limiter) =>
                -- `max_per_minute` never changes, so this is no operation of its own
                some (if limiter.maxPerMinute ≠ limit then .create limit else .allow ref .start, m)
            | none => some (.create limit, m)
          else
            some (.unlimited, m)
      | none => some (.unlimited, m)
  | .create limit, m, .create now =>
      some (.insert, m.setBucket (.createdBy i) (TokenBucket.new limit now))
  | .insert, m, .insert => some (.allow (.createdBy i) .start, m.insert policyName (.createdBy i))
  | .allow ref pc, m, .bucket op =>
      match m.bucket ref with
      | some b =>
          match allowStep pc b op with
          | some (pc, b) => some (.allow ref pc, m.setBucket ref b)
          | none => none
      | none => none
  | _, _, _ => none

/-! ### Any number of calls -/

/-- The limiter's map and the calls on it. -/
structure PolicyCallers (ι : Type) where
  limiters : Limiters ι
  pc : ι → AllowPolicyPc ι

/-- All calls at their start. -/
def PolicyCallers.initial (l : RateLimiter) : PolicyCallers ι := ⟨.initial l, fun _ => .start⟩

/-- Call `i` performs one operation; `request i` is what it asks. -/
def policyCallersStep (request : ι → String × Option Int32) (s : PolicyCallers ι)
    (label : ι × AllowPolicyOp) : Option (PolicyCallers ι) :=
  match allowPolicyStep label.1 (request label.1).1 (request label.1).2 (s.pc label.1)
      s.limiters label.2 with
  | some (pc, limiters) => some ⟨limiters, Function.update s.pc label.1 pc⟩
  | none => none

def PolicyCallersStep (request : ι → String × Option Int32) (s : PolicyCallers ι)
    (label : ι × AllowPolicyOp) (s' : PolicyCallers ι) : Prop :=
  policyCallersStep request s label = some s'

/-- The calls that have returned true. -/
def policyGranted [Fintype ι] (s : PolicyCallers ι) : Nat :=
  countParties (fun pc : AllowPolicyPc ι => pc.returned = some true) s.pc

/-- Every clock reading of the run lies in `[a, a + 60)`. -/
def PolicyReadsWithin (a : Nat) (_ : PolicyCallers ι) (label : ι × AllowPolicyOp) : Prop :=
  ∀ now ∈ label.2.reading, a ≤ now ∧ now < a + 60

/-- A bucket is inserted only where there is none. -/
def InsertsNew (request : ι → String × Option Int32) (s : PolicyCallers ι)
    (label : ι × AllowPolicyOp) : Prop :=
  label.2 = .insert → s.limiters.map (request label.1).1 = none

instance (request : ι → String × Option Int32) (s : PolicyCallers ι)
    (label : ι × AllowPolicyOp) : Decidable (InsertsNew request s label) :=
  inferInstanceAs (Decidable (label.2 = .insert → s.limiters.map (request label.1).1 = none))

/-! ### What an operation does -/

/-- The operations of a call for a policy with limit `L`. -/
inductive AllowPolicyCase (i : ι) (policyName : String) (L : Nat) (m : Limiters ι) :
    AllowPolicyPc ι → AllowPolicyOp → AllowPolicyPc ι → Limiters ι → Prop
  | found {ref : BucketRef ι} {b : TokenBucket} (hmap : m.map policyName = some ref)
      (hbucket : m.bucket ref = some b) (hlimit : b.maxPerMinute = L) :
      AllowPolicyCase i policyName L m .start .get (.allow ref .start) m
  | missing : AllowPolicyCase i policyName L m .start .get (.create L) m
  | create {limit now : Nat} :
      AllowPolicyCase i policyName L m (.create limit) (.create now) .insert
        (m.setBucket (.createdBy i) (TokenBucket.new limit now))
  | insert :
      AllowPolicyCase i policyName L m .insert .insert (.allow (.createdBy i) .start)
        (m.insert policyName (.createdBy i))
  | bucket {ref : BucketRef ι} {b b' : TokenBucket} {pc pc' : AllowPc} {op : AtomicOp}
      (hbucket : m.bucket ref = some b) (hstep : allowStep pc b op = some (pc', b')) :
      AllowPolicyCase i policyName L m (.allow ref pc) (.bucket op) (.allow ref pc')
        (m.setBucket ref b')

variable {i : ι} {policyName : String} {limit : Int32} {m m' : Limiters ι}
  {pc pc' : AllowPolicyPc ι} {op : AllowPolicyOp}

theorem allowPolicyStep_cases (hlimit : 0 < limit)
    (h : allowPolicyStep i policyName (some limit) pc m op = some (pc', m')) :
    AllowPolicyCase i policyName limit.toNatClampNeg m pc op pc' m' := by
  unfold allowPolicyStep at h
  split at h
  case h_1 =>
    simp only [if_pos hlimit] at h
    split at h
    case h_1 ref b hget =>
      obtain ⟨ref', hmap, hbucket⟩ := Option.bind_eq_some_iff.mp hget
      obtain ⟨b', hbucket, heq⟩ := Option.map_eq_some_iff.mp hbucket
      cases heq
      split_ifs at h with hne
      · cases h
        exact .missing
      · cases h
        exact .found hmap hbucket (not_not.mp hne)
    case h_2 =>
      cases h
      exact .missing
  case h_2 => cases h; exact .create
  case h_3 => cases h; exact .insert
  case h_4 =>
    split at h
    case h_1 b hbucket =>
      split at h
      case h_1 pc b' hstep => cases h; exact .bucket hbucket hstep
      case h_2 => cases h
    case h_2 => cases h
  case h_5 => cases h

theorem policyCallersStep_cases {request : ι → String × Option Int32} {s s' : PolicyCallers ι}
    {label : ι × AllowPolicyOp} (h : PolicyCallersStep request s label s') :
    ∃ pc, allowPolicyStep label.1 (request label.1).1 (request label.1).2 (s.pc label.1)
        s.limiters label.2 = some (pc, s'.limiters) ∧
      s' = ⟨s'.limiters, Function.update s.pc label.1 pc⟩ := by
  unfold PolicyCallersStep policyCallersStep at h
  split at h
  case h_1 pc limiters hstep => cases h; exact ⟨pc, hstep, rfl⟩
  case h_2 => cases h

end

/-! ### Within one window -/

/-- Where a call of `allow` can be while the bucket's window is not over: it
neither resets nor is about to find the window expired. -/
def AllowPc.Current (a : Nat) : AllowPc → Prop
  | .loadReset now => now < a + 60
  | .storeReset _ => False
  | .storeTokens => False
  | _ => True

/-- Within its window a bucket is never refilled: an operation takes a token
exactly if it grants one. -/
theorem allowStep_current {a : Nat} {pc pc' : AllowPc} {b b' : TokenBucket} {op : AtomicOp}
    (h : allowStep pc b op = some (pc', b')) (hreset : a ≤ b.lastReset)
    (hread : ∀ now, op = .readClock now → now < a + 60) (hpc : pc.Current a) :
    pc'.Current a ∧ b'.maxPerMinute = b.maxPerMinute ∧ a ≤ b'.lastReset ∧
      (pc' ≠ .done true ∧ b'.tokens = b.tokens ∨
        pc' = .done true ∧ b'.tokens + 1 = b.tokens) := by
  unfold allowStep at h
  split at h
  case h_1 => cases h; exact ⟨hread _ rfl, rfl, hreset, .inl ⟨nofun, rfl⟩⟩
  case h_2 now =>
    cases h
    have hnow : now < a + 60 := hpc
    rw [if_neg (by omega)]
    exact ⟨trivial, rfl, hreset, .inl ⟨nofun, rfl⟩⟩
  case h_3 => exact hpc.elim
  case h_4 => exact hpc.elim
  case h_5 => cases h; exact ⟨trivial, rfl, hreset, .inl ⟨nofun, rfl⟩⟩
  case h_6 =>
    split_ifs at h with hpos hexchange
    · cases h
      refine ⟨trivial, rfl, hreset, .inr ⟨rfl, ?_⟩⟩
      show b.tokens - 1 + 1 = b.tokens
      omega
    · cases h
      exact ⟨trivial, rfl, hreset, .inl ⟨nofun, rfl⟩⟩
  case h_7 =>
    split_ifs at h
    cases h
    exact ⟨trivial, rfl, hreset, .inl ⟨nofun, rfl⟩⟩
  case h_8 => cases h

/-! ### One bucket for all -/

section
variable {ι : Type} {i : ι} {policyName : String} {m m' : Limiters ι} {pc : AllowPolicyPc ι}

/-- Where a call of `allow_policy` can be if all calls share the bucket in the
map: one that uses a bucket uses that one, and one that has created a bucket
is still to insert it. -/
def AllowPolicyPc.Sharing (policyName : String) (L a : Nat) (m : Limiters ι) (i : ι) :
    AllowPolicyPc ι → Prop
  | .start => m.map policyName ≠ some (.createdBy i)
  | .create limit => limit = L ∧ m.map policyName ≠ some (.createdBy i)
  | .insert => m.map policyName ≠ some (.createdBy i) ∧
      ∃ b, m.bucket (.createdBy i) = some b ∧ b.maxPerMinute = L ∧ a ≤ b.lastReset
  | .allow ref pc => m.map policyName = some ref ∧ pc.Current a
  | .unlimited => False

/-- All calls share one bucket, whose tokens and the grants so far together do
not exceed the limit. -/
structure PolicyCallers.OneBucket [Fintype ι] (policyName : String) (L a : Nat)
    (s : PolicyCallers ι) : Prop where
  sharing : ∀ i, (s.pc i).Sharing policyName L a s.limiters i
  bounded : ∀ ref, s.limiters.map policyName = some ref →
    ∃ b, s.limiters.bucket ref = some b ∧ b.maxPerMinute = L ∧ a ≤ b.lastReset ∧
      policyGranted s + b.tokens ≤ L

/-- The map and the call's own bucket decide. -/
theorem AllowPolicyPc.Sharing.frame {L a : Nat} (h : pc.Sharing policyName L a m i)
    (hmap : m'.map policyName = m.map policyName)
    (hbucket : pc = .insert → m'.bucket (.createdBy i) = m.bucket (.createdBy i)) :
    pc.Sharing policyName L a m' i := by
  cases pc with
  | start => rwa [Sharing, hmap]
  | create limit => rwa [Sharing, hmap]
  | insert => rwa [Sharing, hmap, hbucket rfl]
  | allow ref pc => rwa [Sharing, hmap]
  | unlimited => exact h

/-- Before the first insert no call has returned. -/
theorem AllowPolicyPc.Sharing.returned_ne {L a : Nat} (h : pc.Sharing policyName L a m i)
    (hnone : m.map policyName = none) : pc.returned ≠ some true := by
  cases pc with
  | start => nofun
  | create limit => nofun
  | insert => nofun
  | allow ref pc =>
      rw [Sharing, hnone] at h
      cases h.1
  | unlimited => exact h.elim

/-- Nobody else has come as far as using a bucket before the first insert. -/
theorem AllowPolicyPc.Sharing.inserted {L a : Nat} {j : ι} (h : pc.Sharing policyName L a m j)
    (hnone : m.map policyName = none) (hj : j ≠ i) :
    pc.Sharing policyName L a (m.insert policyName (.createdBy i)) j := by
  have hne : (m.insert policyName (.createdBy i)).map policyName ≠ some (.createdBy j) := by
    rw [show (m.insert policyName (.createdBy i)).map policyName = some (.createdBy i) from
      Function.update_self ..]
    exact fun heq => hj (BucketRef.createdBy.inj (Option.some.inj heq)).symm
  cases pc with
  | start => exact hne
  | create limit => exact ⟨h.1, hne⟩
  | insert => exact ⟨hne, h.2⟩
  | allow ref pc =>
      rw [Sharing, hnone] at h
      cases h.1
  | unlimited => exact h.elim

/-- It is enough to follow the call that moves and to frame the others. -/
theorem sharing_update [DecidableEq ι] {L a : Nat} {pcs : ι → AllowPolicyPc ι}
    (hself : pc.Sharing policyName L a m' i)
    (hothers : ∀ j, j ≠ i → (pcs j).Sharing policyName L a m' j) (j : ι) :
    (Function.update pcs i pc j).Sharing policyName L a m' j := by
  by_cases hj : j = i
  · subst hj
    rwa [Function.update_self]
  · rw [Function.update_of_ne hj]
    exact hothers j hj

/-- No call has begun, and the policy has no bucket. -/
theorem initial_oneBucket [Fintype ι] {l : RateLimiter}
    (habsent : l.policyLimiters policyName = none) (L a : Nat) :
    (PolicyCallers.initial l : PolicyCallers ι).OneBucket policyName L a := by
  have hnone : (Limiters.initial l : Limiters ι).map policyName = none :=
    congrArg (Option.map fun _ => BucketRef.initial policyName) habsent
  constructor
  · intro i
    show (Limiters.initial l : Limiters ι).map policyName ≠ some (.createdBy i)
    rw [hnone]
    nofun
  · intro ref href
    rw [PolicyCallers.initial, hnone] at href
    cases href

end

section
variable {ι : Type} [DecidableEq ι] [Fintype ι] {a : Nat} {s : PolicyCallers ι} {i : ι}
  {policyName : String} {limit : Int32} {m' : Limiters ι} {pc' : AllowPolicyPc ι}
  {op : AllowPolicyOp}

/-- A call that has not returned true and does not do so now leaves the count. -/
theorem policyGranted_update (hpc : (s.pc i).returned ≠ some true)
    (hpc' : pc'.returned ≠ some true) :
    policyGranted (⟨m', Function.update s.pc i pc'⟩ : PolicyCallers ι) = policyGranted s :=
  countParties_update_of_not (P := fun pc : AllowPolicyPc ι => pc.returned = some true) hpc hpc'

/-- A call that returns true adds one. -/
theorem policyGranted_update_succ (hpc : (s.pc i).returned ≠ some true)
    (hpc' : pc'.returned = some true) :
    policyGranted (⟨m', Function.update s.pc i pc'⟩ : PolicyCallers ι) = policyGranted s + 1 :=
  countParties_update_of_pos (P := fun pc : AllowPolicyPc ι => pc.returned = some true) hpc hpc'

/-- A call finds the bucket in the map, or is about to create one. -/
theorem PolicyCallers.OneBucket.looked {L : Nat} (hs : s.OneBucket policyName L a)
    (hbefore : (s.pc i).returned ≠ some true) (hafter : pc'.returned ≠ some true)
    (hself : pc'.Sharing policyName L a s.limiters i) :
    (⟨s.limiters, Function.update s.pc i pc'⟩ : PolicyCallers ι).OneBucket policyName L a := by
  refine ⟨sharing_update hself fun j _ => hs.sharing j, fun ref href => ?_⟩
  rw [policyGranted_update hbefore hafter]
  exact hs.bounded ref href

/-- A call creates a bucket, which is not in the map yet. -/
theorem PolicyCallers.OneBucket.created {L now : Nat} (hs : s.OneBucket policyName L a)
    (hpc : s.pc i = .create L) (hnow : a ≤ now) :
    (⟨s.limiters.setBucket (.createdBy i) (TokenBucket.new L now),
      Function.update s.pc i .insert⟩ : PolicyCallers ι).OneBucket policyName L a := by
  have howner := hs.sharing i
  rw [hpc] at howner
  obtain ⟨-, howner⟩ := howner
  refine ⟨sharing_update ⟨howner, _, Function.update_self .., rfl, hnow⟩ fun j hj => ?_, ?_⟩
  · refine (hs.sharing j).frame rfl fun _ => Function.update_of_ne ?_ ..
    exact fun heq => hj (BucketRef.createdBy.inj heq)
  · intro ref href
    obtain ⟨b, hb, hrest⟩ := hs.bounded ref href
    have hne : ref ≠ .createdBy i := by
      rintro rfl
      exact howner href
    rw [policyGranted_update (by simp [hpc, AllowPolicyPc.returned]) (by nofun)]
    exact ⟨b, (Function.update_of_ne hne ..).trans hb, hrest⟩

/-- The first insert: from now on this is the bucket of all calls. -/
theorem PolicyCallers.OneBucket.inserted {L : Nat} (hs : s.OneBucket policyName L a)
    (hpc : s.pc i = .insert) (hnone : s.limiters.map policyName = none) :
    (⟨s.limiters.insert policyName (.createdBy i),
      Function.update s.pc i (.allow (.createdBy i) .start)⟩ : PolicyCallers ι).OneBucket
        policyName L a := by
  have hi := hs.sharing i
  rw [hpc] at hi
  obtain ⟨-, b, hb, hmax, hreset⟩ := hi
  have hself : (s.limiters.insert policyName (.createdBy i)).map policyName
      = some (.createdBy i) := Function.update_self ..
  refine ⟨sharing_update ⟨hself, trivial⟩ fun j hj => (hs.sharing j).inserted hnone hj, ?_⟩
  intro ref href
  obtain rfl := Option.some.inj (hself.symm.trans href)
  refine ⟨b, hb, hmax, hreset, ?_⟩
  have hzero : policyGranted s = 0 :=
    countParties_eq_zero fun j => (hs.sharing j).returned_ne hnone
  rw [policyGranted_update (by simp [hpc, AllowPolicyPc.returned]) (by nofun), hzero,
    Nat.zero_add, ← hmax]
  exact b.tokens_le

/-- An operation on the bucket of all calls. -/
theorem PolicyCallers.OneBucket.used {L : Nat} {ref : BucketRef ι} {b b' : TokenBucket}
    {apc apc' : AllowPc} {op : AtomicOp} (hs : s.OneBucket policyName L a)
    (hpc : s.pc i = .allow ref apc) (hbucket : s.limiters.bucket ref = some b)
    (hstep : allowStep apc b op = some (apc', b'))
    (hread : ∀ now, op = .readClock now → now < a + 60) :
    (⟨s.limiters.setBucket ref b', Function.update s.pc i (.allow ref apc')⟩ :
      PolicyCallers ι).OneBucket policyName L a := by
  have hi := hs.sharing i
  rw [hpc] at hi
  obtain ⟨hmap, hcurrent⟩ := hi
  -- the call uses the bucket of all calls
  obtain ⟨b₀, hb₀, hmax, hreset, hsum⟩ := hs.bounded ref hmap
  obtain rfl := Option.some.inj (hb₀.symm.trans hbucket)
  have hbefore : apc ≠ .done true := (allowStep_cases hstep).1
  obtain ⟨hcurrent', hmax', hreset', htokens⟩ := allowStep_current hstep hreset hread hcurrent
  refine ⟨sharing_update ⟨hmap, hcurrent'⟩ fun j hj => ?_, fun ref' href' => ?_⟩
  · -- a bucket still to be inserted is not the one in use
    have hold := hs.sharing j
    refine hold.frame rfl fun hinsert => Function.update_of_ne ?_ ..
    rintro rfl
    rw [hinsert] at hold
    exact hold.1 hmap
  · obtain rfl := Option.some.inj (hmap.symm.trans href')
    refine ⟨b', Function.update_self .., hmax'.trans hmax, hreset', ?_⟩
    have hreturned : (s.pc i).returned ≠ some true := by
      rwa [hpc, Ne, AllowPolicyPc.returned_allow]
    rcases htokens with ⟨hafter, htokens⟩ | ⟨hafter, htokens⟩
    · rw [policyGranted_update hreturned (by rwa [Ne, AllowPolicyPc.returned_allow])]
      omega
    · rw [policyGranted_update_succ hreturned (AllowPolicyPc.returned_allow.mpr hafter)]
      omega

/-- **One operation keeps the calls on one bucket**, if it inserts a bucket
only where there is none. -/
theorem PolicyCallers.OneBucket.step
    (hs : s.OneBucket policyName limit.toNatClampNeg a)
    (h : AllowPolicyCase i policyName limit.toNatClampNeg s.limiters (s.pc i) op pc' m')
    (hread : ∀ now ∈ op.reading, a ≤ now ∧ now < a + 60)
    (hnew : op = .insert → s.limiters.map policyName = none) :
    (⟨m', Function.update s.pc i pc'⟩ : PolicyCallers ι).OneBucket policyName
      limit.toNatClampNeg a := by
  have hi := hs.sharing i
  generalize hpc : s.pc i = pc at h hi
  cases h with
  | found hmap hbucket hmax =>
      exact hs.looked (by simp [hpc, AllowPolicyPc.returned]) (by nofun) ⟨hmap, trivial⟩
  | missing => exact hs.looked (by simp [hpc, AllowPolicyPc.returned]) (by nofun) ⟨rfl, hi⟩
  | @create limit' now =>
      obtain ⟨rfl, -⟩ := hi
      exact hs.created hpc (hread now rfl).1
  | insert => exact hs.inserted hpc (hnew rfl)
  | bucket hbucket hstep =>
      exact hs.used hpc hbucket hstep (by rintro now rfl; exact (hread now rfl).2)

end

/-! ### The limit at first use -/

/-- Both calls look the bucket up before either inserts one. -/
def doubleFirstUse : List (Bool × AllowPolicyOp) :=
  [(true, .get), (false, .get),
    (true, .create 60), (true, .insert), (true, .bucket (.readClock 60)),
    (true, .bucket .loadReset), (true, .bucket .loadTokens),
    (true, .bucket (.compareExchange false)),
    (false, .create 60), (false, .insert), (false, .bucket (.readClock 60)),
    (false, .bucket .loadReset), (false, .bucket .loadTokens),
    (false, .bucket (.compareExchange false))]

/-- A limit of one, a policy without a bucket, and two grants. -/
theorem first_use_mints_tokens :
    ¬ ∀ (limit : Int32), 0 < limit → ∀ (policyName : String) (ι : Type) [Fintype ι]
      [DecidableEq ι] (l : RateLimiter), l.policyLimiters policyName = none →
      ∀ (a : Nat) (π : List ((ι × AllowPolicyOp) × PolicyCallers ι)),
        Execution (PolicyCallersStep fun _ => (policyName, some limit)) (.initial l) π →
        StepsMeet (PolicyReadsWithin a) (.initial l) π →
        policyGranted (final (.initial l) π) ≤ limit.toNatClampNeg := by
  intro h
  have hfollow : ∃ π, follow (policyCallersStep fun _ => ("cleanup", some 1))
      (.initial (.new 20 0) : PolicyCallers Bool) doubleFirstUse = some π ∧
      policyGranted (final (.initial (.new 20 0)) π) = 2 := by
    refine ⟨_, rfl, ?_⟩
    decide
  obtain ⟨π, hπ, hgranted⟩ := hfollow
  obtain ⟨hexec, hlabels⟩ := execution_of_follow hπ
  have hclock : StepsMeet (PolicyReadsWithin 60) (.initial (.new 20 0)) π := by
    refine stepsMeet_of_labels fun label hlabel => ?_
    rw [hlabels] at hlabel
    revert label
    simp [doubleFirstUse, AllowPolicyOp.reading]
  have := h 1 (by decide) "cleanup" Bool (.new 20 0) rfl 60 π hexec hclock
  rw [hgranted] at this
  exact absurd this (by decide)

/-- **The limit holds while no bucket is replaced.**  In every interleaving of
any number of first calls for a policy, with all clock readings in one window,
in which a bucket is inserted only where there is none, at most the limit of
the calls have returned true at any point. -/
theorem policyGranted_le_of_insertsNew {ι : Type} [Fintype ι] [DecidableEq ι] {limit : Int32}
    (hlimit : 0 < limit) {policyName : String} {l : RateLimiter}
    (habsent : l.policyLimiters policyName = none) {a : Nat}
    {π : List ((ι × AllowPolicyOp) × PolicyCallers ι)}
    (hπ : Execution (PolicyCallersStep fun _ => (policyName, some limit)) (.initial l) π)
    (hread : StepsMeet (PolicyReadsWithin a) (.initial l) π)
    (hnew : StepsMeet (InsertsNew fun _ => (policyName, some limit)) (.initial l) π) :
    ∀ s ∈ states (.initial l) π, policyGranted s ≤ limit.toNatClampNeg := by
  have hinv := hπ.invariant_of_stepsMeet
    (I := PolicyCallers.OneBucket policyName limit.toNatClampNeg a)
    (fun s label s' hstep hok hs => by
      obtain ⟨pc, hcall, heq⟩ := policyCallersStep_cases hstep
      rw [heq]
      exact hs.step (allowPolicyStep_cases hlimit hcall) hok.1 hok.2)
    (hread.and hnew) (initial_oneBucket habsent _ a)
  intro s hs
  have hone := hinv s hs
  rcases hmap : s.limiters.map policyName with - | ref
  · -- no bucket yet, so no call has used one
    have hzero : policyGranted s = 0 :=
      countParties_eq_zero fun j => (hone.sharing j).returned_ne hmap
    omega
  · obtain ⟨b, -, -, -, hsum⟩ := hone.bounded ref hmap
    omega

/-- The second call looks after the first has inserted its bucket. -/
def orderlyFirstUse : List (Bool × AllowPolicyOp) :=
  [(true, .get), (true, .create 60), (true, .insert), (false, .get),
    (true, .bucket (.readClock 60)), (false, .bucket (.readClock 61)),
    (true, .bucket .loadReset), (true, .bucket .loadTokens),
    (true, .bucket (.compareExchange false)),
    (false, .bucket .loadReset), (false, .bucket .loadTokens), (false, .bucket .leaveLoop)]

theorem policyGranted_le_of_insertsNew_orderly :
    ∃ π, follow (policyCallersStep fun _ => ("cleanup", some 1))
        (.initial (.new 20 0) : PolicyCallers Bool) orderlyFirstUse = some π ∧
      ∀ s ∈ states (.initial (.new 20 0)) π, policyGranted s ≤ (1 : Int32).toNatClampNeg := by
  have hrun : ∃ π, follow (policyCallersStep fun _ => ("cleanup", some 1))
      (.initial (.new 20 0) : PolicyCallers Bool) orderlyFirstUse = some π ∧
      StepsMeet (InsertsNew fun _ => ("cleanup", some 1)) (.initial (.new 20 0)) π :=
    ⟨_, rfl, by decide⟩
  obtain ⟨π, hπ, hnew⟩ := hrun
  obtain ⟨hexec, hlabels⟩ := execution_of_follow hπ
  have hread : StepsMeet (PolicyReadsWithin 60) (.initial (.new 20 0)) π := by
    refine stepsMeet_of_labels fun label hlabel => ?_
    rw [hlabels] at hlabel
    revert label
    simp [orderlyFirstUse, AllowPolicyOp.reading]
  exact ⟨π, hπ, policyGranted_le_of_insertsNew (by decide) rfl hexec hread hnew⟩

end KubeDepod
