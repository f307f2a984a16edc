/-
KubeDepod/Lib/FixedWindow.lean

The fixed-window counter, for a limit and a window length.

The counter keeps the start of its window and the grants made in it.  A
request that comes `period` or more after the start begins the next window at
its own reading; then it is granted while fewer than `limit` grants have been
made.  The readings need not be in order: one that lies before the start of
the window belongs to the window.

`granted_add_count_le` is the bound over runs of any length: the windows of a
run start at least `period` apart, so up to reading `last` there are at most
`1 + (last - start) / period` of them.

A counter that is polled at a fixed gap grants the first polls of each of its
windows (`AtPoll.request`).  Two of them, polled together, both grant some poll
if their limits together exceed the polls of a window (`exists_both_grant`), and
otherwise perhaps never (`never_both_grant`).
-/
import Mathlib.Data.Bool.Basic
import Mathlib.Data.List.Count
import Mathlib.Tactic.SplitIfs

/-- A counter: where its window starts, and the grants made in the window. -/
structure FixedWindow where
  start : Nat
  count : Nat
deriving DecidableEq

namespace FixedWindow

/-- Begin the next window at `now` if the current one is over. -/
def roll (period : Nat) (c : FixedWindow) (now : Nat) : FixedWindow :=
  if c.start + period ≤ now then ⟨now, 0⟩ else c

/-- Grant and count, if the window is not full. -/
def grant (limit : Nat) (c : FixedWindow) : Bool × FixedWindow :=
  if c.count < limit then (true, { c with count := c.count + 1 }) else (false, c)

/-- One request at reading `now`. -/
def request (limit period : Nat) (c : FixedWindow) (now : Nat) : Bool × FixedWindow :=
  (c.roll period now).grant limit

/-- The replies to requests with the given readings, each with its reading. -/
def replies (limit period : Nat) : FixedWindow → List Nat → List (Nat × Bool)
  | _, [] => []
  | c, now :: readings =>
      (now, (c.request limit period now).1) ::
        replies limit period (c.request limit period now).2 readings

/-- The grants among the replies. -/
def granted (replies : List (Nat × Bool)) : Nat := replies.countP Prod.snd

@[simp] theorem granted_nil : granted [] = 0 := rfl

@[simp] theorem granted_cons (now : Nat) (reply : Bool) (replies : List (Nat × Bool)) :
    granted ((now, reply) :: replies) = granted replies + reply.toNat := by
  cases reply <;> simp [granted]

variable {limit period : Nat} {c : FixedWindow} {now last : Nat}

theorem roll_of_over (h : c.start + period ≤ now) : c.roll period now = ⟨now, 0⟩ := if_pos h

theorem roll_of_current (h : now < c.start + period) : c.roll period now = c :=
  if_neg (Nat.not_le.mpr h)

/-- A grant is counted, and made while the count is below the limit. -/
theorem grant_spec (limit : Nat) (c : FixedWindow) :
    (c.grant limit).2.start = c.start ∧
      (c.grant limit).2.count = c.count + (c.grant limit).1.toNat ∧
      ((c.grant limit).1 = true ↔ c.count < limit) := by
  unfold grant
  split_ifs with h
  · exact ⟨rfl, rfl, iff_of_true rfl h⟩
  · exact ⟨rfl, rfl, iff_of_false nofun h⟩

/-- The windows that can still be begun up to reading `last`, the current one
included. -/
def windowsUpTo (period last : Nat) (c : FixedWindow) : Nat := 1 + (last - c.start) / period

/-- Beginning a window uses one up. -/
theorem windowsUpTo_roll_of_over (hperiod : 0 < period) (hover : c.start + period ≤ now)
    (hlast : now ≤ last) :
    windowsUpTo period last (c.roll period now) + 1 ≤ windowsUpTo period last c := by
  have hsub : (last - now) / period + 1 ≤ (last - c.start) / period := by
    rw [← Nat.add_div_right _ hperiod]
    exact Nat.div_le_div_right (by omega)
  rw [roll_of_over hover]
  show 1 + (last - now) / period + 1 ≤ 1 + (last - c.start) / period
  omega

/-- **The bound over a run.**  The grants, together with those already made in
the window, fit into the windows up to the last reading. -/
theorem granted_add_count_le (hperiod : 0 < period) {readings : List Nat}
    (hcount : c.count ≤ limit) (hlast : ∀ now ∈ readings, now ≤ last) :
    granted (c.replies limit period readings) + c.count
      ≤ limit * windowsUpTo period last c := by
  induction readings generalizing c with
  | nil =>
      have hone : limit * 1 ≤ limit * windowsUpTo period last c :=
        Nat.mul_le_mul_left limit (Nat.le_add_right 1 _)
      rw [replies, granted_nil]
      omega
  | cons now readings ih =>
      obtain ⟨hstart, hcounted, hgranted⟩ := (c.roll period now).grant_spec limit
      have hnow : now ≤ last := hlast now (List.mem_cons_self ..)
      have hrest : ∀ now ∈ readings, now ≤ last := fun x hx =>
        hlast x (List.mem_cons_of_mem _ hx)
      -- whichever window the request falls in, the count stays within the limit
      have hfits : ((c.roll period now).grant limit).2.count ≤ limit := by
        have hroll : (c.roll period now).count ≤ limit := by
          rw [roll]
          split_ifs
          · exact Nat.zero_le _
          · exact hcount
        rcases hreply : ((c.roll period now).grant limit).1 with - | -
        · rw [hcounted, hreply, Bool.toNat_false]
          exact hroll
        · rw [hcounted, hreply, Bool.toNat_true]
          exact hgranted.mp hreply
      have ih := ih hfits hrest
      have hwindows : windowsUpTo period last ((c.roll period now).grant limit).2
          = windowsUpTo period last (c.roll period now) := by
        rw [windowsUpTo, hstart, windowsUpTo]
      rw [hcounted, hwindows] at ih
      rw [replies, granted_cons, request]
      by_cases hover : c.start + period ≤ now
      · -- the request begins a window, so one less is left for the rest
        have hless := Nat.mul_le_mul_left limit (windowsUpTo_roll_of_over hperiod hover hnow)
        rw [Nat.mul_add, Nat.mul_one] at hless
        omega
      · rw [roll_of_current (Nat.not_le.mp hover)] at ih ⊢
        omega

/-! ### Two limits -/

/-- The counter `c` has made the grants of `c'` as far as its own limit goes. -/
structure Capped (limit : Nat) (c c' : FixedWindow) : Prop where
  start : c.start = c'.start
  count : c.count = min c'.count limit

variable {limit' : Nat} {c' : FixedWindow}

/-- Both begin the next window at the same reading. -/
theorem Capped.roll (h : Capped limit c c') (period now : Nat) :
    Capped limit (c.roll period now) (c'.roll period now) := by
  by_cases hover : c'.start + period ≤ now
  · rw [roll_of_over hover, roll_of_over (by rw [h.start]; exact hover)]
    exact ⟨rfl, (Nat.zero_min limit).symm⟩
  · have hcurrent : now < c'.start + period := Nat.not_le.mp hover
    rw [roll_of_current hcurrent, roll_of_current (by rw [h.start]; exact hcurrent)]
    exact h

/-- What the smaller limit grants, the larger grants too. -/
theorem Capped.grant (h : Capped limit c c') (hlimit : limit ≤ limit') :
    ((c.grant limit).1 = true → (c'.grant limit').1 = true) ∧
      Capped limit (c.grant limit).2 (c'.grant limit').2 := by
  obtain ⟨hstart, hcounted, hgranted⟩ := c.grant_spec limit
  obtain ⟨hstart', hcounted', hgranted'⟩ := c'.grant_spec limit'
  have hcount := h.count
  refine ⟨fun hreply => hgranted'.mpr ?_, by rw [hstart, hstart', h.start], ?_⟩
  · have hfree := hgranted.mp hreply
    omega
  · rw [hcounted, hcounted']
    by_cases hfree : c.count < limit
    · -- below the smaller limit both grant
      have hfree' : c'.count < limit' := by omega
      rw [hgranted.mpr hfree, hgranted'.mpr hfree', Bool.toNat_true]
      omega
    · -- from there on only the larger limit may
      have hfull : (c.grant limit).1 = false := by
        rw [← Bool.not_eq_true, hgranted]
        exact hfree
      rw [hfull, Bool.toNat_false]
      omega

/-- **A smaller limit grants no more**, over any readings. -/
theorem Capped.granted_le (h : Capped limit c c') (hlimit : limit ≤ limit') (period : Nat)
    (readings : List Nat) :
    granted (c.replies limit period readings) ≤ granted (c'.replies limit' period readings) := by
  induction readings generalizing c c' with
  | nil => exact Nat.le_refl _
  | cons now readings ih =>
      obtain ⟨hreply, hnext⟩ := (h.roll period now).grant hlimit
      have hrest := ih hnext
      have hle : ((c.roll period now).grant limit).1.toNat
          ≤ ((c'.roll period now).grant limit').1.toNat := Bool.toNat_le_toNat hreply
      rw [replies, replies, granted_cons, granted_cons, request, request]
      omega

theorem capped_self (limit start : Nat) : Capped limit ⟨start, 0⟩ ⟨start, 0⟩ :=
  ⟨rfl, (Nat.zero_min limit).symm⟩

/-! ### Polls at a fixed gap -/

/-- Polled every `gap`, `w` times in a window, the counter is at its poll number
`p`: it has granted as many of the earlier ones as its limit goes, or its window
is over. -/
def AtPoll (limit gap w : Nat) (c : FixedWindow) (now p : Nat) : Prop :=
  p < w ∧ (c.start + p * gap = now ∧ c.count = min limit p ∨ p = 0 ∧ c.start + w * gap ≤ now)

variable {gap w p q n : Nat}

/-- The polls of a window are granted up to the limit, and the last one is
followed by the first of the next window. -/
theorem AtPoll.request (hgap : 0 < gap) (h : AtPoll limit gap w c now p) :
    ((c.request limit (w * gap) now).1 = true ↔ p < limit) ∧
      AtPoll limit gap w (c.request limit (w * gap) now).2 (now + gap) ((p + 1) % w) := by
  obtain ⟨hp, hat⟩ := h
  -- the counter that grants, whichever window the poll falls in
  have hrolled : (c.roll (w * gap) now).start + p * gap = now ∧
      (c.roll (w * gap) now).count = min limit p := by
    rcases hat with ⟨hstart, hcount⟩ | ⟨rfl, hover⟩
    · have hwindow : p * gap < w * gap := Nat.mul_lt_mul_of_pos_right hp hgap
      rw [roll_of_current (by omega)]
      exact ⟨hstart, hcount⟩
    · rw [roll_of_over hover]
      exact ⟨by rw [Nat.zero_mul, Nat.add_zero], (Nat.min_zero limit).symm⟩
  obtain ⟨hstart, hcount⟩ := hrolled
  obtain ⟨hstart', hcounted, hgranted⟩ := (c.roll (w * gap) now).grant_spec limit
  have hreply : ((c.roll (w * gap) now).grant limit).1 = true ↔ p < limit := by
    rw [hgranted, hcount]
    omega
  refine ⟨hreply, Nat.mod_lt _ (by omega), ?_⟩
  have hnext : (p + 1) * gap = p * gap + gap := Nat.succ_mul p gap
  rw [FixedWindow.request, hstart']
  by_cases hlast : p + 1 = w
  · right
    rw [hlast, Nat.mod_self]
    rw [hlast] at hnext
    exact ⟨rfl, by omega⟩
  · left
    rw [Nat.mod_eq_of_lt (by omega), hcounted, hcount]
    refine ⟨by omega, ?_⟩
    by_cases hfree : p < limit
    · rw [hreply.mpr hfree, Bool.toNat_true]
      omega
    · rw [Bool.eq_false_iff.mpr (mt hreply.mp hfree), Bool.toNat_false]
      omega

/-- The counter is at a poll of its window, or its window is over after `n`
polls at most. -/
def Settles (limit gap w : Nat) (c : FixedWindow) (now n : Nat) : Prop :=
  (∃ p, AtPoll limit gap w c now p) ∨ c.start + w * gap ≤ now + n * gap

theorem Settles.atPoll (hw : 0 < w) (h : Settles limit gap w c now 0) :
    ∃ p, AtPoll limit gap w c now p := by
  rcases h with h | hover
  · exact h
  · rw [Nat.zero_mul, Nat.add_zero] at hover
    exact ⟨0, hw, .inr ⟨rfl, hover⟩⟩

theorem Settles.request (hgap : 0 < gap) (hw : 0 < w) (h : Settles limit gap w c now (n + 1)) :
    Settles limit gap w (c.request limit (w * gap) now).2 (now + gap) n := by
  rcases h with ⟨p, hp⟩ | hdue
  · exact .inl ⟨_, (hp.request hgap).2⟩
  · by_cases hover : c.start + w * gap ≤ now
    · have hfirst : AtPoll limit gap w c now 0 := ⟨hw, .inr ⟨rfl, hover⟩⟩
      exact .inl ⟨_, (hfirst.request hgap).2⟩
    · right
      have hstart := ((c.roll (w * gap) now).grant_spec limit).1
      rw [roll_of_current (Nat.not_le.mp hover)] at hstart
      rw [FixedWindow.request, roll_of_current (Nat.not_le.mp hover), hstart]
      have hmul : (n + 1) * gap = n * gap + gap := Nat.succ_mul n gap
      omega

/-- A window that has begun is over after `w` polls. -/
theorem settles_of_le (h : c.start ≤ now) (limit gap w : Nat) :
    Settles limit gap w c now w :=
  .inr (Nat.add_le_add_right h _)

/-- Two counters polled together both grant within one window, if there are not
polls enough to keep their grants apart. -/
theorem exists_both_grant {limit limit' : Nat} (hlimit : 0 < limit) (hlimit' : 0 < limit')
    (hmeet : w < limit + limit') (hp : p < w) (hq : q < w) :
    ∃ k < w, (p + k) % w < limit ∧ (q + k) % w < limit' := by
  -- `k` polls later a counter is at the first poll of its window
  have hfirst : ∀ r < w, (r + (w - r) % w) % w = 0 := by
    intro r hr
    rw [Nat.add_mod_mod, Nat.add_sub_cancel' (Nat.le_of_lt hr), Nat.mod_self]
  -- and the other is as many polls into its own as the two are apart
  have hother : ∀ r < w, ∀ s < w, r ≤ s →
      (s + (w - r) % w) % w = s - r ∧ (r + (w - s) % w) % w = (w - (s - r)) % w := by
    intro r hr s hs hle
    rw [Nat.add_mod_mod, Nat.add_mod_mod]
    have hleft : s + (w - r) = s - r + w := by omega
    have hright : r + (w - s) = w - (s - r) := by omega
    rw [hleft, hright, Nat.add_mod_right, Nat.mod_eq_of_lt (by omega)]
    exact ⟨rfl, rfl⟩
  have hw : 0 < w := by omega
  rcases Nat.le_total q p with hle | hle
  · obtain ⟨hahead, hbehind⟩ := hother q hq p hp hle
    by_cases hnear : p - q < limit
    · exact ⟨_, Nat.mod_lt (w - q) hw, by rw [hahead]; exact hnear,
        by rw [hfirst q hq]; exact hlimit'⟩
    · refine ⟨_, Nat.mod_lt (w - p) hw, by rw [hfirst p hp]; exact hlimit, ?_⟩
      rw [hbehind, Nat.mod_eq_of_lt (by omega)]
      omega
  · obtain ⟨hahead, hbehind⟩ := hother p hp q hq hle
    by_cases hnear : q - p < limit'
    · exact ⟨_, Nat.mod_lt (w - p) hw, by rw [hfirst p hp]; exact hlimit,
        by rw [hahead]; exact hnear⟩
    · refine ⟨_, Nat.mod_lt (w - q) hw, ?_, by rw [hfirst q hq]; exact hlimit'⟩
      rw [hbehind, Nat.mod_eq_of_lt (by omega)]
      omega

/-- Otherwise the grants of one can come right after those of the other, and no
poll is granted by both. -/
theorem never_both_grant {limit limit' : Nat} (happart : limit + limit' ≤ w) (k : Nat) :
    ¬ ((limit + k) % w < limit ∧ (0 + k) % w < limit') := by
  rintro ⟨hfirst, hsecond⟩
  rw [Nat.zero_add] at hsecond
  rw [← Nat.add_mod_mod, Nat.mod_eq_of_lt (by omega)] at hfirst
  omega

end FixedWindow
