/-
KubeDepod/RateLimiter/Window.lean

The token bucket is a fixed-window counter, whatever the clock does.

A bucket with limit `N` and the counter of the same window agree when the
tokens left and the grants made add up to `N` (`TokenBucket.Counts`).  One
call keeps this and gives the reply of the counter (`allow_counts`), so the
bound of the counter holds of the bucket (`allow_refines_window`).  The clock
readings are arbitrary: `saturating_sub` reads a clock that went back as a
window that is not over.
-/
import KubeDepod.Lib.FixedWindow
import KubeDepod.RateLimiter

namespace KubeDepod

namespace TokenBucket

/-- The counter describes the bucket: the same window, and every token gone
from the bucket is a grant. -/
structure Counts (limit : Nat) (b : TokenBucket) (c : FixedWindow) : Prop where
  limit_eq : b.maxPerMinute = limit
  window : b.lastReset = c.start
  tokens : b.tokens + c.count = limit

variable {limit now : Nat} {b : TokenBucket} {c : FixedWindow}

/-- Both begin the next window at the same reading. -/
theorem Counts.roll (h : Counts limit b c) (now : Nat) :
    Counts limit (b.ready now) (c.roll 60 now) := by
  by_cases hover : c.start + 60 ≤ now
  · have helapsed : 60 ≤ now - b.lastReset := by
      rw [h.window]
      omega
    rw [ready, if_pos helapsed, FixedWindow.roll_of_over hover]
    exact ⟨h.limit_eq, rfl, h.limit_eq⟩
  · have helapsed : ¬ 60 ≤ now - b.lastReset := by
      rw [h.window]
      omega
    rw [ready, if_neg helapsed, FixedWindow.roll_of_current (Nat.not_le.mp hover)]
    exact h

/-- A token is taken exactly if the window is not full. -/
theorem Counts.consume (h : Counts limit b c) :
    b.consume.1 = (c.grant limit).1 ∧ Counts limit b.consume.2 (c.grant limit).2 := by
  obtain ⟨hlimit, hwindow, htokens⟩ := h
  unfold TokenBucket.consume FixedWindow.grant
  by_cases htoken : 0 < b.tokens
  · have hfree : c.count < limit := by omega
    rw [if_pos htoken, if_pos hfree]
    refine ⟨rfl, hlimit, hwindow, ?_⟩
    show b.tokens - 1 + (c.count + 1) = limit
    omega
  · have hfull : ¬ c.count < limit := by omega
    rw [if_neg htoken, if_neg hfull]
    exact ⟨rfl, hlimit, hwindow, htokens⟩

/-- **One call of the bucket is one request of the counter.** -/
theorem allow_counts (h : Counts limit b c) (now : Nat) :
    (b.allow now).1 = (c.request limit 60 now).1 ∧
      Counts limit (b.allow now).2 (c.request limit 60 now).2 := by
  rw [allow_eq_ready_consume]
  exact (h.roll now).consume

/-- The same replies, call by call. -/
theorem replies_counts (h : Counts limit b c) (clocks : List Nat) :
    b.replies clocks = c.replies limit 60 clocks := by
  induction clocks generalizing b c with
  | nil => rfl
  | cons now clocks ih =>
      obtain ⟨hreply, hnext⟩ := allow_counts h now
      rw [TokenBucket.replies, FixedWindow.replies, hreply, ih hnext]

theorem counts_new (limit now : Nat) : Counts limit (new limit now) ⟨now, 0⟩ := ⟨rfl, rfl, rfl⟩

/-- **The bucket refines the fixed-window counter.**  For every bucket size,
creation time and sequence of clock readings, in any order: the replies are
those of the counter whose window starts at the creation, and up to any
reading `last` they grant no more than the limit for each window that fits. -/
theorem allow_refines_window (limit t₀ : Nat) (clocks : List Nat) :
    (new limit t₀).replies clocks = FixedWindow.replies limit 60 ⟨t₀, 0⟩ clocks ∧
      ∀ last, t₀ ≤ last → (∀ now ∈ clocks, now ≤ last) →
        ((new limit t₀).replies clocks).countP Prod.snd ≤ limit * (1 + (last - t₀) / 60) := by
  have hreplies := replies_counts (counts_new limit t₀) clocks
  refine ⟨hreplies, fun last _ hlast => ?_⟩
  rw [hreplies]
  exact FixedWindow.granted_add_count_le (c := ⟨t₀, 0⟩) (by decide) (Nat.zero_le _) hlast

end TokenBucket

end KubeDepod
