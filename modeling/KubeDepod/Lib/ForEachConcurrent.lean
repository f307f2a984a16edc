/-
KubeDepod/Lib/ForEachConcurrent.lean

The items of a stream, each handled by a task of its own with one request, and
at most `limit` tasks at a time; a limit of zero is no limit.  Nothing here
depends on what the items are.

A task is pulled out of the stream when there is room for it, sends its
request, and is over with the answer; the tasks in flight go on in any order.
No request is lost or sent twice (`unsent_step`), the limit is kept
(`inFlight_step`), every step is one towards the end (`work_step`), and there is
a step as long as a task is left (`exists_step`).

The requests come out in an order that depends on the run.  `Reordered` relates
two records that differ in the order of neighbours that commute.
-/
import Mathlib.Data.List.Perm.Basic
import Mathlib.Tactic.SplitIfs

namespace ForEachConcurrent

variable {α : Type*}

/-- The items still in the stream, and those whose tasks are in flight, before
and after their requests. -/
structure Tasks (α : Type*) where
  waiting : List α
  pulled : List α
  sent : List α

/-- The next item is pulled; a task in flight sends its request; the request is
answered. -/
inductive Label where
  | pull
  | send (n : Nat)
  | answer (n : Nat)
deriving DecidableEq

namespace Tasks

/-- All items are in the stream. -/
def ofStream (items : List α) : Tasks α := ⟨items, [], []⟩

def inFlight (t : Tasks α) : Nat := t.pulled.length + t.sent.length

def hasRoom (limit : Nat) (t : Tasks α) : Bool := limit == 0 || t.inFlight < limit

/-- Nothing is left to do. -/
def isOver (t : Tasks α) : Bool := t.waiting.isEmpty && t.pulled.isEmpty && t.sent.isEmpty

def step (limit : Nat) (t : Tasks α) : Label → Option (Tasks α)
  | .pull =>
      match t.waiting with
      | item :: items =>
          if t.hasRoom limit then some ⟨items, t.pulled ++ [item], t.sent⟩ else none
      | [] => none
  | .send n =>
      match t.pulled[n]? with
      | some item => some ⟨t.waiting, t.pulled.eraseIdx n, t.sent ++ [item]⟩
      | none => none
  | .answer n =>
      if n < t.sent.length then some ⟨t.waiting, t.pulled, t.sent.eraseIdx n⟩ else none

/-- The item whose request is sent with the step. -/
def sends (t : Tasks α) : Label → List α
  | .send n => t.pulled[n]?.toList
  | _ => []

/-- The items whose requests are still to be sent. -/
def unsent (t : Tasks α) : List α := t.waiting ++ t.pulled

/-- The steps that are left. -/
def work (t : Tasks α) : Nat := 3 * t.waiting.length + 2 * t.pulled.length + t.sent.length

variable {limit : Nat} {t t' : Tasks α} {label : Label}

/-- What a step can do. -/
inductive Case (limit : Nat) : Tasks α → Label → Tasks α → Prop
  | pull {item : α} {items pulled sent : List α}
      (hroom : (Tasks.mk (item :: items) pulled sent).hasRoom limit = true) :
      Case limit ⟨item :: items, pulled, sent⟩ .pull ⟨items, pulled ++ [item], sent⟩
  | send {item : α} {waiting pulled sent : List α} {n : Nat} (hitem : pulled[n]? = some item) :
      Case limit ⟨waiting, pulled, sent⟩ (.send n) ⟨waiting, pulled.eraseIdx n, sent ++ [item]⟩
  | answer {waiting pulled sent : List α} {n : Nat} (hn : n < sent.length) :
      Case limit ⟨waiting, pulled, sent⟩ (.answer n) ⟨waiting, pulled, sent.eraseIdx n⟩

theorem step_cases (h : t.step limit label = some t') : Case limit t label t' := by
  obtain ⟨waiting, pulled, sent⟩ := t
  cases label with
  | pull =>
      cases waiting with
      | nil => cases h
      | cons item items =>
          rw [step] at h
          split_ifs at h with hroom
          cases h
          exact .pull hroom
  | send n =>
      rw [step] at h
      split at h
      case h_1 item hitem => cases h; exact .send hitem
      case h_2 => cases h
  | answer n =>
      rw [step] at h
      split_ifs at h with hn
      cases h
      exact .answer hn

/-- Taking one item out of a list. -/
theorem cons_eraseIdx_perm {items : List α} {n : Nat} {item : α} (h : items[n]? = some item) :
    (item :: items.eraseIdx n).Perm items := by
  obtain ⟨hn, rfl⟩ := List.getElem?_eq_some_iff.mp h
  exact List.getElem_cons_eraseIdx_perm hn

/-- **Every request is sent once**: what a step sends leaves the unsent ones. -/
theorem unsent_step (h : t.step limit label = some t') :
    (t.sends label ++ t'.unsent).Perm t.unsent := by
  cases step_cases h with
  | @pull item items pulled sent hroom =>
      show (items ++ (pulled ++ [item])).Perm (item :: (items ++ pulled))
      rw [← List.append_assoc]
      exact List.perm_append_singleton item (items ++ pulled)
  | @send item waiting pulled sent n hitem =>
      show (pulled[n]?.toList ++ (waiting ++ pulled.eraseIdx n)).Perm (waiting ++ pulled)
      rw [hitem]
      show (item :: (waiting ++ pulled.eraseIdx n)).Perm (waiting ++ pulled)
      exact List.perm_middle.symm.trans ((cons_eraseIdx_perm hitem).append_left waiting)
  | answer hn => exact List.Perm.refl _

/-- **The limit is kept.** -/
theorem inFlight_step (hlimit : limit ≠ 0) (h : t.step limit label = some t')
    (ht : t.inFlight ≤ limit) : t'.inFlight ≤ limit := by
  cases step_cases h with
  | @pull item items pulled sent hroom =>
      rw [hasRoom, beq_eq_false_iff_ne.mpr hlimit, Bool.false_or, decide_eq_true_iff] at hroom
      simp only [inFlight, List.length_append, List.length_singleton] at hroom ⊢
      omega
  | @send item waiting pulled sent n hitem =>
      obtain ⟨hn, -⟩ := List.getElem?_eq_some_iff.mp hitem
      simp only [inFlight, List.length_eraseIdx_of_lt hn, List.length_append,
        List.length_singleton] at ht ⊢
      omega
  | @answer waiting pulled sent n hn =>
      simp only [inFlight, List.length_eraseIdx_of_lt hn] at ht ⊢
      omega

/-- **Every step is one towards the end.** -/
theorem work_step (h : t.step limit label = some t') : t'.work + 1 = t.work := by
  cases step_cases h with
  | pull hroom =>
      simp only [work, List.length_append, List.length_cons, List.length_nil]
      omega
  | send hitem =>
      obtain ⟨hn, -⟩ := List.getElem?_eq_some_iff.mp hitem
      simp only [work, List.length_eraseIdx_of_lt hn, List.length_append, List.length_singleton]
      omega
  | answer hn =>
      simp only [work, List.length_eraseIdx_of_lt hn]
      omega

theorem work_ofStream (items : List α) : (ofStream items).work = 3 * items.length := rfl

/-- What is over has sent all requests. -/
theorem unsent_of_isOver (h : t.isOver = true) : t.unsent = [] := by
  simp only [isOver, Bool.and_eq_true, List.isEmpty_iff] at h
  rw [unsent, h.1.1, h.1.2, List.append_nil]

/-- **The tasks never get stuck.** -/
theorem exists_step (limit : Nat) (h : t.isOver = false) :
    ∃ label t', t.step limit label = some t' := by
  obtain ⟨waiting, pulled, sent⟩ := t
  cases sent with
  | cons item sent =>
      have hn : 0 < (item :: sent).length := Nat.succ_pos _
      have hstep : (Tasks.mk waiting pulled (item :: sent)).step limit (.answer 0)
          = some ⟨waiting, pulled, sent⟩ := by rw [step, if_pos hn]; rfl
      exact ⟨_, _, hstep⟩
  | nil =>
      cases pulled with
      | cons item pulled => exact ⟨.send 0, _, rfl⟩
      | nil =>
          cases waiting with
          | nil => cases h
          | cons item items =>
              -- nothing is in flight, so there is room
              have hroom : (Tasks.mk (item :: items) [] []).hasRoom limit = true := by
                rw [hasRoom, Bool.or_eq_true, beq_iff_eq, decide_eq_true_iff]
                exact Nat.eq_zero_or_pos limit
              exact ⟨.pull, _, if_pos hroom⟩

end Tasks

/-! ### Records up to order -/

/-- The records differ in the order of neighbours that commute. -/
inductive Reordered (commutes : α → α → Prop) : List α → List α → Prop
  | nil : Reordered commutes [] []
  | cons (a : α) {log log' : List α} (h : Reordered commutes log log') :
      Reordered commutes (a :: log) (a :: log')
  | swap {a b : α} (hab : commutes a b) (log : List α) :
      Reordered commutes (a :: b :: log) (b :: a :: log)
  | trans {log₁ log₂ log₃ : List α} (h : Reordered commutes log₁ log₂)
      (h' : Reordered commutes log₂ log₃) : Reordered commutes log₁ log₃

namespace Reordered

variable {commutes : α → α → Prop} {log log' : List α}

protected theorem refl : (log : List α) → Reordered commutes log log
  | [] => .nil
  | a :: log => .cons a (Reordered.refl log)

theorem append_left (h : Reordered commutes log log') :
    (before : List α) → Reordered commutes (before ++ log) (before ++ log')
  | [] => h
  | a :: before => .cons a (h.append_left before)

theorem append_right (h : Reordered commutes log log') (after : List α) :
    Reordered commutes (log ++ after) (log' ++ after) := by
  induction h with
  | nil => exact .refl after
  | cons a h ih => exact .cons a ih
  | swap hab log => exact .swap hab (log ++ after)
  | trans h h' ih ih' => exact ih.trans ih'

/-- Where all commute, any order will do. -/
theorem of_perm {β : Type*} {f : β → α} (hf : ∀ b b', commutes (f b) (f b'))
    {items items' : List β} (h : items.Perm items') :
    Reordered commutes (items.map f) (items'.map f) := by
  induction h with
  | nil => exact .nil
  | cons b h ih => exact .cons (f b) ih
  | swap b b' items => exact .swap (hf b' b) (items.map f)
  | trans h h' ih ih' => exact ih.trans ih'

end Reordered

end ForEachConcurrent
