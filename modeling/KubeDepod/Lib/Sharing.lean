/-
KubeDepod/Lib/Sharing.lean

Any number of parties that make calls on one shared object.

A call is a program over the operations of the object.  Each operation is
atomic; between two operations of a call the other parties may do any number
of theirs, so a call knows nothing of the object but what always holds.  That
is stated as a protocol without a state: which operations a call may perform,
and which replies it must expect.

`Sound` is the invariant that results: if the calls, each on its own, keep to
the protocol, and the object under an invariant `I` does too, then `I` holds
throughout and every call that returns satisfies its postcondition, whatever
the interleaving (`sound_of_execution`).
-/
import KubeDepod.Lib.Execution
import KubeDepod.Lib.Parties
import KubeDepod.Lib.Program

namespace Sharing

open Effects Lts Parties

variable {E : Type} {R : E → Type} {ι κ α σ : Type} [DecidableEq ι]

/-- The object, what is left of each call under way, and the calls that have
returned, with their results. -/
structure Shared (R : E → Type) (ι κ α σ : Type) where
  object : σ
  running : ι → Option (κ × Prog R α)
  returned : List (κ × α)

/-- Nothing has been called yet. -/
def Shared.initial (object : σ) : Shared R ι κ α σ := ⟨object, fun _ => none, []⟩

inductive Label (ι κ : Type) where
  | start (i : ι) (call : κ)
  | effect (i : ι)
  | finish (i : ι)
deriving DecidableEq

/-- One step of one party. -/
def next (h : (e : E) → σ → R e × σ) (body : κ → Prog R α) (s : Shared R ι κ α σ) :
    Label ι κ → Option (Shared R ι κ α σ)
  | .start i call =>
      match s.running i with
      | none => some { s with running := Function.update s.running i (some (call, body call)) }
      | some _ => none
  | .effect i =>
      match s.running i with
      | some (call, .op e k) =>
          let answer := h e s.object
          some
            { s with
              object := answer.2
              running := Function.update s.running i (some (call, k answer.1)) }
      | _ => none
  | .finish i =>
      match s.running i with
      | some (call, .pure a) =>
          some
            { s with
              running := Function.update s.running i none
              returned := s.returned ++ [(call, a)] }
      | _ => none

def Step (h : (e : E) → σ → R e × σ) (body : κ → Prog R α) (s : Shared R ι κ α σ)
    (label : Label ι κ) (s' : Shared R ι κ α σ) : Prop :=
  next h body s label = some s'

section
variable {h : (e : E) → σ → R e × σ} {body : κ → Prog R α} {s s' : Shared R ι κ α σ}
  {label : Label ι κ}

theorem step_cases (hstep : Step h body s label s') :
    (∃ i call, label = .start i call ∧ s.running i = none ∧
        s' = { s with running := Function.update s.running i (some (call, body call)) }) ∨
      (∃ i call e k, label = .effect i ∧ s.running i = some (call, .op e k) ∧
        s' = { s with
          object := (h e s.object).2
          running := Function.update s.running i (some (call, k (h e s.object).1)) }) ∨
      ∃ i call a, label = .finish i ∧ s.running i = some (call, .pure a) ∧
        s' = { s with
          running := Function.update s.running i none
          returned := s.returned ++ [(call, a)] } := by
  cases label with
  | start i call =>
      simp only [Step, next] at hstep
      split at hstep
      case h_1 hi =>
        cases hstep
        exact .inl ⟨i, call, rfl, hi, rfl⟩
      case h_2 => cases hstep
  | effect i =>
      simp only [Step, next] at hstep
      split at hstep
      case h_1 call e k hi =>
        cases hstep
        exact .inr (.inl ⟨i, call, e, k, rfl, hi, rfl⟩)
      case h_2 => cases hstep
  | finish i =>
      simp only [Step, next] at hstep
      split at hstep
      case h_1 call a hi =>
        cases hstep
        exact .inr (.inr ⟨i, call, a, rfl, hi, rfl⟩)
      case h_2 => cases hstep

end

/-! ### The rule -/

/-- Under the invariant the object answers within the protocol, and operations
within the protocol keep the invariant. -/
structure Serves (h : (e : E) → σ → R e × σ) (P : Protocol R Unit) (I : σ → Prop) : Prop where
  replies : ∀ e s, I s → P.reply e () (h e s).1 ()
  keeps : ∀ e s, I s → P.allowed e () → I (h e s).2

/-- The invariant holds, every call under way keeps to the protocol up to its
postcondition, and every returned result satisfies it. -/
structure Sound (P : Protocol R Unit) (I : σ → Prop) (post : κ → α → Prop)
    (s : Shared R ι κ α σ) : Prop where
  object : I s.object
  running : ∀ i x, s.running i = some x → wp P x.2 (fun a _ => post x.1 a) ()
  returned : ∀ x ∈ s.returned, post x.1 x.2

variable {h : (e : E) → σ → R e × σ} {body : κ → Prog R α} {P : Protocol R Unit}
  {I : σ → Prop} {post : κ → α → Prop} {s s' : Shared R ι κ α σ}

theorem Sound.step {label : Label ι κ} (hserves : Serves h P I)
    (hbody : ∀ call, wp P (body call) (fun a _ => post call a) ()) (hs : Sound P I post s)
    (hstep : Step h body s label s') : Sound P I post s' := by
  cases label with
  | start i call =>
      simp only [Step, next] at hstep
      split at hstep
      case h_1 =>
        cases hstep
        refine ⟨hs.object, present_update hs.running ?_, hs.returned⟩
        rintro x ⟨⟩
        exact hbody call
      case h_2 => cases hstep
  | effect i =>
      simp only [Step, next] at hstep
      split at hstep
      case h_1 call e k hi =>
        cases hstep
        -- the reply is one that the call expects
        obtain ⟨hallowed, hcontinue⟩ := hs.running i _ hi
        refine ⟨hserves.keeps e _ hs.object hallowed, present_update hs.running ?_, hs.returned⟩
        rintro x ⟨⟩
        exact hcontinue _ () (hserves.replies e _ hs.object)
      case h_2 => cases hstep
  | finish i =>
      simp only [Step, next] at hstep
      split at hstep
      case h_1 call a hi =>
        cases hstep
        have hpost : post call a := hs.running i _ hi
        refine ⟨hs.object, present_update hs.running nofun, fun x hx => ?_⟩
        rcases List.mem_append.mp hx with hx | hx
        · exact hs.returned x hx
        · rw [List.mem_singleton.mp hx]
          exact hpost
      case h_2 => cases hstep

/-- **Calls that keep to the protocol on their own are sound together.** -/
theorem sound_of_execution (hserves : Serves h P I)
    (hbody : ∀ call, wp P (body call) (fun a _ => post call a) ()) {object : σ}
    (hobject : I object) {π : List (Label ι κ × Shared R ι κ α σ)}
    (hπ : Execution (Step h body) (.initial object) π) :
    ∀ x ∈ states (.initial object) π, Sound P I post x :=
  hπ.invariant (fun _ _ _ hstep hs => hs.step hserves hbody hstep) ⟨hobject, nofun, nofun⟩

end Sharing
