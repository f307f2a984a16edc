/-
KubeDepod/Lib/Parties.lean

The parties of a concurrent system.  The local states of the parties are a
function `f : ι → L`; a step of one party is `Function.update f i l`.

If parties come and go, `f i` is `none` while party `i` is absent, and
`present_update` says that a step keeps what holds of all who are present.
`countParties P f` is the number of parties whose local state satisfies `P`,
and the lemmas say how one step changes it; `sum_update_add` says the same of
a sum over the parties.
-/
import Mathlib.Algebra.BigOperators.Group.Finset.Piecewise
import Mathlib.Data.Fintype.Card
import Mathlib.Data.Finset.Filter

namespace Parties

variable {ι L : Type*} [DecidableEq ι]

/-! ### Parties that come and go -/

/-- What holds of every party that is present holds after one of them has
changed, come or gone, if it holds of that one. -/
theorem present_update {f : ι → Option L} {Q : ι → L → Prop} {i : ι} {x : Option L}
    (hf : ∀ j l, f j = some l → Q j l) (hx : ∀ l, x = some l → Q i l) :
    ∀ j l, Function.update f i x j = some l → Q j l := by
  intro j l hj
  by_cases hji : j = i
  · subst hji
    rw [Function.update_self] at hj
    exact hx l hj
  · rw [Function.update_of_ne hji] at hj
    exact hf j l hj

/-! ### Counting -/

variable [Fintype ι]

/-- The number of parties whose local state satisfies `P`. -/
def countParties (P : L → Prop) [DecidablePred P] (f : ι → L) : Nat :=
  (Finset.univ.filter fun i => P (f i)).card

variable {P : L → Prop} [DecidablePred P] {f : ι → L} {i : ι} {l : L}

omit [DecidableEq ι] in
theorem countParties_eq_zero (h : ∀ i, ¬ P (f i)) : countParties P f = 0 := by
  rw [countParties, Finset.card_eq_zero]
  ext j
  simp [h j]

omit [DecidableEq ι] in
theorem countParties_le_card (P : L → Prop) [DecidablePred P] (f : ι → L) :
    countParties P f ≤ Fintype.card ι :=
  Finset.card_filter_le _ _

omit [DecidableEq ι] in
theorem countParties_eq_card (h : ∀ i, P (f i)) : countParties P f = Fintype.card ι := by
  rw [countParties, Finset.filter_true_of_mem fun i _ => h i, Finset.card_univ]

/-- A step between two local states outside `P` leaves the count. -/
theorem countParties_update_of_not (hi : ¬ P (f i)) (hl : ¬ P l) :
    countParties P (Function.update f i l) = countParties P f := by
  unfold countParties
  congr 1
  ext j
  by_cases hj : j = i
  · subst hj
    simp [hi, hl]
  · simp [hj]

/-- A step into `P` adds one. -/
theorem countParties_update_of_pos (hi : ¬ P (f i)) (hl : P l) :
    countParties P (Function.update f i l) = countParties P f + 1 := by
  unfold countParties
  have hnew : (Finset.univ.filter fun j => P (Function.update f i l j))
      = insert i (Finset.univ.filter fun j => P (f j)) := by
    ext j
    by_cases hj : j = i
    · subst hj
      simp [hl]
    · simp [hj]
  rw [hnew, Finset.card_insert_of_notMem (by simp [hi])]

/-! ### Sums -/

/-- A step of party `i` changes a sum by what it changes for `i`. -/
theorem sum_update_add (g : L → Nat) (f : ι → L) (i : ι) (l : L) :
    (∑ j, g (Function.update f i l j)) + g (f i) = (∑ j, g (f j)) + g l := by
  have hcomp : ∀ j, g (Function.update f i l j)
      = Function.update (fun j => g (f j)) i (g l) j := by
    intro j
    exact Function.apply_update (fun _ => g) f i l j
  rw [Finset.sum_congr rfl fun j _ => hcomp j,
    Finset.sum_update_of_mem (Finset.mem_univ i),
    ← Finset.add_sum_erase Finset.univ (fun j => g (f j)) (Finset.mem_univ i),
    Finset.sdiff_singleton_eq_erase]
  omega

end Parties
