/-
KubeDepod/Lib/Delimited.lean

Lists of pairs as delimited text: the two parts of a pair are joined by `mid`,
and the pairs by `sep`.

Reading back is splitting twice.  A text that was joined from pairs without
either delimiter in their parts splits into the same pairs
(`splitPairs_joinPairs`); the empty list is the exception, for its text is that
of one empty piece.
-/
import Mathlib.Data.List.Basic

namespace Delimited

variable {α : Type} {sep mid : α}

/-- The text of one pair. -/
def joinPair (mid : α) (pair : List α × List α) : List α := pair.1 ++ mid :: pair.2

/-- The text of a list of pairs. -/
def joinPairs (sep mid : α) (pairs : List (List α × List α)) : List α :=
  [sep].intercalate (pairs.map (joinPair mid))

variable {pair : List α × List α} {pairs : List (List α × List α)}

/-- The text of some pairs is not empty. -/
theorem joinPairs_ne_nil (hpairs : pairs ≠ []) : joinPairs sep mid pairs ≠ [] := by
  obtain ⟨pair, pairs, rfl⟩ := List.exists_cons_of_ne_nil hpairs
  rw [joinPairs, List.map_cons]
  rcases hrest : pairs.map (joinPair mid) with - | ⟨piece, pieces⟩
  · simp [joinPair]
  · simp

/-- An element of a joined text is the delimiter or lies in a piece. -/
theorem mem_intercalate {a : α} {pieces : List (List α)} (h : a ∈ [sep].intercalate pieces) :
    a = sep ∨ ∃ piece ∈ pieces, a ∈ piece := by
  induction pieces with
  | nil => cases h
  | cons piece pieces ih =>
      rcases pieces with - | ⟨piece', pieces⟩
      · rw [List.intercalate_singleton] at h
        exact .inr ⟨piece, List.mem_cons_self .., h⟩
      · rw [List.intercalate_cons_cons, List.append_assoc, List.mem_append] at h
        rcases h with hpiece | hrest
        · exact .inr ⟨piece, List.mem_cons_self .., hpiece⟩
        · rcases List.mem_cons.mp hrest with rfl | hrest
          · exact .inl rfl
          · refine (ih hrest).imp_right ?_
            rintro ⟨piece'', hmem, ha⟩
            exact ⟨piece'', List.mem_cons_of_mem _ hmem, ha⟩

/-! ### Reading back -/

variable [DecidableEq α]

/-- A piece with exactly one `mid` is a pair. -/
def splitPair (mid : α) (piece : List α) : Option (List α × List α) :=
  match piece.splitOn mid with
  | [first, second] => some (first, second)
  | _ => none

/-- The pairs of a text, if all its pieces are pairs. -/
def splitPairs (sep mid : α) (text : List α) : Option (List (List α × List α)) :=
  (text.splitOn sep).mapM (splitPair mid)

/-- Neither part contains a delimiter. -/
structure Free (sep mid : α) (pair : List α × List α) : Prop where
  sep_first : sep ∉ pair.1
  mid_first : mid ∉ pair.1
  sep_second : sep ∉ pair.2
  mid_second : mid ∉ pair.2

theorem splitPair_joinPair (h : Free sep mid pair) :
    splitPair mid (joinPair mid pair) = some pair := by
  rw [splitPair, joinPair, List.splitOn_append_cons_self_of_not_mem h.mid_first,
    List.splitOn_eq_singleton h.mid_second]

theorem mapM_splitPair (h : ∀ pair ∈ pairs, Free sep mid pair) :
    (pairs.map (joinPair mid)).mapM (splitPair mid) = some pairs := by
  induction pairs with
  | nil => rfl
  | cons pair pairs ih =>
      rw [List.map_cons, List.mapM_cons, splitPair_joinPair (h pair (List.mem_cons_self ..)),
        ih fun pair hpair => h pair (List.mem_cons_of_mem _ hpair)]
      rfl

/-- **Splitting undoes joining.** -/
theorem splitPairs_joinPairs (hne : sep ≠ mid) (h : ∀ pair ∈ pairs, Free sep mid pair)
    (hpairs : pairs ≠ []) : splitPairs sep mid (joinPairs sep mid pairs) = some pairs := by
  have hpieces : ∀ piece ∈ pairs.map (joinPair mid), sep ∉ piece := by
    intro piece hpiece hsep
    obtain ⟨pair, hpair, rfl⟩ := List.mem_map.mp hpiece
    rcases List.mem_append.mp hsep with hsep | hsep
    · exact (h pair hpair).sep_first hsep
    · rcases List.mem_cons.mp hsep with hsep | hsep
      · exact hne hsep
      · exact (h pair hpair).sep_second hsep
  rw [splitPairs, joinPairs, List.splitOn_intercalate sep hpieces (by simpa using hpairs)]
  exact mapM_splitPair h

/-- An element of a text is the delimiter or lies in a piece. -/
theorem mem_splitOn (sep : α) {a : α} {text : List α} (h : a ∈ text) :
    a = sep ∨ ∃ piece ∈ text.splitOn sep, a ∈ piece := by
  refine mem_intercalate ?_
  rw [List.intercalate_splitOn]
  exact h

end Delimited
