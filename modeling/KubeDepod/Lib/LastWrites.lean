/-
KubeDepod/Lib/LastWrites.lean

A list with one entry for each key, in the order of their last writes.

Writing an entry removes the one of the same key and appends the new one.
After a sequence `ws` of writes an entry is in the list exactly if no later
write had its key, and the entries stand in the order in which they were last
written (`Tracks`); one more write keeps this (`Tracks.write`).
-/
import Mathlib.Data.List.Basic

namespace LastWrites

variable {α κ : Type*} (key : α → κ)

/-- An entry replaces the one of its key and goes to the end. -/
def write [DecidableEq κ] (entries : List α) (a : α) : List α :=
  entries.filter (fun x => key x != key a) ++ [a]

/-- No write after that of `a` had the key of `a`. -/
def IsLast (ws : List α) (a : α) : Prop :=
  ∃ before after, ws = before ++ a :: after ∧ ∀ x ∈ after, key x ≠ key a

/-- The last write of the key of `a` comes before that of the key of `b`. -/
def LastBefore (ws : List α) (a b : α) : Prop :=
  ∃ before between after, ws = before ++ a :: between ++ b :: after ∧
    (∀ x ∈ between ++ b :: after, key x ≠ key a) ∧ ∀ x ∈ after, key x ≠ key b

/-- The entries are the last writes, in their order. -/
structure Tracks (ws entries : List α) : Prop where
  mem_iff : ∀ a, a ∈ entries ↔ IsLast key ws a
  ordered : entries.Pairwise (LastBefore key ws)

variable {key} {ws entries : List α} {a b : α}

/-! ### One more write -/

theorem mem_write [DecidableEq κ] : b ∈ write key entries a ↔ b = a ∨ b ∈ entries ∧ key b ≠ key a := by
  simp only [write, List.mem_append, List.mem_filter, bne_iff_ne, List.mem_singleton, or_comm]

theorem filter_eq_nil [DecidableEq κ] :
    entries.filter (fun x => key x != key a) = [] ↔ ∀ x ∈ entries, key x = key a := by
  simp only [List.filter_eq_nil_iff, bne_iff_ne, not_not]

/-- A write leaves one entry exactly if it replaces all there are. -/
theorem length_write_le_one [DecidableEq κ] :
    (write key entries a).length ≤ 1 ↔ ∀ x ∈ entries, key x = key a := by
  rw [← filter_eq_nil, ← List.length_eq_zero_iff, write, List.length_append,
    List.length_singleton]
  omega

theorem write_eq_singleton [DecidableEq κ] (h : ∀ x ∈ entries, key x = key a) :
    write key entries a = [a] := by
  rw [write, filter_eq_nil.mpr h, List.nil_append]

theorem isLast_concat : IsLast key (ws ++ [a]) b ↔ b = a ∨ IsLast key ws b ∧ key b ≠ key a := by
  constructor
  · rintro ⟨before, after, hws, hafter⟩
    rcases after.eq_nil_or_concat with rfl | ⟨after, c, rfl⟩
    · -- the new write itself
      exact .inl (List.singleton_inj.mp (List.append_inj' hws rfl).2.symm)
    · rw [List.concat_eq_append, ← List.cons_append, ← List.append_assoc] at hws
      obtain ⟨hinit, hlast⟩ := List.append_inj' hws rfl
      obtain rfl : a = c := List.singleton_inj.mp hlast
      refine .inr ⟨⟨before, after, hinit, fun x hx => hafter x ?_⟩, Ne.symm (hafter a ?_)⟩
      · simp [hx]
      · simp
  · rintro (rfl | ⟨⟨before, after, rfl, hafter⟩, hne⟩)
    · exact ⟨ws, [], rfl, nofun⟩
    · refine ⟨before, after ++ [a], by simp, fun x hx => ?_⟩
      rcases List.mem_append.mp hx with hx | hx
      · exact hafter x hx
      · rw [List.mem_singleton.mp hx]
        exact Ne.symm hne

/-- Two entries that both stay keep their order. -/
theorem LastBefore.concat {c : α} (h : LastBefore key ws a b) (ha : key a ≠ key c)
    (hb : key b ≠ key c) : LastBefore key (ws ++ [c]) a b := by
  obtain ⟨before, between, after, rfl, hbetween, hafter⟩ := h
  refine ⟨before, between, after ++ [c], by simp, fun x hx => ?_, fun x hx => ?_⟩
  · rw [← List.cons_append, ← List.append_assoc] at hx
    rcases List.mem_append.mp hx with hx | hx
    · exact hbetween x hx
    · rw [List.mem_singleton.mp hx]
      exact Ne.symm ha
  · rcases List.mem_append.mp hx with hx | hx
    · exact hafter x hx
    · rw [List.mem_singleton.mp hx]
      exact Ne.symm hb

/-- An entry that stays comes before the new one. -/
theorem IsLast.lastBefore_concat (h : IsLast key ws a) (hne : key a ≠ key b) :
    LastBefore key (ws ++ [b]) a b := by
  obtain ⟨before, after, rfl, hafter⟩ := h
  refine ⟨before, after, [], rfl, fun x hx => ?_, nofun⟩
  rcases List.mem_append.mp hx with hx | hx
  · exact hafter x hx
  · rw [List.mem_singleton.mp hx]
    exact Ne.symm hne

/-! ### The list and the writes -/

theorem tracks_nil : Tracks key [] [] where
  mem_iff a := by
    refine iff_of_false List.not_mem_nil ?_
    rintro ⟨before, after, hws, -⟩
    simp at hws
  ordered := .nil

/-- **A write keeps the list in step with the writes.** -/
theorem Tracks.write [DecidableEq κ] (h : Tracks key ws entries) (a : α) :
    Tracks key (ws ++ [a]) (LastWrites.write key entries a) where
  mem_iff b := by rw [mem_write, isLast_concat, h.mem_iff]
  ordered := by
    refine List.pairwise_append.mpr ⟨?_, List.pairwise_singleton _ _, ?_⟩
    · -- the entries that stay
      refine List.Pairwise.imp_of_mem ?_ (h.ordered.filter _)
      intro b c hb hc hbefore
      have hb := (List.mem_filter.mp hb).2
      have hc := (List.mem_filter.mp hc).2
      exact hbefore.concat (bne_iff_ne.mp hb) (bne_iff_ne.mp hc)
    · intro b hb c hc
      obtain ⟨hmem, hne⟩ := List.mem_filter.mp hb
      rw [List.mem_singleton.mp hc]
      exact ((h.mem_iff b).mp hmem).lastBefore_concat (bne_iff_ne.mp hne)

theorem Tracks.foldl_write [DecidableEq κ] (h : Tracks key ws entries) (as : List α) :
    Tracks key (ws ++ as) (as.foldl (LastWrites.write key) entries) := by
  induction as generalizing ws entries with
  | nil =>
      rw [List.append_nil]
      exact h
  | cons a as ih =>
      have hrest := ih (h.write a)
      rw [List.append_assoc] at hrest
      exact hrest

/-- No two entries have the same key. -/
theorem Tracks.keys_ne (h : Tracks key ws entries) :
    entries.Pairwise fun a b => key a ≠ key b := by
  refine h.ordered.imp ?_
  rintro a b ⟨before, between, after, -, hbetween, -⟩
  exact Ne.symm (hbetween b (by simp))

end LastWrites
