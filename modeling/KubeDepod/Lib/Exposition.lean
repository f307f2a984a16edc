/-
KubeDepod/Lib/Exposition.lean

The text format in which counters are exposed, as far as it concerns counters
without labels: a page of lines, each of words with one space between them.  For
each counter there is a help text, a declaration and a sample; blank lines mean
nothing.

What is written can be read back (`read_page`), provided that the names are names
and no word contains a space or ends its line.
-/
import KubeDepod.Lib.Delimited

namespace Exposition

inductive Line where
  | blank
  /-- `# HELP name words` -/
  | help (name : List Char) (words : List (List Char))
  /-- `# TYPE name counter` -/
  | counter (name : List Char)
  /-- `name {} value` -/
  | sample (name : List Char) (value : Nat)
deriving DecidableEq

/-! ### Writing -/

namespace Line

def words : Line → List (List Char)
  | .blank => [[]]
  | .help name words => ['#'] :: "HELP".toList :: name :: words
  | .counter name => [['#'], "TYPE".toList, name, "counter".toList]
  | .sample name value => [name, ['\x7b', '\x7d'], Nat.toDigits 10 value]

def text (line : Line) : List Char := [' '].intercalate line.words

end Line

/-- Every line ends with a newline. -/
def page : List Line → List Char
  | [] => []
  | line :: lines => line.text ++ '\n' :: page lines

theorem page_append (lines lines' : List Line) :
    page (lines ++ lines') = page lines ++ page lines' := by
  induction lines with
  | nil => rfl
  | cons line lines ih => rw [List.cons_append, page, page, ih, List.append_assoc, List.cons_append]

/-- Groups of lines with blank lines between them. -/
theorem page_intercalate (groups : List (List Line)) :
    page ([.blank].intercalate groups) = ['\n'].intercalate (groups.map page) := by
  induction groups with
  | nil => rfl
  | cons group groups ih =>
      rcases groups with - | ⟨group', groups⟩
      · simp
      · rw [List.intercalate_cons_cons, page_append, page_append, ih]
        simp only [List.map_cons, List.intercalate_cons_cons]
        rfl

/-! ### Reading -/

/-- The words after `#`. -/
def readComment : List (List Char) → Option Line
  | keyword :: name :: words =>
      if keyword = "HELP".toList then some (.help name words)
      else if keyword = "TYPE".toList ∧ words = ["counter".toList] then some (.counter name)
      else none
  | _ => none

/-- The words after the name of a sample. -/
def readSample (name : List Char) : List (List Char) → Option Line
  | [labels, value] =>
      if labels = ['\x7b', '\x7d'] ∧ value ≠ [] ∧ value.all Char.isDigit = true then
        some (.sample name (Nat.ofDigitChars 10 value 0))
      else
        none
  | _ => none

def readWords : List (List Char) → Option Line
  | [[]] => some .blank
  | first :: words => if first = ['#'] then readComment words else readSample first words
  | [] => none

def readLine (line : List Char) : Option Line := readWords (line.splitOn ' ')

/-- What is left after the last newline is not a line, and must be empty. -/
def readLines : List (List Char) → Option (List Line)
  | [] => none
  | [rest] => if rest.isEmpty then some [] else none
  | line :: lines =>
      match readLine line, readLines lines with
      | some line, some lines => some (line :: lines)
      | _, _ => none

def read (text : List Char) : Option (List Line) := readLines (text.splitOn '\n')

/-! ### Reading back -/

/-- Letters, digits, underscores and colons. -/
def isNameChar (c : Char) : Bool := c.isAlphanum || c == '_' || c == ':'

structure IsName (name : List Char) : Prop where
  ne_nil : name ≠ []
  all : name.all isNameChar = true

namespace IsName

variable {name : List Char}

theorem not_mem (h : IsName name) {c : Char} (hc : isNameChar c = false) : c ∉ name := by
  intro hmem
  have hname := List.all_eq_true.mp h.all c hmem
  rw [hc] at hname
  cases hname

theorem ne_hash (h : IsName name) : name ≠ ['#'] := by
  rintro rfl
  exact h.not_mem (c := '#') (by decide) (List.mem_singleton_self _)

end IsName

/-- The characters that end a word. -/
def endsWord (c : Char) : Bool := c == ' ' || c == '\n'

def IsWord (word : List Char) : Prop := word.any endsWord = false

instance : DecidablePred IsWord := fun word =>
  inferInstanceAs (Decidable (word.any endsWord = false))

theorem IsWord.not_mem {word : List Char} (h : IsWord word) {c : Char} (hc : endsWord c = true) :
    c ∉ word := fun hmem => List.any_eq_false.mp h c hmem hc

/-- What a line may consist of. -/
def Line.WellFormed : Line → Prop
  | .blank => True
  | .help name words => IsName name ∧ ∀ word ∈ words, IsWord word
  | .counter name => IsName name
  | .sample name _ => IsName name

variable {line : Line} {lines : List Line}

theorem isWord_of_forall {word : List Char} (h : ∀ c ∈ word, endsWord c = false) : IsWord word :=
  List.any_eq_false.mpr fun c hc => Bool.eq_false_iff.mp (h c hc)

theorem IsName.isWord {name : List Char} (h : IsName name) : IsWord name := by
  refine isWord_of_forall fun c hc => ?_
  rw [endsWord, Bool.or_eq_false_iff, beq_eq_false_iff_ne, beq_eq_false_iff_ne]
  constructor
  · rintro rfl
    exact h.not_mem (by decide) hc
  · rintro rfl
    exact h.not_mem (by decide) hc

theorem isWord_toDigits (value : Nat) : IsWord (Nat.toDigits 10 value) := by
  refine isWord_of_forall fun c hc => ?_
  have hdigit : c.isDigit = true := Nat.isDigit_of_mem_toDigits (by decide) (by decide) hc
  rw [endsWord, Bool.or_eq_false_iff, beq_eq_false_iff_ne, beq_eq_false_iff_ne]
  constructor
  · rintro rfl
    cases hdigit
  · rintro rfl
    cases hdigit

/-- A line consists of words. -/
theorem Line.WellFormed.isWord (h : line.WellFormed) : ∀ word ∈ line.words, IsWord word := by
  have hliteral : ∀ word ∈ [['#'], "HELP".toList, "TYPE".toList, "counter".toList,
      ['\x7b', '\x7d']], IsWord word := by decide
  cases line with
  | blank =>
      intro word hword
      rw [List.mem_singleton.mp hword]
      rfl
  | help name words =>
      refine List.forall_mem_cons.mpr ⟨hliteral _ (by decide), List.forall_mem_cons.mpr
        ⟨hliteral _ (by decide), List.forall_mem_cons.mpr ⟨h.1.isWord, h.2⟩⟩⟩
  | counter name =>
      have hname : IsName name := h
      refine List.forall_mem_cons.mpr ⟨hliteral _ (by decide), List.forall_mem_cons.mpr
        ⟨hliteral _ (by decide), List.forall_mem_cons.mpr ⟨hname.isWord, ?_⟩⟩⟩
      exact List.forall_mem_singleton.mpr (hliteral _ (by decide))
  | sample name value =>
      have hname : IsName name := h
      refine List.forall_mem_cons.mpr ⟨hname.isWord, List.forall_mem_cons.mpr
        ⟨hliteral _ (by decide), List.forall_mem_singleton.mpr (isWord_toDigits value)⟩⟩

theorem readWords_words (h : line.WellFormed) : readWords line.words = some line := by
  cases line with
  | blank => rfl
  | help name words => rfl
  | counter name => rfl
  | sample name value =>
      have hname : IsName name := h
      obtain ⟨c, cs, rfl⟩ := List.exists_cons_of_ne_nil hname.ne_nil
      have hdigits : (Nat.toDigits 10 value).all Char.isDigit = true :=
        List.all_eq_true.mpr fun c hc => Nat.isDigit_of_mem_toDigits (by decide) (by decide) hc
      show (if (c :: cs) = ['#'] then _ else readSample (c :: cs) [_, Nat.toDigits 10 value]) = _
      rw [if_neg hname.ne_hash, readSample, if_pos ⟨rfl, Nat.toDigits_ne_nil, hdigits⟩,
        Nat.ofDigitChars_ten_toDigits]

theorem readLine_text (h : line.WellFormed) : readLine line.text = some line := by
  have hwords : ∀ word ∈ line.words, ' ' ∉ word := fun word hword =>
    (h.isWord word hword).not_mem rfl
  have hne : line.words ≠ [] := by cases line <;> exact List.cons_ne_nil _ _
  rw [readLine, Line.text, List.splitOn_intercalate ' ' hwords hne]
  exact readWords_words h

/-- A line has no newline in it. -/
theorem not_mem_text (h : line.WellFormed) : '\n' ∉ line.text := by
  intro hmem
  rcases Delimited.mem_intercalate hmem with hspace | ⟨word, hword, hc⟩
  · cases hspace
  · exact (h.isWord word hword).not_mem rfl hc

/-- **Reading undoes writing.** -/
theorem read_page (h : ∀ line ∈ lines, line.WellFormed) : read (page lines) = some lines := by
  rw [read]
  induction lines with
  | nil => rfl
  | cons line lines ih =>
      obtain ⟨hline, hlines⟩ := List.forall_mem_cons.mp h
      rw [page, List.splitOn_append_cons_self_of_not_mem (not_mem_text hline)]
      have hrest := ih hlines
      rcases hsplit : (page lines).splitOn '\n' with - | ⟨piece, pieces⟩
      · rw [hsplit] at hrest
        cases hrest
      · rw [hsplit] at hrest
        rw [readLines, readLine_text hline, hrest]
        exact List.cons_ne_nil _ _

end Exposition
