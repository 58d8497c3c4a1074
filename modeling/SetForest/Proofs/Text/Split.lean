import SetForest.Text.Split

namespace SetForest.Text

/-!
# Lines, words and trimmed texts

A text is cut by the same function at line feeds and at blanks, and the core library
knows the pieces.  What is said here is what a reader of a file wants to know of them.
The lines are the text between line feeds (`lines_eq_splitOn`), a trimmed text is what is
left between the blanks at the two ends (`trim_eq_iff`), and the words of a line are its
stretches without blanks (`words_eq_iff`).

`Trimmed` and `Spaced` describe the last two by the form of the text alone, and do not say
how it is searched.
-/

theorem split_eq_splitOnP (isSeparator : Char → Bool) (text : List Char) :
    split isSeparator text = text.splitOnP isSeparator := by
  induction text with
  | nil => rfl
  | cons c rest ih =>
      rw [split] at ih ⊢
      rw [List.foldr_cons, ih, List.splitOnP_cons_eq_if_modifyHead]
      cases pieces : rest.splitOnP isSeparator with
      | nil => exact absurd pieces (List.splitOnP_ne_nil isSeparator rest)
      | cons piece others => rfl

theorem lines_eq_splitOn (text : List Char) : lines text = text.splitOn '\n' :=
  split_eq_splitOnP _ text

/-! ## Trimming -/

/-- What is left of a text if the blanks at its two ends are taken away. -/
structure Trimmed (text core : List Char) : Prop where
  blanks : ∃ before after, text = before ++ core ++ after ∧
    (∀ c ∈ before, isBlank c = true) ∧ ∀ c ∈ after, isBlank c = true
  first : ∀ c ∈ core.head?, isBlank c = false
  last : ∀ c ∈ core.getLast?, isBlank c = false

theorem isBlank_of_mem_takeWhile {c : Char} {text : List Char}
    (member : c ∈ text.takeWhile isBlank) : isBlank c = true :=
  List.all_eq_true.mp List.all_takeWhile c member

theorem dropWhile_of_head (text : List Char) (first : ∀ c ∈ text.head?, isBlank c = false) :
    text.dropWhile isBlank = text := by
  cases text with
  | nil => rfl
  | cons c rest => rw [List.dropWhile_cons_of_neg (by rw [first c rfl]; exact Bool.false_ne_true)]

theorem Trimmed.trim_eq {text core : List Char} (trimmed : Trimmed text core) :
    trim text = core := by
  rcases trimmed.blanks with ⟨before, after, rfl, blanksBefore, blanksAfter⟩
  have reversed : ∀ c ∈ core.reverse.head?, isBlank c = false := by
    rw [List.head?_reverse]
    exact trimmed.last
  have dropAfter : (core ++ after).reverse.dropWhile isBlank = core.reverse := by
    rw [List.reverse_append, List.dropWhile_append_of_pos
      (fun c member => blanksAfter c (List.mem_reverse.mp member)), dropWhile_of_head _ reversed]
  rw [trim, List.append_assoc, List.dropWhile_append_of_pos blanksBefore]
  cases core with
  | nil =>
      have allBlank : after.dropWhile isBlank = [] := by
        rw [← List.append_nil after, List.dropWhile_append_of_pos blanksAfter]
        rfl
      rw [List.nil_append, allBlank]
      rfl
  | cons c rest =>
      rw [dropWhile_of_head (c :: rest ++ after) trimmed.first, dropAfter,
        List.reverse_reverse]

theorem head?_dropWhile {text : List Char} {c : Char}
    (found : c ∈ (text.dropWhile isBlank).head?) : isBlank c = false := by
  have stopped := List.head?_dropWhile_not isBlank text
  rw [found] at stopped
  exact Bool.eq_false_iff.mpr (by simpa using stopped)

theorem trimmed_trim (text : List Char) : Trimmed text (trim text) := by
  refine ⟨⟨text.takeWhile isBlank, ((text.dropWhile isBlank).reverse.takeWhile isBlank).reverse,
    ?_, fun c => isBlank_of_mem_takeWhile, ?_⟩, ?_, ?_⟩
  · rw [trim, List.append_assoc, ← List.reverse_append, List.takeWhile_append_dropWhile,
      List.reverse_reverse, List.takeWhile_append_dropWhile]
  · exact fun c member => isBlank_of_mem_takeWhile (List.mem_reverse.mp member)
  · -- What is cut off behind does not reach the first character, unless nothing is left.
    intro c isFirst
    have cut : trim text ++ ((text.dropWhile isBlank).reverse.takeWhile isBlank).reverse =
        text.dropWhile isBlank := by
      rw [trim, ← List.reverse_append, List.takeWhile_append_dropWhile, List.reverse_reverse]
    apply head?_dropWhile
    rw [← cut, List.head?_append]
    rw [isFirst]
    rfl
  · intro c isLast
    rw [trim, List.getLast?_reverse] at isLast
    exact head?_dropWhile isLast

/-- Trimming is determined by its result. -/
theorem trim_eq_iff (text core : List Char) : trim text = core ↔ Trimmed text core := by
  constructor
  · rintro rfl
    exact trimmed_trim text
  · exact Trimmed.trim_eq

/-! ## Words -/

/-- A line consists of words and of the blanks around them. -/
inductive Spaced : List Char → List (List Char) → Prop where
  | blank {line : List Char} (blanks : ∀ c ∈ line, isBlank c = true) : Spaced line []
  | word (before word : List Char) {rest : List Char} {others : List (List Char)}
      (blanks : ∀ c ∈ before, isBlank c = true) (nonempty : word ≠ [])
      (solid : ∀ c ∈ word, isBlank c = false) (ends : ∀ c ∈ rest.head?, isBlank c = true)
      (spaced : Spaced rest others) : Spaced (before ++ word ++ rest) (word :: others)

theorem Spaced.isBlank_of_nil {line : List Char} (spaced : Spaced line []) :
    ∀ c ∈ line, isBlank c = true := by
  cases spaced with
  | blank blanks => exact blanks

/-- Blanks in front of a line are no part of its words. -/
theorem words_append_of_blank {before : List Char} (blanks : ∀ c ∈ before, isBlank c = true)
    (line : List Char) : words (before ++ line) = words line := by
  induction before with
  | nil => rfl
  | cons c rest ih =>
      rw [← ih fun other member => blanks other (List.mem_cons_of_mem c member)]
      rw [words, words, split_eq_splitOnP, split_eq_splitOnP, List.cons_append,
        List.splitOnP_cons_eq_if_modifyHead, if_pos (blanks c List.mem_cons_self)]
      rfl

theorem words_of_blank {line : List Char} (blanks : ∀ c ∈ line, isBlank c = true) :
    words line = [] := by
  have none := words_append_of_blank blanks []
  rwa [List.append_nil] at none

/-- A stretch without blanks is a word if it ends with the line or before a blank. -/
theorem words_append_of_solid {word rest : List Char} (nonempty : word ≠ [])
    (solid : ∀ c ∈ word, isBlank c = false) (ends : ∀ c ∈ rest.head?, isBlank c = true) :
    words (word ++ rest) = word :: words rest := by
  have kept : ∀ others : List (List Char), (word :: others).filter (!·.isEmpty) =
      word :: others.filter (!·.isEmpty) := by
    intro others
    rw [List.filter_cons_of_pos]
    rw [Bool.not_eq_true', List.isEmpty_eq_false_iff]
    exact nonempty
  cases rest with
  | nil =>
      rw [List.append_nil, words, split_eq_splitOnP, List.splitOnP_eq_singleton solid, kept]
      rfl
  | cons c rest =>
      have blank : isBlank c = true := ends c rfl
      have single : ∀ other ∈ [c], isBlank other = true := List.forall_mem_singleton.mpr blank
      have tail : words (c :: rest) = words rest := words_append_of_blank single rest
      rw [tail, words, split_eq_splitOnP,
        List.splitOnP_append_cons_of_forall_mem solid c blank, kept, words, split_eq_splitOnP]

theorem Spaced.words_eq {line : List Char} {found : List (List Char)}
    (spaced : Spaced line found) : words line = found := by
  induction spaced with
  | blank blanks => exact words_of_blank blanks
  | word before word blanks nonempty solid ends _ ih =>
      rw [List.append_assoc, words_append_of_blank blanks,
        words_append_of_solid nonempty solid ends, ih]

/-- A blank in front leaves the words as they are. -/
theorem Spaced.cons_blank {c : Char} {line : List Char} {found : List (List Char)}
    (blank : isBlank c = true) (spaced : Spaced line found) : Spaced (c :: line) found := by
  cases spaced with
  | blank blanks => exact .blank (List.forall_mem_cons.mpr ⟨blank, blanks⟩)
  | word before word blanks nonempty solid ends spaced =>
      exact .word (c :: before) word (List.forall_mem_cons.mpr ⟨blank, blanks⟩) nonempty
        solid ends spaced

/-- Any other character is a word by itself, or goes in front of the first word. -/
theorem Spaced.exists_cons {c : Char} {line : List Char} {found : List (List Char)}
    (notBlank : isBlank c = false) (spaced : Spaced line found) :
    ∃ words, Spaced (c :: line) words := by
  have alone (ends : ∀ other ∈ line.head?, isBlank other = true) :
      ∃ words, Spaced (c :: line) words :=
    ⟨[c] :: found, .word [] [c] nofun (List.cons_ne_nil c [])
      (by simpa using notBlank) ends spaced⟩
  cases spaced with
  | blank blanks => exact alone fun other first => blanks other (List.mem_of_head? first)
  | @word before word rest others blanks nonempty solid ends spaced =>
      cases before with
      | nil =>
          exact ⟨(c :: word) :: others, .word [] (c :: word) nofun
            (List.cons_ne_nil c word) (List.forall_mem_cons.mpr ⟨notBlank, solid⟩) ends spaced⟩
      | cons first before =>
          apply alone
          rintro other ⟨⟩
          exact blanks first List.mem_cons_self

/-- Every line consists of words and blanks. -/
theorem exists_spaced (line : List Char) : ∃ found, Spaced line found := by
  induction line with
  | nil => exact ⟨[], .blank nofun⟩
  | cons c line ih =>
      rcases ih with ⟨found, spaced⟩
      cases blank : isBlank c with
      | true => exact ⟨found, spaced.cons_blank blank⟩
      | false => exact spaced.exists_cons blank

/-- The words of a line are determined by its form. -/
theorem words_eq_iff (line : List Char) (found : List (List Char)) :
    words line = found ↔ Spaced line found := by
  constructor
  · rintro rfl
    rcases exists_spaced line with ⟨found, spaced⟩
    rw [spaced.words_eq]
    exact spaced
  · exact Spaced.words_eq

end SetForest.Text
