import SetForest.OperationFile.Writer
import SetForest.Proofs.OperationFile.Recognition

namespace SetForest.OperationFile

/-!
# Written files are read back

Every line that is written is a list or a letter.  It holds no line feed, so it is found
again as a line, and it has no blanks at its ends, so trimming leaves it as it is.  What
was written is therefore a file in the sense of the grammar, and its cases are those that
were written (`read_write`).

Reading is not mentioned before the last step.  What has to be shown of the written text
is only its form.
-/

open Text

/-! ## Lines of lists -/

/-- The line of a list, without the line feed behind it. -/
def listLine (values : List Int64) : List Char :=
  writeUnsigned values.length ++ values.flatMap (fun value => ' ' :: writeSigned value)

theorem writeList_eq (values : List Int64) : writeList values = listLine values ++ ['\n'] := rfl

/-- A blank follows a word, or the line ends there. -/
theorem isBlank_head_values (values : List Int64) :
    ∀ c ∈ (values.flatMap (fun value => ' ' :: writeSigned value)).head?, isBlank c = true := by
  cases values with
  | nil => exact nofun
  | cons value values =>
      rintro c ⟨⟩
      decide

/-- Values that follow a blank each are the words of their line. -/
theorem spaced_values (values : List Int64) :
    Spaced (values.flatMap (fun value => ' ' :: writeSigned value)) (values.map writeSigned) := by
  induction values with
  | nil => exact .blank nofun
  | cons value values ih =>
      exact .word [' '] (writeSigned value) (List.forall_mem_singleton.mpr rfl)
        (writeSigned_ne_nil value) (solid_writeSigned value) (isBlank_head_values values) ih

theorem isList_listLine {values : List Int64} (short : values.length < UInt64.size) :
    IsList (listLine values) values := by
  refine ⟨_, _, .word [] _ nofun Nat.toDigits_ne_nil (solid_writeUnsigned _)
    (isBlank_head_values values) (spaced_values values), isUnsigned_writeUnsigned short, ?_⟩
  rw [List.forall₂_map_left_iff]
  exact List.forall₂_same.mpr fun value _ => isSigned_writeSigned value

/-! ## Lines as they are found again -/

/-- A line that is written stays one line, and is not shortened when it is trimmed. -/
structure Whole (line : List Char) : Prop where
  nonempty : line ≠ []
  unbroken : '\n' ∉ line
  trimmed : Trimmed line line

theorem Whole.of_ends {line : List Char} (nonempty : line ≠ []) (unbroken : '\n' ∉ line)
    (first : ∀ c ∈ line.head?, isBlank c = false)
    (last : ∀ c ∈ line.getLast?, isBlank c = false) : Whole line :=
  ⟨nonempty, unbroken, ⟨⟨[], [], by simp, nofun, nofun⟩, first, last⟩⟩

theorem Whole.of_solid {line : List Char} (nonempty : line ≠ [])
    (solid : ∀ c ∈ line, isBlank c = false) : Whole line :=
  .of_ends nonempty (fun feed => by cases solid '\n' feed)
    (fun c isFirst => solid c (List.mem_of_head? isFirst))
    (fun c isLast => solid c (List.mem_of_getLast? isLast))

/-- Behind a word, values that follow a blank each end with a word. -/
theorem isBlank_last_values {word : List Char} (nonempty : word ≠ [])
    (solid : ∀ c ∈ word, isBlank c = false) (values : List Int64) :
    ∀ c ∈ (word ++ values.flatMap (fun value => ' ' :: writeSigned value)).getLast?,
      isBlank c = false := by
  induction values generalizing word with
  | nil =>
      intro c isLast
      rw [List.flatMap_nil, List.append_nil] at isLast
      exact solid c (List.mem_of_getLast? isLast)
  | cons value values ih =>
      intro c isLast
      apply ih (writeSigned_ne_nil value) (solid_writeSigned value) c
      rw [List.flatMap_cons, List.cons_append, List.append_cons,
        List.getLast?_append_of_ne_nil] at isLast
      · exact isLast
      · exact List.append_ne_nil_of_left_ne_nil (writeSigned_ne_nil value) _

theorem whole_listLine (values : List Int64) : Whole (listLine values) := by
  have solid := solid_writeUnsigned values.length
  apply Whole.of_ends
  · exact List.append_ne_nil_of_left_ne_nil Nat.toDigits_ne_nil _
  · rw [listLine, List.mem_append, List.mem_flatMap]
    rintro (inLength | ⟨value, -, inValue⟩)
    · cases solid '\n' inLength
    · rcases List.mem_cons.mp inValue with isBlank | inValue
      · cases isBlank
      · cases solid_writeSigned value '\n' inValue
  · intro c isFirst
    rw [listLine, List.head?_append_of_ne_nil] at isFirst
    · exact solid c (List.mem_of_head? isFirst)
    · exact Nat.toDigits_ne_nil
  · exact isBlank_last_values Nat.toDigits_ne_nil solid values

theorem whole_code (operation : Operation) : Whole [operation.code] :=
  .of_solid (List.cons_ne_nil _ _) (List.forall_mem_singleton.mpr (by cases operation <;> rfl))

/-- The lines of pieces of a text, with places from a number on. -/
def numbered (pieces : List (List Char)) (number : Nat) : List Line :=
  ((pieces.zipIdx number).map fun (line, number) => ⟨number, trim line⟩).filter
    (!·.text.isEmpty)

theorem contentLines_eq (text : List Char) :
    contentLines text = numbered (text.splitOn '\n') 1 := by
  rw [contentLines, lines_eq_splitOn, numbered]

theorem Whole.numbered_cons {line : List Char} (whole : Whole line)
    (pieces : List (List Char)) (number : Nat) :
    numbered (line :: pieces) number = ⟨number, line⟩ :: numbered pieces (number + 1) := by
  rw [numbered, List.zipIdx_cons, List.map_cons]
  dsimp only
  rw [whole.trimmed.trim_eq, List.filter_cons_of_pos, numbered]
  rw [Bool.not_eq_true', List.isEmpty_eq_false_iff]
  exact whole.nonempty

/-- A line that is written is the first of the pieces between line feeds. -/
theorem Whole.splitOn_eq {line : List Char} (whole : Whole line) (text : List Char) :
    (line ++ '\n' :: text).splitOn '\n' = line :: text.splitOn '\n' :=
  List.splitOn_append_cons_self_of_not_mem whole.unbroken text

/-- The lines of written cases are whole groups, wherever they start. -/
theorem groups_writeCase {cases : List Case}
    (short : ∀ case ∈ cases, case.left.length < UInt64.size ∧ case.right.length < UInt64.size ∧
      case.expected.length < UInt64.size) (number : Nat) :
    Groups (numbered ((cases.flatMap writeCase).splitOn '\n') number) cases := by
  induction cases generalizing number with
  | nil => exact .nil
  | cons case cases ih =>
      have written : (case :: cases).flatMap writeCase =
          [case.operation.code] ++ '\n' :: (listLine case.left ++ '\n' :: (listLine case.right ++
            '\n' :: (listLine case.expected ++ '\n' :: cases.flatMap writeCase))) := by
        simp [writeCase, writeList_eq]
      rcases short case List.mem_cons_self with ⟨left, right, expected⟩
      rw [written, (whole_code _).splitOn_eq, (whole_code _).numbered_cons,
        (whole_listLine _).splitOn_eq, (whole_listLine _).numbered_cons,
        (whole_listLine _).splitOn_eq, (whole_listLine _).numbered_cons,
        (whole_listLine _).splitOn_eq, (whole_listLine _).numbered_cons]
      exact .cons ⟨rfl, isList_listLine left, isList_listLine right, isList_listLine expected⟩
        (ih (fun other member => short other (List.mem_cons_of_mem case member)) _)

/-- What was written is read back, whatever the cases are.  Only the sizes of lists are
those of a machine: there are no more cases than there can be room for, and the length of
every list is a word. -/
theorem read_write {cases : List Case} (room : cases.length ≤ caseLimit)
    (short : ∀ case ∈ cases, case.left.length < UInt64.size ∧ case.right.length < UInt64.size ∧
      case.expected.length < UInt64.size) :
    read (write cases) = .ok cases := by
  have whole : Whole (writeUnsigned cases.length) :=
    .of_solid Nat.toDigits_ne_nil (solid_writeUnsigned _)
  have isCount : IsUnsigned (writeUnsigned cases.length) cases.length :=
    isUnsigned_writeUnsigned (Nat.lt_of_le_of_lt room (by decide))
  apply recognizes_read.reads
  refine ⟨⟨1, writeUnsigned cases.length⟩, _, cases.length, ?_, isCount, room,
    groups_writeCase short 2⟩
  rw [contentLines_eq, write, whole.splitOn_eq, whole.numbered_cons]

/-- Lists that are empty, not sorted or hold numbers twice, and the two extreme numbers. -/
theorem read_write_extremes :
    let cases : List Case := [⟨.difference, [.minValue, 3, -7, 3], [.maxValue, 0], []⟩,
      ⟨.union, [], [], [5, -5]⟩]
    cases.length ≤ caseLimit ∧ read (write cases) = .ok cases := by
  intro cases
  have room : cases.length ≤ caseLimit := by decide
  exact ⟨room, read_write room (by decide)⟩

end SetForest.OperationFile
