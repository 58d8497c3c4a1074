import SetForest.Proofs.OperationFile.Grammar

namespace SetForest.OperationFile

/-!
# Which texts are operation files

What is read are the lines of a text that are not blank, and each keeps its place among all
lines of the text (`mem_contentLines_iff`).  The first of them has to announce the number of
cases, and the others have to be whole groups.  The number itself matters for nothing but
the room that is made for the cases, which is refused beyond `caseLimit`.
-/

open Text

/-! ## Lines -/

/-- The lines that are read are those that are not blank, trimmed, with their places. -/
theorem mem_contentLines_iff (text : List Char) (line : Line) :
    line ∈ contentLines text ↔ line.text ≠ [] ∧ 1 ≤ line.number ∧
      ∃ raw, (text.splitOn '\n')[line.number - 1]? = some raw ∧ Trimmed raw line.text := by
  rw [contentLines, List.mem_filter, List.mem_map, Bool.not_eq_true', List.isEmpty_eq_false_iff,
    lines_eq_splitOn, and_comm]
  simp only [← trim_eq_iff]
  refine and_congr_right fun _ => ⟨?_, ?_⟩
  · rintro ⟨⟨raw, number⟩, member, rfl⟩
    rcases List.mk_mem_zipIdx_iff_le_and_getElem?_sub.mp member with ⟨positive, found⟩
    exact ⟨positive, raw, found, rfl⟩
  · rintro ⟨positive, raw, found, trimmed⟩
    refine ⟨(raw, line.number),
      List.mk_mem_zipIdx_iff_le_and_getElem?_sub.mpr ⟨positive, found⟩, ?_⟩
    dsimp only
    rw [trimmed]

/-- They stand in the order of the text. -/
theorem pairwise_contentLines (text : List Char) :
    (contentLines text).Pairwise (·.number < ·.number) := by
  have ordered : (((lines text).zipIdx 1).map Prod.snd).Pairwise (· < ·) := by
    rw [List.zipIdx_map_snd]
    exact List.pairwise_lt_range'
  exact List.Pairwise.filter _ (List.pairwise_map.mpr (List.pairwise_map.mp ordered))

/-! ## Files -/

/-- The fault of a text that is no operation file. -/
inductive FileFault (text : List Char) : FormatError → Prop where
  | empty (none : contentLines text = []) : FileFault text .empty
  | badCount {first : Line} {rest : List Line} {cause : IntegerError}
      (lines : contentLines text = first :: rest) (fault : UnsignedFault first.text cause) :
      FileFault text (.badCount (String.ofList first.text) cause)
  | excessiveCount {first : Line} {rest : List Line} {count : Nat}
      (lines : contentLines text = first :: rest) (isCount : IsUnsigned first.text count)
      (excessive : caseLimit < count) : FileFault text .excessiveCount
  | faulty {first : Line} {whole rest : List Line} {cases : List Case} {count : Nat}
      {error : FormatError} (lines : contentLines text = first :: (whole ++ rest))
      (isCount : IsUnsigned first.text count) (within : count ≤ caseLimit)
      (groups : Groups whole cases) (fault : GroupFault rest error) : FileFault text error

/-- With a number of cases within the limit, the cases are those of the other lines. -/
theorem read_of_count {text : List Char} {first : Line} {rest : List Line} {count : Nat}
    (lines : contentLines text = first :: rest) (isCount : IsUnsigned first.text count)
    (within : count ≤ caseLimit) : read text = readCases rest := by
  rw [read, lines]
  dsimp only
  rw [recognizes_readUnsigned.reads _ _ isCount]
  exact if_pos within

theorem recognizes_read :
    Recognizes read (fun text cases => ∃ first rest count, contentLines text = first :: rest ∧
      IsUnsigned first.text count ∧ count ≤ caseLimit ∧ Groups rest cases) FileFault where
  reads := by
    rintro text cases ⟨first, rest, count, lines, isCount, within, groups⟩
    rw [read_of_count lines isCount within, groups.readCases_eq]
  refuses := by
    intro text error fault
    cases fault with
    | empty none => rw [read, none]
    | badCount lines fault =>
        rw [read, lines]
        dsimp only
        rw [recognizes_readUnsigned.refuses _ _ fault]
    | excessiveCount lines isCount excessive =>
        rw [read, lines]
        dsimp only
        rw [recognizes_readUnsigned.reads _ _ isCount]
        exact if_neg (Nat.not_le_of_lt excessive)
    | faulty lines isCount within groups fault =>
        rw [read_of_count lines isCount within]
        exact recognizes_readCases.refuses _ _ ⟨_, _, _, rfl, groups, fault⟩
  total := by
    intro text
    cases lines : contentLines text with
    | nil => exact Or.inr ⟨_, .empty lines⟩
    | cons first rest =>
        rcases recognizes_readUnsigned.total first.text with ⟨count, isCount⟩ | ⟨cause, fault⟩
        · by_cases within : count ≤ caseLimit
          · rcases recognizes_readCases.total rest with
              ⟨cases, groups⟩ | ⟨error, whole, cases, others, rfl, groups, fault⟩
            · exact Or.inl ⟨cases, first, rest, count, rfl, isCount, within, groups⟩
            · exact Or.inr ⟨error, .faulty lines isCount within groups fault⟩
          · exact Or.inr ⟨_, .excessiveCount lines isCount (Nat.lt_of_not_le within)⟩
        · exact Or.inr ⟨_, .badCount lines fault⟩

/-- A line that is read has a word. -/
theorem not_spaced_nil {text : List Char} {line : Line} (member : line ∈ contentLines text) :
    ¬Spaced line.text [] := by
  intro spaced
  rcases (mem_contentLines_iff text line).mp member with ⟨nonempty, -, raw, -, trimmed⟩
  rcases List.exists_cons_of_ne_nil nonempty with ⟨c, rest, start⟩
  have notBlank : isBlank c = false := trimmed.first c (by rw [start]; rfl)
  have blank : isBlank c = true := spaced.isBlank_of_nil c (by rw [start]; exact List.mem_cons_self)
  exact Bool.false_ne_true (notBlank.symm.trans blank)

/-- No line of a file lacks a length, since lines without words are not read at all. -/
theorem ne_missingLength {text : List Char} {error : FormatError} (fault : FileFault text error)
    (part : Part) (number : Nat) : error ≠ .invalidPart part number .missingLength := by
  rintro rfl
  cases fault with
  | @faulty first whole rest cases count _ lines isCount within groups fault =>
      cases fault with
      | @invalidPart head line before others operation cause part code place lists fault =>
          cases fault with
          | missingLength spaced =>
              have member : line ∈ contentLines text := by simp [lines]
              exact not_spaced_nil member spaced

/-- The texts that are read are exactly the operation files, and every other text is refused
with its first fault.  Among the lines of the text that are not blank, the first has to be a
number and the others whole groups of four.  The number plays no part in what is answered as
long as it is at most `caseLimit`, and beyond that the text is refused for it alone. -/
theorem operation_files_recognized (text : List Char) :
    ((∀ line, line ∈ contentLines text ↔ line.text ≠ [] ∧ 1 ≤ line.number ∧
        ∃ raw, (text.splitOn '\n')[line.number - 1]? = some raw ∧ Trimmed raw line.text) ∧
      (contentLines text).Pairwise (·.number < ·.number)) ∧
    (∀ cases, read text = .ok cases ↔
      ∃ first rest count, contentLines text = first :: rest ∧ IsUnsigned first.text count ∧
        count ≤ caseLimit ∧ Groups rest cases) ∧
    (∀ error, read text = .error error ↔ FileFault text error) ∧
    (∀ part number, read text ≠ .error (.invalidPart part number .missingLength)) ∧
    (∀ other first first' rest count count', contentLines text = first :: rest →
      contentLines other = first' :: rest → IsUnsigned first.text count →
      IsUnsigned first'.text count' → count ≤ caseLimit → count' ≤ caseLimit →
      read other = read text) := by
  refine ⟨⟨mem_contentLines_iff text, pairwise_contentLines text⟩, recognizes_read.ok_iff text,
    recognizes_read.error_iff text, ?_, ?_⟩
  · intro part number refused
    exact ne_missingLength ((recognizes_read.error_iff text _).mp refused) part number rfl
  · intro other first first' rest count count' lines lines' isCount isCount' within within'
    rw [read_of_count lines isCount within, read_of_count lines' isCount' within']

/-- Lines that are blank count for the places of the others. -/
example : read "1\n\nU\n0\n 1 7 \n0 1\n".toList =
    .error (.invalidPart .expectedResult 6 (.lengthMismatch 0 1)) := by decide +kernel

/-- A file of one case is refused for the number of cases that it announces. -/
theorem announced_count_refused :
    let group := ['U', '\n', '0', '\n', '0', '\n', '0', '\n']
    read ('1' :: '\n' :: group) = .ok [⟨.union, [], [], []⟩] ∧
      read ("18446744073709551615".toList ++ '\n' :: group) = .error .excessiveCount := by
  decide +kernel

end SetForest.OperationFile
