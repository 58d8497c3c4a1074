import SetForest.OperationFile.Case
import SetForest.Text.Decimal
import SetForest.Text.Split

/-!
# Reading operation files

The first line of an operation file announces the number of cases.  Each case
takes four lines: the code of the operation, its two operands and the expected
result.  A list of numbers is written as its length followed by its members.

Blanks around lines and blank lines do not count, but errors name lines by
their place in the file with blank lines included.  Room is made for the
announced number of cases before the first of them is read, and apart from that
the number is disregarded: a file holds the cases that it holds.
-/

namespace SetForest.OperationFile

open Text

/-- What a line of numbers stands for in a case. -/
inductive Part where
  | firstOperand
  | secondOperand
  | expectedResult
deriving DecidableEq, Repr

/-- The words by which errors refer to a part. -/
def Part.name : Part → String
  | firstOperand => "first operand"
  | secondOperand => "second operand"
  | expectedResult => "expected result"

/-- Why a line is no list of numbers. -/
inductive ListError where
  | missingLength
  | badLength (cause : IntegerError)
  | badValue (text : String) (cause : IntegerError)
  | lengthMismatch (length count : Nat)
deriving DecidableEq, Repr

/-- The messages of an error and of its causes, outermost first. -/
def ListError.messages : ListError → List String
  | missingLength => ["missing length"]
  | badLength cause => [cause.message]
  | badValue text cause => [s!"invalid value '{text}'", cause.message]
  | lengthMismatch length count => [s!"length {length} does not match {count} values"]

/-- Why a text is no operation file. -/
inductive FormatError where
  | empty
  | badCount (text : String) (cause : IntegerError)
  | excessiveCount
  | illegalOperator (text : String) (line : Nat)
  | missingPart (part : Part) (line : Nat)
  | invalidPart (part : Part) (line : Nat) (cause : ListError)
deriving DecidableEq, Repr

/-- The messages of an error and of its causes, outermost first. -/
def FormatError.messages : FormatError → List String
  | empty => ["empty operation file"]
  | badCount text cause =>
    [s!"expected the test count on line 1, found '{text}'", cause.message]
  | excessiveCount => ["capacity overflow"]
  | illegalOperator text line => [s!"illegal operator '{text}' on line {line}"]
  | missingPart part line => [s!"missing {part.name} for the operation on line {line}"]
  | invalidPart part line cause => s!"invalid {part.name} on line {line}" :: cause.messages

/-- A line that is not blank, without the blanks around it. -/
structure Line where
  number : Nat
  text : List Char
deriving DecidableEq, Repr

/-- The lines of a text that are not blank, with their places from one. -/
def contentLines (text : List Char) : List Line :=
  let trimmed := (lines text).zipIdx 1 |>.map fun (line, number) => ⟨number, trim line⟩
  trimmed.filter (!·.text.isEmpty)

/-- Read the values of a list up to the first that is no number. -/
def readValue (word : List Char) : Except ListError Int64 :=
  (readSigned word).mapError (.badValue (String.ofList word))

/-- Read a list of numbers: first its length, then all values, and last whether
there are as many of them as announced. -/
def readList (line : List Char) : Except ListError (List Int64) :=
  match words line with
  | [] => .error .missingLength
  | first :: rest => do
    let length ← (readUnsigned first).mapError .badLength
    let values ← rest.mapM readValue
    if values.length = length then return values
    else throw (.lengthMismatch length values.length)

/-- Read the list that a line of a case stands for. -/
def readPart (part : Part) (line : Line) : Except FormatError (List Int64) :=
  (readList line.text).mapError (.invalidPart part line.number)

/-- Read cases of four lines each up to the first fault. -/
def readCases : List Line → Except FormatError (List Case)
  | [] => .ok []
  | head :: afterHead =>
    match Operation.ofCode? head.text with
    | none => .error (.illegalOperator (String.ofList head.text) head.number)
    | some operation =>
      match afterHead with
      | [] => .error (.missingPart .firstOperand head.number)
      | first :: afterFirst => do
        let left ← readPart .firstOperand first
        match afterFirst with
        | [] => throw (.missingPart .secondOperand head.number)
        | second :: afterSecond =>
          let right ← readPart .secondOperand second
          match afterSecond with
          | [] => throw (.missingPart .expectedResult head.number)
          | third :: rest =>
            let expected ← readPart .expectedResult third
            return ⟨operation, left, right, expected⟩ :: (← readCases rest)

/-- Read an operation file. -/
def read (text : List Char) : Except FormatError (List Case) :=
  match contentLines text with
  | [] => .error .empty
  | first :: rest =>
    match readUnsigned first.text with
    | .error cause => .error (.badCount (String.ofList first.text) cause)
    | .ok count => if count ≤ caseLimit then readCases rest else .error .excessiveCount

end SetForest.OperationFile
