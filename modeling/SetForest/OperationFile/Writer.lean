import SetForest.OperationFile.Case
import SetForest.Text.Decimal

/-!
# Writing operation files

Cases are written as they are read: the number of cases, and four lines for
each case.  Lists keep their order and their repetitions.
-/

namespace SetForest.OperationFile

open Text

/-- The length of a list and its members, each after one blank. -/
def writeList (values : List Int64) : List Char :=
  writeUnsigned values.length ++ values.flatMap (fun value => ' ' :: writeSigned value) ++ ['\n']

/-- The four lines of a case. -/
def writeCase (case : Case) : List Char :=
  case.operation.code :: '\n' ::
    (writeList case.left ++ writeList case.right ++ writeList case.expected)

/-- The text of an operation file. -/
def write (cases : List Case) : List Char :=
  writeUnsigned cases.length ++ '\n' :: cases.flatMap writeCase

end SetForest.OperationFile
