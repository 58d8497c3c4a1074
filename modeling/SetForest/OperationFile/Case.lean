import SetForest.Key
import SetForest.Operation

/-!
# Test cases

A case is a lattice operation on two lists of numbers with the result that is
expected of it.  The operands stand for sets: their order and their repetitions
do not matter.

Room for cases is made before there is any of them, and not for every number.
-/

namespace SetForest

/-- An operation on two lists of numbers, with the expected result. -/
structure Case where
  operation : Operation
  left : List Int64
  right : List Int64
  expected : List Int64
deriving DecidableEq, Repr

/-- The largest number of cases for which there can be room.  A case takes up 80
bytes, and no more bytes can be asked for than the largest signed word.  Whether
the machine has as many is not decided here. -/
def OperationFile.caseLimit : Nat :=
  (UInt64.size / 2 - 1) / 80

/-- The case whose expected result is the true one, in increasing order. -/
def Case.solved (operation : Operation) (left right : List Int64) : Case where
  operation
  left
  right
  expected :=
    match operation with
    | .union => Key.distinct (left ++ right)
    | .intersection => (Key.distinct left).filter (right.contains ·)
    | .difference => (Key.distinct left).filter (!right.contains ·)

end SetForest
