import SetForest.Family.Apply
import SetForest.OperationFile.Case

/-!
# Replaying cases

A case is replayed on a forest by registering its operands, applying its
operation and registering its expected result.  The case matches if the two
results have the same index.  A mismatch is reported with the texts of all four
sets.
-/

namespace SetForest.Workload

/-- A case whose result is not the expected one, with the texts of its sets. -/
structure Mismatch where
  /-- The place of the case among those replayed. -/
  case : Nat
  operation : Operation
  left : String
  right : String
  expected : String
  actual : String
deriving DecidableEq, Repr

variable {n : Nat}

/-- Register a list of numbers in the forest at a position. -/
def registerNumbers (position : Fin n) (values : List Int64) : FamilyM Int64 n Index := do
  let elements := values.map Element.flat
  return (← Family.within (Forest.registerUnordered elements) position).index

/-- The text of a set in the forest at a position. -/
def setText (position : Fin n) (index : Index) : FamilyM Int64 n String :=
  Family.reading (fun forest => forest.setText index) position

/-- Replay one case. -/
def replayCase (position : Fin n) (case : Case) (place : Nat) :
    FamilyM Int64 n (Option Mismatch) := do
  let left ← registerNumbers position case.left
  let right ← registerNumbers position case.right
  let actual ← Family.apply case.operation position left right
  let expected ← registerNumbers position case.expected
  if actual = expected then return none
  else
    return some
      { case := place
        operation := case.operation
        left := ← setText position left
        right := ← setText position right
        expected := ← setText position expected
        actual := ← setText position actual }

/-- Replay cases in turn and collect the mismatches. -/
def replay (position : Fin n) (cases : List Case) : FamilyM Int64 n (List Mismatch) := do
  let outcomes ← cases.zipIdx.mapM fun (case, place) => replayCase position case place
  return outcomes.filterMap id

end SetForest.Workload
