import SetForest.OperationFile.Case
import SetForest.Workload.Random

/-!
# Generated cases

A generated case has two operands of random members, a random operation, and
the true result as its expectation.  The members of an operand are drawn from
the numbers up to a largest value, each at most once.

The numbers of members and of values are words of 64 bits, and a largest value
that leaves no room for the number of values is an error.  Members become signed
numbers with the same bits.  Room for all cases is made before the first of them
is drawn, which is an error if they are too many.
-/

namespace SetForest

/-- Why no cases are generated. -/
inductive GenerationError where
  /-- The number of values up to the largest word is not itself a word. -/
  | tooManyValues
  /-- There is no room for so many cases. -/
  | excessiveCount
deriving DecidableEq, Repr

def GenerationError.message : GenerationError → String
  | tooManyValues => "attempt to add with overflow"
  | excessiveCount => "capacity overflow"

namespace Workload

variable {σ : Type} [RandomSource σ]

/-- The signed number with the bits of one that was drawn. -/
def member (drawn : Nat) : Int64 :=
  (UInt64.ofNat drawn).toInt64

/-- Draw up to `maxSize` distinct numbers from zero to `maxValue`. -/
def randomSet (maxSize maxValue : UInt64) : ExceptT GenerationError (StateM σ) (List Int64) := do
  if maxValue + 1 = 0 then throw .tooManyValues
  let values := (maxValue + 1).toNat
  let size ← ExceptT.lift (RandomSource.below (maxSize.toNat + 1))
  let drawn ← ExceptT.lift (RandomSource.sample values (min size values))
  return drawn.map member

/-- Draw the left operand, the right operand and the operation of a case. -/
def randomCase (maxSize maxValue : UInt64) : ExceptT GenerationError (StateM σ) Case := do
  let left ← randomSet maxSize maxValue
  let right ← randomSet maxSize maxValue
  let operation ← ExceptT.lift Random.operation
  return .solved operation left right

/-- Draw a number of cases. -/
def generate (count : Nat) (maxSize maxValue : UInt64) :
    ExceptT GenerationError (StateM σ) (List Case) := do
  if OperationFile.caseLimit < count then throw .excessiveCount
  (List.range count).mapM fun _ => randomCase maxSize maxValue

end Workload

end SetForest
