import SetForest.Family.Apply
import SetForest.Workload.Random

/-!
# The persistent workload

A forest grows by random steps.  A step either registers the set of one random
number or combines two random stored sets.  As long as there are fewer than four
sets it registers; from then on it does so in 60 percent of the steps.  There has
to be a number to register, unless no step is taken.
-/

namespace SetForest

/-- No number is below a bound that is not positive. -/
inductive RangeError where
  | empty
deriving DecidableEq, Repr

def RangeError.message : RangeError → String
  | empty => "cannot sample empty range"

namespace Workload

/-- Accept a bound for the numbers that are registered in some number of steps. -/
def checkProperties (properties : Int) (iterations : Nat) : Except RangeError Unit :=
  if properties ≤ 0 ∧ 0 < iterations then .error .empty else .ok ()

/-- Below this number of sets the workload only registers. -/
def persistentMinimum : Nat := 4

variable {σ : Type} [RandomSource σ] {n : Nat}

/-- An action on a family that may draw random numbers. -/
abbrev RandomM (σ : Type) (n : Nat) := StateT σ (FamilyM Int64 n)

/-- Use a draw in an action on a family. -/
def draw {α : Type} (drawn : StateM σ α) : RandomM σ n α :=
  modifyGet drawn.run

/-- Register the set of one random number below `properties`. -/
def registerRandom (position : Fin n) (properties : Nat) : RandomM σ n Unit := do
  let key ← draw (RandomSource.below properties)
  let _ ← StateT.lift (Family.within
    (ExceptT.lift (Forest.registerSingle (.flat (.ofNat key)))) position)

/-- Combine two random sets out of the first `size` of them. -/
def combineRandom (position : Fin n) (size : Nat) : RandomM σ n Unit := do
  let a ← draw (RandomSource.below size)
  let b ← draw (RandomSource.below size)
  let operation ← draw Random.operation
  let _ ← StateT.lift (Family.apply operation position a b)

/-- Take one step in the forest at a position, with numbers below `properties`. -/
def persistentStep (position : Fin n) (properties : Nat) : RandomM σ n Unit := do
  let size ← StateT.lift (Family.reading (fun forest => .ok forest.size) position)
  let registering ← if size < persistentMinimum then pure true else draw RandomSource.likely
  if registering then registerRandom position properties else combineRandom position size

/-- Take a number of steps. -/
def persistent (position : Fin n) (properties : Nat) : Nat → RandomM σ n Unit
  | 0 => return
  | iterations + 1 => do
    persistentStep position properties
    persistent position properties iterations

end Workload

end SetForest
