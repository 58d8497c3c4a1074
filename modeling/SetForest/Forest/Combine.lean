import SetForest.Forest.Alignment
import SetForest.Forest.Inclusion

/-!
# The parts of a lattice operation

A lattice operation on two indices is answered in one of four ways, tried in
this order.  The operands alone decide it (they are equal, or one is empty).  A
filed inclusion decides it.  A result is remembered and resident.  Otherwise the
contents are aligned, the child forests are called, and the merged content is
interned.

`consult` covers everything up to the calls, and `settle` everything after them.
Between the two only the forests below change.
-/

namespace SetForest

/-- The key of a remembered result.  Commutative operations share one key for
both orders of their operands. -/
def Operation.operands (operation : Operation) (a b : Index) : Operands :=
  if operation.isCommutative then .ordered a b else ⟨a, b⟩

/-- The answer of a forest by itself: a result, or the cells to be resolved. -/
inductive Consulted (K : Type) (n : Nat) where
  | known (result : Index)
  | unknown (cells : List (Cell K n))

namespace Forest

variable {K : Type} [Key K] {n : Nat}

/-- A result that needs neither a memo nor the contents of the operands. -/
def shortcut (forest : Forest K n) (operation : Operation) (a b : Index) :
    Option (Index × Outcome) :=
  if a = b then
    some (if operation = .difference then Index.empty else a, .equalHit)
  else if a = Index.empty ∨ b = Index.empty then
    let result :=
      match operation with
      | .union => if a = Index.empty then b else a
      | .intersection => Index.empty
      | .difference => a
    some (result, .emptyHit)
  else
    match operation, forest.filedInclusion a b with
    | .union, some .subset => some (b, .subsetHit)
    | .union, some .superset => some (a, .subsetHit)
    | .intersection, some .subset => some (a, .subsetHit)
    | .intersection, some .superset => some (b, .subsetHit)
    | _, _ => none

/-- Answer from the tables if possible, and otherwise align the contents. -/
def consult (operation : Operation) (a b : Index) : ForestM K n (Consulted K n) := do
  modify (note · (.operation operation))
  let forest ← get
  forest.checkIndex a
  forest.checkIndex b
  match forest.shortcut operation a b with
  | some (result, outcome) =>
    modify (tallyOperation · operation outcome)
    return .known result
  | none =>
    match ← forest.usable? ((forest.memo operation).lookup (operation.operands a b)) with
    | some result =>
      modify (tallyOperation · operation .hit)
      return .known result
    | none =>
      let left ← forest.sets.get a
      let right ← forest.sets.get b
      return .unknown (Content.align operation forest.children left right)

/-- File the inclusions that a computed result shows.  A difference in a forest
without children that leaves its operand as it is shows that the operands are
disjoint, which is remembered as their intersection. -/
def fileResult (forest : Forest K n) (operation : Operation) (a b result : Index) :
    Forest K n :=
  match operation with
  | .union =>
    if result = a then forest.fileInclusion b a
    else if result = b then forest.fileInclusion a b
    else (forest.fileInclusion a result).fileInclusion b result
  | .intersection =>
    if result = a then forest.fileInclusion a b
    else if result = b then forest.fileInclusion b a
    else (forest.fileInclusion result a).fileInclusion result b
  | .difference =>
    if result ≠ a then forest.fileInclusion result a
    else if forest.children = [] then forest.remember .intersection (.ordered a b) Index.empty
    else forest

/-- Store a computed content, remember it as the result and file what it shows. -/
def settle (operation : Operation) (a b : Index) (content : Content K) :
    StateM (Forest K n) Index := do
  let registered ← modifyGet (intern · content)
  modify (tallyOperation · operation (.ofMiss registered.cold))
  modify (remember · operation (operation.operands a b) registered.index)
  modify (fileResult · operation a b registered.index)
  return registered.index

end Forest

end SetForest
