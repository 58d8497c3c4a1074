import SetForest.Family.Basic

/-!
# Lattice operations in a family

A lattice operation in a forest calls the same operation in its child forests.
The recursion follows the family: the forest at the last position calls forests
before it, and every other forest is the last one of a smaller family.

The calls are made while the contents of the operands are merged.  If one fails,
the operation fails with it.  What the child forests stored by then stays, and
the forest itself is left as it was.
-/

namespace SetForest.Family

variable {K : Type} [Key K]

/-- The index of the result of an operation on two sets of one forest. -/
def apply (operation : Operation) : {n : Nat} → Fin n → Index → Index → FamilyM K n Index
  | n + 1, position, a, b =>
    if below : position.val < n then
      onBelow (apply operation ⟨position, below⟩ a b)
    else do
      match ← onTop (Forest.consult operation a b) with
      | .known result => return result
      | .unknown cells =>
        let content ← onBelow (cells.mapM (Cell.resolve fun child x y => apply operation child x y))
        onTop (ExceptT.lift (Forest.settle operation a b content))

variable {n : Nat}

/-- An operation whose right operand is the set of one element, which is registered first. -/
def applySingle (operation : Operation) (position : Fin n) (a : Index) (element : Element K) :
    FamilyM K n Index := do
  let single ← within (ExceptT.lift (Forest.registerSingle element)) position
  apply operation position a single.index

/-- The union with the set of one element. -/
def insertSingle (position : Fin n) (a : Index) (element : Element K) : FamilyM K n Index :=
  applySingle .union position a element

/-- The difference with the set of one element. -/
def removeSingle (position : Fin n) (a : Index) (element : Element K) : FamilyM K n Index :=
  applySingle .difference position a element

end SetForest.Family
