import SetForest.Family.Basic

/-!
# Specifications of families

A family is described by listing its forests from the bottom, each with the
positions of its children.  A description whose forests only refer to earlier
ones can be planted, and no other can.
-/

namespace SetForest

/-- The description of one forest of a family. -/
structure Spec where
  config : Config := {}
  strategy : Strategy := .unshared
  children : List Nat := []
deriving DecidableEq, Repr

namespace Family

variable {K : Type} [Key K]

/-- Accept positions below `n`. -/
def positions? (n : Nat) (positions : List Nat) : Option (List (Fin n)) :=
  positions.mapM fun position => if h : position < n then some ⟨position, h⟩ else none

/-- Plant one more forest on a family. -/
def extend? (family : (n : Nat) × Family K n) (spec : Spec) : Option ((n : Nat) × Family K n) := do
  let children ← positions? family.1 spec.children
  return ⟨family.1 + 1, family.2.plant (Forest.create spec.config spec.strategy children)⟩

/-- Plant all forests of a description in their order. -/
def ofSpecs? (specs : List Spec) : Option ((n : Nat) × Family K n) :=
  specs.foldlM extend? ⟨0, .bare⟩

end Family

end SetForest
