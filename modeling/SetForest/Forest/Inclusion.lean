import SetForest.Forest.Basic

/-!
# Known inclusions

Every operation that computes a set leaves behind which of the sets involved
contains which.  An inclusion is filed under the two indices in their order, so
what is filed says whether the set at the smaller index is the smaller set.
Reading the pair in the other direction flips the answer.

Inclusions of the empty set and of a set in itself hold always and are not
filed.
-/

namespace SetForest.Forest

variable {K : Type} [Key K] {n : Nat}

/-- What is filed about two sets, read from `a` to `b`. -/
def filedInclusion (forest : Forest K n) (a b : Index) : Option Inclusion :=
  let filed := forest.inclusions.lookup (.ordered a b)
  if a ≤ b then filed else filed.map Inclusion.flip

/-- File that the set at `sub` is included in the set at `sup`. -/
def fileInclusion (forest : Forest K n) (sub sup : Index) : Forest K n :=
  if sub = sup ∨ sub = Index.empty then forest
  else
    let relation := if sub < sup then Inclusion.subset else Inclusion.superset
    { forest with inclusions := forest.inclusions.store (.ordered sub sup) relation }

/-- What is known about the set at `a` relative to the one at `b`.  Apart from
the inclusions that always hold, these are the ones that operations filed. -/
def inclusion (forest : Forest K n) (a b : Index) : Except Error (Option Inclusion) := do
  forest.checkIndex a
  forest.checkIndex b
  if a = b ∨ a = Index.empty then return some .subset
  else if b = Index.empty then return some .superset
  else return forest.filedInclusion a b

end SetForest.Forest
