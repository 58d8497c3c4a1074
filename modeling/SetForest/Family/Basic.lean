import SetForest.Forest.Register
import SetForest.Forest.Update
import SetForest.Forest.Filter
import SetForest.Forest.Combine
import SetForest.Forest.Report

/-!
# Families of forests

A family is a sequence of forests in which the children of each stand before
it.  It is built from the bottom: planting a forest on a family of `n` puts it at
position `n`, and its children are positions below `n`.  A forest can therefore
never be its own descendant, and work in a forest can only affect it and the
forests below.

Actions on a single forest become actions on a family by `onTop`, `onBelow` and
`within`, each of which leaves all other forests as they are.
-/

namespace SetForest

/-- A sequence of `n` forests, each above its children. -/
inductive Family (K : Type) [Key K] : Nat → Type where
  | bare : Family K 0
  | plant {n : Nat} (below : Family K n) (top : Forest K n) : Family K (n + 1)

/-- An action on a family.  A failure keeps the state that it was reached in. -/
abbrev FamilyM (K : Type) [Key K] (n : Nat) := ExceptT Error (StateM (Family K n))

namespace Family

variable {K : Type} [Key K] {n : Nat} {α : Type}

/-- The family of one forest without children. -/
def single (config : Config) (strategy : Strategy) : Family K 1 :=
  .plant .bare (Forest.create config strategy [])

/-- Act on the forest at the last position. -/
def onTop (action : ForestM K n α) : FamilyM K (n + 1) α := fun
  | .plant below top =>
    let (answer, top) := action top
    (answer, .plant below top)

/-- Act on the forests before the last position. -/
def onBelow (action : FamilyM K n α) : FamilyM K (n + 1) α := fun
  | .plant below top =>
    let (answer, below) := action below
    (answer, .plant below top)

/-- Act on the forest at a position, with an action that suits any forest. -/
def within (action : {m : Nat} → ForestM K m α) : {n : Nat} → Fin n → FamilyM K n α
  | n + 1, position =>
    if below : position.val < n then onBelow (within action ⟨position, below⟩) else onTop action

/-- Read something off the forest at a position. -/
def reading (read : {m : Nat} → Forest K m → Except Error α) (position : Fin n) :
    FamilyM K n α :=
  within (do read (← get)) position

end Family

end SetForest
