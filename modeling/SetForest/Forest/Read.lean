import SetForest.Forest.Inclusion

/-!
# Reading

Readings leave a forest as it is.  They fail for an index that was never handed
out and for a set whose content is evicted.
-/

namespace SetForest.Forest

variable {K : Type} [Key K] {n : Nat}

/-- The number of elements of a stored set. -/
def sizeOf (forest : Forest K n) (index : Index) : Except Error Nat :=
  return (← forest.content index).length

/-- The element of a set with a given key. -/
def findKey (forest : Forest K n) (index : Index) (key : K) :
    Except Error (Option (Element K)) := do
  let content ← forest.content index
  return (content.position key forest.config.searchThreshold).bind (content[·]?)

/-- Whether a set has an element with a given key. -/
def contains (forest : Forest K n) (index : Index) (key : K) : Except Error Bool := do
  let content ← forest.content index
  return (content.position key forest.config.searchThreshold).isSome

/-- The index that the element with a given key has in a child forest.  A key
that the set does not have stands for the empty set. -/
def nestedOf (forest : Forest K n) (index : Index) (key : K) (child : Nat) :
    Except Error Index :=
  if forest.children.length ≤ child then
    .error (.noSuchChild child forest.children.length)
  else do
    match ← forest.findKey index key with
    | none => return Index.empty
    | some element => return element.children.getD child Index.empty

/-- Whether the content of a set was dropped. -/
def isEvicted (forest : Forest K n) (index : Index) : Except Error Bool := do
  forest.checkIndex index
  forest.sets.isEvicted index

/-- The text of a stored set. -/
def setText [ToString K] (forest : Forest K n) (index : Index) : Except Error String :=
  return (← forest.content index).text

end SetForest.Forest
