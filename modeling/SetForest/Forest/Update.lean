import SetForest.Forest.Read

/-!
# Updates at one key

Stored sets never change.  An update computes a new content from a stored one
and interns it, so its result is an index again.  The results are not checked
after the fact: taking an element out of an increasing list, or putting one
into its place, leaves the list increasing.
-/

namespace SetForest.Forest

variable {K : Type} [Key K] {n : Nat}

/-- The set without its element of the given key, whatever the children of
that element are.  The result is filed as a part of the set. -/
def removeKey (index : Index) (key : K) : ForestM K n Index := do
  modify (note · .keyRemoval)
  let forest ← get
  let content ← forest.content index
  match content.position key forest.config.searchThreshold with
  | none => return index
  | some position =>
    let registered ← modifyGet (intern · (content.eraseIdx position))
    modify (fileInclusion · registered.index index)
    return registered.index

/-- The set with the given element in place of the one with its key, or in
addition if there is none. -/
def updateKey (index : Index) (element : Element K) : ForestM K n Index := do
  modify (note · .keyUpdate)
  let content ← (← get).content index
  let registered ← modifyGet (intern · (content.put element))
  return registered.index

/-- Drop the content of a set while its index stays valid.  The empty set
cannot be dropped.  Only a content that was resident counts as evicted. -/
def evict (index : Index) : ForestM K n Unit := do
  let forest ← get
  forest.checkIndex index
  if index = Index.empty then throw .emptySetEviction
  let (resident, sets) ← forest.sets.evict index
  set { forest with sets }
  if resident then
    modify fun forest =>
      let evictions := forest.counters.evictions + 1
      { forest with counters := { forest.counters with evictions } }

end SetForest.Forest
