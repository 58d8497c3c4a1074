import SetForest.Forest.Basic

/-!
# Registration

Registering a content yields its index, and equal contents get equal indices.
A registration counts as a hit if the content was stored before, as a cold miss
if it was not, and as an empty hit if there was nothing to store.
-/

namespace SetForest

/-- Accept a content that is strictly increasing by key. -/
def Content.check {K : Type} [Key K] (content : Content K) : Except Error Unit :=
  match content.violation? with
  | none => .ok ()
  | some violation => .error (.integrity violation)

namespace Forest

variable {K : Type} [Key K] {n : Nat}

/-- Register a content.  Its order is checked if the configuration says so. -/
def registerSet (content : Content K) : ForestM K n Registered := do
  modify (note · .registration)
  if (← get).config.integrityChecks then content.check
  if content.isEmpty then
    modify (tallyRegistration · .emptyHit)
    return ⟨Index.empty, false⟩
  else
    let registered ← modifyGet (intern · content)
    modify (tallyRegistration · (if registered.cold then .coldMiss else .hit))
    return registered

/-- Register the set of one element.  There is nothing to check. -/
def registerSingle (element : Element K) : StateM (Forest K n) Registered := do
  let registered ← modifyGet (intern · [element])
  modify (tallyRegistration · (if registered.cold then .coldMiss else .hit))
  return registered

/-- Register a collection in any order and with repetitions.  It is brought into
canonical order first, and the result is always checked. -/
def registerUnordered (elements : List (Element K)) : ForestM K n Registered := do
  let content := Content.prepare elements
  content.check
  registerSet content

end Forest

end SetForest
