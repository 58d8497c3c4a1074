import SetForest.Operands

/-!
# Errors

Every error is a mistake of the caller: a list that is no set, an index that
was never handed out, or a set whose content was dropped and that nothing has
computed again.  The constructors hold the cause, `message` holds the wording.
-/

namespace SetForest

/-- Why a list of elements is not strictly increasing by key.  A position is
that of the later of the two elements at fault. -/
inductive Violation where
  | unsorted (position : Nat)
  | duplicateKey (position : Nat)
deriving DecidableEq, Repr

def Violation.message : Violation → String
  | .unsorted position => s!"element at position {position} is not ordered after its predecessor"
  | .duplicateKey position => s!"element at position {position} repeats the key of its predecessor"

/-- Why an operation of a forest gave no answer. -/
inductive Error where
  | integrity (violation : Violation)
  | outOfRange (index : Index) (size : Nat)
  | evicted (index : Index)
  | emptySetEviction
  | noSuchChild (child : Nat) (arity : Nat)
deriving DecidableEq, Repr

def Error.message : Error → String
  | .integrity violation => "property set integrity violated: " ++ violation.message
  | .outOfRange index size => s!"index {index} is out of range for a forest holding {size} sets"
  | .evicted index => s!"set {index} is evicted and no operation can rebuild it here"
  | .emptySetEviction => "the empty set cannot be evicted"
  | .noSuchChild child arity =>
    s!"child forest {child} requested from a forest with {arity} children"

end SetForest
