/-!
# Lattice operations

The three binary operations that every forest offers, with the names and the
one-letter codes by which files and reports refer to them.
-/

namespace SetForest

/-- A binary operation on sets. -/
inductive Operation where
  | union
  | intersection
  | difference
deriving DecidableEq, Repr

namespace Operation

/-- All operations, in the order in which a random choice numbers them. -/
def all : List Operation := [union, intersection, difference]

/-- Whether the operands of an operation may change places. -/
def isCommutative : Operation → Bool
  | union | intersection => true
  | difference => false

/-- The place of an operation in `all`. -/
def position (operation : Operation) : Nat :=
  all.idxOf operation

/-- Each place in `all` is the place of one operation. -/
theorem getElem?_all_eq_some_iff (place : Nat) (operation : Operation) :
    all[place]? = some operation ↔ place = operation.position := by
  constructor
  · intro found
    match place, found with
    | 0, rfl => rfl
    | 1, rfl => rfl
    | 2, rfl => rfl
  · rintro rfl
    cases operation <;> rfl

/-- The letter that stands for the operation in operation files. -/
def code : Operation → Char
  | union => 'U'
  | intersection => 'I'
  | difference => 'D'

/-- The operation that a code stands for.  A code is exactly one letter. -/
def ofCode? : List Char → Option Operation
  | ['U'] => some union
  | ['I'] => some intersection
  | ['D'] => some difference
  | _ => none

theorem ofCode?_eq_some_iff (text : List Char) (operation : Operation) :
    ofCode? text = some operation ↔ text = [operation.code] := by
  constructor
  · intro read
    unfold ofCode? at read
    split at read <;> cases read <;> rfl
  · rintro rfl
    cases operation <;> rfl

/-- The word for the operation in reports. -/
def name : Operation → String
  | union => "union"
  | intersection => "intersection"
  | difference => "difference"

end Operation

end SetForest
