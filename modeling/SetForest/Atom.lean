import SetForest.Element

/-!
# Atoms

The keys of a session are numbers and texts.  A forest holds one of the two
kinds, and within a kind numbers are ordered by value and texts by their code
points.  Between the kinds, numbers come first.
-/

namespace SetForest

/-- A number of 64 bits with a sign, or a text. -/
inductive Atom where
  | number (value : Int64)
  | text (value : String)
deriving DecidableEq, Repr

namespace Atom

/-- The place of the kind of an atom. -/
def rank : Atom → Nat
  | number _ => 0
  | text _ => 1

/-- The value of a number, and zero for a text. -/
def numberPart : Atom → Int64
  | number value => value
  | text _ => 0

/-- The value of a text, and the empty text for a number. -/
def textPart : Atom → String
  | number _ => ""
  | text value => value

instance : Ord Atom :=
  ⟨compareLex (compareOn rank) (compareLex (compareOn numberPart) (compareOn textPart))⟩

instance : Std.TransOrd Atom :=
  inferInstanceAs (Std.TransCmp
    (compareLex (compareOn rank) (compareLex (compareOn numberPart) (compareOn textPart))))

instance : Std.LawfulEqOrd Atom where
  eq_of_compare {first second} tie := by
    have parts := Ordering.then_eq_eq.1 tie
    have values := Ordering.then_eq_eq.1 parts.2
    have ranks : rank first = rank second := Std.LawfulEqOrd.eq_of_compare parts.1
    have numbers : numberPart first = numberPart second := Std.LawfulEqOrd.eq_of_compare values.1
    have texts : textPart first = textPart second := Std.LawfulEqOrd.eq_of_compare values.2
    cases first <;> cases second <;> simp_all [rank, numberPart, textPart]

instance : Key Atom where

/-- A number in decimal digits, a text as it is. -/
instance : ToString Atom where
  toString
    | number value => toString value.toInt
    | text value => value

end Atom

/-- A condition on the elements of a set, as a user states it. -/
inductive Predicate where
  | all
  | none
  | below (bound : Atom)
  | atLeast (bound : Atom)
  /-- The key is a number with the given remainder, which is never negative. -/
  | residue (modulus remainder : Int)
  | startsWith (start : String)
  | childEmpty (child : Nat)
deriving DecidableEq, Repr

/-- Whether an element meets a condition.  A condition on numbers fails for
texts, and one on texts fails for numbers. -/
def Predicate.holds : Predicate → Element Atom → Bool
  | all, _ => true
  | none, _ => false
  | below bound, element => compare element.key bound == .lt
  | atLeast bound, element => compare element.key bound != .lt
  | residue modulus remainder, element =>
    match element.key with
    | .number value => value.toInt % modulus == remainder
    | .text _ => false
  | startsWith start, element =>
    match element.key with
    | .number _ => false
    | .text value => start.toList.isPrefixOf value.toList
  | childEmpty child, element => element.children[child]? == some Index.empty

end SetForest
