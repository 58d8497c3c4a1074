import SetForest.Key

/-!
# Indices and pairs of operands

A forest hands out an index for every set that it stores, and index zero is the
empty set.  What a forest remembers about two sets is filed under the pair of
their indices.  Facts that do not depend on the order of the operands are filed
under the pair in index order, so that one entry serves both orders.
-/

namespace SetForest

/-- The place of a set in the forest that stores it. -/
abbrev Index := Nat

/-- The empty set, which every forest stores before anything else. -/
def Index.empty : Index := 0

/-- A pair of indices under which a result or a relation is remembered. -/
structure Operands where
  left : Index
  right : Index
deriving DecidableEq, Repr

namespace Operands

/-- Pairs are ordered by their left index, then by their right index. -/
instance : Ord Operands := ⟨compareLex (compareOn Operands.left) (compareOn Operands.right)⟩

instance : Std.TransOrd Operands :=
  inferInstanceAs (Std.TransCmp (compareLex (compareOn Operands.left) (compareOn Operands.right)))

instance : Std.LawfulEqOrd Operands where
  eq_of_compare {first second} tie := by
    obtain ⟨left, right⟩ := first
    obtain ⟨left', right'⟩ := second
    have parts : compare left left' = .eq ∧ compare right right' = .eq :=
      Ordering.then_eq_eq.1 tie
    rw [Std.LawfulEqOrd.eq_of_compare parts.1, Std.LawfulEqOrd.eq_of_compare parts.2]

instance : Key Operands where

/-- The pair with the smaller index on the left. -/
def ordered (a b : Index) : Operands :=
  if a ≤ b then ⟨a, b⟩ else ⟨b, a⟩

theorem ordered_comm (a b : Index) : ordered a b = ordered b a := by
  rcases Nat.lt_trichotomy a b with less | rfl | greater
  · simp [ordered, Nat.le_of_lt less, Nat.not_le_of_lt less]
  · rfl
  · simp [ordered, Nat.le_of_lt greater, Nat.not_le_of_lt greater]

/-- A pair between parentheses. -/
def text (pair : Operands) : String :=
  s!"({pair.left},{pair.right})"

end Operands

/-- What is known about the sets at two indices, read from left to right. -/
inductive Inclusion where
  | subset
  | superset
deriving DecidableEq, Repr

namespace Inclusion

/-- The same fact, read from right to left. -/
def flip : Inclusion → Inclusion
  | subset => superset
  | superset => subset

@[simp] theorem flip_flip (relation : Inclusion) : relation.flip.flip = relation := by
  cases relation <;> rfl

/-- The short form in which a dump shows a relation. -/
def abbreviation : Inclusion → String
  | subset => "sub"
  | superset => "sup"

end Inclusion

end SetForest
