import SetForest.Operands

/-!
# Elements

A member of a set is a key together with one index per child forest.  In a
forest without children an element is just its key.  In a forest with children
a set is thus a finite map from keys to tuples of sets that the children store.

Sets are ordered by key alone, while the identity of an element covers its
child indices too.  Two elements with one key and different child indices are
different elements, and no well-formed set holds both.
-/

namespace SetForest

/-- A key with the index that it has in each child forest. -/
structure Element (K : Type) where
  key : K
  children : List Index
deriving DecidableEq, Repr

namespace Element

variable {K : Type}

/-- An element of a forest without children. -/
def flat (key : K) : Element K := ⟨key, []⟩

/-- The order of the keys of two elements, which is the order within a set. -/
def compareKeys [Ord K] (first second : Element K) : Ordering :=
  compare first.key second.key

instance [Key K] : Std.TransCmp (compareKeys (K := K)) :=
  inferInstanceAs (Std.TransCmp (compareOn Element.key))

/-- Elements are ordered by key and then by their child indices. -/
instance [Ord K] : Ord (Element K) :=
  ⟨compareLex (compareOn Element.key) (compareOn Element.children)⟩

instance [Key K] : Std.TransOrd (Element K) :=
  inferInstanceAs (Std.TransCmp (compareLex (compareOn Element.key) (compareOn Element.children)))

instance [Key K] : Std.LawfulEqOrd (Element K) where
  eq_of_compare {first second} tie := by
    obtain ⟨key, children⟩ := first
    obtain ⟨key', children'⟩ := second
    have parts : compare key key' = .eq ∧ compare children children' = .eq :=
      Ordering.then_eq_eq.1 tie
    rw [Std.LawfulEqOrd.eq_of_compare parts.1, Std.LawfulEqOrd.eq_of_compare parts.2]

instance [Key K] : Key (Element K) where

/-- A key alone, or a key with the list of its child indices. -/
def text [ToString K] (element : Element K) : String :=
  match element.children with
  | [] => toString element.key
  | children =>
    s!"({element.key} -> [" ++ ", ".intercalate (children.map toString) ++ "])"

end Element

end SetForest
