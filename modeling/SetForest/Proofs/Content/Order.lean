import SetForest.Proofs.Content.Pointwise

namespace SetForest

/-!
# The order of contents

A content lies within another if the other has all of its keys, with children
that contain the children of the first one by one.  The results of lattice
operations are related to their operands in this order, and operands that are
related determine the result.  Each law is stated for arbitrary relations on
the children, of which it asks for the same law one level down.
-/

variable {K : Type} {n : Nat}

namespace Operation.Joins

variable {operation : Operation} {children : List (Fin n)}
  {holds other : Fin n → Index → Index → Index → Prop} {first second : Option (Element K)}

/-- If children are determined by their operands, elements are. -/
theorem functional {result another : Option (Element K)}
    (childFunctional : ∀ child x y z z', holds child x y z → holds child x y z' → z = z')
    (joins : operation.Joins children holds first second result)
    (joinsAnother : operation.Joins children holds first second another) : result = another := by
  cases first with
  | none => cases second <;> exact joins.trans joinsAnother.symm
  | some first =>
      cases second with
      | none => exact joins.trans joinsAnother.symm
      | some second =>
          simp only [Joins] at joins joinsAnother
          by_cases dropped : operation = .difference ∧ children = []
          · rw [if_pos dropped] at joins joinsAnother
            exact joins.trans joinsAnother.symm
          · rw [if_neg dropped] at joins joinsAnother
            rcases joins with ⟨element, rfl, combined⟩
            rcases joinsAnother with ⟨element', rfl, combined'⟩
            refine congrArg some (Element.ext_child (combined.key.trans combined'.key.symm)
              (combined.arity.trans combined'.arity.symm) ?_)
            intro number inside
            have isChild : number < children.length := combined.arity ▸ inside
            have atChild : children[number]? = some children[number] :=
              List.getElem?_eq_getElem isChild
            exact childFunctional _ _ _ _ _ (combined.child number _ atChild)
              (combined'.child number _ atChild)

/-- An element that no union has left comes from the left operand, as it is or combined. -/
theorem exists_left {element : Element K} (notUnion : operation ≠ .union)
    (joins : operation.Joins children holds first second (some element)) :
    ∃ own, first = some own ∧
      (element = own ∨ ∃ met, Element.Combined children holds own met element) := by
  cases first with
  | none =>
      cases second with
      | none => cases joins
      | some met =>
          simp only [Joins, if_neg notUnion] at joins
          cases joins
  | some own =>
      refine ⟨own, rfl, ?_⟩
      cases second with
      | none =>
          simp only [Joins] at joins
          split at joins
          · cases joins
          · exact Or.inl (Option.some.inj joins)
      | some met =>
          simp only [Joins] at joins
          split at joins
          · cases joins
          · rcases joins with ⟨_, same, combined⟩
            cases same
            exact Or.inr ⟨met, combined⟩

/-- The operands of a commutative operation may change places. -/
theorem symm {result : Option (Element K)} (commutative : operation.isCommutative = true)
    (sameKey : ∀ x y, first = some x → second = some y → x.key = y.key)
    (childSymm : ∀ child x y z, holds child x y z → other child y x z)
    (joins : operation.Joins children holds first second result) :
    operation.Joins children other second first result := by
  cases first with
  | none =>
      cases second with
      | none => exact joins
      | some second => cases operation <;> first | exact joins | cases commutative
  | some first =>
      cases second with
      | none => cases operation <;> first | exact joins | cases commutative
      | some second =>
          simp only [Joins] at joins ⊢
          have kept : ¬(operation = .difference ∧ children = []) := by
            rintro ⟨rfl, _⟩
            cases commutative
          rw [if_neg kept] at joins ⊢
          rcases joins with ⟨element, same, combined⟩
          refine ⟨element, same, combined.key.trans (sameKey first second rfl rfl),
            combined.arity, ?_⟩
          intro number child atChild
          exact childSymm _ _ _ _ (combined.child number child atChild)

/-- What is known of the children may be weakened. -/
theorem mono {result : Option (Element K)}
    (weaken : ∀ child x y z, holds child x y z → other child x y z)
    (joins : operation.Joins children holds first second result) :
    operation.Joins children other first second result := by
  cases first with
  | none => cases second <;> exact joins
  | some first =>
      cases second with
      | none => exact joins
      | some second =>
          simp only [Joins] at joins ⊢
          by_cases dropped : operation = .difference ∧ children = []
          · rw [if_pos dropped] at joins ⊢
            exact joins
          · rw [if_neg dropped] at joins ⊢
            rcases joins with ⟨element, same, combined⟩
            exact ⟨element, same, combined.key, combined.arity, fun number child atChild =>
              weaken _ _ _ _ (combined.child number child atChild)⟩

end Operation.Joins

namespace Content

variable [Key K] {children : List (Fin n)} {holds : Fin n → Index → Index → Index → Prop}
  {within : Fin n → Index → Index → Prop} {left right content : Content K}

/-- Every key of the first content is one of the second, and the children at it
are related one by one. -/
def Within (children : List (Fin n)) (within : Fin n → Index → Index → Prop)
    (left right : Content K) : Prop :=
  ∀ key first, left.find? key = some first →
    ∃ second, right.find? key = some second ∧
      ∀ number child, children[number]? = some child →
        within child (first.child number) (second.child number)

/-- A content joins two others if its elements do, key by key. -/
def Joined (operation : Operation) (children : List (Fin n))
    (holds : Fin n → Index → Index → Index → Prop) (left right content : Content K) : Prop :=
  ∀ key, operation.Joins children holds (left.find? key) (right.find? key) (content.find? key)

theorem Joined.functional {operation : Operation} {another : Content K}
    (childFunctional : ∀ child x y z z', holds child x y z → holds child x y z' → z = z')
    (increasing : content.Increasing) (anotherIncreasing : another.Increasing)
    (joined : Joined operation children holds left right content)
    (joinedAnother : Joined operation children holds left right another) : content = another :=
  Content.ext increasing anotherIncreasing
    (fun key => (joined key).functional childFunctional (joinedAnother key))

theorem Joined.symm {operation : Operation} (commutative : operation.isCommutative = true)
    (childSymm : ∀ child x y z, holds child x y z → holds child y x z)
    (joined : Joined operation children holds left right content) :
    Joined operation children holds right left content := by
  intro key
  refine (joined key).symm commutative ?_ childSymm
  intro x y inLeft inRight
  exact (key_of_find? inLeft).trans (key_of_find? inRight).symm

/-- The left operand lies within a union. -/
theorem Joined.within_union (childRefl : ∀ child x, within child x x)
    (childWithin : ∀ child x y z, holds child x y z → within child x z)
    (joined : Joined .union children holds left right content) :
    Within children within left content := by
  intro key first inLeft
  have joins := joined key
  rw [inLeft] at joins
  cases inRight : right.find? key with
  | none =>
      rw [inRight] at joins
      exact ⟨first, joins, fun _ child _ => childRefl child _⟩
  | some second =>
      rw [inRight] at joins
      rcases joins with ⟨element, found, combined⟩
      exact ⟨element, found, fun number child atChild =>
        childWithin child _ _ _ (combined.child number child atChild)⟩

/-- What is no union lies within its left operand. -/
theorem Joined.within_left {operation : Operation} (notUnion : operation ≠ .union)
    (childRefl : ∀ child x, within child x x)
    (childWithin : ∀ child x y z, holds child x y z → within child z x)
    (joined : Joined operation children holds left right content) :
    Within children within content left := by
  intro key element found
  have joins := joined key
  rw [found] at joins
  rcases joins.exists_left notUnion with ⟨first, inLeft, rfl | ⟨second, combined⟩⟩
  · exact ⟨element, inLeft, fun _ child _ => childRefl child _⟩
  · exact ⟨first, inLeft, fun number child atChild =>
      childWithin child _ _ _ (combined.child number child atChild)⟩

/-- The union with a content that contains the other is that content. -/
theorem Within.joined_union (childUnion : ∀ child x y, within child x y → holds child x y y)
    (arity : right.HasArity children.length) (included : Within children within left right) :
    Joined .union children holds left right right := by
  intro key
  cases inLeft : left.find? key with
  | none => cases right.find? key <;> rfl
  | some first =>
      rcases included key first inLeft with ⟨second, inRight, childrenWithin⟩
      rw [inRight]
      exact ⟨second, rfl, (key_of_find? inRight).trans (key_of_find? inLeft).symm,
        arity.of_find? inRight, fun number child atChild =>
          childUnion child _ _ (childrenWithin number child atChild)⟩

/-- The intersection with a content that contains the other is the other. -/
theorem Within.joined_intersection
    (childIntersection : ∀ child x y, within child x y → holds child x y x)
    (arity : left.HasArity children.length) (included : Within children within left right) :
    Joined .intersection children holds left right left := by
  intro key
  cases inLeft : left.find? key with
  | none => cases right.find? key <;> rfl
  | some first =>
      rcases included key first inLeft with ⟨second, inRight, childrenWithin⟩
      rw [inRight]
      exact ⟨first, rfl, rfl, arity.of_find? inLeft, fun number child atChild =>
        childIntersection child _ _ (childrenWithin number child atChild)⟩

/-- Contents that lie within each other are the same. -/
theorem Within.antisymm (childAntisymm : ∀ child x y, within child x y → within child y x → x = y)
    (leftIncreasing : left.Increasing) (rightIncreasing : right.Increasing)
    (leftArity : left.HasArity children.length) (rightArity : right.HasArity children.length)
    (included : Within children within left right)
    (includes : Within children within right left) : left = right := by
  apply Content.ext leftIncreasing rightIncreasing
  intro key
  cases inLeft : left.find? key with
  | none =>
      cases inRight : right.find? key with
      | none => rfl
      | some second =>
          rcases includes key second inRight with ⟨first, found, _⟩
          rw [inLeft] at found
          cases found
  | some first =>
      rcases included key first inLeft with ⟨second, inRight, forth⟩
      rcases includes key second inRight with ⟨first', found, back⟩
      rw [inLeft] at found
      cases found
      rw [inRight]
      refine congrArg some (Element.ext_child
        ((key_of_find? inLeft).trans (key_of_find? inRight).symm)
        ((leftArity.of_find? inLeft).trans (rightArity.of_find? inRight).symm) ?_)
      intro number inside
      have isChild : number < children.length := leftArity.of_find? inLeft ▸ inside
      have atChild : children[number]? = some children[number] :=
        List.getElem?_eq_getElem isChild
      exact childAntisymm _ _ _ (forth number _ atChild) (back number _ atChild)

/-- A part of a content lies within it. -/
theorem within_of_sublist (childRefl : ∀ child x, within child x x)
    (increasing : right.Increasing) (part : left.Sublist right) :
    Within children within left right := by
  intro key element found
  rcases (find?_eq_some_iff (increasing_sublist part increasing)).mp found with ⟨member, here⟩
  exact ⟨element, (find?_eq_some_iff increasing).mpr ⟨part.subset member, here⟩,
    fun _ child _ => childRefl child _⟩

/-- Without child forests, what a difference leaves as it is shares no key with
the other operand, so nothing is in both. -/
theorem Joined.disjoint {other : Fin n → Index → Index → Index → Prop}
    (flat : children = []) (joined : Joined .difference children holds left right left) :
    Joined .intersection children other left right [] := by
  intro key
  cases inLeft : left.find? key with
  | none => cases right.find? key <;> rfl
  | some first =>
      cases inRight : right.find? key with
      | none => rfl
      | some second =>
          have joins := joined key
          rw [inLeft, inRight] at joins
          simp only [Operation.Joins] at joins
          rw [if_pos ⟨trivial, flat⟩] at joins
          cases joins

end Content

end SetForest
