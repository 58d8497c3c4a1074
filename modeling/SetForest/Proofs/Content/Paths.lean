import Mathlib.Order.BooleanAlgebra.Set
import SetForest.Proofs.Content.Order

namespace SetForest

/-!
# Paths through contents

A path leads from a set to one of its keys, or through a child of an element to a key
further down.  The paths of a content say everything about it, as far as those of its
children do (`Content.ext_paths`).

A union has the paths of either operand, and an intersection those of both.  A
difference is less definite, because it keeps a key that both operands have if
elements have children.  It has the paths of its left operand alone, and none that
the left operand has not (`Content.Joined.bounds`).
-/

/-- The way from a set to a key, of that set or of one below it. -/
inductive Path (K : Type) where
  | here (key : K)
  | down (key : K) (number : Nat) (rest : Path K)

variable {K : Type} {n : Nat}

/-- The key of the element that a path starts with. -/
def Path.key : Path K → K
  | here key => key
  | down key _ _ => key

/-- What it says about a result to have a path, by whether the operands have it. -/
def Operation.Bounds : Operation → Prop → Prop → Prop → Prop
  | union, left, right, result => result ↔ left ∨ right
  | intersection, left, right, result => result ↔ left ∧ right
  | difference, left, right, result => (left ∧ ¬right → result) ∧ (result → left)

variable {children : List (Fin n)} {below : Fin n → Index → Set (Path K)}

/-- The paths of an element.  The key that a path starts with is not looked at. -/
def Element.Carries (children : List (Fin n)) (below : Fin n → Index → Set (Path K))
    (element : Element K) : Path K → Prop
  | .here _ => True
  | .down _ number rest => ∃ child, children[number]? = some child ∧
    rest ∈ below child (element.child number)

theorem Element.carries_down_iff {element : Element K} {key : K} {number : Nat} {child : Fin n}
    {rest : Path K} (atChild : children[number]? = some child) :
    element.Carries children below (.down key number rest) ↔
      rest ∈ below child (element.child number) := by
  constructor
  · rintro ⟨child', atChild', member⟩
    cases atChild.symm.trans atChild'
    exact member
  · exact fun member => ⟨child, atChild, member⟩

theorem Element.not_carries_down {element : Element K} {key : K} {number : Nat} {rest : Path K}
    (nothing : children[number]? = none) :
    ¬element.Carries children below (.down key number rest) := by
  rintro ⟨child, atChild, -⟩
  cases nothing.symm.trans atChild

/-- Whether there is an element, and it has a path. -/
def Carried (children : List (Fin n)) (below : Fin n → Index → Set (Path K))
    (element : Option (Element K)) (path : Path K) : Prop :=
  ∃ found, element = some found ∧ found.Carries children below path

@[simp] theorem not_carried_none (path : Path K) : ¬Carried children below none path :=
  fun ⟨_, absent, _⟩ => nomatch absent

@[simp] theorem carried_some {element : Element K} {path : Path K} :
    Carried children below (some element) path ↔ element.Carries children below path :=
  ⟨fun ⟨_, same, carries⟩ => Option.some.inj same ▸ carries, fun carries => ⟨_, rfl, carries⟩⟩

variable {holds : Fin n → Index → Index → Index → Prop} {operation : Operation}

/-- The paths of an element that combines two others. -/
theorem Element.Combined.bounds {first second result : Element K}
    (combined : Element.Combined children holds first second result)
    (boundsBelow : ∀ child a b r, holds child a b r → ∀ path,
      operation.Bounds (path ∈ below child a) (path ∈ below child b) (path ∈ below child r))
    (path : Path K) :
    operation.Bounds (first.Carries children below path) (second.Carries children below path)
      (result.Carries children below path) := by
  cases path with
  | here key => cases operation <;> simp [Operation.Bounds, Element.Carries]
  | down key number rest =>
      cases atChild : children[number]? with
      | none =>
          have nowhere : ∀ element : Element K,
              ¬element.Carries children below (.down key number rest) :=
            fun _ => Element.not_carries_down atChild
          cases operation <;> simp [Operation.Bounds, nowhere]
      | some child =>
          rw [Element.carries_down_iff atChild, Element.carries_down_iff atChild,
            Element.carries_down_iff atChild]
          exact boundsBelow child _ _ _ (combined.child number child atChild) rest

/-- The paths of what an operation leaves at a key. -/
theorem Operation.Joins.bounds {first second result : Option (Element K)}
    (joins : operation.Joins children holds first second result)
    (boundsBelow : ∀ child a b r, holds child a b r → ∀ path,
      operation.Bounds (path ∈ below child a) (path ∈ below child b) (path ∈ below child r))
    (path : Path K) :
    operation.Bounds (Carried children below first path) (Carried children below second path)
      (Carried children below result path) := by
  cases first with
  | none =>
      cases second <;> rw [show result = _ from joins] <;>
        cases operation <;> simp [Operation.Bounds]
  | some first =>
      cases second with
      | none =>
          rw [show result = _ from joins]
          cases operation <;> simp [Operation.Bounds]
      | some second =>
          simp only [Operation.Joins] at joins
          split at joins
          · next dropped =>
              -- Without children both elements have the key alone.
              rcases dropped with ⟨rfl, rfl⟩
              rw [joins]
              cases path <;> simp [Operation.Bounds, Element.Carries]
          · rcases joins with ⟨element, rfl, combined⟩
            rw [carried_some, carried_some, carried_some]
            exact combined.bounds boundsBelow path

/-! ## The same paths in different forests -/

section

variable {other : Fin n → Index → Set (Path K)} {key : K}

/-- The same paths start from two elements with a key, or there is neither. -/
def SamePaths (children : List (Fin n)) (below other : Fin n → Index → Set (Path K)) (key : K)
    (first second : Option (Element K)) : Prop :=
  ∀ path : Path K, path.key = key →
    (Carried children below first path ↔ Carried children other second path)

theorem samePaths_none : SamePaths children below other key none none :=
  fun path _ => iff_of_false (not_carried_none path) (not_carried_none path)

/-- Elements with the same paths have children with the same paths. -/
theorem samePaths_some_iff {first second : Element K} :
    SamePaths children below other key (some first) (some second) ↔
      ∀ number child, children[number]? = some child →
        below child (first.child number) = other child (second.child number) := by
  constructor
  · intro same number child atChild
    ext rest
    have down := same (.down key number rest) rfl
    rwa [carried_some, carried_some, Element.carries_down_iff atChild,
      Element.carries_down_iff atChild] at down
  · intro same path _
    rw [carried_some, carried_some]
    cases path with
    | here key => exact Iff.rfl
    | down key number rest =>
        cases atChild : children[number]? with
        | none =>
            exact iff_of_false (Element.not_carries_down atChild)
              (Element.not_carries_down atChild)
        | some child =>
            rw [Element.carries_down_iff atChild, Element.carries_down_iff atChild,
              same number child atChild]

/-- If there is one of two elements with the same paths, there is the other. -/
theorem SamePaths.none_or_some {first second : Option (Element K)}
    (same : SamePaths children below other key first second) :
    first = none ∧ second = none ∨ ∃ x y, first = some x ∧ second = some y := by
  have here := same (.here key) rfl
  cases first with
  | none =>
      cases second with
      | none => exact Or.inl ⟨rfl, rfl⟩
      | some second => exact absurd (here.mpr ⟨second, rfl, trivial⟩) (not_carried_none _)
  | some first =>
      cases second with
      | none => exact absurd (here.mp ⟨first, rfl, trivial⟩) (not_carried_none _)
      | some second => exact Or.inr ⟨first, second, rfl, rfl⟩

/-- What an operation leaves at a key has the same paths if it is so for what the operands
have there, and for the results of the forests below. -/
theorem Operation.Joins.samePaths {holdsOther : Fin n → Index → Index → Index → Prop}
    {first second result first' second' result' : Option (Element K)}
    (joins : operation.Joins children holds first second result)
    (joinsOther : operation.Joins children holdsOther first' second' result')
    (sameFirst : SamePaths children below other key first first')
    (sameSecond : SamePaths children below other key second second')
    (sameBelow : ∀ x ∈ first, ∀ y ∈ second, ∀ x' ∈ first', ∀ y' ∈ second', ∀ number child r r',
      children[number]? = some child → holds child (x.child number) (y.child number) r →
      holdsOther child (x'.child number) (y'.child number) r' →
      below child (x.child number) = other child (x'.child number) →
      below child (y.child number) = other child (y'.child number) →
      below child r = other child r') :
    SamePaths children below other key result result' := by
  rcases sameFirst.none_or_some with ⟨rfl, rfl⟩ | ⟨x, x', rfl, rfl⟩
  · rcases sameSecond.none_or_some with ⟨rfl, rfl⟩ | ⟨y, y', rfl, rfl⟩
    · rw [show result = _ from joins, show result' = _ from joinsOther]
      exact samePaths_none
    · rw [show result = _ from joins, show result' = _ from joinsOther]
      split
      · exact sameSecond
      · exact samePaths_none
  · rcases sameSecond.none_or_some with ⟨rfl, rfl⟩ | ⟨y, y', rfl, rfl⟩
    · rw [show result = _ from joins, show result' = _ from joinsOther]
      split
      · exact samePaths_none
      · exact sameFirst
    · simp only [Operation.Joins] at joins joinsOther
      split at joins
      · next dropped =>
          rw [if_pos dropped] at joinsOther
          rw [joins, joinsOther]
          exact samePaths_none
      · next kept =>
          rw [if_neg kept] at joinsOther
          rcases joins with ⟨element, rfl, combined⟩
          rcases joinsOther with ⟨element', rfl, combined'⟩
          rw [samePaths_some_iff] at sameFirst sameSecond ⊢
          intro number child atChild
          exact sameBelow x rfl y rfl x' rfl y' rfl number child _ _ atChild
            (combined.child number child atChild) (combined'.child number child atChild)
            (sameFirst number child atChild) (sameSecond number child atChild)

end

namespace Content

variable [Key K] {left right content : Content K}

/-- The paths of a content, by those of the sets that its children refer to. -/
def paths (children : List (Fin n)) (below : Fin n → Index → Set (Path K)) (content : Content K) :
    Set (Path K) :=
  {path | Carried children below (content.find? path.key) path}

theorem paths_nil : paths children below ([] : Content K) = ∅ :=
  Set.eq_empty_of_forall_notMem fun path => not_carried_none path

/-- The paths of a content that joins two others. -/
theorem Joined.bounds (joined : Joined operation children holds left right content)
    (boundsBelow : ∀ child a b r, holds child a b r → ∀ path,
      operation.Bounds (path ∈ below child a) (path ∈ below child b) (path ∈ below child r))
    (path : Path K) :
    operation.Bounds (path ∈ left.paths children below) (path ∈ right.paths children below)
      (path ∈ content.paths children below) :=
  (joined path.key).bounds boundsBelow path

/-- Contents have the same paths if it is so at every key. -/
theorem paths_eq_iff {other : Fin n → Index → Set (Path K)} :
    left.paths children below = right.paths children other ↔
      ∀ key, SamePaths children below other key (left.find? key) (right.find? key) := by
  constructor
  · rintro same key path rfl
    exact Set.ext_iff.mp same path
  · intro same
    ext path
    exact same path.key path rfl

/-- A content keeps its paths if the sets that its children refer to do. -/
theorem paths_congr {other : Fin n → Index → Set (Path K)}
    (same : ∀ element ∈ content, ∀ number child, children[number]? = some child →
      below child (element.child number) = other child (element.child number)) :
    content.paths children below = content.paths children other := by
  rw [paths_eq_iff]
  intro key
  cases found : content.find? key with
  | none => exact samePaths_none
  | some element =>
      rw [samePaths_some_iff]
      exact same element (mem_of_find? found)

/-- Contents with the same paths are the same, if children with the same paths are. -/
theorem ext_paths (leftIncreasing : left.Increasing) (rightIncreasing : right.Increasing)
    (leftArity : left.HasArity children.length) (rightArity : right.HasArity children.length)
    (separates : ∀ first ∈ left, ∀ second ∈ right, ∀ number child,
      children[number]? = some child →
      below child (first.child number) = below child (second.child number) →
      first.child number = second.child number)
    (same : left.paths children below = right.paths children below) : left = right := by
  refine Content.ext leftIncreasing rightIncreasing ?_
  intro key
  have atKey : ∀ path : Path K, path.key = key →
      (Carried children below (left.find? key) path ↔
        Carried children below (right.find? key) path) := by
    rintro path rfl
    exact Set.ext_iff.mp same path
  have here := atKey (.here key) rfl
  cases inLeft : left.find? key with
  | none =>
      cases inRight : right.find? key with
      | none => rfl
      | some second =>
          rw [inLeft, inRight, carried_some] at here
          exact absurd (here.mpr trivial) (not_carried_none _)
  | some first =>
      cases inRight : right.find? key with
      | none =>
          rw [inLeft, inRight, carried_some] at here
          exact absurd (here.mp trivial) (not_carried_none _)
      | some second =>
          have firstArity := leftArity.of_find? inLeft
          refine congrArg some (Element.ext_child
            ((key_of_find? inLeft).trans (key_of_find? inRight).symm)
            (firstArity.trans (rightArity.of_find? inRight).symm) ?_)
          intro number inside
          have atChild := List.getElem?_eq_getElem (firstArity ▸ inside : number < children.length)
          refine separates first (mem_of_find? inLeft) second (mem_of_find? inRight) number _
            atChild ?_
          ext rest
          have down := atKey (.down key number rest) rfl
          rw [inLeft, inRight, carried_some, carried_some, Element.carries_down_iff atChild,
            Element.carries_down_iff atChild] at down
          exact down

end Content

end SetForest
