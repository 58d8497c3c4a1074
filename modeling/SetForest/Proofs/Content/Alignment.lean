import Mathlib.Data.List.Forall2
import SetForest.Forest.Alignment
import SetForest.Proofs.Content.Lookup

namespace SetForest

/-!
# Alignments as finite maps

The walk of an alignment is described by its lookups.  What it leaves at a key
depends only on what the two contents have at that key, and `Content.cellAt` is
that dependence.  The proof follows the walk: each of its steps decides one key,
and all that is left to align lies above that key (`Aligned.step`).

The second half says what the cells become once their calls are answered,
whatever the answers are known to satisfy.
-/

variable {K : Type} {n : Nat}

/-- The key of the element that a cell becomes. -/
def Cell.key : Cell K n → K
  | kept element => element.key
  | joined key _ => key

namespace Content

/-- The cell for a key, by the elements that the two contents have there. -/
def cellAt (operation : Operation) (children : List (Fin n)) :
    Option (Element K) → Option (Element K) → Option (Cell K n)
  | some first, some second =>
    if operation = .difference ∧ children = [] then none else some (.join children first second)
  | some first, none => if operation = .intersection then none else some (.kept first)
  | none, some second => if operation = .union then some (.kept second) else none
  | none, none => none

variable [Key K] {operation : Operation} {children : List (Fin n)} {left right : Content K}
  {left' right' : Content K} {cells : List (Cell K n)} {key : K}

theorem key_of_cellAt {cell : Cell K n}
    (found : cellAt operation children (left.find? key) (right.find? key) = some cell) :
    cell.key = key := by
  cases inLeft : left.find? key with
  | none =>
      cases inRight : right.find? key with
      | none =>
          rw [inLeft, inRight] at found
          cases found
      | some second =>
          rw [inLeft, inRight, cellAt] at found
          split at found <;> cases found
          exact key_of_find? inRight
  | some first =>
      cases inRight : right.find? key with
      | none =>
          rw [inLeft, inRight, cellAt] at found
          split at found <;> cases found
          exact key_of_find? inLeft
      | some second =>
          rw [inLeft, inRight, cellAt] at found
          split at found <;> cases found
          exact key_of_find? inLeft

/-- The cells stand in the order of their keys, and each key has the cell that
the elements of the two contents call for. -/
structure Aligned (operation : Operation) (children : List (Fin n)) (left right : Content K)
    (cells : List (Cell K n)) : Prop where
  increasing : Keyed.Increasing Cell.key cells
  find?_eq : ∀ key, Keyed.find? Cell.key key cells =
    cellAt operation children (left.find? key) (right.find? key)

/-- The contents have nothing at a key unless it lies above the given one. -/
def Above (bound : K) (content : Content K) : Prop :=
  ∀ key, compare bound key ≠ .lt → content.find? key = none

theorem above_nil (bound : K) : Above bound ([] : Content K) :=
  fun _ _ => rfl

theorem Above.find?_eq_none {bound : K} {content : Content K} (above : Above bound content) :
    content.find? bound = none := by
  apply above bound
  rw [Std.ReflOrd.compare_self]
  exact nofun

/-- What follows an element of an increasing content lies above its key. -/
theorem above_rest {first : Element K} {rest : Content K}
    (increasing : Increasing (first :: rest)) : Above first.key rest := by
  intro key notBelow
  refine Keyed.Increasing.find?_rest_eq_none increasing ?_
  intro above
  exact notBelow (Std.OrientedCmp.lt_of_gt above)

/-- An increasing content lies above every key that is below its first. -/
theorem above_of_lt {first : Element K} {rest : Content K} {bound : K}
    (increasing : Increasing (first :: rest)) (below : compare bound first.key = .lt) :
    Above bound (first :: rest) := by
  intro key notBelow
  refine Keyed.Increasing.find?_eq_none_of_lt increasing ?_
  have notAbove : (compare key bound).isLE := by
    cases order : compare key bound with
    | lt => rfl
    | eq => rfl
    | gt => exact absurd (Std.OrientedCmp.lt_of_gt order) notBelow
  exact Std.TransCmp.lt_of_isLE_of_lt notAbove below

theorem Aligned.nil : Aligned operation children ([] : Content K) [] [] where
  increasing := List.Pairwise.nil
  find?_eq := fun _ => rfl

/-- One key more is decided.  The rest of the walk is about the keys above it,
and the contents differ from the rest at that key alone. -/
theorem Aligned.step (aligned : Aligned operation children left' right' cells) (bound : K)
    (leftAbove : Above bound left') (rightAbove : Above bound right')
    (leftElsewhere : ∀ key, bound ≠ key → left.find? key = left'.find? key)
    (rightElsewhere : ∀ key, bound ≠ key → right.find? key = right'.find? key) :
    Aligned operation children left right
      ((cellAt operation children (left.find? bound) (right.find? bound)).toList ++ cells) := by
  have absent : ∀ key, compare bound key ≠ .lt → Keyed.find? Cell.key key cells = none := by
    intro key notBelow
    rw [aligned.find?_eq key, leftAbove key notBelow, rightAbove key notBelow]
    rfl
  constructor
  · cases decided : cellAt operation children (left.find? bound) (right.find? bound) with
    | none => exact aligned.increasing
    | some cell =>
        refine List.pairwise_cons.mpr ⟨?_, aligned.increasing⟩
        intro later member
        rw [key_of_cellAt decided]
        by_contra notBelow
        have found := aligned.increasing.find?_of_mem member
        rw [absent later.key notBelow] at found
        cases found
  · intro key
    by_cases here : bound = key
    · subst key
      cases decided : cellAt operation children (left.find? bound) (right.find? bound) with
      | none =>
          apply absent bound
          rw [Std.ReflOrd.compare_self]
          exact nofun
      | some cell => exact Keyed.find?_cons_self (key_of_cellAt decided)
    · rw [leftElsewhere key here, rightElsewhere key here, ← aligned.find?_eq key]
      cases decided : cellAt operation children (left.find? bound) (right.find? bound) with
      | none => rfl
      | some cell =>
          refine Keyed.find?_cons_of_ne ?_
          rw [key_of_cellAt decided]
          exact here

theorem find?_cons_self (first : Element K) (rest : Content K) :
    Content.find? (first :: rest) first.key = some first :=
  Keyed.find?_cons_self rfl

theorem find?_cons_of_ne {first : Element K} (elsewhere : first.key ≠ key) (rest : Content K) :
    Content.find? (first :: rest) key = rest.find? key :=
  Keyed.find?_cons_of_ne elsewhere

/-- Alone, the right content is kept by a union and dropped otherwise. -/
theorem aligned_right (operation : Operation) (children : List (Fin n))
    (increasing : right.Increasing) :
    Aligned operation children [] right
      (if operation = .union then right.map .kept else []) := by
  induction right with
  | nil =>
      rw [List.map_nil, ite_self]
      exact Aligned.nil
  | cons second right ih =>
      have aligned := (ih increasing.tail).step second.key (above_nil _) (above_rest increasing)
        (fun _ _ => rfl) (fun key elsewhere => find?_cons_of_ne elsewhere right)
      rw [find?_cons_self] at aligned
      by_cases isUnion : operation = .union
      · simpa [cellAt, Content.find?, isUnion] using aligned
      · simpa [cellAt, Content.find?, isUnion] using aligned

/-- Alone, the left content is dropped by an intersection and kept otherwise. -/
theorem aligned_left (operation : Operation) (children : List (Fin n))
    (increasing : left.Increasing) :
    Aligned operation children left []
      (if operation = .intersection then [] else left.map .kept) := by
  induction left with
  | nil =>
      rw [List.map_nil, ite_self]
      exact Aligned.nil
  | cons first left ih =>
      have aligned := (ih increasing.tail).step first.key (above_rest increasing) (above_nil _)
        (fun key elsewhere => find?_cons_of_ne elsewhere left) (fun _ _ => rfl)
      rw [find?_cons_self] at aligned
      by_cases isIntersection : operation = .intersection
      · simpa [cellAt, Content.find?, isIntersection] using aligned
      · simpa [cellAt, Content.find?, isIntersection] using aligned

/-- The walk for one element on the left is right if the one after it is. -/
theorem aligned_alignAfter {first : Element K} {rest : Content K}
    {later : Content K → List (Cell K n)} (leftIncreasing : Increasing (first :: rest))
    (laterAligned : ∀ right : Content K, right.Increasing →
      Aligned operation children rest right (later right))
    (rightIncreasing : right.Increasing) :
    Aligned operation children (first :: rest) right
      (alignAfter operation children first rest later right) := by
  induction right with
  | nil => exact aligned_left operation children leftIncreasing
  | cons second right ih =>
      have leftElsewhere : ∀ key, first.key ≠ key →
          Content.find? (first :: rest) key = rest.find? key :=
        fun key elsewhere => find?_cons_of_ne elsewhere rest
      have rightElsewhere : ∀ key, second.key ≠ key →
          Content.find? (second :: right) key = Content.find? right key :=
        fun key elsewhere => find?_cons_of_ne elsewhere right
      unfold alignAfter
      cases order : first.compareKeys second with
      | lt =>
          have rightAbove := above_of_lt rightIncreasing order
          have aligned := (laterAligned _ rightIncreasing).step first.key
            (above_rest leftIncreasing) rightAbove leftElsewhere (fun _ _ => rfl)
          rw [find?_cons_self, rightAbove.find?_eq_none] at aligned
          by_cases isIntersection : operation = .intersection
          · simpa [cellAt, isIntersection] using aligned
          · simpa [cellAt, isIntersection] using aligned
      | gt =>
          have leftAbove := above_of_lt leftIncreasing (Std.OrientedCmp.lt_of_gt order)
          have aligned := (ih rightIncreasing.tail).step second.key
            leftAbove (above_rest rightIncreasing) (fun _ _ => rfl) rightElsewhere
          rw [find?_cons_self, leftAbove.find?_eq_none] at aligned
          by_cases isUnion : operation = .union
          · simpa [cellAt, isUnion] using aligned
          · simpa [cellAt, isUnion] using aligned
      | eq =>
          have sameKey : first.key = second.key := Std.LawfulEqOrd.eq_of_compare order
          have aligned := (laterAligned _ rightIncreasing.tail).step first.key
            (above_rest leftIncreasing) (sameKey ▸ above_rest rightIncreasing) leftElsewhere
            (sameKey ▸ rightElsewhere)
          rw [find?_cons_self, sameKey, find?_cons_self] at aligned
          by_cases dropped : operation = .difference ∧ children = []
          · simpa [cellAt, dropped] using aligned
          · simpa [cellAt, dropped] using aligned

/-- The walk through two increasing contents leaves at every key the cell that
the elements there call for. -/
theorem aligned_align (operation : Operation) (children : List (Fin n))
    (leftIncreasing : left.Increasing) (rightIncreasing : right.Increasing) :
    Aligned operation children left right (align operation children left right) := by
  induction left generalizing right with
  | nil => exact aligned_right operation children rightIncreasing
  | cons first rest ih =>
      exact aligned_alignAfter leftIncreasing
        (fun right increasing => ih leftIncreasing.tail increasing) rightIncreasing

end Content

end SetForest
