import Mathlib.Order.BooleanAlgebra.Set
import SetForest.Proofs.Content.Order

namespace SetForest

/-!
# Contents as sets

A content has a set of members and a set of keys.  For both there is an equation
on sets that says what a lattice operation does.  The members are joined as sets
where elements have no children.  The keys always are, except that a difference
keeps all keys of its left operand where elements do have children.
-/

variable {K : Type} {n : Nat}

namespace Operation

/-- The operation on sets. -/
def onSets {α : Type} : Operation → Set α → Set α → Set α
  | union, left, right => left ∪ right
  | intersection, left, right => left ∩ right
  | difference, left, right => left \ right

theorem onSets_self {α : Type} (operation : Operation) (values : Set α) :
    operation.onSets values values = if operation = .difference then ∅ else values := by
  cases operation with
  | union => exact Set.union_self values
  | intersection => exact Set.inter_self values
  | difference => exact Set.sdiff_self

namespace Joins

variable {children : List (Fin n)} {holds : Fin n → Index → Index → Index → Prop}
  {first second result : Option (Element K)}

theorem isSome_union_iff (joins : union.Joins children holds first second result) :
    result.isSome ↔ first.isSome ∨ second.isSome := by
  cases first with
  | none => cases second <;> rw [show result = _ from joins] <;> simp
  | some first =>
      cases second with
      | none =>
          rw [show result = _ from joins]
          simp
      | some second =>
          rcases joins with ⟨element, rfl, _⟩
          simp

theorem isSome_intersection_iff (joins : intersection.Joins children holds first second result) :
    result.isSome ↔ first.isSome ∧ second.isSome := by
  cases first with
  | none => cases second <;> rw [show result = _ from joins] <;> simp
  | some first =>
      cases second with
      | none =>
          rw [show result = _ from joins]
          simp
      | some second =>
          rcases joins with ⟨element, rfl, _⟩
          simp

theorem isSome_difference_iff (joins : difference.Joins children holds first second result) :
    result.isSome ↔ first.isSome ∧ (children = [] → second.isNone) := by
  cases first with
  | none => cases second <;> rw [show result = _ from joins] <;> simp
  | some first =>
      cases second with
      | none =>
          rw [show result = _ from joins]
          simp
      | some second =>
          simp only [Joins] at joins
          by_cases flat : children = []
          · rw [if_pos ⟨trivial, flat⟩] at joins
            rw [joins]
            simp [flat]
          · rw [if_neg (fun both => flat both.2)] at joins
            rcases joins with ⟨element, rfl, _⟩
            simp [flat]

end Joins

end Operation

namespace Content

/-- The elements of a content. -/
def members (content : Content K) : Set (Element K) :=
  {element | element ∈ content}

/-- The keys of the elements of a content. -/
def keys (content : Content K) : Set K :=
  {key | ∃ element ∈ content, element.key = key}

theorem members_nil : members ([] : Content K) = ∅ :=
  Set.eq_empty_of_forall_notMem fun _ => List.not_mem_nil

theorem keys_nil : keys ([] : Content K) = ∅ :=
  Set.eq_empty_of_forall_notMem fun _ ⟨_, member, _⟩ => List.not_mem_nil member

theorem eq_nil_of_keys {content : Content K} (none : content.keys = ∅) : content = [] := by
  cases content with
  | nil => rfl
  | cons first rest =>
      have member : first.key ∈ keys (first :: rest) := ⟨first, List.mem_cons_self, rfl⟩
      rw [none] at member
      cases member

/-- Without children, an element is its key. -/
theorem mem_members_iff_of_flat {content : Content K} (flat : content.HasArity 0)
    (element : Element K) :
    element ∈ content.members ↔ element.children = [] ∧ element.key ∈ content.keys := by
  constructor
  · intro member
    exact ⟨List.eq_nil_of_length_eq_zero (flat element member), element, member, rfl⟩
  · rintro ⟨noChildren, other, member, sameKey⟩
    have same : other = element :=
      Element.eq_of_flat sameKey (flat other member) (congrArg List.length noChildren)
    exact same ▸ member

variable [Key K] {children : List (Fin n)} {operation : Operation}
  {holds : Fin n → Index → Index → Index → Prop} {left right content : Content K}

theorem mem_keys_iff (content : Content K) (key : K) :
    key ∈ content.keys ↔ (content.find? key).isSome := by
  rw [Option.isSome_iff_ne_none, ne_eq, find?, Keyed.find?_eq_none_iff]
  simp [keys]

/-- The keys of a result. -/
theorem Joined.keys_eq (joined : Joined operation children holds left right content) :
    content.keys = if operation = .difference ∧ children ≠ [] then left.keys
      else operation.onSets left.keys right.keys := by
  ext key
  have inContent := content.mem_keys_iff key
  have inLeft := left.mem_keys_iff key
  have inRight := right.mem_keys_iff key
  cases operation with
  | union =>
      rw [if_neg (by simp), inContent, (joined key).isSome_union_iff, ← inLeft, ← inRight]
      rfl
  | intersection =>
      rw [if_neg (by simp), inContent, (joined key).isSome_intersection_iff, ← inLeft, ← inRight]
      rfl
  | difference =>
      rw [inContent, (joined key).isSome_difference_iff, ← inLeft]
      by_cases flat : children = []
      · rw [if_neg (fun both => both.2 flat), Option.isNone_iff_eq_none,
          ← Option.not_isSome_iff_eq_none, ← inRight]
        exact and_congr_right fun _ => ⟨fun absent => absent flat, fun absent _ => absent⟩
      · rw [if_pos ⟨rfl, flat⟩]
        exact and_iff_left fun isFlat => absurd isFlat flat

/-- The members of a result, where elements have no children. -/
theorem Joined.members_eq (joined : Joined operation [] holds left right content)
    (leftFlat : left.HasArity 0) (rightFlat : right.HasArity 0) (flat : content.HasArity 0) :
    content.members = operation.onSets left.members right.members := by
  have keys := joined.keys_eq
  rw [if_neg (fun both => both.2 rfl)] at keys
  ext element
  have inContent := mem_members_iff_of_flat flat element
  have inLeft := mem_members_iff_of_flat leftFlat element
  have inRight := mem_members_iff_of_flat rightFlat element
  rw [keys] at inContent
  rw [inContent]
  cases operation with
  | union =>
      change _ ∧ (_ ∨ _) ↔ _ ∨ _
      rw [inLeft, inRight, and_or_left]
  | intersection =>
      change _ ∧ (_ ∧ _) ↔ _ ∧ _
      rw [inLeft, inRight, and_and_left]
  | difference =>
      change _ ∧ (_ ∧ ¬_) ↔ _ ∧ ¬_
      rw [inLeft, inRight]
      by_cases noChildren : element.children = []
      · simp [noChildren]
      · simp [noChildren]

end Content

end SetForest
