import SetForest.Content.Basic

namespace SetForest

/-!
# Contents as finite maps

A list that is strictly increasing by key has at most one member for each key,
and is determined by the members that its keys have.  The lookup by key is
therefore a complete view of it, and what an operation does to a content is
stated by one equation on lookups.

The notions are stated for any type whose members have keys, since the cells of
an alignment are looked up in the same way as the elements of a content.
-/

variable {α K : Type} [Key K]

namespace Keyed

/-- Every member has a smaller key than all that follow it. -/
def Increasing (keyOf : α → K) (values : List α) : Prop :=
  values.Pairwise (fun first second => compare (keyOf first) (keyOf second) = .lt)

/-- The first member with a key. -/
def find? (keyOf : α → K) (key : K) (values : List α) : Option α :=
  values.find? (fun value => Key.same (keyOf value) key)

variable {keyOf : α → K} {key : K} {values rest : List α} {value first : α}

@[simp] theorem find?_nil : find? keyOf key [] = none := rfl

theorem find?_cons_self (here : keyOf first = key) :
    find? keyOf key (first :: rest) = some first :=
  List.find?_cons_of_pos ((Key.same_iff _ _).mpr here)

theorem find?_cons_of_ne (elsewhere : keyOf first ≠ key) :
    find? keyOf key (first :: rest) = find? keyOf key rest :=
  List.find?_cons_of_neg (fun same => elsewhere ((Key.same_iff _ _).mp same))

theorem key_of_find? (found : find? keyOf key values = some value) : keyOf value = key := by
  have same := List.find?_some found
  exact (Key.same_iff _ _).mp same

theorem mem_of_find? (found : find? keyOf key values = some value) : value ∈ values :=
  List.mem_of_find?_eq_some found

theorem find?_eq_none_iff :
    find? keyOf key values = none ↔ ∀ value ∈ values, keyOf value ≠ key := by
  simp [find?, Key.same_iff]

theorem compare_ne_of_lt {left right : K} (less : compare left right = .lt) : left ≠ right := by
  rintro rfl
  rw [Std.ReflOrd.compare_self] at less
  cases less

namespace Increasing

theorem tail (increasing : Increasing keyOf (first :: rest)) : Increasing keyOf rest :=
  (List.pairwise_cons.mp increasing).2

/-- Nothing after the first member has its key, or a smaller one. -/
theorem find?_rest_eq_none (increasing : Increasing keyOf (first :: rest))
    (notAbove : compare key (keyOf first) ≠ .gt) : find? keyOf key rest = none := by
  rw [find?_eq_none_iff]
  intro later member same
  have above := (List.pairwise_cons.mp increasing).1 later member
  rw [same] at above
  exact notAbove (Std.OrientedCmp.gt_of_lt above)

/-- A key below that of the first member belongs to no member. -/
theorem find?_eq_none_of_lt (increasing : Increasing keyOf (first :: rest))
    (below : compare key (keyOf first) = .lt) : find? keyOf key (first :: rest) = none := by
  rw [find?_cons_of_ne (Ne.symm (compare_ne_of_lt below))]
  apply increasing.find?_rest_eq_none
  rw [below]
  exact nofun

/-- Each member is the one that its key is looked up as. -/
theorem find?_of_mem (increasing : Increasing keyOf values) (member : value ∈ values) :
    find? keyOf (keyOf value) values = some value := by
  induction values with
  | nil => cases member
  | cons first rest ih =>
      rcases List.mem_cons.mp member with rfl | later
      · exact find?_cons_self rfl
      · have below := (List.pairwise_cons.mp increasing).1 value later
        rw [find?_cons_of_ne (compare_ne_of_lt below)]
        exact ih increasing.tail later

theorem find?_eq_some_iff (increasing : Increasing keyOf values) :
    find? keyOf key values = some value ↔ value ∈ values ∧ keyOf value = key := by
  constructor
  · intro found
    exact ⟨mem_of_find? found, key_of_find? found⟩
  · rintro ⟨member, rfl⟩
    exact increasing.find?_of_mem member

/-- Two increasing lists with the same lookups are the same list. -/
theorem ext {left right : List α} (leftIncreasing : Increasing keyOf left)
    (rightIncreasing : Increasing keyOf right)
    (agree : ∀ key, find? keyOf key left = find? keyOf key right) : left = right := by
  induction left generalizing right with
  | nil =>
      cases right with
      | nil => rfl
      | cons first rest =>
          have found := agree (keyOf first)
          rw [find?_cons_self rfl] at found
          cases found
  | cons first left ih =>
      cases right with
      | nil =>
          have found := agree (keyOf first)
          rw [find?_cons_self rfl] at found
          cases found
      | cons second right =>
          have atFirst := agree (keyOf first)
          have atSecond := agree (keyOf second)
          rw [find?_cons_self rfl] at atFirst atSecond
          -- The smaller of the two first keys would be missing on the other side.
          cases order : compare (keyOf first) (keyOf second) with
          | lt =>
              rw [rightIncreasing.find?_eq_none_of_lt order] at atFirst
              cases atFirst
          | gt =>
              rw [leftIncreasing.find?_eq_none_of_lt (Std.OrientedCmp.lt_of_gt order)] at atSecond
              cases atSecond
          | eq =>
              have sameKey : keyOf second = keyOf first :=
                (Std.LawfulEqOrd.eq_of_compare order).symm
              rw [find?_cons_self sameKey] at atFirst
              rcases Option.some.inj atFirst with rfl
              refine congrArg (first :: ·) (ih leftIncreasing.tail rightIncreasing.tail ?_)
              intro key
              by_cases here : keyOf first = key
              · subst key
                have notAbove : compare (keyOf first) (keyOf first) ≠ .gt := by
                  rw [Std.ReflOrd.compare_self]
                  exact nofun
                rw [leftIncreasing.find?_rest_eq_none notAbove,
                  rightIncreasing.find?_rest_eq_none notAbove]
              · rw [← find?_cons_of_ne here, agree key, find?_cons_of_ne here]

end Increasing

end Keyed

namespace Content

/-- The element of a content with a key. -/
def find? (content : Content K) (key : K) : Option (Element K) :=
  Keyed.find? Element.key key content

/-- Two contents with the same element for every key are the same. -/
theorem ext {left right : Content K} (leftIncreasing : left.Increasing)
    (rightIncreasing : right.Increasing) (agree : ∀ key, left.find? key = right.find? key) :
    left = right :=
  Keyed.Increasing.ext leftIncreasing rightIncreasing agree

theorem find?_eq_some_iff {content : Content K} (increasing : content.Increasing) {key : K}
    {element : Element K} :
    content.find? key = some element ↔ element ∈ content ∧ element.key = key :=
  Keyed.Increasing.find?_eq_some_iff increasing

theorem key_of_find? {content : Content K} {key : K} {element : Element K}
    (found : content.find? key = some element) : element.key = key :=
  Keyed.key_of_find? found

theorem mem_of_find? {content : Content K} {key : K} {element : Element K}
    (found : content.find? key = some element) : element ∈ content :=
  Keyed.mem_of_find? found

/-- Two contents with the same members are the same. -/
theorem ext_mem {left right : Content K} (leftIncreasing : left.Increasing)
    (rightIncreasing : right.Increasing) (agree : ∀ element, element ∈ left ↔ element ∈ right) :
    left = right := by
  apply Content.ext leftIncreasing rightIncreasing
  intro key
  apply Option.ext
  intro element
  rw [find?_eq_some_iff leftIncreasing, find?_eq_some_iff rightIncreasing, agree]

end Content

end SetForest
