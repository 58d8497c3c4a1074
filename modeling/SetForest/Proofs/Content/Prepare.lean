import Mathlib.Data.List.Destutter
import Mathlib.Data.List.Sort
import Mathlib.Order.Bounds.Defs
import SetForest.Proofs.Content.Flat
import SetForest.Proofs.Content.Violation

namespace SetForest

/-!
# Collections in any order

A collection is prepared by sorting its elements, by key and then by child indices, and
dropping those that repeat their predecessor (`Content.prepare_eq_destutter`).  Equal
elements are neighbours after the sorting, so that no repetition is left and the outcome
depends on the members alone.

Elements with one key and different children are both kept.  They, too, are neighbours,
and the check reports the first place where the key of the predecessor is repeated
(`Content.isLeast_of_violation?`).  If there is no such place the prepared collection is a
content, which is to say that the key of an element determines its children
(`Content.increasing_prepare_iff`).
-/

variable {K : Type} [Key K]

namespace Key

/-- The values of a list are sorted by their order, repetitions included. -/
theorem pairwise_sort (values : List K) :
    (sort values).Pairwise (fun first second => (compare first second).isLE = true) := by
  refine List.pairwise_mergeSort ?_ ?_ values
  · intro first second third
    exact Std.TransOrd.isLE_trans
  · intro first second
    cases order : compare first second with
    | lt => rfl
    | eq => rfl
    | gt =>
        rw [Std.OrientedCmp.lt_of_gt order]
        rfl

/-- To list the distinct values it is enough to sort all of them and to drop those that
repeat their predecessor. -/
theorem distinct_eq_destutter [DecidableEq K] (values : List K) :
    distinct values = (sort values).destutter (· ≠ ·) := by
  have antisymm : Std.Antisymm (fun first second : K => (compare first second).isLE = true) :=
    ⟨fun _ _ below above => Std.LawfulEqOrd.eq_of_compare (Std.OrientedCmp.isLE_antisymm below above)⟩
  have strictAntisymm : Std.Antisymm (fun first second : K => compare first second = .lt) :=
    ⟨fun _ _ below above => absurd above (Std.OrientedCmp.not_lt_of_lt below)⟩
  have irrefl : Std.Irrefl (fun first second : K => compare first second = .lt) :=
    ⟨fun _ below => Std.OrientedCmp.not_lt_of_lt below below⟩
  have sorted := pairwise_sort values
  rw [sorted.destutter_eq_dedup]
  have increasing : (sort values).dedup.Pairwise
      (fun first second => compare first second = .lt) := by
    have nodup : (sort values).dedup.Pairwise (· ≠ ·) := List.nodup_dedup _
    refine ((sorted.sublist (List.dedup_sublist _)).and nodup).imp ?_
    rintro first second ⟨notAbove, different⟩
    cases order : compare first second with
    | lt => rfl
    | eq => exact absurd (Std.LawfulEqOrd.eq_of_compare order) different
    | gt =>
        rw [order] at notAbove
        cases notAbove
  refine (pairwise_distinct values).eq_of_mem_iff increasing ?_
  intro value
  rw [mem_distinct, List.mem_dedup, sort, List.mem_mergeSort]

end Key

namespace Content

/-- The key of an element determines its children. -/
def Consistent (elements : List (Element K)) : Prop :=
  ∀ first ∈ elements, ∀ second ∈ elements, first.key = second.key →
    first.children = second.children

/-- The element at a place has the key of the one before it. -/
def RepeatsKey (content : Content K) (place : Nat) : Prop :=
  ∃ earlier previous next, place = earlier + 1 ∧ content[earlier]? = some previous ∧
    content[place]? = some next ∧ next.key = previous.key

omit [Key K] in
theorem Consistent.congr {elements others : List (Element K)} (consistent : Consistent elements)
    (agree : ∀ element, element ∈ others ↔ element ∈ elements) : Consistent others :=
  fun first inFirst second inSecond =>
    consistent first ((agree first).mp inFirst) second ((agree second).mp inSecond)

/-- Sorting and dropping repetitions is what prepares a collection. -/
theorem prepare_eq_destutter (elements : List (Element K)) [DecidableEq (Element K)] :
    prepare elements = (Key.sort elements).destutter (· ≠ ·) :=
  Key.distinct_eq_destutter elements

/-- A collection is prepared alike in any order and with any repetitions. -/
theorem prepare_congr {elements others : List (Element K)}
    (agree : ∀ element, element ∈ others ↔ element ∈ elements) :
    prepare others = prepare elements :=
  Key.distinct_congr agree

/-- What is prepared already is left as it is. -/
theorem prepare_prepare (elements : List (Element K)) :
    prepare (prepare elements) = prepare elements :=
  prepare_congr fun element => mem_prepare element elements

omit [Key K] in
/-- Elements without children are consistent. -/
theorem consistent_of_hasArity_zero {elements : List (Element K)}
    (flat : HasArity elements 0) : Consistent elements := by
  intro first inFirst second inSecond _
  rw [List.eq_nil_of_length_eq_zero (flat first inFirst),
    List.eq_nil_of_length_eq_zero (flat second inSecond)]

/-- No key in a prepared collection is smaller than one before it. -/
theorem compareKeys_ne_gt {first second : Element K} (below : compare first second = .lt) :
    first.compareKeys second ≠ .gt := by
  intro above
  have split : compare first second =
      (first.compareKeys second).then (compare first.children second.children) := rfl
  rw [above, below] at split
  cases split

/-- A prepared collection is a content if and only if no key was given with two lists of
children. -/
theorem increasing_prepare_iff (elements : List (Element K)) :
    (prepare elements).Increasing ↔ Consistent elements := by
  constructor
  · intro increasing first inFirst second inSecond sameKey
    rw [← mem_prepare] at inFirst inSecond
    have here := (find?_eq_some_iff increasing).mpr ⟨inFirst, sameKey⟩
    have there := (find?_eq_some_iff increasing).mpr ⟨inSecond, rfl⟩
    cases here.symm.trans there
    rfl
  · intro consistent
    refine (Key.pairwise_distinct elements).imp_of_mem ?_
    intro first second inFirst inSecond below
    rw [Key.mem_distinct] at inFirst inSecond
    cases order : first.compareKeys second with
    | lt => rfl
    | gt => exact absurd order (compareKeys_ne_gt below)
    | eq =>
        have sameKey : first.key = second.key := Std.LawfulEqOrd.eq_of_compare order
        have same : first = second := by
          cases first
          cases second
          cases sameKey
          cases consistent _ inFirst _ inSecond rfl
          rfl
        rw [same, Std.ReflOrd.compare_self] at below
        cases below

/-- The first fault of a list that is a repeated key is the first repeated key. -/
theorem FaultAt.isLeast {content : Content K} {place : Nat}
    (fault : content.FaultAt (.duplicateKey place)) :
    IsLeast {place | content.RepeatsKey place} place := by
  cases fault with
  | duplicateKey before previous next after increasing sameKey =>
      constructor
      · refine ⟨before.length, previous, next, rfl, ?_, ?_, sameKey⟩ <;> simp
      · rintro _ ⟨earlier, first, second, rfl, atEarlier, atPlace, same⟩
        -- Up to the fault there are smaller keys before larger ones.
        by_contra ahead
        have inside : earlier + 1 < (before ++ [previous]).length := by
          rw [List.length_append, List.length_singleton]
          omega
        have cut : before ++ previous :: next :: after =
            (before ++ [previous]) ++ next :: after := by
          rw [List.append_assoc, List.singleton_append]
        rw [cut, List.getElem?_append_left (by omega),
          List.getElem?_eq_getElem (by omega)] at atEarlier
        rw [cut, List.getElem?_append_left inside, List.getElem?_eq_getElem inside] at atPlace
        have below := List.pairwise_iff_getElem.mp increasing earlier (earlier + 1) (by omega)
          inside (Nat.lt_succ_self earlier)
        cases atEarlier
        cases atPlace
        exact Keyed.compare_ne_of_lt below same.symm

/-- What the check reports about a prepared collection is the first key that is repeated. -/
theorem isLeast_of_violation? {elements : List (Element K)} {violation : Violation}
    (found : (prepare elements).violation? = some violation) :
    ∃ place, violation = .duplicateKey place ∧
      IsLeast {place | (prepare elements).RepeatsKey place} place := by
  have sorted := Key.pairwise_distinct elements
  have fault := (violation?_eq_some_iff _ violation).mp found
  cases violation with
  | duplicateKey place => exact ⟨place, rfl, fault.isLeast⟩
  | unsorted place =>
      change (prepare elements).Pairwise _ at sorted
      generalize prepare elements = content at fault sorted
      cases fault with
      | unsorted before previous next after increasing smaller =>
          have rest := (List.pairwise_append.mp sorted).2.1
          have below := (List.pairwise_cons.mp rest).1 next List.mem_cons_self
          exact absurd (Std.OrientedCmp.gt_of_lt smaller) (compareKeys_ne_gt below)

end Content

end SetForest
