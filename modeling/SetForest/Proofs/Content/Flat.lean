import SetForest.Proofs.Content.Edits
import SetForest.Proofs.Content.Sets

namespace SetForest.Content

/-!
# Contents of keys alone

Where elements have no children, a collection of keys stands for one content, whatever
the order of the keys and however often they are repeated (`ofKeys`).  It is the content
that a collection in any order is prepared to.  Two collections stand for the same content
if and only if they have the same members (`eq_ofKeys_iff`).
-/

variable {K : Type} [Key K] {keys : List K} {content : Content K}

/-- The content of the keys of a collection. -/
def ofKeys (keys : List K) : Content K :=
  (Key.distinct keys).map Element.flat

theorem mem_ofKeys_iff {element : Element K} :
    element ∈ ofKeys keys ↔ element.children = [] ∧ element.key ∈ keys := by
  constructor
  · intro member
    rcases List.mem_map.mp member with ⟨key, here, rfl⟩
    exact ⟨rfl, (Key.mem_distinct key keys).mp here⟩
  · rcases element with ⟨key, children⟩
    rintro ⟨rfl, here⟩
    exact List.mem_map.mpr ⟨key, (Key.mem_distinct key keys).mpr here, rfl⟩

theorem increasing_ofKeys (keys : List K) : (ofKeys keys).Increasing :=
  List.pairwise_map.mpr (Key.pairwise_distinct keys)

theorem hasArity_ofKeys (keys : List K) : (ofKeys keys).HasArity 0 := by
  intro element member
  rw [(mem_ofKeys_iff.mp member).1]
  rfl

theorem keys_ofKeys (keys : List K) : (ofKeys keys).keys = {key | key ∈ keys} := by
  ext key
  constructor
  · rintro ⟨element, member, rfl⟩
    exact (mem_ofKeys_iff.mp member).2
  · intro member
    exact ⟨.flat key, mem_ofKeys_iff.mpr ⟨rfl, member⟩, rfl⟩

/-- A content without children is the content of its keys. -/
theorem eq_ofKeys_iff (increasing : content.Increasing) (flat : content.HasArity 0) :
    content = ofKeys keys ↔ content.keys = {key | key ∈ keys} := by
  constructor
  · rintro rfl
    exact keys_ofKeys keys
  · intro sameKeys
    refine ext_mem increasing (increasing_ofKeys keys) fun element => ?_
    have inContent := mem_members_iff_of_flat flat element
    rw [sameKeys] at inContent
    rw [mem_ofKeys_iff]
    exact inContent

/-- Without children there is nothing to choose between, so keys in any order are
brought into the order of a content. -/
theorem prepare_flat (keys : List K) : prepare (keys.map Element.flat) = ofKeys keys := by
  have sameMembers : ∀ element, element ∈ prepare (keys.map Element.flat) ↔
      element ∈ ofKeys keys := by
    intro element
    rw [mem_prepare, ofKeys, List.mem_map, List.mem_map]
    exact exists_congr fun key => and_congr_left' (Key.mem_distinct key keys).symm
  refine ext_mem ?_ (increasing_ofKeys keys) sameMembers
  refine (Key.pairwise_distinct _).imp_of_mem ?_
  intro first second inFirst inSecond less
  have firstFlat := (mem_ofKeys_iff.mp ((sameMembers first).mp inFirst)).1
  have secondFlat := (mem_ofKeys_iff.mp ((sameMembers second).mp inSecond)).1
  have split : compare first second =
      (first.compareKeys second).then (compare first.children second.children) := rfl
  rw [firstFlat, secondFlat, Std.ReflOrd.compare_self, Ordering.then_eq] at split
  exact split.symm.trans less

/-! ## Edits -/

section

variable {left kept : Content K} {element : Element K}

/-- Among keys, the union with the set of an element puts this element in. -/
theorem find?_of_union (increasing : left.Increasing) (keptIncreasing : kept.Increasing)
    (flat : left.HasArity 0) (isKey : element.children.length = 0)
    (members : kept.members = left.members ∪ Content.members [element]) :
    kept.find? = (Edit.insert element).effect left.find? := by
  have same : kept = left.put element := by
    refine ext_mem keptIncreasing (increasing_put increasing element) fun other => ?_
    have member : other ∈ kept ↔ other ∈ left ∨ other ∈ [element] := Set.ext_iff.mp members other
    rw [member, List.mem_singleton, mem_put_iff increasing]
    constructor
    · rintro (inLeft | rfl)
      · by_cases sameKey : other.key = element.key
        · exact Or.inl (Element.eq_of_flat sameKey (flat other inLeft) isKey)
        · exact Or.inr ⟨inLeft, sameKey⟩
      · exact Or.inl rfl
    · rintro (rfl | ⟨inLeft, -⟩)
      · exact Or.inr rfl
      · exact Or.inl inLeft
  rw [same]
  exact find?_put increasing element

/-- The difference leaves its key out. -/
theorem find?_of_sdiff (increasing : left.Increasing) (keptIncreasing : kept.Increasing)
    (flat : left.HasArity 0) (isKey : element.children.length = 0)
    (members : kept.members = left.members \ Content.members [element]) :
    kept.find? = (Edit.remove element).effect left.find? := by
  have same : kept = left.without element.key 0 := by
    refine ext_mem keptIncreasing (increasing_without increasing _ 0) fun other => ?_
    have member : other ∈ kept ↔ other ∈ left ∧ other ∉ [element] := Set.ext_iff.mp members other
    rw [member, List.mem_singleton, mem_without_iff increasing]
    refine and_congr_right fun inLeft => not_congr ?_
    exact ⟨congrArg Element.key, fun sameKey =>
      Element.eq_of_flat sameKey (flat other inLeft) isKey⟩
  rw [same]
  exact find?_without increasing element.key 0

end

end SetForest.Content
