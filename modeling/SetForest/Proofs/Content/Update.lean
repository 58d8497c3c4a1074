import SetForest.Proofs.Content.Search

namespace SetForest.Content

/-!
# Changing an increasing content

Nothing checks a content after an update, so each update has to leave it
increasing by itself.  Dropping elements cannot disturb the order.  Putting an
element in relies on the search for its place: the content falls apart into the
elements with smaller keys, the element with that key if there is one, and the
elements with larger keys (`put_split`).
-/

variable {K : Type} [Key K]

theorem increasing_sublist {part content : Content K} (sublist : part.Sublist content)
    (increasing : content.Increasing) : part.Increasing :=
  List.Pairwise.sublist sublist increasing

theorem increasing_singleton (element : Element K) : Content.Increasing [element] :=
  List.pairwise_singleton _ _

theorem increasing_nil : Content.Increasing ([] : Content K) :=
  List.Pairwise.nil

/-- An inserted value stands between what was before its position and what was not. -/
theorem insertIdx_eq_take_append_drop {α : Type} (value : α) (values : List α) (position : Nat)
    (inside : position ≤ values.length) :
    values.insertIdx position value = values.take position ++ value :: values.drop position := by
  induction position generalizing values with
  | zero => rfl
  | succ position ih =>
      cases values with
      | nil => exact absurd inside (Nat.not_succ_le_zero position)
      | cons first rest =>
          rw [List.insertIdx_succ_cons, ih rest (Nat.le_of_succ_le_succ inside)]
          rfl

/-- A content splits at a key, and the element put there joins the two parts. -/
theorem put_split {content : Content K} (increasing : content.Increasing) (element : Element K) :
    ∃ left right, content.put element = left ++ element :: right ∧
      (content = left ++ right ∨
        ∃ old, old.key = element.key ∧ content = left ++ old :: right) ∧
      (∀ before ∈ left, compare before.key element.key = .lt) ∧
      ∀ later ∈ right, compare element.key later.key = .lt := by
  have correct := placeCorrect_place increasing element.key
  unfold put
  cases place : content.place element.key with
  | occupied position =>
      rw [place] at correct
      rcases correct with ⟨old, here, same⟩
      rcases List.getElem?_eq_some_iff.mp here with ⟨inside, atPosition⟩
      have parts : content = content.take position ++ old :: content.drop (position + 1) := by
        rw [← atPosition, ← List.drop_eq_getElem_cons inside, List.take_append_drop]
      refine ⟨content.take position, content.drop (position + 1), ?_, Or.inr ⟨old, same, parts⟩,
        ?_, ?_⟩
      · dsimp only
        rw [List.set_eq_take_append_cons_drop, if_pos inside]
      · intro before member
        rw [← same]
        rw [Increasing, parts] at increasing
        exact (List.pairwise_append.mp increasing).2.2 before member old List.mem_cons_self
      · intro later member
        rw [← same]
        rw [Increasing, parts] at increasing
        exact (List.pairwise_cons.mp (List.pairwise_append.mp increasing).2.1).1 later member
  | vacant position =>
      rw [place] at correct
      rcases correct with ⟨inside, enclosed⟩
      refine ⟨content.take position, content.drop position,
        insertIdx_eq_take_append_drop element content position inside,
        Or.inl (List.take_append_drop position content).symm, ?_, ?_⟩
      · intro before member
        rcases List.mem_take_iff_getElem.mp member with ⟨index, bound, rfl⟩
        refine enclosed.before index _ (by omega) ?_
        rw [List.getElem?_toArray, List.getElem?_eq_getElem]
      · intro later member
        rcases List.mem_drop_iff_getElem.mp member with ⟨index, bound, rfl⟩
        apply Std.OrientedCmp.lt_of_gt
        refine enclosed.behind (position + index) _ (by omega) ?_
        rw [List.getElem?_toArray, List.getElem?_eq_getElem]

theorem increasing_put {content : Content K} (increasing : content.Increasing)
    (element : Element K) : (content.put element).Increasing := by
  rcases put_split increasing element with ⟨left, right, joined, parts, before, later⟩
  have sides : left.Pairwise (fun first second => first.compareKeys second = .lt) ∧
      right.Pairwise (fun first second => first.compareKeys second = .lt) := by
    rcases parts with rfl | ⟨old, _, rfl⟩
    · rcases List.pairwise_append.mp increasing with ⟨leftIncreasing, rightIncreasing, _⟩
      exact ⟨leftIncreasing, rightIncreasing⟩
    · rcases List.pairwise_append.mp increasing with ⟨leftIncreasing, rightIncreasing, _⟩
      exact ⟨leftIncreasing, (List.pairwise_cons.mp rightIncreasing).2⟩
  rw [joined]
  refine List.pairwise_append.mpr ⟨sides.1, List.pairwise_cons.mpr ⟨later, sides.2⟩, ?_⟩
  intro first firstMember second secondMember
  rcases List.mem_cons.mp secondMember with rfl | behind
  · exact before first firstMember
  · exact Std.TransCmp.lt_trans (before first firstMember) (later second behind)

/-- Putting an element in drops the one with its key, and adds or drops no other. -/
theorem mem_put_iff {content : Content K} (increasing : content.Increasing)
    {element other : Element K} :
    other ∈ content.put element ↔
      other = element ∨ other ∈ content ∧ other.key ≠ element.key := by
  rcases put_split increasing element with ⟨left, right, joined, parts, before, later⟩
  have leftKey : ∀ other ∈ left, other.key ≠ element.key :=
    fun other member => Keyed.compare_ne_of_lt (before other member)
  have rightKey : ∀ other ∈ right, other.key ≠ element.key :=
    fun other member => (Keyed.compare_ne_of_lt (later other member)).symm
  have kept : other ∈ content ∧ other.key ≠ element.key ↔ other ∈ left ∨ other ∈ right := by
    rcases parts with rfl | ⟨old, same, rfl⟩
    · rw [List.mem_append]
      exact ⟨And.left, fun member => ⟨member, member.elim (leftKey other) (rightKey other)⟩⟩
    · rw [List.mem_append, List.mem_cons]
      constructor
      · rintro ⟨inLeft | rfl | inRight, different⟩
        · exact Or.inl inLeft
        · exact absurd same different
        · exact Or.inr inRight
      · rintro (inLeft | inRight)
        · exact ⟨Or.inl inLeft, leftKey other inLeft⟩
        · exact ⟨Or.inr (Or.inr inRight), rightKey other inRight⟩
  rw [kept, joined, List.mem_append, List.mem_cons]
  exact or_left_comm

end SetForest.Content
