import SetForest.Content.Search
import SetForest.Proofs.Content.Lookup

namespace SetForest.Content

/-!
# Searching an increasing content

Both searches rely on the order, each in its own way.  The scan may stop at the
first larger key.  The halving keeps a range such that all keys before it are
below the one sought and all keys after it are above; `Enclosed` is this
invariant, and a range of one position decides the search.

The result is that a position is found exactly if an element with the key
stands there, whatever the threshold between the two searches is
(`position_eq_some_iff`).
-/

variable {K : Type} [Key K]

/-- Positions before the range hold smaller keys, positions behind it larger ones. -/
structure Enclosed (elements : Array (Element K)) (key : K) (base size : Nat) : Prop where
  before : ∀ position element, position < base → elements[position]? = some element →
    compare element.key key = .lt
  behind : ∀ position element, base + size ≤ position → elements[position]? = some element →
    compare element.key key = .gt

theorem compare_getElem? {content : Content K} (increasing : content.Increasing)
    {i j : Nat} {first second : Element K} (less : i < j) (atFirst : content[i]? = some first)
    (atSecond : content[j]? = some second) : compare first.key second.key = .lt := by
  rcases List.getElem?_eq_some_iff.mp atFirst with ⟨firstBound, rfl⟩
  rcases List.getElem?_eq_some_iff.mp atSecond with ⟨secondBound, rfl⟩
  exact List.pairwise_iff_getElem.mp increasing i j firstBound secondBound less

/-- An increasing content has a key at one position at most. -/
theorem position_unique {content : Content K} (increasing : content.Increasing) {i j : Nat}
    {first second : Element K} (atFirst : content[i]? = some first)
    (atSecond : content[j]? = some second) (same : first.key = second.key) : i = j := by
  rcases Nat.lt_trichotomy i j with less | equal | greater
  · have order := compare_getElem? increasing less atFirst atSecond
    exact absurd same (Keyed.compare_ne_of_lt order)
  · exact equal
  · have order := compare_getElem? increasing greater atSecond atFirst
    exact absurd same.symm (Keyed.compare_ne_of_lt order)

/-! ## Halving -/

/-- Halving a range that encloses the key leaves one position that does. -/
theorem enclosed_narrow {content : Content K} (increasing : content.Increasing) (key : K)
    (base size : Nat) (nonempty : 0 < size) (bound : base + size ≤ content.length)
    (enclosed : Enclosed content.toArray key base size) :
    narrow content.toArray key base size < content.length ∧
      Enclosed content.toArray key (narrow content.toArray key base size) 1 := by
  induction size using Nat.strongRecOn generalizing base with
  | _ size ih =>
      rw [narrow]
      by_cases large : 1 < size
      · have inside : base + size / 2 < content.length := by omega
        have found : content.toArray[base + size / 2]? = some content[base + size / 2] := by
          rw [List.getElem?_toArray, List.getElem?_eq_getElem inside]
        have middle : content[base + size / 2]? = some content[base + size / 2] :=
          List.getElem?_eq_getElem inside
        simp only [if_pos large, found]
        by_cases above : compare content[base + size / 2].key key = .gt
        · rw [if_pos above]
          refine ih (size - size / 2) (by omega) base (by omega) (by omega)
            ⟨enclosed.before, ?_⟩
          intro position element behind here
          rw [List.getElem?_toArray] at here
          rcases Nat.eq_or_lt_of_le (show base + size / 2 ≤ position by omega) with rfl | later
          · rcases Option.some.inj (middle.symm.trans here) with rfl
            exact above
          · have order := compare_getElem? increasing later middle here
            exact Std.TransCmp.gt_trans (Std.OrientedCmp.gt_of_lt order) above
        · rw [if_neg above]
          refine ih (size - size / 2) (by omega) (base + size / 2) (by omega) (by omega) ⟨?_, ?_⟩
          · intro position element before here
            rw [List.getElem?_toArray] at here
            have order := compare_getElem? increasing before here middle
            cases reached : compare content[base + size / 2].key key with
            | lt => exact Std.TransCmp.lt_trans order reached
            | eq =>
                rw [← Std.LawfulEqOrd.eq_of_compare reached]
                exact order
            | gt => exact absurd reached above
          · intro position element behind here
            exact enclosed.behind position element (by omega) here
      · rw [if_neg large]
        have single : size = 1 := by omega
        subst size
        exact ⟨by omega, enclosed⟩

/-- What the place of a key says about the content. -/
def PlaceCorrect (content : Content K) (key : K) : Place → Prop
  | .occupied position => ∃ element, content[position]? = some element ∧ element.key = key
  | .vacant position => position ≤ content.length ∧ Enclosed content.toArray key position 0

theorem placeCorrect_place {content : Content K} (increasing : content.Increasing) (key : K) :
    PlaceCorrect content key (content.place key) := by
  unfold place
  by_cases empty : content = []
  · subst content
    refine ⟨Nat.le_refl 0, ?_, ?_⟩ <;> simp
  · have nonempty : 0 < content.length := List.length_pos_iff.mpr empty
    have everywhere : Enclosed content.toArray key 0 content.length := by
      constructor
      · intro position element before
        exact absurd before (Nat.not_lt_zero position)
      · intro position element behind here
        have bound := (Array.getElem?_eq_some_iff.mp here).1
        rw [List.size_toArray] at bound
        omega
    rcases enclosed_narrow increasing key 0 content.length nonempty (by omega) everywhere with
      ⟨inside, enclosed⟩
    simp only [List.size_toArray]
    generalize narrow content.toArray key 0 content.length = base at inside enclosed
    have found : content.toArray[base]? = some content[base] := by
      rw [List.getElem?_toArray, List.getElem?_eq_getElem inside]
    simp only [found]
    cases order : compare content[base].key key with
    | lt =>
        refine ⟨inside, ?_, ?_⟩
        · intro position element before here
          rcases Nat.eq_or_lt_of_le (Nat.le_of_lt_succ before) with rfl | earlier
          · rcases Option.some.inj (found.symm.trans here) with rfl
            exact order
          · exact enclosed.before position element earlier here
        · intro position element behind here
          exact enclosed.behind position element behind here
    | eq =>
        exact ⟨content[base], List.getElem?_eq_getElem inside, Std.LawfulEqOrd.eq_of_compare order⟩
    | gt =>
        refine ⟨Nat.le_of_lt inside, enclosed.before, ?_⟩
        intro position element behind here
        rcases Nat.eq_or_lt_of_le (show base ≤ position from behind) with rfl | later
        · rcases Option.some.inj (found.symm.trans here) with rfl
          exact order
        · exact enclosed.behind position element later here

/-! ## Scanning -/

theorem scan_eq_some_iff {content : Content K} (increasing : content.Increasing) (key : K)
    (position : Nat) :
    scan key content = some position ↔
      ∃ element, content[position]? = some element ∧ element.key = key := by
  induction content generalizing position with
  | nil => simp [scan]
  | cons first rest ih =>
      have tail : Content.Increasing rest := Keyed.Increasing.tail increasing
      unfold scan
      cases order : compare first.key key with
      | lt =>
          cases position with
          | zero =>
              simp [Keyed.compare_ne_of_lt order]
          | succ position =>
              simp only [Option.map_eq_some_iff, List.getElem?_cons_succ, ← ih tail]
              constructor
              · rintro ⟨found, here, next⟩
                rwa [Nat.succ.inj next] at here
              · intro here
                exact ⟨position, here, rfl⟩
      | eq =>
          have here : first.key = key := Std.LawfulEqOrd.eq_of_compare order
          constructor
          · intro same
            rcases Option.some.inj same with rfl
            exact ⟨first, rfl, here⟩
          · rintro ⟨element, found, same⟩
            exact congrArg some (position_unique increasing (List.getElem?_cons_zero) found
              (here.trans same.symm))
      | gt =>
          -- All keys from here on are larger, so stopping early misses nothing.
          have absent : find? (first :: rest) key = none :=
            Keyed.Increasing.find?_eq_none_of_lt increasing (Std.OrientedCmp.lt_of_gt order)
          constructor
          · intro impossible
            cases impossible
          · rintro ⟨element, found, same⟩
            exact absurd same
              (Keyed.find?_eq_none_iff.mp absent element (List.mem_of_getElem? found))

/-! ## Both searches -/

/-- Halving finds a position exactly if the element there has the key. -/
theorem place_eq_occupied_iff {content : Content K} (increasing : content.Increasing) (key : K)
    (position : Nat) :
    content.place key = .occupied position ↔
      ∃ element, content[position]? = some element ∧ element.key = key := by
  have correct := placeCorrect_place increasing key
  cases place : content.place key with
  | occupied found =>
      rw [place] at correct
      rcases correct with ⟨element, here, same⟩
      constructor
      · intro equal
        rcases Place.occupied.inj equal with rfl
        exact ⟨element, here, same⟩
      · rintro ⟨other, there, sameKey⟩
        exact congrArg Place.occupied
          (position_unique increasing here there (same.trans sameKey.symm))
  | vacant gap =>
      rw [place] at correct
      constructor
      · intro impossible
        cases impossible
      · rintro ⟨element, here, same⟩
        rw [← List.getElem?_toArray] at here
        rcases Nat.lt_or_ge position gap with before | behind
        · have order := correct.2.before position element before here
          exact absurd same (Keyed.compare_ne_of_lt order)
        · have order := correct.2.behind position element behind here
          exact absurd same.symm (Keyed.compare_ne_of_lt (Std.OrientedCmp.lt_of_gt order))

/-- The two searches find the same, or both find nothing. -/
theorem scan_eq_some_iff_place {content : Content K} (increasing : content.Increasing) (key : K)
    (position : Nat) :
    scan key content = some position ↔ content.place key = .occupied position := by
  rw [scan_eq_some_iff increasing, place_eq_occupied_iff increasing]

/-- A position is found exactly if the element there has the key. -/
theorem position_eq_some_iff {content : Content K} (increasing : content.Increasing) (key : K)
    (threshold position : Nat) :
    content.position key threshold = some position ↔
      ∃ element, content[position]? = some element ∧ element.key = key := by
  unfold Content.position
  by_cases short : content.length ≤ threshold
  · rw [if_pos short]
    exact scan_eq_some_iff increasing key position
  · rw [if_neg short, ← place_eq_occupied_iff increasing key position]
    cases content.place key <;> simp

/-- No position is found exactly if no element has the key. -/
theorem position_eq_none_iff {content : Content K} (increasing : content.Increasing) (key : K)
    (threshold : Nat) :
    content.position key threshold = none ↔ ∀ element ∈ content, element.key ≠ key := by
  have placed := position_eq_some_iff increasing key threshold
  constructor
  · intro notFound element member same
    rcases List.mem_iff_getElem?.mp member with ⟨position, here⟩
    have found := (placed position).mpr ⟨element, here, same⟩
    rw [notFound] at found
    cases found
  · intro absent
    cases found : content.position key threshold with
    | none => rfl
    | some position =>
        rcases (placed position).mp found with ⟨element, here, same⟩
        exact absurd same (absent element (List.mem_of_getElem? here))

/-- Where the one search takes over from the other makes no difference. -/
theorem position_congr {content : Content K} (increasing : content.Increasing) (key : K)
    (threshold threshold' : Nat) :
    content.position key threshold = content.position key threshold' := by
  apply Option.ext
  intro position
  rw [position_eq_some_iff increasing, position_eq_some_iff increasing]

/-- Looking up through a position is looking up by key. -/
theorem bind_position {content : Content K} (increasing : content.Increasing) (key : K)
    (threshold : Nat) :
    (content.position key threshold).bind (content[·]?) = content.find? key := by
  apply Option.ext
  intro element
  rw [Option.bind_eq_some_iff, find?_eq_some_iff increasing]
  constructor
  · rintro ⟨position, found, here⟩
    rcases (position_eq_some_iff increasing key threshold position).mp found with
      ⟨other, there, same⟩
    rcases Option.some.inj (there.symm.trans here) with rfl
    exact ⟨List.mem_of_getElem? here, same⟩
  · rintro ⟨member, same⟩
    rcases List.mem_iff_getElem?.mp member with ⟨position, here⟩
    exact ⟨position,
      (position_eq_some_iff increasing key threshold position).mpr ⟨element, here, same⟩, here⟩

end SetForest.Content
