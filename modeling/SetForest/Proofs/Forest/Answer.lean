import SetForest.Proofs.Forest.Sound

namespace SetForest

/-!
# The answers of a sound forest

Wherever a forest takes its answer from, it is the right one.  A shortcut is
right because the order determines the result, and a remembered result because
the tables agree with the sets.  A computed result is right if the forests below
answered rightly, and everything that is then filed follows from it.
-/

namespace Forest

variable {K : Type} [Key K] {n : Nat} {forest : Forest K n} {below : Fin n → Meaning}
  {operation : Operation} {a b r : Index}

/-- A result is remembered under a pair that stands for both orders of the
operands, if the operation is commutative. -/
theorem answers_operands_iff (lawful : ∀ child, (below child).Lawful) :
    forest.Answers below operation (operation.operands a b).left (operation.operands a b).right r ↔
      forest.Answers below operation a b r := by
  rw [Operation.operands]
  by_cases commutative : operation.isCommutative = true
  · rw [if_pos commutative, Operands.ordered]
    by_cases inOrder : a ≤ b
    · rw [if_pos inOrder]
    · rw [if_neg inOrder]
      exact ⟨WellStored.symm lawful commutative, WellStored.symm lawful commutative⟩
  · rw [if_neg commutative]

/-- A forest has something to say about indices in use only. -/
theorem WellStored.inUse_of_consult (stored : forest.WellStored) {answer : Consulted K n}
    (answered : (consult operation a b forest).1 = .ok answer) :
    forest.InUse a ∧ forest.InUse b := by
  have sets : (forest.note (.operation operation)).sets = forest.sets := by
    rw [note]
    split <;> rfl
  have inUse : ∀ index, index < (forest.note (.operation operation)).size →
      forest.InUse index := by
    intro index inside
    rw [size, sets] at inside
    exact stored.inUse_of_lt inside
  have read : ∀ index content, (forest.note (.operation operation)).sets.get index = .ok content →
      forest.InUse index := by
    intro index content found
    rw [sets] at found
    exact ⟨content, stored.canonical.denotes_of_get found⟩
  have outcomes := consultation forest operation a b
  generalize consult operation a b forest = consulted at answered outcomes
  cases outcomes with
  | refused error => cases answered
  | shortcut result outcome leftInUse rightInUse found =>
      exact ⟨inUse a leftInUse, inUse b rightInUse⟩
  | remembered result found leftInUse rightInUse => exact ⟨inUse a leftInUse, inUse b rightInUse⟩
  | unknown left right different leftRead rightRead =>
      exact ⟨read a left leftRead, read b right rightRead⟩

/-- The sets that a right answer relates.  Equal operands are the one case in which
they are not joined key by key. -/
theorem WellStored.exists_contents (stored : forest.WellStored)
    (determines : (forest.meaning below).Determines operation a b r) :
    ∃ left right content, forest.Denotes a left ∧ forest.Denotes b right ∧
      forest.Denotes r content ∧
      (a = b ∧ left = right ∧ content = (if operation = .difference then [] else left) ∨
        a ≠ b ∧ Content.Joined operation forest.children
          (fun child => (below child).Answers operation) left right content) := by
  rcases determines with ⟨answers, ⟨left, denotesLeft⟩, ⟨right, denotesRight⟩⟩
  change forest.Answers below operation a b r at answers
  by_cases same : a = b
  · subst b
    rcases stored.content_unique denotesLeft denotesRight with rfl
    by_cases isDifference : operation = .difference
    · subst operation
      rcases answers_difference_self_iff.mp answers with ⟨rfl, _⟩
      exact ⟨left, left, [], denotesLeft, denotesLeft, stored.empty, Or.inl ⟨rfl, rfl, rfl⟩⟩
    · rcases (answers_self_iff_of_ne isDifference).mp answers with rfl
      exact ⟨left, left, left, denotesLeft, denotesLeft, denotesLeft,
        Or.inl ⟨rfl, rfl, (if_neg isDifference).symm⟩⟩
  · rcases (answers_iff_of_ne same).mp answers with
      ⟨left', right', content, denotesLeft', denotesRight', denotes, joined⟩
    exact ⟨left', right', content, denotesLeft', denotesRight', denotes, Or.inr ⟨same, joined⟩⟩

/-- A difference of a set with itself is empty, although a forest with children
keeps the keys that two sets share.  This is the one result that is not joined
from its operands key by key. -/
def DropsKeys (forest : Forest K n) (operation : Operation) (a b : Index) : Prop :=
  operation = .difference ∧ a = b ∧ forest.children ≠ [] ∧ a ≠ Index.empty

/-- The sets that any other right answer relates are joined key by key. -/
theorem WellStored.exists_joined (stored : forest.WellStored)
    (lawful : ∀ child, (below child).Lawful)
    (determines : (forest.meaning below).Determines operation a b r)
    (keeps : ¬forest.DropsKeys operation a b) :
    ∃ left right content, forest.Denotes a left ∧ forest.Denotes b right ∧
      forest.Denotes r content ∧ Content.Joined operation forest.children
        (fun child => (below child).Answers operation) left right content := by
  rcases stored.exists_contents determines with
    ⟨left, right, content, denotesLeft, denotesRight, denotes, joins⟩
  refine ⟨left, right, content, denotesLeft, denotesRight, denotes, ?_⟩
  rcases joins with ⟨rfl, rfl, rfl⟩ | ⟨-, joined⟩
  · have increasing := stored.increasing a left denotesLeft
    have arity := stored.arity a left denotesLeft
    have within : Content.Within forest.children (fun child => (below child).Within) left left :=
      Content.within_of_sublist (fun child => (lawful child).refl) increasing
        (List.Sublist.refl left)
    cases operation with
    | union => exact within.joined_union (fun child => (lawful child).union_of_within) arity
    | intersection =>
        exact within.joined_intersection (fun child => (lawful child).intersection_of_within) arity
    | difference =>
        have leftKeys : forest.children = [] ∨ left = [] := by
          by_contra both
          rcases not_or.mp both with ⟨nested, notEmpty⟩
          refine keeps ⟨rfl, rfl, nested, ?_⟩
          rintro rfl
          exact notEmpty (stored.content_unique denotesLeft stored.empty)
        intro key
        cases found : left.find? key with
        | none => rfl
        | some first =>
            have flat : forest.children = [] := by
              refine leftKeys.resolve_right ?_
              rintro rfl
              cases found
            exact (if_pos ⟨rfl, flat⟩).mpr rfl
  · exact joined

namespace Sound

/-- What the operands alone or a filed inclusion decide is right. -/
theorem shortcut (sound : forest.Sound below) (lawful : ∀ child, (below child).Lawful)
    (leftInUse : a < forest.size) (rightInUse : b < forest.size) {outcome : Outcome}
    (found : forest.shortcut operation a b = some (r, outcome)) :
    forest.Answers below operation a b r := by
  unfold Forest.shortcut at found
  by_cases same : a = b
  · subst b
    rw [if_pos rfl] at found
    cases found
    by_cases isDifference : operation = .difference
    · subst operation
      exact answers_difference_self_iff.mpr ⟨if_pos rfl, sound.inUse_of_lt leftInUse⟩
    · exact (answers_self_iff_of_ne isDifference).mpr (if_neg isDifference)
  · rw [if_neg same] at found
    by_cases someEmpty : a = Index.empty ∨ b = Index.empty
    · rw [if_pos someEmpty] at found
      cases found
      have left := sound.inUse_of_lt leftInUse
      have right := sound.inUse_of_lt rightInUse
      rcases someEmpty with rfl | rfl
      · have answers : forest.Answers below operation Index.empty b
            (if operation = .union then b else Index.empty) :=
          sound.answers_empty_left operation right
        cases operation <;> exact answers
      · have answers : forest.Answers below operation a Index.empty
            (if operation = .intersection then Index.empty else a) :=
          sound.answers_empty_right operation left
        cases operation with
        | union =>
            dsimp only
            rw [if_neg same]
            exact answers
        | intersection => exact answers
        | difference => exact answers
    · rw [if_neg someEmpty] at found
      split at found
      · next filed =>
          cases found
          exact sound.union_of_within lawful (sound.filed a b .subset filed)
      · next filed =>
          cases found
          exact WellStored.symm lawful rfl
            (sound.union_of_within lawful (sound.filed a b .superset filed))
      · next filed =>
          cases found
          exact sound.intersection_of_within lawful (sound.filed a b .subset filed)
      · next filed =>
          cases found
          exact WellStored.symm lawful rfl
            (sound.intersection_of_within lawful (sound.filed a b .superset filed))
      · cases found

/-- Consulting a sound forest: what it knows is right, and what it asks of the
forests below is the alignment of the two sets. -/
theorem consult (sound : forest.Sound below) (lawful : ∀ child, (below child).Lawful)
    (operation : Operation) (a b : Index) :
    forest.Advances below (consult operation a b forest).2 ∧
      (∀ r, (consult operation a b forest).1 = .ok (.known r) →
        ((consult operation a b forest).2.meaning below).Determines operation a b r) ∧
      (∀ cells, (consult operation a b forest).1 = .ok (.unknown cells) →
        a ≠ b ∧ ∃ left right, (consult operation a b forest).2.Denotes a left ∧
          (consult operation a b forest).2.Denotes b right ∧
          cells = Content.align operation forest.children left right) := by
  have noted : forest.Advances below (forest.note (.operation operation)) :=
    sound.changes lawful (fun _ admitted => admitted) (changes_note forest _)
  have tallied : ∀ outcome, (forest.note (.operation operation)).Advances below
      ((forest.note (.operation operation)).tallyOperation operation outcome) :=
    fun outcome => noted.sound.record _ _
  have outcomes := consultation forest operation a b
  generalize Forest.consult operation a b forest = consulted at outcomes
  cases outcomes with
  | refused error => exact ⟨noted, nofun, nofun⟩
  | shortcut result outcome leftInUse rightInUse found =>
      refine ⟨noted.trans (tallied outcome), ?_, nofun⟩
      rintro r ⟨⟩
      have answers := noted.sound.shortcut lawful leftInUse rightInUse found
      exact (tallied outcome).extension.meaning_le_self.determines
        ⟨answers, noted.sound.inUse_of_lt leftInUse, noted.sound.inUse_of_lt rightInUse⟩
  | remembered result found leftInUse rightInUse =>
      refine ⟨noted.trans (tallied .hit), ?_, nofun⟩
      rintro r ⟨⟩
      have answers := (answers_operands_iff lawful).mp
        (noted.sound.remembered operation _ _ found)
      exact (tallied .hit).extension.meaning_le_self.determines
        ⟨answers, noted.sound.inUse_of_lt leftInUse, noted.sound.inUse_of_lt rightInUse⟩
  | unknown left right different leftRead rightRead =>
      refine ⟨noted, nofun, ?_⟩
      rintro cells ⟨⟩
      refine ⟨different, left, right, noted.sound.canonical.denotes_of_get leftRead,
        noted.sound.canonical.denotes_of_get rightRead, ?_⟩
      rw [noted.extension.children]

/-- Two inclusions that hold may be filed one after the other. -/
theorem fileInclusions (sound : forest.Sound below) (lawful : ∀ child, (below child).Lawful)
    {sub sup other above : Index} (first : forest.Within below sub sup)
    (second : forest.Within below other above) :
    forest.Advances below ((forest.fileInclusion sub sup).fileInclusion other above) := by
  have filed := sound.fileInclusion lawful first
  exact filed.trans (filed.sound.fileInclusion lawful (filed.extension.within second))

/-- What is filed about a right result is true. -/
theorem fileResult (sound : forest.Sound below) (lawful : ∀ child, (below child).Lawful)
    (different : a ≠ b) (answers : forest.Answers below operation a b r) :
    forest.Advances below (forest.fileResult operation a b r) := by
  cases operation with
  | union =>
      have leftWithin := WellStored.within_union lawful answers
      have rightWithin := WellStored.within_union lawful (WellStored.symm lawful rfl answers)
      simp only [Forest.fileResult]
      by_cases isLeft : r = a
      · rw [if_pos isLeft]
        exact sound.fileInclusion lawful (isLeft ▸ rightWithin)
      · rw [if_neg isLeft]
        by_cases isRight : r = b
        · rw [if_pos isRight]
          exact sound.fileInclusion lawful (isRight ▸ leftWithin)
        · rw [if_neg isRight]
          exact sound.fileInclusions lawful leftWithin rightWithin
  | intersection =>
      have withinLeft := WellStored.intersection_within lawful answers
      have withinRight :=
        WellStored.intersection_within lawful (WellStored.symm lawful rfl answers)
      simp only [Forest.fileResult]
      by_cases isLeft : r = a
      · rw [if_pos isLeft]
        exact sound.fileInclusion lawful (isLeft ▸ withinRight)
      · rw [if_neg isLeft]
        by_cases isRight : r = b
        · rw [if_pos isRight]
          exact sound.fileInclusion lawful (isRight ▸ withinLeft)
        · rw [if_neg isRight]
          exact sound.fileInclusions lawful withinLeft withinRight
  | difference =>
      simp only [Forest.fileResult]
      by_cases isLeft : r = a
      · rw [if_neg (not_not_intro isLeft)]
        subst r
        by_cases flat : forest.children = []
        · rw [if_pos flat]
          have disjoint := sound.disjoint flat different answers
          exact sound.remember ((answers_operands_iff lawful).mpr disjoint)
        · rw [if_neg flat]
          exact ⟨sound, Extends.refl forest⟩
      · rw [if_pos isLeft]
        exact sound.fileInclusion lawful (sound.difference_within lawful answers)

/-- Settling an operation whose calls were answered rightly gives the right
result, and the forest goes on soundly. -/
theorem settle (sound : forest.Sound below) (lawful : ∀ child, (below child).Lawful)
    (different : a ≠ b) {left right content : Content K} (denotesLeft : forest.Denotes a left)
    (denotesRight : forest.Denotes b right)
    (resolved : List.Forall₂ (Cell.Resolves fun child => (below child).Answers operation)
      (Content.align operation forest.children left right) content) :
    forest.Advances below (settle operation a b content forest).2 ∧
      ((settle operation a b content forest).2.meaning below).Determines operation a b
        (settle operation a b content forest).1 := by
  rcases Content.joins_of_resolved (sound.increasing a left denotesLeft)
    (sound.increasing b right denotesRight) (sound.arity a left denotesLeft)
    (sound.arity b right denotesRight) resolved with
      ⟨increasing, arity, joined⟩
  rw [settle_apply]
  have stored := sound.intern ⟨increasing, arity⟩
  have answers : (forest.intern content).2.Answers below operation a b
      (forest.intern content).1.index := by
    rw [answers_iff_of_ne different]
    refine ⟨left, right, content, stored.extension.denotes a left denotesLeft,
      stored.extension.denotes b right denotesRight, sound.denotes_intern content, ?_⟩
    rw [stored.extension.children]
    exact joined
  have tallied : (forest.intern content).2.Advances below
      ((forest.intern content).2.tallyOperation operation
        (.ofMiss (forest.intern content).1.cold)) :=
    stored.sound.record _ _
  have talliedAnswers := tallied.extension.answers answers
  have remembered := tallied.sound.remember ((answers_operands_iff lawful).mpr talliedAnswers)
  have rememberedAnswers := remembered.extension.answers talliedAnswers
  have filed := remembered.sound.fileResult lawful different rememberedAnswers
  have advances := ((stored.trans tallied).trans remembered).trans filed
  exact ⟨advances, filed.extension.answers rememberedAnswers,
    ⟨left, advances.extension.denotes a left denotesLeft⟩,
    ⟨right, advances.extension.denotes b right denotesRight⟩⟩

end Sound

end Forest

end SetForest
