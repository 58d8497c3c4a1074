import SetForest.Proofs.Forest.Sound

namespace SetForest.Forest

/-!
# Answers to questions about two sets

The answer to a question about two sets is an inclusion that was filed or one that holds
always.  In a sound forest it is true.  It is the mirror image of the answer from the
other side, and it is given ever after.
-/

variable {K : Type} [Key K] {n : Nat}

/-- What is known about two indices in use. -/
def known (forest : Forest K n) (a b : Index) : Option Inclusion :=
  if a = b ∨ a = Index.empty then some .subset
  else if b = Index.empty then some .superset
  else forest.filedInclusion a b

theorem inclusion_eq_ok_iff (forest : Forest K n) (a b : Index) (answer : Option Inclusion) :
    forest.inclusion a b = .ok answer ↔
      a < forest.size ∧ b < forest.size ∧ forest.known a b = answer := by
  unfold inclusion checkIndex known
  by_cases leftInUse : a < forest.size
  · by_cases rightInUse : b < forest.size
    · rw [if_pos leftInUse, if_pos rightInUse]
      simp only [leftInUse, rightInUse, true_and]
      split
      · exact ⟨Except.ok.inj, congrArg Except.ok⟩
      · split
        · exact ⟨Except.ok.inj, congrArg Except.ok⟩
        · exact ⟨Except.ok.inj, congrArg Except.ok⟩
    · rw [if_pos leftInUse, if_neg rightInUse]
      exact ⟨nofun, fun both => absurd both.2.1 rightInUse⟩
  · rw [if_neg leftInUse]
    exact ⟨nofun, fun both => absurd both.1 leftInUse⟩

/-- What is known from one side is known from the other. -/
theorem known_comm (forest : Forest K n) {a b : Index} (different : a ≠ b) :
    forest.known b a = (forest.known a b).map Inclusion.flip := by
  unfold known
  by_cases leftEmpty : a = Index.empty
  · have rightNotEmpty : b ≠ Index.empty := fun rightEmpty =>
      different (leftEmpty.trans rightEmpty.symm)
    rw [if_pos (Or.inr leftEmpty), if_neg (not_or_intro (Ne.symm different) rightNotEmpty),
      if_pos leftEmpty]
    rfl
  · rw [if_neg (not_or_intro different leftEmpty)]
    by_cases rightEmpty : b = Index.empty
    · rw [if_pos rightEmpty, if_pos (Or.inr rightEmpty)]
      rfl
    · rw [if_neg rightEmpty, if_neg (not_or_intro (Ne.symm different) rightEmpty),
        if_neg leftEmpty]
      exact forest.filedInclusion_comm different

/-- The answer to a question is the mirror image of the one from the other side. -/
theorem inclusion_mirrored (forest : Forest K n) {a b : Index} (different : a ≠ b) :
    forest.inclusion a b = .ok (some .subset) ↔ forest.inclusion b a = .ok (some .superset) := by
  rw [forest.inclusion_eq_ok_iff, forest.inclusion_eq_ok_iff, forest.known_comm different]
  constructor
  · rintro ⟨leftInside, rightInside, known⟩
    exact ⟨rightInside, leftInside, by rw [known]; rfl⟩
  · rintro ⟨rightInside, leftInside, known⟩
    refine ⟨leftInside, rightInside, ?_⟩
    rcases Option.map_eq_some_iff.mp known with ⟨relation, known, flipped⟩
    cases relation with
    | subset => exact known
    | superset => cases flipped

variable {forest later : Forest K n} {below : Fin n → Meaning} {a b : Index}

/-- What is known is true. -/
theorem Sound.relates_of_known (sound : forest.Sound below) (leftInUse : forest.InUse a)
    (rightInUse : forest.InUse b) {relation : Inclusion}
    (known : forest.known a b = some relation) : (forest.meaning below).Relates relation a b := by
  have emptyWithin : ∀ index, forest.InUse index → forest.Within below Index.empty index := by
    rintro index ⟨content, denotes⟩
    exact Or.inr ⟨[], content, sound.empty, denotes, nofun⟩
  unfold Forest.known at known
  by_cases trivially : a = b ∨ a = Index.empty
  · rw [if_pos trivially] at known
    cases known
    rcases trivially with rfl | rfl
    · exact within_refl forest below a
    · exact emptyWithin b rightInUse
  · rw [if_neg trivially] at known
    by_cases rightEmpty : b = Index.empty
    · rw [if_pos rightEmpty] at known
      cases known
      subst b
      exact emptyWithin a leftInUse
    · rw [if_neg rightEmpty] at known
      exact sound.filed a b relation known

/-- What is answered is true, and speaks of indices in use. -/
theorem Sound.relates_of_inclusion (sound : forest.Sound below) {relation : Inclusion}
    (answered : forest.inclusion a b = .ok (some relation)) :
    (forest.meaning below).InUse a ∧ (forest.meaning below).InUse b ∧
      (forest.meaning below).Relates relation a b := by
  rcases (forest.inclusion_eq_ok_iff a b _).mp answered with ⟨leftInside, rightInside, known⟩
  have leftInUse := sound.inUse_of_lt leftInside
  have rightInUse := sound.inUse_of_lt rightInside
  exact ⟨leftInUse, rightInUse, sound.relates_of_known leftInUse rightInUse known⟩

/-- What is known stays known. -/
theorem Extends.known (extension : forest.Extends later) {relation : Inclusion}
    (known : forest.known a b = some relation) : later.known a b = some relation := by
  unfold Forest.known at known ⊢
  by_cases trivially : a = b ∨ a = Index.empty
  · rw [if_pos trivially] at known ⊢
    exact known
  · rw [if_neg trivially] at known ⊢
    by_cases rightEmpty : b = Index.empty
    · rw [if_pos rightEmpty] at known ⊢
      exact known
    · rw [if_neg rightEmpty] at known ⊢
      exact extension.filed a b relation known

/-- Indices in use stay in use. -/
theorem Extends.lt_size (extension : forest.Extends later) (stored : forest.WellStored)
    (storedLater : later.WellStored) (inUse : a < forest.size) : a < later.size := by
  rcases stored.inUse_of_lt inUse with ⟨content, denotes⟩
  exact storedLater.canonical.lt_size (extension.denotes a content denotes)

/-- What is answered once is always answered. -/
theorem Extends.inclusion (extension : forest.Extends later) (stored : forest.WellStored)
    (storedLater : later.WellStored) {relation : Inclusion}
    (answered : forest.inclusion a b = .ok (some relation)) :
    later.inclusion a b = .ok (some relation) := by
  rcases (forest.inclusion_eq_ok_iff a b _).mp answered with ⟨leftInside, rightInside, known⟩
  exact (later.inclusion_eq_ok_iff a b _).mpr
    ⟨extension.lt_size stored storedLater leftInside,
      extension.lt_size stored storedLater rightInside, extension.known known⟩

end SetForest.Forest
