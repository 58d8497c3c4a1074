import SetForest.Proofs.Forest.Caches
import SetForest.Proofs.Forest.Dependable
import SetForest.Proofs.Forest.Inclusions

namespace SetForest

/-!
# What results leave behind

An operation files what its result shows only when it has computed it.  An operand that is
returned as it is, and a result that was remembered, leave nothing new behind.  All the
same, what they show is on file: a shortcut is taken for an inclusion that was filed, and a
remembered result has left its inclusions when it was computed (`Forest.Complete.filed`).

From then on the tables alone answer for a set and one that contains it
(`Forest.consult_of_inclusion`), and for two sets of keys that were found to be disjoint
(`Forest.consult_of_separated`).
-/

/-- A relation holds between the sets of which a result shows that one contains the other. -/
def Operation.Establishes (relation : Index → Index → Prop) :
    Operation → Index → Index → Index → Prop
  | .union, a, b, r => relation a r ∧ relation b r
  | .intersection, a, b, r => relation r a ∧ relation r b
  | .difference, a, _, r => relation r a

theorem Operation.Establishes.imp {relation other : Index → Index → Prop} {operation : Operation}
    {a b r : Index} (established : operation.Establishes relation a b r)
    (implies : ∀ sub, ∀ sup ∈ [a, b, r], relation sub sup → other sub sup) :
    operation.Establishes other a b r := by
  have left : a ∈ [a, b, r] := List.mem_cons_self
  have right : b ∈ [a, b, r] := List.mem_cons_of_mem a List.mem_cons_self
  have result : r ∈ [a, b, r] := List.mem_cons_of_mem a (List.mem_cons_of_mem b List.mem_cons_self)
  cases operation with
  | union => exact And.imp (implies a r result) (implies b r result) established
  | intersection => exact And.imp (implies r a left) (implies r b right) established
  | difference => exact implies r a left established

namespace Forest

variable {K : Type} [Key K] {n : Nat} {forest later : Forest K n}
  {below laterBelow : Fin n → Meaning} {operation : Operation} {a b r sub sup : Index}

/-! ## On file -/

theorem Shows.filed (shown : forest.Shows operation a b r) :
    operation.Establishes forest.Filed a b r := by
  cases operation with
  | union => exact shown
  | intersection => exact shown
  | difference => exact shown.1

/-- A shortcut shows nothing that is not on file. -/
theorem filed_of_shortcut {outcome : Outcome}
    (found : forest.shortcut operation a b = some (r, outcome)) :
    operation.Establishes forest.Filed a b r := by
  unfold shortcut at found
  by_cases same : a = b
  · subst b
    rw [if_pos rfl] at found
    cases found
    cases operation with
    | union => exact ⟨Or.inl rfl, Or.inl rfl⟩
    | intersection => exact ⟨Or.inl rfl, Or.inl rfl⟩
    | difference => exact Or.inr (Or.inl rfl)
  · rw [if_neg same] at found
    by_cases someEmpty : a = Index.empty ∨ b = Index.empty
    · rw [if_pos someEmpty] at found
      cases found
      cases operation with
      | union =>
          dsimp only
          split
          · next leftEmpty => exact ⟨Or.inr (Or.inl leftEmpty), Or.inl rfl⟩
          · next notEmpty =>
              exact ⟨Or.inl rfl, Or.inr (Or.inl (someEmpty.resolve_left notEmpty))⟩
      | intersection => exact ⟨Or.inr (Or.inl rfl), Or.inr (Or.inl rfl)⟩
      | difference => exact Or.inl rfl
    · rw [if_neg someEmpty] at found
      have converse := forest.filedInclusion_comm same
      split at found
      · next filed =>
          cases found
          exact ⟨Or.inr (Or.inr filed), Or.inl rfl⟩
      · next filed =>
          cases found
          rw [filed] at converse
          exact ⟨Or.inl rfl, Or.inr (Or.inr converse)⟩
      · next filed =>
          cases found
          exact ⟨Or.inl rfl, Or.inr (Or.inr filed)⟩
      · next filed =>
          cases found
          rw [filed] at converse
          exact ⟨Or.inr (Or.inr converse), Or.inl rfl⟩
      · cases found

/-- Only the empty set lies within the empty set. -/
theorem WellStored.eq_empty_of_within (stored : forest.WellStored)
    (lawful : ∀ child, (below child).Lawful) (inUse : forest.InUse a)
    (within : forest.Within below a Index.empty) : a = Index.empty := by
  rcases inUse with ⟨content, denotes⟩
  exact stored.antisymm lawful within (Or.inr ⟨[], content, stored.empty, denotes, nofun⟩)

namespace Complete

variable {knowsBelow : Fin n → Operation → Index → Index → Prop}

/-- Whatever settles an operation, all that its result shows is on file. -/
theorem filed (complete : forest.Complete knowsBelow) (sound : forest.Sound below)
    (lawful : ∀ child, (below child).Lawful) (knows : forest.Knows operation a b)
    (answers : forest.Answers below operation a b r) :
    operation.Establishes forest.Filed a b r := by
  have stored := sound.toWellStored
  rcases knows with ⟨⟨left, denotesLeft⟩, ⟨right, denotesRight⟩, -, settled⟩
  cases found : forest.shortcut operation a b with
  | some answer =>
      have same := stored.functional lawful answers
        (sound.shortcut lawful (stored.canonical.lt_size denotesLeft)
          (stored.canonical.lt_size denotesRight) found)
      rw [same]
      exact filed_of_shortcut found
  | none =>
      rw [found] at settled
      rcases Option.isSome_iff_exists.mp (settled.resolve_left Bool.false_ne_true) with
        ⟨r', remembered⟩
      have different := ne_of_shortcut_eq_none found
      have same := stored.functional lawful answers
        (sound.determines_of_remembered lawful remembered different).answers
      subst r'
      by_cases isEmpty : r = Index.empty
      · subst r
        cases operation with
        | union =>
            exact ⟨Or.inl (stored.eq_empty_of_within lawful ⟨left, denotesLeft⟩
                (WellStored.within_union lawful answers)),
              Or.inl (stored.eq_empty_of_within lawful ⟨right, denotesRight⟩
                (WellStored.within_union lawful (WellStored.symm lawful rfl answers)))⟩
        | intersection => exact ⟨Or.inr (Or.inl rfl), Or.inr (Or.inl rfl)⟩
        | difference => exact Or.inr (Or.inl rfl)
      · exact (complete.shown operation a b r remembered different isEmpty).filed

end Complete

/-- What lies within a set in use is in use, as far as it is on file. -/
theorem Sound.inUse_of_filed (sound : forest.Sound below) (supInUse : forest.InUse sup)
    (filed : forest.Filed sub sup) : forest.InUse sub := by
  rcases filed with rfl | rfl | found
  · exact supInUse
  · exact ⟨[], sound.empty⟩
  · rcases sound.filed sub sup .subset found with rfl | ⟨part, whole, denotesPart, -⟩
    · exact supInUse
    · exact ⟨part, denotesPart⟩

/-- What is on file is told. -/
theorem Sound.inclusion_of_filed (sound : forest.Sound below)
    (lawful : ∀ child, (below child).Lawful) (supInUse : forest.InUse sup)
    (filed : forest.Filed sub sup) : forest.inclusion sub sup = .ok (some .subset) := by
  have stored := sound.toWellStored
  have subInUse := sound.inUse_of_filed supInUse filed
  rcases subInUse with ⟨part, denotesPart⟩
  rcases supInUse with ⟨whole, denotesWhole⟩
  refine (forest.inclusion_eq_ok_iff sub sup _).mpr ⟨stored.canonical.lt_size denotesPart,
    stored.canonical.lt_size denotesWhole, ?_⟩
  rw [known]
  by_cases trivially : sub = sup ∨ sub = Index.empty
  · rw [if_pos trivially]
  · have found := (filed.resolve_left fun same => trivially (Or.inl same)).resolve_left
      fun isEmpty => trivially (Or.inr isEmpty)
    have supNotEmpty : sup ≠ Index.empty := by
      rintro rfl
      exact trivially (Or.inr (stored.eq_empty_of_within lawful ⟨part, denotesPart⟩
        (sound.filed sub Index.empty .subset found)))
    rw [if_neg trivially, if_neg supNotEmpty]
    exact found

/-- A removal files its result as a part of its set. -/
theorem filed_removeKey {key : K} (removed : removeKey a key forest = (.ok r, later)) :
    later.Filed r a := by
  have ways := removal forest a key
  rw [removed] at ways
  cases ways with
  | absent read notFound => exact Or.inl rfl
  | removed read found => exact filed_fileInclusion _ _ a

/-- So does a filtering, if its cache has served no other forest. -/
theorem CacheFiled.filed_filter {predicate : Element K → Bool} {cache : FilterCache}
    {filtered : Filtered} (filed : forest.CacheFiled cache) (sound : forest.Sound below)
    (lawful : ∀ child, (below child).Lawful)
    (answered : Forest.filter a predicate cache forest = (.ok filtered, later)) :
    later.Filed filtered.index a := by
  have advances := sound.changes lawful (fun _ admitted => admitted)
    (changes_filter forest a predicate cache)
  have ways := filtering forest a predicate cache
  rw [answered] at advances ways
  cases ways with
  | empty isEmpty => exact Or.inr (Or.inl rfl)
  | cached usable => exact (filed a _ (eq_of_usable? usable).1).mono advances.extension
  | sifted useless read => exact filed_fileInclusion _ _ a

/-! ## Answers from the tables -/

/-- Of a set and one that contains it, the tables know the union and the intersection. -/
theorem consult_of_inclusion (included : forest.inclusion sub sup = .ok (some .subset)) :
    (consult .union sub sup forest).1 = .ok (.known sup) ∧
      (consult .union sup sub forest).1 = .ok (.known sup) ∧
      (consult .intersection sub sup forest).1 = .ok (.known sub) ∧
      (consult .intersection sup sub forest).1 = .ok (.known sub) := by
  rcases (forest.inclusion_eq_ok_iff sub sup _).mp included with ⟨subInUse, supInUse, told⟩
  have shortcuts : (∃ outcome, forest.shortcut .union sub sup = some (sup, outcome)) ∧
      (∃ outcome, forest.shortcut .union sup sub = some (sup, outcome)) ∧
      (∃ outcome, forest.shortcut .intersection sub sup = some (sub, outcome)) ∧
      ∃ outcome, forest.shortcut .intersection sup sub = some (sub, outcome) := by
    rw [known] at told
    by_cases same : sub = sup
    · subst sup
      simp only [shortcut, if_true]
      exact ⟨⟨_, rfl⟩, ⟨_, rfl⟩, ⟨_, rfl⟩, ⟨_, rfl⟩⟩
    · by_cases isEmpty : sub = Index.empty
      · subst sub
        simp only [shortcut, if_neg same, if_neg (Ne.symm same), true_or, or_true, if_true]
        exact ⟨⟨_, rfl⟩, ⟨_, rfl⟩, ⟨_, rfl⟩, ⟨_, rfl⟩⟩
      · rw [if_neg (not_or_intro same isEmpty)] at told
        by_cases supEmpty : sup = Index.empty
        · rw [if_pos supEmpty] at told
          cases told
        · rw [if_neg supEmpty] at told
          have converse := forest.filedInclusion_comm same
          rw [told] at converse
          simp only [shortcut, if_neg same, if_neg (Ne.symm same),
            if_neg (not_or_intro isEmpty supEmpty), if_neg (not_or_intro supEmpty isEmpty), told,
            converse]
          exact ⟨⟨_, rfl⟩, ⟨_, rfl⟩, ⟨_, rfl⟩, ⟨_, rfl⟩⟩
  rcases shortcuts with ⟨⟨_, union⟩, ⟨_, unionBack⟩, ⟨_, intersection⟩, ⟨_, intersectionBack⟩⟩
  exact ⟨consult_of_shortcut subInUse supInUse union,
    consult_of_shortcut supInUse subInUse unionBack,
    consult_of_shortcut subInUse supInUse intersection,
    consult_of_shortcut supInUse subInUse intersectionBack⟩

/-- Two sets of keys are known to be disjoint. -/
def Separated (forest : Forest K n) (a b : Index) : Prop :=
  a = Index.empty ∨ b = Index.empty ∨
    (forest.memo .intersection).lookup (.ordered a b) = some Index.empty

theorem Separated.symm (separated : forest.Separated a b) : forest.Separated b a := by
  rcases separated with leftEmpty | rightEmpty | remembered
  · exact Or.inr (Or.inl leftEmpty)
  · exact Or.inl rightEmpty
  · rw [Operands.ordered_comm] at remembered
    exact Or.inr (Or.inr remembered)

/-- What is remembered of two sets is never taken back. -/
theorem Separated.mono (separated : forest.Separated a b) (sound : forest.Sound below)
    (soundLater : later.Sound laterBelow) (lawful : ∀ child, (laterBelow child).Lawful)
    (extension : forest.Extends later) (belowLe : ∀ child, (below child).Le (laterBelow child))
    (remembers : forest.Remembers later) : later.Separated a b :=
  separated.imp id (Or.imp id
    (soundLater.lookup_of_remembers lawful sound extension belowLe remembers))

/-- Without children, a difference that is its left operand was remembered together with
the empty intersection. -/
theorem Complete.separated {knowsBelow : Fin n → Operation → Index → Index → Prop}
    (complete : forest.Complete knowsBelow) (sound : forest.Sound below)
    (lawful : ∀ child, (below child).Lawful) (flat : forest.children = [])
    (knows : forest.Knows .difference a b) (answers : forest.Answers below .difference a b a) :
    forest.Separated a b := by
  by_cases someEmpty : a = Index.empty ∨ b = Index.empty
  · exact someEmpty.imp id Or.inl
  · rcases not_or.mp someEmpty with ⟨leftNotEmpty, rightNotEmpty⟩
    have different : a ≠ b := by
      rintro rfl
      exact leftNotEmpty (answers_difference_self_iff.mp answers).1
    have noShortcut : forest.shortcut .difference a b = none := by
      rw [shortcut, if_neg different, if_neg someEmpty]
    have settled := knows.settled
    rw [noShortcut] at settled
    rcases Option.isSome_iff_exists.mp (settled.resolve_left Bool.false_ne_true) with
      ⟨r, remembered⟩
    have same := sound.toWellStored.functional lawful answers
      (sound.determines_of_remembered lawful remembered different).answers
    subst r
    have shown := complete.shown .difference a b a remembered different leftNotEmpty
    exact Or.inr (Or.inr (shown.2 rfl flat))

/-- Of two sets that are known to be disjoint, the tables know the intersection. -/
theorem consult_of_separated (sound : forest.Sound below)
    (lawful : ∀ child, (below child).Lawful) (dependable : forest.Dependable)
    (separated : forest.Separated a b) (leftInUse : a < forest.size)
    (rightInUse : b < forest.size) :
    (consult .intersection a b forest).1 = .ok (.known Index.empty) := by
  cases found : forest.shortcut .intersection a b with
  | some answer =>
      have stored := sound.toWellStored
      have answers : forest.Answers below .intersection a b Index.empty := by
        rcases separated with rfl | rfl | remembered
        · exact stored.answers_empty_left .intersection (stored.inUse_of_lt rightInUse)
        · exact stored.answers_empty_right .intersection (stored.inUse_of_lt leftInUse)
        · have answersOrdered := sound.remembered .intersection _ _ remembered
          exact (answers_operands_iff lawful).mp answersOrdered
      have same := stored.functional lawful answers
        (sound.shortcut lawful leftInUse rightInUse found)
      rw [same]
      exact consult_of_shortcut leftInUse rightInUse found
  | none =>
      rcases separated with rfl | rfl | remembered
      · rw [shortcut, if_neg (ne_of_shortcut_eq_none found), if_pos (Or.inl rfl)] at found
        cases found
      · rw [shortcut, if_neg (ne_of_shortcut_eq_none found), if_pos (Or.inr rfl)] at found
        cases found
      · have told : forest.usable? ((forest.memo .intersection).lookup
            (Operation.intersection.operands a b)) = .ok (some Index.empty) := by
          rw [show Operation.intersection.operands a b = .ordered a b from rfl, remembered, usable?,
            Arena.isEvicted_of_get dependable.empty]
          rfl
        exact consult_of_usable? leftInUse rightInUse found told

end Forest

end SetForest
