import SetForest.Proofs.Forest.Consult
import SetForest.Proofs.Lockstep

namespace SetForest.Forest

/-!
# Forests in lockstep

Two forests may be compared by any relation that survives what a forest writes, as long as
they hand out the same indices (`Kept`).  An action then keeps them in lockstep if it reads
the same in both, or if the first of them has an excuse.

What is read depends on the relation, so it is asked of each action separately.  This is all
that is asked.
-/

variable {K : Type} [Key K] {n : Nat} {excuses : Error → Prop}
  {related : Forest K n → Forest K n → Prop} {x y : Forest K n}

/-- A relation that survives everything that is written to both forests. -/
structure Kept (related : Forest K n → Forest K n → Prop) : Prop where
  children : ∀ {x y}, related x y → x.children = y.children
  note : ∀ {x y}, related x y → ∀ activity, related (x.note activity) (y.note activity)
  tallyRegistration : ∀ {x y}, related x y → ∀ outcome,
    related (x.tallyRegistration outcome) (y.tallyRegistration outcome)
  tallyFilter : ∀ {x y}, related x y → ∀ outcome,
    related (x.tallyFilter outcome) (y.tallyFilter outcome)
  tallyOperation : ∀ {x y}, related x y → ∀ operation outcome,
    related (x.tallyOperation operation outcome) (y.tallyOperation operation outcome)
  intern : ∀ {x y}, related x y → ∀ content,
    (x.intern content).1 = (y.intern content).1 ∧
      related (x.intern content).2 (y.intern content).2
  remember : ∀ {x y}, related x y → ∀ operation pair result,
    related (x.remember operation pair result) (y.remember operation pair result)
  fileInclusion : ∀ {x y}, related x y → ∀ sub sup,
    related (x.fileInclusion sub sup) (y.fileInclusion sub sup)

/-- What is read off two forests to see whether an index is in use, and what it stands for. -/
structure ReadsAlike (excuses : Error → Prop) (x y : Forest K n) : Prop where
  checkIndex : ∀ index, x.checkIndex index = y.checkIndex index
  get : ∀ index, Reads excuses (x.sets.get index) (y.sets.get index)

theorem ReadsAlike.content (reads : ReadsAlike excuses x y) (index : Index) :
    Reads excuses (x.content index) (y.content index) := by
  rw [Forest.content, Forest.content, reads.checkIndex]
  exact (Reads.refl _).bind fun _ => reads.get index

namespace Kept

open SetForest.Action

theorem fileResult (kept : Kept related) (isRelated : related x y) (operation : Operation)
    (a b result : Index) :
    related (x.fileResult operation a b result) (y.fileResult operation a b result) := by
  cases operation with
  | union =>
      simp only [Forest.fileResult]
      split
      · exact kept.fileInclusion isRelated b a
      · split
        · exact kept.fileInclusion isRelated a b
        · exact kept.fileInclusion (kept.fileInclusion isRelated a result) b result
  | intersection =>
      simp only [Forest.fileResult]
      split
      · exact kept.fileInclusion isRelated a b
      · split
        · exact kept.fileInclusion isRelated b a
        · exact kept.fileInclusion (kept.fileInclusion isRelated result a) result b
  | difference =>
      simp only [Forest.fileResult, kept.children isRelated]
      split
      · exact kept.fileInclusion isRelated result a
      · split
        · exact kept.remember isRelated .intersection _ _
        · exact isRelated

/-- What is settled in both forests has the same index. -/
theorem settle (kept : Kept related) (isRelated : related x y) (operation : Operation)
    (a b : Index) (content : Content K) :
    (Forest.settle operation a b content x).1 = (Forest.settle operation a b content y).1 ∧
      related (Forest.settle operation a b content x).2
        (Forest.settle operation a b content y).2 := by
  rcases kept.intern isRelated content with ⟨registered, stored⟩
  rw [settle_apply, settle_apply, registered]
  have counted := kept.tallyOperation stored operation (.ofMiss (y.intern content).1.cold)
  have remembered := kept.remember counted operation (operation.operands a b)
    (y.intern content).1.index
  exact ⟨rfl, kept.fileResult remembered operation a b _⟩

theorem lockstep_intern (kept : Kept related) (isRelated : related x y) (content : Content K) :
    Lockstep excuses related Eq ((modifyGet (Forest.intern · content) : ForestM K n Registered) x)
      ((modifyGet (Forest.intern · content) : ForestM K n Registered) y) :=
  .answered (kept.intern isRelated content).1 (kept.intern isRelated content).2

/-- A registration is in lockstep if both forests check it or neither does, and also if
there is nothing to find. -/
theorem lockstep_registerSet (kept : Kept related) (isRelated : related x y) {content : Content K}
    (checked : x.config.integrityChecks = y.config.integrityChecks ∨ content.Increasing) :
    Lockstep excuses related Eq (registerSet content x) (registerSet content y) := by
  have noted := kept.note isRelated .registration
  have store : ∀ x y : Forest K n, related x y → Lockstep excuses related Eq
      ((if content.isEmpty then (do
          modify (Forest.tallyRegistration · .emptyHit)
          return ⟨Index.empty, false⟩ : ForestM K n Registered)
        else do
          let registered ← modifyGet (Forest.intern · content)
          modify (Forest.tallyRegistration · (if registered.cold then .coldMiss else .hit))
          return registered) x)
      ((if content.isEmpty then (do
          modify (Forest.tallyRegistration · .emptyHit)
          return ⟨Index.empty, false⟩ : ForestM K n Registered)
        else do
          let registered ← modifyGet (Forest.intern · content)
          modify (Forest.tallyRegistration · (if registered.cold then .coldMiss else .hit))
          return registered) y) := by
    intro x y isRelated
    split
    · exact .answered rfl (kept.tallyRegistration isRelated _)
    · apply (kept.lockstep_intern isRelated content).bind
      rintro registered _ x' y' rfl stored
      exact .answered rfl (kept.tallyRegistration stored _)
  rw [registerSet, modify_bind_apply, modify_bind_apply, get_bind_apply, get_bind_apply,
    show (x.note .registration).config = x.config by rw [note_eq],
    show (y.note .registration).config = y.config by rw [note_eq]]
  rcases checked with sameChecks | increasing
  · rw [sameChecks]
    split
    · apply (Lockstep.read noted (.refl content.check)).bind
      rintro _ _ x' y' - relatedChecked
      exact store x' y' relatedChecked
    · exact store _ _ noted
  · have accepted : content.check = .ok () := by
      rw [Content.check, (Content.violation?_eq_none_iff content).mpr increasing]
    rw [accepted]
    cases x.config.integrityChecks <;> cases y.config.integrityChecks <;> exact store _ _ noted

theorem lockstep_registerSingle (kept : Kept related) (isRelated : related x y)
    (element : Element K) :
    Lockstep excuses related Eq ((ExceptT.lift (registerSingle element) : ForestM K n Registered) x)
      ((ExceptT.lift (registerSingle element) : ForestM K n Registered) y) := by
  rcases kept.intern isRelated [element] with ⟨registered, stored⟩
  rw [registerSingle_apply, registerSingle_apply, registered]
  exact .answered rfl (kept.tallyRegistration stored _)

theorem lockstep_registerUnordered (kept : Kept related) (isRelated : related x y)
    (elements : List (Element K)) :
    Lockstep excuses related Eq (registerUnordered elements x) (registerUnordered elements y) := by
  rw [registerUnordered, bind_apply, bind_apply, liftExcept_apply, liftExcept_apply, Content.check]
  cases violation : (Content.prepare elements).violation? with
  | some violation => exact .failed isRelated
  | none =>
      exact kept.lockstep_registerSet isRelated
        (Or.inr ((Content.violation?_eq_none_iff _).mp violation))

theorem lockstep_updateKey (kept : Kept related) {index : Index} (element : Element K)
    {first second : Forest K n} (noted : x.note .keyUpdate = first)
    (notedOther : y.note .keyUpdate = second) (isRelated : related first second)
    (reads : Reads excuses (first.content index) (second.content index)) :
    Lockstep excuses related Eq (updateKey index element x) (updateKey index element y) := by
  rw [updateKey, modify_bind_apply, modify_bind_apply, noted, notedOther, get_bind_apply,
    get_bind_apply]
  apply (Lockstep.read isRelated reads).bind
  rintro content _ x' y' rfl relatedRead
  apply (kept.lockstep_intern relatedRead (content.put element)).bind
  rintro registered _ x'' y'' rfl stored
  exact .answered rfl stored

/-- A removal is in lockstep if the key is found at the same position. -/
theorem lockstep_removeKey (kept : Kept related) {index : Index} {key : K}
    {first second : Forest K n} (noted : x.note .keyRemoval = first)
    (notedOther : y.note .keyRemoval = second) (isRelated : related first second)
    (reads : Reads excuses (first.content index) (second.content index))
    (found : ∀ content, first.content index = .ok content →
      content.position key first.config.searchThreshold =
        content.position key second.config.searchThreshold) :
    Lockstep excuses related Eq (removeKey index key x) (removeKey index key y) := by
  rw [removeKey, modify_bind_apply, modify_bind_apply, noted, notedOther, get_bind_apply,
    get_bind_apply, bind_apply, bind_apply, liftExcept_apply, liftExcept_apply]
  rcases reads with same | ⟨error, refused, excused⟩
  · rw [← same]
    cases read : first.content index with
    | error error => exact .failed isRelated
    | ok content =>
        dsimp only
        rw [found content read]
        cases content.position key second.config.searchThreshold with
        | none => exact .answered rfl isRelated
        | some position =>
            apply (kept.lockstep_intern isRelated (content.eraseIdx position)).bind
            rintro registered _ x' y' rfl stored
            exact .answered rfl (kept.fileInclusion stored _ _)
  · rw [refused]
    exact .excused excused

/-- A consultation is in lockstep if both forests take the same shortcut, or agree on the
use of what they remember. -/
theorem lockstep_consult (kept : Kept related) {operation : Operation} {a b : Index}
    {first second : Forest K n} (noted : x.note (.operation operation) = first)
    (notedOther : y.note (.operation operation) = second) (isRelated : related first second)
    (reads : ReadsAlike excuses first second)
    (shortcuts : first.shortcut operation a b = second.shortcut operation a b)
    (usable : second.shortcut operation a b = none →
      first.usable? ((first.memo operation).lookup (operation.operands a b)) =
        second.usable? ((second.memo operation).lookup (operation.operands a b))) :
    Lockstep excuses related Eq (consult operation a b x) (consult operation a b y) := by
  rw [consult, modify_bind_apply, modify_bind_apply, noted, notedOther]
  rw [get_bind_apply, get_bind_apply]
  apply (Lockstep.read isRelated (Or.inl (reads.checkIndex a))).bind
  rintro _ _ x₁ y₁ - related₁
  apply (Lockstep.read related₁ (Or.inl (reads.checkIndex b))).bind
  rintro _ _ x₂ y₂ - related₂
  rw [shortcuts]
  cases found : second.shortcut operation a b with
  | some answer => exact .answered rfl (kept.tallyOperation related₂ operation _)
  | none =>
      apply (Lockstep.read related₂ (Or.inl (usable found))).bind
      rintro usable _ x₃ y₃ rfl related₃
      cases usable with
      | some result => exact .answered rfl (kept.tallyOperation related₃ operation _)
      | none =>
          apply (Lockstep.read related₃ (reads.get a)).bind
          rintro left _ x₄ y₄ rfl related₄
          apply (Lockstep.read related₄ (reads.get b)).bind
          rintro right _ x₅ y₅ rfl related₅
          rw [kept.children isRelated]
          exact .answered rfl related₅

/-- A filtering is in lockstep if both forests agree on the use of what is cached. -/
theorem lockstep_filter (kept : Kept related) {index : Index} (predicate : Element K → Bool)
    {cache : FilterCache} {first second : Forest K n} (noted : x.note .filtering = first)
    (notedOther : y.note .filtering = second) (isRelated : related first second)
    (reads : ReadsAlike excuses first second)
    (usable : index ≠ Index.empty →
      first.usable? (cache.lookup index) = second.usable? (cache.lookup index)) :
    Lockstep excuses related Eq (filter index predicate cache x)
      (filter index predicate cache y) := by
  rw [filter, modify_bind_apply, modify_bind_apply, noted, notedOther]
  rw [get_bind_apply, get_bind_apply]
  apply (Lockstep.read isRelated (Or.inl (reads.checkIndex index))).bind
  rintro _ _ x₁ y₁ - related₁
  by_cases isEmpty : index = Index.empty
  · rw [if_pos isEmpty, if_pos isEmpty]
    exact .answered rfl (kept.tallyFilter related₁ _)
  · rw [if_neg isEmpty, if_neg isEmpty]
    apply (Lockstep.read related₁ (Or.inl (usable isEmpty))).bind
    rintro usable _ x₂ y₂ rfl related₂
    cases usable with
    | some result => exact .answered rfl (kept.tallyFilter related₂ _)
    | none =>
        apply (Lockstep.read related₂ (reads.get index)).bind
        rintro content _ x₃ y₃ rfl related₃
        apply (kept.lockstep_intern related₃ _).bind
        rintro registered _ x₄ y₄ rfl stored
        exact .answered rfl (kept.fileInclusion (kept.tallyFilter stored _) _ _)

end Kept

end SetForest.Forest
