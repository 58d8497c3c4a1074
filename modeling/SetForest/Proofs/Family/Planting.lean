import SetForest.Family.Spec
import SetForest.Proofs.Family.Paths

namespace SetForest

/-!
# Planted families

A description is planted forest by forest, and every forest starts out with the
empty set alone.  Such a family is sound, since there is nothing yet that its
tables could be wrong about.  The empty set can be read, and so nothing is missing.
-/

variable {K : Type} [Key K] {n : Nat}

namespace Forest

/-- The empty set is stored first. -/
theorem index_created (strategy : Strategy) (blockSize : Nat) :
    ((Arena.create strategy blockSize : Arena (Element K)).intern []).1.1 = Index.empty := by
  have created : (Arena.create strategy blockSize : Arena (Element K)).Canonical :=
    Arena.canonical_create strategy blockSize
  rw [created.intern_fst [], Arena.holdings_create, Holdings.intern_new]
  · rfl
  · simp [Holdings.empty]

/-- A new arena has nothing stored. -/
theorem not_denotes_created {E : Type} [Key E] (strategy : Strategy) (blockSize : Nat)
    (index : Index) (content : List E) :
    ¬(Arena.create strategy blockSize).Denotes index content := by
  intro denotes
  have known : (Arena.create strategy blockSize : Arena E).holdings.indices.lookup content =
    some index := denotes
  rw [Arena.holdings_create] at known
  simp [Holdings.empty] at known

theorem get_created (config : Config) (strategy : Strategy) (children : List (Fin n)) :
    (create config strategy children : Forest K n).sets.get Index.empty = .ok [] := by
  have created : (Arena.create strategy config.blockSize : Arena (Element K)).Canonical :=
    Arena.canonical_create strategy config.blockSize
  have read := created.get_interned []
  rw [index_created] at read
  exact read

theorem intact_created (config : Config) (strategy : Strategy) (children : List (Fin n)) :
    (create config strategy children : Forest K n).sets.Intact := by
  have nothing : (Arena.create strategy config.blockSize : Arena (Element K)).Intact :=
    fun index content denotes => absurd denotes (not_denotes_created _ _ index content)
  exact nothing.intern (Arena.canonical_create strategy config.blockSize) []

/-- A new forest has nothing stored but the empty set. -/
theorem eq_nil_of_denotes_created {config : Config} {strategy : Strategy} {children : List (Fin n)}
    {index : Index} {content : Content K}
    (denotes : (create config strategy children : Forest K n).Denotes index content) :
    content = [] :=
  ((Arena.canonical_create strategy config.blockSize).denotes_of_denotes_intern
    denotes).resolve_right (not_denotes_created _ _ index content)

theorem sound_create (below : Fin n → Meaning) (config : Config) (strategy : Strategy)
    (children : List (Fin n)) : (create config strategy children : Forest K n).Sound below := by
  have created : (Arena.create strategy config.blockSize : Arena (Element K)).Canonical :=
    Arena.canonical_create strategy config.blockSize
  refine ⟨⟨created.intern [], ?_, ?_, ?_⟩, ?_, ?_⟩
  · have denotes := created.denotes_interned []
    rw [index_created] at denotes
    exact denotes
  · intro index content denotes
    rw [eq_nil_of_denotes_created denotes]
    exact Content.increasing_nil
  · intro index content denotes
    rw [eq_nil_of_denotes_created denotes]
    intro element member
    cases member
  · intro operation pair r found
    cases operation <;> simp [create, memo] at found
  · intro a b relation found
    simp [create, filedInclusion] at found

end Forest

namespace Family

/-- What holds of the family without forests, and is kept by planting a new forest,
holds of every family that is planted from a description. -/
theorem ofSpecs?_induction {motive : {n : Nat} → Family K n → Prop} (bare : motive .bare)
    (plant : ∀ {n : Nat} (family : Family K n) (config : Config) (strategy : Strategy)
      (children : List (Fin n)), motive family →
        motive (family.plant (Forest.create config strategy children)))
    {specs : List Spec} {family : Family K n} (planted : ofSpecs? specs = some ⟨n, family⟩) :
    motive family := by
  have general : ∀ (specs : List Spec) (start finish : (n : Nat) × Family K n), motive start.2 →
      specs.foldlM extend? start = some finish → motive finish.2 := by
    intro specs
    induction specs with
    | nil =>
        intro start finish startHolds reached
        rw [List.foldlM_nil] at reached
        cases reached
        exact startHolds
    | cons spec specs ih =>
        intro start finish startHolds reached
        rw [List.foldlM_cons] at reached
        cases extended : extend? start spec with
        | none =>
            rw [extended] at reached
            cases reached
        | some middle =>
            rw [extended] at reached
            refine ih middle finish ?_ reached
            rw [extend?] at extended
            cases positions : positions? start.1 spec.children with
            | none =>
                rw [positions] at extended
                cases extended
            | some children =>
                rw [positions] at extended
                cases extended
                exact plant start.2 spec.config spec.strategy children startHolds
  exact general specs ⟨0, .bare⟩ ⟨n, family⟩ bare planted

/-- If two descriptions agree on the children of all forests, both can be planted or
neither.  What relates the two families forest by forest may depend on the descriptions. -/
theorem exists_ofSpecs? {same : Spec → Spec → Prop}
    {motive : {m : Nat} → Family K m → Family K m → Prop} (bare : motive .bare .bare)
    (children : ∀ first second, same first second → first.children = second.children)
    (plant : ∀ {m : Nat} (x y : Family K m) (first second : Spec) (children : List (Fin m)),
      same first second → motive x y →
        motive (x.plant (Forest.create first.config first.strategy children))
          (y.plant (Forest.create second.config second.strategy children)))
    {specs specs' : List Spec} (matched : List.Forall₂ same specs specs') {family : Family K n}
    (planted : ofSpecs? specs = some ⟨n, family⟩) :
    ∃ other, ofSpecs? specs' = some ⟨n, other⟩ ∧ motive family other := by
  have general : ∀ {m : Nat} (start start' : Family K m), motive start start' →
      specs.foldlM extend? ⟨m, start⟩ = some ⟨n, family⟩ →
      ∃ other, specs'.foldlM extend? ⟨m, start'⟩ = some ⟨n, other⟩ ∧ motive family other := by
    clear planted
    induction matched with
    | nil =>
        intro m start start' here reached
        rw [List.foldlM_nil] at reached
        cases reached
        exact ⟨start', rfl, here⟩
    | @cons first second specs specs' sameFirst _ ih =>
        intro m start start' here reached
        rw [List.foldlM_cons, extend?] at reached ⊢
        rw [← children first second sameFirst]
        cases positions : positions? m first.children with
        | none =>
            rw [positions] at reached
            cases reached
        | some accepted =>
            rw [positions] at reached
            exact ih _ _ (plant start start' first second accepted sameFirst here) reached
  exact general .bare .bare bare planted

variable {specs : List Spec} {family : Family K n}

/-- A planted family is sound. -/
theorem sound_ofSpecs? (planted : ofSpecs? specs = some ⟨n, family⟩) : family.Sound := by
  refine ofSpecs?_induction .bare ?_ planted
  intro n family config strategy children sound
  exact .plant sound (Forest.sound_create family.meaning config strategy children)

/-- What holds of every new forest holds at every position. -/
theorem forestAt_ofSpecs? (holds : (m : Nat) → Forest K m → Prop)
    (created : ∀ m config strategy (children : List (Fin m)),
      holds m (Forest.create config strategy children))
    (planted : ofSpecs? specs = some ⟨n, family⟩) (position : Fin n) :
    holds position (family.forestAt position) := by
  revert position
  refine ofSpecs?_induction
    (motive := fun {m} family => ∀ position : Fin m, holds position (family.forestAt position))
    (fun position => position.elim0) ?_ planted
  intro n family config strategy children below position
  induction position using Fin.lastCases with
  | cast position =>
      rw [forestAt_castSucc]
      exact below position
  | last =>
      rw [forestAt_last]
      exact created n config strategy children

theorem readsEmpty_ofSpecs? (planted : ofSpecs? specs = some ⟨n, family⟩) : family.ReadsEmpty :=
  forestAt_ofSpecs? (fun _ forest => forest.sets.get Index.empty = .ok [])
    (fun _ => Forest.get_created) planted

theorem intact_ofSpecs? (planted : ofSpecs? specs = some ⟨n, family⟩) : family.Intact :=
  forestAt_ofSpecs? (fun _ forest => forest.sets.Intact) (fun _ => Forest.intact_created) planted

end Family

end SetForest
