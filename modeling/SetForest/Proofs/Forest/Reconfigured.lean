import SetForest.Proofs.Family.Ordered
import SetForest.Proofs.Forest.Lockstep
import SetForest.Proofs.Forest.Read

namespace SetForest.Forest

/-!
# Forests in another configuration

The configuration of a forest decides how its keys are searched, whether it checks what is
registered, and whether it records the kinds of work that were done.  Two forests that
differ in their configuration and in that record, and in nothing else, take every action in
lockstep.  They answer the same without exception.

Where a key is looked up or removed, the sets have to be in order for this, as two different
searches may be at work.  What is registered has to be in order in the forest that does not
check it.
-/

variable {K : Type} [Key K] {n : Nat} {x y : Forest K n}

/-- The second forest is the first one with some configuration and some record of work. -/
def Reconfigured (x y : Forest K n) : Prop :=
  ∃ config activities, y = { x with config, activities }

namespace Reconfigured

/-- Two outcomes of an action on such forests, which has the same answer in both. -/
abbrev InStep {α : Type} : Except Error α × Forest K n → Except Error α × Forest K n → Prop :=
  Lockstep (fun _ => False) Reconfigured Eq

/-! ## Writing -/

theorem note (reconfigured : Reconfigured x y) (activity : Activity) :
    Reconfigured (x.note activity) (y.note activity) := by
  rcases reconfigured with ⟨config, activities, rfl⟩
  rw [note_eq, note_eq]
  exact ⟨config, _, rfl⟩

theorem tallyRegistration (reconfigured : Reconfigured x y) (outcome : Outcome) :
    Reconfigured (x.tallyRegistration outcome) (y.tallyRegistration outcome) := by
  rcases reconfigured with ⟨config, activities, rfl⟩
  exact ⟨config, activities, rfl⟩

theorem tallyFilter (reconfigured : Reconfigured x y) (outcome : Outcome) :
    Reconfigured (x.tallyFilter outcome) (y.tallyFilter outcome) := by
  rcases reconfigured with ⟨config, activities, rfl⟩
  exact ⟨config, activities, rfl⟩

theorem tallyOperation (reconfigured : Reconfigured x y) (operation : Operation)
    (outcome : Outcome) :
    Reconfigured (x.tallyOperation operation outcome) (y.tallyOperation operation outcome) := by
  rcases reconfigured with ⟨config, activities, rfl⟩
  exact ⟨config, activities, rfl⟩

theorem intern (reconfigured : Reconfigured x y) (content : Content K) :
    (x.intern content).1 = (y.intern content).1 ∧
      Reconfigured (x.intern content).2 (y.intern content).2 := by
  rcases reconfigured with ⟨config, activities, rfl⟩
  rw [intern_eq, intern_eq]
  exact ⟨rfl, config, activities, rfl⟩

theorem remember (reconfigured : Reconfigured x y) (operation : Operation) (pair : Operands)
    (result : Index) :
    Reconfigured (x.remember operation pair result) (y.remember operation pair result) := by
  rcases reconfigured with ⟨config, activities, rfl⟩
  cases operation <;> exact ⟨config, activities, rfl⟩

theorem fileInclusion (reconfigured : Reconfigured x y) (sub sup : Index) :
    Reconfigured (x.fileInclusion sub sup) (y.fileInclusion sub sup) := by
  rcases reconfigured with ⟨config, activities, rfl⟩
  unfold Forest.fileInclusion
  split <;> exact ⟨config, activities, rfl⟩

theorem children (reconfigured : Reconfigured x y) : x.children = y.children := by
  rcases reconfigured with ⟨config, activities, rfl⟩
  rfl

/-- Reconfigured forests hand out the same indices and write the same. -/
theorem kept : Kept (Reconfigured (K := K) (n := n)) where
  children := children
  note := note
  tallyRegistration := tallyRegistration
  tallyFilter := tallyFilter
  tallyOperation := tallyOperation
  intern := intern
  remember := remember
  fileInclusion := fileInclusion

/-! ## Reading -/

/-- Whatever is read off a forest regardless of its configuration is the same in both. -/
theorem read_eq {β : Type} (reconfigured : Reconfigured x y) (read : Forest K n → β)
    (regardless : ∀ config activities, read { x with config, activities } = read x) :
    read x = read y := by
  rcases reconfigured with ⟨config, activities, rfl⟩
  exact (regardless config activities).symm

theorem content (reconfigured : Reconfigured x y) (index : Index) :
    x.content index = y.content index :=
  reconfigured.read_eq (·.content index) fun _ _ => rfl

theorem readsAlike (reconfigured : Reconfigured x y) : ReadsAlike (fun _ => False) x y where
  checkIndex index := reconfigured.read_eq (·.checkIndex index) fun _ _ => rfl
  get index := Or.inl (reconfigured.read_eq (·.sets.get index) fun _ _ => rfl)

/-- A key is found in both forests, whichever search each of them makes. -/
theorem findKey (reconfigured : Reconfigured x y) (ordered : x.Ordered) (index : Index)
    (key : K) : x.findKey index key = y.findKey index key := by
  have sameContent := reconfigured.content index
  cases read : x.content index with
  | error error =>
      rw [Forest.findKey, Forest.findKey, ← sameContent, read]
      rfl
  | ok content =>
      have increasing := ordered.increasing_of_content read
      rw [findKey_eq increasing read key, findKey_eq increasing (sameContent ▸ read) key]

theorem contains (reconfigured : Reconfigured x y) (ordered : x.Ordered) (index : Index)
    (key : K) : x.contains index key = y.contains index key := by
  have sameContent := reconfigured.content index
  cases read : x.content index with
  | error error =>
      rw [Forest.contains, Forest.contains, ← sameContent, read]
      rfl
  | ok content =>
      have increasing := ordered.increasing_of_content read
      rw [contains_eq increasing read key, contains_eq increasing (sameContent ▸ read) key]

theorem nestedOf (reconfigured : Reconfigured x y) (ordered : x.Ordered) (index : Index)
    (key : K) (child : Nat) : x.nestedOf index key child = y.nestedOf index key child := by
  rw [Forest.nestedOf, Forest.nestedOf, reconfigured.children,
    reconfigured.findKey ordered index key]

/-! ## The actions -/

open SetForest.Action

/-- A registration goes the same way, as a set that is out of order is checked in both. -/
theorem inStep_registerSet (reconfigured : Reconfigured x y) {content : Content K}
    (inOrder : x.config.integrityChecks = false → content.Increasing)
    (inOrder' : y.config.integrityChecks = false → content.Increasing) :
    InStep (registerSet content x) (registerSet content y) := by
  apply kept.lockstep_registerSet reconfigured
  by_cases increasing : content.Increasing
  · exact Or.inr increasing
  · have checks : x.config.integrityChecks = true := by simpa using mt inOrder increasing
    have checks' : y.config.integrityChecks = true := by simpa using mt inOrder' increasing
    exact Or.inl (checks.trans checks'.symm)

theorem inStep_updateKey (reconfigured : Reconfigured x y) (index : Index)
    (element : Element K) :
    InStep (updateKey index element x) (updateKey index element y) := by
  have noted := reconfigured.note .keyUpdate
  exact kept.lockstep_updateKey element rfl rfl noted (Or.inl (noted.content index))

/-- The same position is removed, whichever search has found it. -/
theorem inStep_removeKey (reconfigured : Reconfigured x y) (ordered : x.Ordered)
    (index : Index) (key : K) : InStep (removeKey index key x) (removeKey index key y) := by
  have noted := reconfigured.note .keyRemoval
  have orderedNoted := ordered.changes (changes_note x .keyRemoval)
  refine kept.lockstep_removeKey rfl rfl noted (Or.inl (noted.content index)) ?_
  intro content read
  exact Content.position_congr (orderedNoted.increasing_of_content read) key _ _

theorem inStep_evict (reconfigured : Reconfigured x y) (index : Index) :
    InStep (evict index x) (evict index y) := by
  rcases reconfigured with ⟨config, activities, rfl⟩
  have related : Reconfigured x { x with config, activities } := ⟨config, activities, rfl⟩
  rw [evict, get_bind_apply, get_bind_apply]
  apply (Lockstep.read related (.refl (x.checkIndex index))).bind
  rintro _ _ x₁ y₁ - related₁
  by_cases isEmpty : index = Index.empty
  · rw [if_pos isEmpty, if_pos isEmpty]
    exact .failed related₁
  · rw [if_neg isEmpty, if_neg isEmpty]
    apply (Lockstep.read related₁ (.refl (x.sets.evict index))).bind
    rintro ⟨resident, sets⟩ _ x₂ y₂ rfl -
    cases resident <;> exact .answered rfl ⟨config, activities, rfl⟩

theorem inStep_consult (reconfigured : Reconfigured x y) (operation : Operation)
    (a b : Index) : InStep (consult operation a b x) (consult operation a b y) := by
  have noted := reconfigured.note (.operation operation)
  refine kept.lockstep_consult rfl rfl noted noted.readsAlike ?_ fun _ => ?_
  · exact noted.read_eq (·.shortcut operation a b) fun _ _ => rfl
  · refine noted.read_eq
      (fun forest => forest.usable? ((forest.memo operation).lookup (operation.operands a b))) ?_
    intro config activities
    cases operation <;> rfl

theorem inStep_filter (reconfigured : Reconfigured x y) (index : Index)
    (predicate : Element K → Bool) (cache : FilterCache) :
    InStep (filter index predicate cache x) (filter index predicate cache y) := by
  have noted := reconfigured.note .filtering
  refine kept.lockstep_filter predicate rfl rfl noted noted.readsAlike fun _ => ?_
  exact noted.read_eq (·.usable? (cache.lookup index)) fun _ _ => rfl

end Reconfigured

end SetForest.Forest
