import Mathlib.Data.Finset.Powerset
import SetForest.Proofs.Family.Accounts
import SetForest.Proofs.Family.Flat
import SetForest.Proofs.Family.Single

namespace SetForest

/-!
# Forests over a universe of keys

A forest that is given keys from a universe and is asked for operations on its own sets
never leaves the universe (`Forest.Confined`), as the result of an operation has no other
keys than the operands.  If the universe is finite this bounds the number of sets, however
long the forest is in use, because in a forest of keys different sets have different keys
(`Family.FlatAt.size_le`).

An operation that is answered does one of two things to its forest.  It was known, and the
consultation is all that happens, or its result was settled (`Forest.Answering`).
-/

variable {K : Type} [Key K] {n : Nat}

/-- An operation on sets brings nothing in. -/
theorem Operation.onSets_subset {α : Type} (operation : Operation) (left right : Set α) :
    operation.onSets left right ⊆ left ∪ right := by
  cases operation with
  | union => exact Set.Subset.rfl
  | intersection => exact Set.inter_subset_left.trans Set.subset_union_left
  | difference => exact Set.sdiff_subset.trans Set.subset_union_left

namespace Content

variable {left right : Content K}

/-- Contents without children are the same if their keys are. -/
theorem ext_keys (leftIncreasing : left.Increasing) (rightIncreasing : right.Increasing)
    (leftFlat : left.HasArity 0) (rightFlat : right.HasArity 0)
    (sameKeys : left.keys = right.keys) : left = right := by
  refine ext_mem leftIncreasing rightIncreasing fun element => ?_
  have inLeft := mem_members_iff_of_flat leftFlat element
  rw [sameKeys, ← mem_members_iff_of_flat rightFlat element] at inLeft
  exact inLeft

end Content

namespace Forest

variable {forest later : Forest K n} {allowed : Set K} {operation : Operation} {a b r : Index}
  {ledger : Ledger}

/-! ## Answered operations -/

/-- What a forest does when it answers an operation. -/
inductive Answering (operation : Operation) (a b : Index) (forest : Forest K n) :
    Index → Forest K n → Prop where
  | known {r : Index} {noted : Forest K n}
      (consulted : consult operation a b forest = (.ok (.known r), noted)) :
      Answering operation a b forest r noted
  | settled {cells : List (Cell K n)} {noted : Forest K n} (content : Content K)
      (consulted : consult operation a b forest = (.ok (.unknown cells), noted)) :
      Answering operation a b forest (settle operation a b content noted).1
        (settle operation a b content noted).2

theorem sets_consult (forest : Forest K n) (operation : Operation) (a b : Index) :
    (consult operation a b forest).2.sets = forest.sets := by
  rcases forest.exists_consult_eq operation a b with ⟨counters, activities, consulted⟩
  rw [consulted]

/-- At most the content of the result is stored. -/
theorem Answering.sets (answering : Answering operation a b forest r later)
    (canonical : forest.sets.Canonical) :
    later.sets = forest.sets ∨
      ∃ content, later.sets = (forest.sets.intern content).2 ∧ later.content r = .ok content := by
  have sets := forest.sets_consult operation a b
  cases answering with
  | known consulted =>
      rw [consulted] at sets
      exact Or.inl sets
  | @settled cells noted content consulted =>
      rw [consulted] at sets
      dsimp only at sets
      right
      refine ⟨content, ?_, content_settle (sets ▸ canonical) content⟩
      rcases noted.exists_settle_eq operation a b content with
        ⟨unions, intersections, differences, inclusions, counters, settled⟩
      rw [settled, sets]

/-- The operation is counted once. -/
theorem Answering.accounts (answering : Answering operation a b forest r later)
    (accounts : forest.Accounts ledger) (nothing : ledger .dropped = 0) :
    later.Accounts (ledger.enter (.applied operation)) := by
  have consulted' := accounts.consult operation a b
  cases answering with
  | known consulted =>
      rw [consulted] at consulted'
      exact consulted'
  | settled content consulted =>
      rw [consulted] at consulted'
      refine consulted'.settle operation a b content fun _ => ?_
      have memo := forest.memo_consult operation operation a b
      rw [consulted] at memo
      rw [memo]
      exact accounts.lookup_of_unknown (congrArg Prod.fst consulted) nothing

/-! ## Universes -/

/-- All sets can be read, and they consist of keys that are allowed. -/
structure Confined (forest : Forest K n) (allowed : Set K) : Prop where
  intact : forest.sets.Intact
  keys : ∀ index content, forest.Denotes index content → content.keys ⊆ allowed

namespace Confined

theorem create (allowed : Set K) (config : Config) (strategy : Strategy)
    (children : List (Fin n)) : (create config strategy children : Forest K n).Confined allowed := by
  refine ⟨intact_created config strategy children, ?_⟩
  intro index content denotes
  rw [eq_nil_of_denotes_created denotes, Content.keys_nil]
  exact Set.empty_subset allowed

theorem of_sets_eq (confined : forest.Confined allowed) (sets : later.sets = forest.sets) :
    later.Confined allowed := by
  refine ⟨sets ▸ confined.intact, ?_⟩
  intro index content denotes
  rw [Denotes, sets] at denotes
  exact confined.keys index content denotes

/-- One more set from the universe may be stored. -/
theorem of_intern (confined : forest.Confined allowed) (canonical : forest.sets.Canonical)
    {content : Content K} (sets : later.sets = (forest.sets.intern content).2)
    (isAllowed : content.keys ⊆ allowed) : later.Confined allowed := by
  refine ⟨sets ▸ confined.intact.intern canonical content, ?_⟩
  intro index other denotes
  rw [Denotes, sets] at denotes
  rcases canonical.denotes_of_denotes_intern denotes with rfl | before
  · exact isAllowed
  · exact confined.keys index other before

/-- Every index in use can be read. -/
theorem exists_content (confined : forest.Confined allowed) (canonical : forest.sets.Canonical)
    {index : Index} (inUse : index < forest.size) :
    ∃ content, forest.content index = .ok content ∧ content.keys ⊆ allowed := by
  rcases canonical.exists_denotes inUse with ⟨content, denotes⟩
  exact ⟨content, (content_eq_ok_iff canonical).mpr (confined.intact index content denotes),
    confined.keys index content denotes⟩

end Confined

end Forest

/-! ## Families -/

namespace Family

variable {family later : Family K n} {position : Fin n} {operation : Operation} {a b r : Index}
  {allowed : Set K}

/-- An operation that is answered is answered by its forest. -/
theorem answering_of_apply (answered : apply operation position a b family = (.ok r, later)) :
    Forest.Answering operation a b (family.forestAt position) r (later.forestAt position) := by
  induction family with
  | bare => exact position.elim0
  | plant below top ih =>
      induction position using Fin.lastCases with
      | cast position =>
          rw [apply_castSucc, onBelow_apply] at answered
          cases called : apply operation position a b below with
          | mk answer laterBelow =>
              rw [called] at answered
              cases answered
              rw [forestAt_castSucc, forestAt_castSucc]
              exact ih called
      | last =>
          have ways := application operation a b below top
          rw [answered] at ways
          cases ways with
          | known consulted =>
              rw [forestAt_last, forestAt_last]
              exact .known consulted
          | @settled cells noted content laterBelow consulted called =>
              rw [forestAt_last, forestAt_last]
              exact .settled content consulted

namespace FlatAt

/-- Different sets have different keys. -/
theorem index_eq_of_keys (flatAt : family.FlatAt position) {first second : Index}
    {left right : Content K} (leftDenotes : (family.forestAt position).Denotes first left)
    (rightDenotes : (family.forestAt position).Denotes second right)
    (sameKeys : left.keys = right.keys) : first = second := by
  have stored := flatAt.sound.forestAt position
  have same := Content.ext_keys (stored.increasing first left leftDenotes)
    (stored.increasing second right rightDenotes) (flatAt.hasArity leftDenotes)
    (flatAt.hasArity rightDenotes) sameKeys
  exact (Forest.index_eq_iff flatAt.canonical leftDenotes rightDenotes).mpr same

/-- In a finite universe there are no more sets than it has parts. -/
theorem size_le (flatAt : family.FlatAt position) {allowed : Finset K}
    (confined : (family.forestAt position).Confined (allowed : Set K)) :
    (family.forestAt position).size ≤ 2 ^ allowed.card := by
  classical
  have exists_denotes : ∀ index : Index, ∃ content, index < (family.forestAt position).size →
      (family.forestAt position).Denotes index content := by
    intro index
    by_cases inUse : index < (family.forestAt position).size
    · rcases flatAt.canonical.exists_denotes inUse with ⟨content, denotes⟩
      exact ⟨content, fun _ => denotes⟩
    · exact ⟨[], fun inUse' => absurd inUse' inUse⟩
  choose content denotes using exists_denotes
  let part (index : Index) : Finset K := allowed.filter (· ∈ (content index).keys)
  have coe_part : ∀ index, index < (family.forestAt position).size →
      (part index : Set K) = (content index).keys := by
    intro index inUse
    rw [Finset.coe_filter]
    exact Set.inter_eq_self_of_subset_right (confined.keys index _ (denotes index inUse))
  have parts := Finset.card_le_card_of_injOn (s := Finset.range (family.forestAt position).size)
    (t := allowed.powerset) part ?_ ?_
  · rw [Finset.card_range, Finset.card_powerset] at parts
    exact parts
  · intro index _
    exact Finset.mem_coe.mpr (Finset.mem_powerset.mpr (Finset.filter_subset _ _))
  · intro first firstInUse second secondInUse sameParts
    have firstInUse := Finset.mem_range.mp firstInUse
    have secondInUse := Finset.mem_range.mp secondInUse
    refine flatAt.index_eq_of_keys (denotes first firstInUse) (denotes second secondInUse) ?_
    rw [← coe_part first firstInUse, ← coe_part second secondInUse, sameParts]

/-- A key that is allowed can be registered. -/
theorem confined_registerSingle (flatAt : family.FlatAt position)
    (confined : (family.forestAt position).Confined allowed) {key : K}
    (isAllowed : key ∈ allowed) :
    let later := (within (ExceptT.lift (Forest.registerSingle (.flat key))) position family).2
    later.FlatAt position ∧ (later.forestAt position).Confined allowed := by
  intro later
  have admitted : (family.forestAt position).Admits [.flat key] :=
    Forest.admits_single (flatAt.flat ▸ rfl)
  have step : Step (· = [.flat key]) position family later :=
    .changed _ (Forest.changes_registerSingle _ _ rfl)
  refine ⟨flatAt.steps ?_ (.single step), ?_⟩
  · rintro _ rfl
    exact admitted
  · have here : later.forestAt position = _ :=
      (within_apply (ExceptT.lift (Forest.registerSingle (.flat key))) family position).2
    have sets : (later.forestAt position).sets =
        ((family.forestAt position).sets.intern [.flat key]).2 :=
      (congrArg Forest.sets here).trans (Forest.sets_registerSingle _ (.flat key))
    refine confined.of_intern flatAt.canonical sets ?_
    rintro _ ⟨element, member, rfl⟩
    rw [List.mem_singleton.mp member]
    exact isAllowed

/-- An operation on two sets is answered, with keys that are allowed. -/
theorem exists_apply_confined (flatAt : family.FlatAt position)
    (confined : (family.forestAt position).Confined allowed) (operation : Operation)
    (leftInUse : a < (family.forestAt position).size)
    (rightInUse : b < (family.forestAt position).size) :
    ∃ r later, apply operation position a b family = (.ok r, later) ∧
      later.FlatAt position ∧ (later.forestAt position).Confined allowed := by
  rcases confined.exists_content flatAt.canonical leftInUse with ⟨left, leftRead, leftAllowed⟩
  rcases confined.exists_content flatAt.canonical rightInUse with ⟨right, rightRead, rightAllowed⟩
  rcases flatAt.exists_apply operation leftRead rightRead with
    ⟨r, content, later, answered, flatLater, -, read, keys⟩
  refine ⟨r, later, answered, flatLater, ?_⟩
  rcases (answering_of_apply answered).sets flatAt.canonical with same | ⟨stored, sets, readStored⟩
  · exact confined.of_sets_eq same
  · refine confined.of_intern flatAt.canonical sets ?_
    cases read.symm.trans readStored
    rw [keys]
    exact (operation.onSets_subset _ _).trans (Set.union_subset leftAllowed rightAllowed)

end FlatAt

end Family

end SetForest
