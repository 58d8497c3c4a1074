import SetForest.Proofs.Family.Universe
import SetForest.Proofs.Workload.Random
import SetForest.Workload.Persistent

namespace SetForest

/-!
# Where the persistent workload leads

A step registers a key in the range of the workload, or it combines two of the sets that
are there (`Workload.StepTaken`).  None of this can fail in a forest of keys that has
evicted nothing, and none of it evicts anything or brings in a key from outside.  So the
next step finds the forest fit for it again (`Workload.Grown`), whatever is drawn.

Every step is counted by the forest, as a registration or as an operation.  The counters
therefore tell the number of steps, and bound the number of sets that they have added.
-/

namespace Workload

variable {σ α β : Type} {n : Nat}

namespace RandomM

theorem bind_apply (first : RandomM σ n α) (next : α → RandomM σ n β) (source : σ)
    (family : Family Int64 n) :
    (first >>= next) source family =
      match first source family with
      | (.ok (value, after), later) => next value after later
      | (.error error, later) => (.error error, later) := by
  change (first source >>= fun drawn => next drawn.1 drawn.2) family = _
  rw [Action.bind_apply]
  rcases first source family with ⟨_ | _, later⟩ <;> rfl

/-- A draw is made from the source and leaves the family alone. -/
theorem draw_bind_apply (drawn : StateM σ α) (next : α → RandomM σ n β) (source : σ)
    (family : Family Int64 n) :
    (draw drawn >>= next) source family =
      next (drawn.run source).1 (drawn.run source).2 family :=
  bind_apply (draw drawn) next source family

/-- An action on the family leaves the source alone. -/
theorem lift_bind_apply (action : FamilyM Int64 n α) (next : α → RandomM σ n β) (source : σ)
    (family : Family Int64 n) :
    (StateT.lift action >>= next) source family =
      match action family with
      | (.ok value, later) => next value source later
      | (.error error, later) => (.error error, later) := by
  have lifted : (StateT.lift action : RandomM σ n α) source family =
      match action family with
      | (.ok value, later) => (.ok (value, source), later)
      | (.error error, later) => (.error error, later) := by
    change (action >>= fun value => pure (value, source)) family = _
    rw [Action.bind_apply]
    rcases action family with ⟨_ | _, later⟩ <;> rfl
  rw [bind_apply, lifted]
  rcases action family with ⟨_ | _, later⟩ <;> rfl

end RandomM

variable [RandomSource σ]

/-- What a step does to the family. -/
inductive StepTaken (position : Fin n) (properties : Nat) (family : Family Int64 n) :
    Except Error (Unit × σ) × Family Int64 n → Prop where
  | registered (key : Nat) (inRange : key < properties) (after : σ) :
      StepTaken position properties family (.ok ((), after),
        (Family.within (ExceptT.lift (Forest.registerSingle (.flat (.ofNat key)))) position
          family).2)
  | combined (operation : Operation) (a b : Index)
      (leftInUse : a < (family.forestAt position).size)
      (rightInUse : b < (family.forestAt position).size) (after : σ) {r : Index}
      {later : Family Int64 n}
      (answered : Family.apply operation position a b family = (.ok r, later)) :
      StepTaken position properties family (.ok ((), after), later)
  | refused (operation : Operation) (a b : Index)
      (leftInUse : a < (family.forestAt position).size)
      (rightInUse : b < (family.forestAt position).size) {error : Error}
      {later : Family Int64 n}
      (failed : Family.apply operation position a b family = (.error error, later)) :
      StepTaken position properties family (.error error, later)

variable [LawfulRandomSource σ] {position : Fin n} {properties : Nat} {family : Family Int64 n}

theorem stepTaken_registerRandom (positive : 0 < properties) (source : σ) :
    StepTaken position properties family (registerRandom position properties source family) := by
  have inRange := LawfulRandomSource.below_lt positive source
  rw [registerRandom, RandomM.draw_bind_apply, RandomM.lift_bind_apply]
  generalize (RandomSource.below properties).run source = drawn at inRange
  have taken : StepTaken position properties family _ := .registered drawn.1 inRange drawn.2
  have succeeds := (Family.within_apply
    (ExceptT.lift (Forest.registerSingle (.flat (.ofNat drawn.1)))) family position).1
  generalize Family.within (ExceptT.lift (Forest.registerSingle (.flat (.ofNat drawn.1)))) position
    family = outcome at taken succeeds ⊢
  rcases outcome with ⟨_ | registered, later⟩
  · cases succeeds
  · exact taken

theorem stepTaken_combineRandom (someSets : 0 < (family.forestAt position).size) (source : σ) :
    StepTaken position properties family
      (combineRandom position (family.forestAt position).size source family) := by
  have leftInUse := LawfulRandomSource.below_lt someSets source
  rw [combineRandom, RandomM.draw_bind_apply, RandomM.draw_bind_apply, RandomM.draw_bind_apply,
    RandomM.lift_bind_apply]
  generalize (RandomSource.below (family.forestAt position).size).run source = left at leftInUse
  have rightInUse := LawfulRandomSource.below_lt someSets left.2
  generalize (RandomSource.below (family.forestAt position).size).run left.2 = right at rightInUse
  generalize Random.operation.run right.2 = operation
  cases answered : Family.apply operation.1 position left.1 right.1 family with
  | mk answer later =>
      cases answer with
      | ok r => exact .combined operation.1 left.1 right.1 leftInUse rightInUse operation.2 answered
      | error error => exact .refused operation.1 left.1 right.1 leftInUse rightInUse answered

/-- A step registers a key in range or combines two sets in use. -/
theorem stepTaken_persistentStep (positive : 0 < properties) (source : σ) :
    StepTaken position properties family (persistentStep position properties source family) := by
  rw [persistentStep, RandomM.lift_bind_apply, Family.reading_apply]
  dsimp only
  by_cases few : (family.forestAt position).size < persistentMinimum
  · rw [if_pos few]
    exact stepTaken_registerRandom positive source
  · have someSets : 0 < (family.forestAt position).size :=
      Nat.lt_of_lt_of_le (by decide : 0 < persistentMinimum) (Nat.not_lt.mp few)
    rw [if_neg few, RandomM.draw_bind_apply]
    split
    · exact stepTaken_registerRandom positive _
    · exact stepTaken_combineRandom someSets _

/-! ## What a step leaves in place -/

/-- The numbers that a workload registers, as keys. -/
def keysBelow (properties : Nat) : Finset Int64 :=
  (Finset.range properties).image Int64.ofNat

/-- A ledger has one entry for each step, and no others. -/
structure CountsSteps (ledger : Ledger) (steps : Nat) : Prop where
  steps : ledger .registered + ledger (.applied .union) + ledger (.applied .intersection) +
    ledger (.applied .difference) = steps
  filtered : ledger .filtered = 0
  extended : ledger .extended = 0
  dropped : ledger .dropped = 0

theorem CountsSteps.registered {ledger : Ledger} {steps : Nat} (counts : CountsSteps ledger steps) :
    CountsSteps (ledger.enter .registered) (steps + 1) := by
  rcases counts with ⟨total, filtered, extended, dropped⟩
  refine ⟨?_, filtered, extended, dropped⟩
  simp only [Ledger.enter, if_true, reduceCtorEq, if_false]
  omega

theorem CountsSteps.applied {ledger : Ledger} {steps : Nat} (counts : CountsSteps ledger steps)
    (operation : Operation) : CountsSteps (ledger.enter (.applied operation)) (steps + 1) := by
  rcases counts with ⟨total, filtered, extended, dropped⟩
  refine ⟨?_, filtered, extended, dropped⟩
  cases operation <;> simp [Ledger.enter] <;> omega

/-- A forest of keys after some steps. -/
structure Grown (family : Family Int64 n) (position : Fin n) (properties steps : Nat) : Prop where
  flatAt : family.FlatAt position
  confined : (family.forestAt position).Confined (keysBelow properties : Set Int64)
  accounts : ∃ ledger, (family.forestAt position).Accounts ledger ∧ CountsSteps ledger steps

omit [RandomSource σ] [LawfulRandomSource σ] in
theorem grown_planted {specs : List Spec} (planted : Family.ofSpecs? specs = some ⟨n, family⟩)
    (flat : (family.forestAt position).children = []) (properties : Nat) :
    Grown family position properties 0 where
  flatAt := Family.flatAt_ofSpecs? planted flat
  confined := Family.forestAt_ofSpecs? (fun _ forest => forest.Confined _)
    (fun _ => Forest.Confined.create _) planted position
  accounts := ⟨_, Family.Accounts.ofSpecs? planted position, rfl, rfl, rfl, rfl⟩

omit [RandomSource σ] [LawfulRandomSource σ] in
/-- A step cannot fail, and leaves the forest fit for the next one. -/
theorem Grown.step {steps : Nat} {outcome : Except Error (Unit × σ) × Family Int64 n}
    (grown : Grown family position properties steps)
    (taken : StepTaken position properties family outcome) :
    ∃ after later, outcome = (.ok ((), after), later) ∧
      Grown later position properties (steps + 1) := by
  rcases grown with ⟨flatAt, confined, ledger, accounts, counts⟩
  cases taken with
  | registered key inRange after =>
      have isAllowed : Int64.ofNat key ∈ (keysBelow properties : Set Int64) :=
        Finset.mem_coe.mpr (Finset.mem_image_of_mem _ (Finset.mem_range.mpr inRange))
      rcases flatAt.confined_registerSingle confined isAllowed with ⟨flatLater, confinedLater⟩
      refine ⟨after, _, rfl, flatLater, confinedLater, ledger.enter .registered, ?_,
        counts.registered⟩
      rw [(Family.within_apply _ family position).2]
      exact accounts.registerSingle (.flat (.ofNat key))
  | combined operation a b leftInUse rightInUse after answered =>
      rcases flatAt.exists_apply_confined confined operation leftInUse rightInUse with
        ⟨_, later, same, flatLater, confinedLater⟩
      cases answered.symm.trans same
      exact ⟨after, _, rfl, flatLater, confinedLater, _,
        (Family.answering_of_apply answered).accounts accounts counts.dropped,
        counts.applied operation⟩
  | refused operation a b leftInUse rightInUse failed =>
      rcases flatAt.exists_apply_confined confined operation leftInUse rightInUse with
        ⟨_, later, answered, -, -⟩
      cases failed.symm.trans answered

/-- So do any number of steps. -/
theorem Grown.persistent {steps : Nat} (grown : Grown family position properties steps)
    (positive : 0 < properties) (iterations : Nat) (source : σ) :
    ∃ after later, Workload.persistent position properties iterations source family =
        (.ok ((), after), later) ∧ Grown later position properties (steps + iterations) := by
  induction iterations generalizing steps family source with
  | zero => exact ⟨source, family, rfl, grown⟩
  | succ iterations ih =>
      rcases grown.step (stepTaken_persistentStep positive source) with
        ⟨next, grownFamily, taken, grownNext⟩
      rcases ih grownNext next with ⟨after, later, answered, grownLater⟩
      refine ⟨after, later, ?_, ?_⟩
      · rw [Workload.persistent, RandomM.bind_apply, taken]
        exact answered
      · rw [Nat.add_assoc, Nat.add_comm 1] at grownLater
        exact grownLater

/-! ## What the workload leads to -/

/-- A number that is registered is the key that stands for it. -/
theorem toInt_of_mem_keysBelow {bound : Int64} (positive : 0 < bound) {key : Int64}
    (member : key ∈ keysBelow bound.toInt.toNat) : 0 ≤ key.toInt ∧ key.toInt < bound.toInt := by
  rcases Finset.mem_image.mp member with ⟨number, inRange, rfl⟩
  have isPositive : 0 < bound.toInt := Int64.lt_iff_toInt_lt.mp positive
  have isBounded := bound.toInt_lt
  have below := Finset.mem_range.mp inRange
  rw [Int64.toInt_ofNat_of_lt (by omega)]
  omega

theorem card_keysBelow_le (properties : Nat) : (keysBelow properties).card ≤ properties :=
  Finset.card_image_le.trans_eq (Finset.card_range properties)

/-- Every step is counted by the forest. -/
theorem Grown.totals {steps : Nat} (grown : Grown family position properties steps) :
    let counters := (family.forestAt position).counters
    counters.propertySets.total + counters.unions.total + counters.intersections.total +
      counters.differences.total = steps := by
  rcases grown.accounts with ⟨ledger, accounts, counts⟩
  have total := counts.steps
  rw [← accounts.counted .registered nofun, ← accounts.counted (.applied .union) nofun,
    ← accounts.counted (.applied .intersection) nofun,
    ← accounts.counted (.applied .difference) nofun] at total
  exact total

/-- A step adds one set at most. -/
theorem Grown.size_le {steps : Nat} (grown : Grown family position properties steps) :
    (family.forestAt position).size ≤ steps + 1 := by
  have totals := grown.totals
  rcases grown.accounts with ⟨ledger, accounts, counts⟩
  have filters : (family.forestAt position).counters.filters.total = 0 :=
    (accounts.counted .filtered nofun).trans counts.filtered
  have stored := accounts.stored
  rw [counts.extended] at stored
  simp only [Counters.coldMisses, Tally.total] at *
  omega

/-- The persistent workload in a forest of keys that is new.  Whatever is drawn, it takes all
of its steps.  After them every set can be read and consists of numbers in the range of the
workload, none of them is evicted, and there are at most one more than steps, and at most as
many as the range has parts.  The forest has counted each step as one registration or one
operation. -/
theorem persistent_confined {specs : List Spec}
    (planted : Family.ofSpecs? specs = some ⟨n, family⟩)
    (flat : (family.forestAt position).children = []) (bound : Int64) (positive : 0 < bound)
    (iterations : Nat) (source : σ) :
    checkProperties bound.toInt iterations = .ok () ∧
    ∃ after later,
      persistent position bound.toInt.toNat iterations source family =
        (.ok ((), after), later) ∧
      let forest := later.forestAt position
      let counters := forest.statistics.counters
      (∀ index, index < forest.size →
        forest.isEvicted index = .ok false ∧
        ∃ content, forest.content index = .ok content ∧ content.Increasing ∧
          ∀ element ∈ content, element.children = [] ∧
            0 ≤ element.key.toInt ∧ element.key.toInt < bound.toInt) ∧
      forest.size ≤ iterations + 1 ∧ forest.size ≤ 2 ^ bound.toInt.toNat ∧
      counters.propertySets.total + counters.unions.total + counters.intersections.total +
        counters.differences.total = iterations := by
  have isPositive : 0 < bound.toInt := Int64.lt_iff_toInt_lt.mp positive
  refine ⟨if_neg fun refused => Int.not_le.mpr isPositive refused.1, ?_⟩
  rcases (grown_planted planted flat bound.toInt.toNat).persistent (by omega) iterations source
    with ⟨after, later, answered, grown⟩
  rw [Nat.zero_add] at grown
  have canonical := grown.flatAt.canonical
  refine ⟨after, later, answered, ?_, grown.size_le, ?_, grown.totals⟩
  · intro index inUse
    rcases grown.confined.exists_content canonical inUse with ⟨content, read, keys⟩
    have denotes := grown.flatAt.denotes_of_content read
    refine ⟨Forest.isEvicted_eq_false_iff.mpr ⟨content, read⟩, content, read,
      (grown.flatAt.sound.forestAt position).increasing index content denotes, ?_⟩
    intro element member
    exact ⟨List.eq_nil_of_length_eq_zero (grown.flatAt.hasArity denotes element member),
      toInt_of_mem_keysBelow positive (keys ⟨element, member, rfl⟩)⟩
  · exact (grown.flatAt.size_le grown.confined).trans
      (Nat.pow_le_pow_right (by decide) (card_keysBelow_le _))

/-- Twelve steps with the numbers zero and one, which have four sets at most. -/
theorem persistent_confined_two :
    let family : Family Int64 1 := .single {} .locked
    ∃ after later, persistent 0 2 12 (⟨3⟩ : SplitMix) family = (.ok ((), after), later) ∧
      (later.forestAt 0).size ≤ 4 ∧
      (∀ index, index < (later.forestAt 0).size →
        (later.forestAt 0).isEvicted index = .ok false) ∧
      (later.forestAt 0).statistics.counters.propertySets.total +
        (later.forestAt 0).statistics.counters.unions.total +
        (later.forestAt 0).statistics.counters.intersections.total +
        (later.forestAt 0).statistics.counters.differences.total = 12 := by
  intro family
  have planted : Family.ofSpecs? [{ strategy := .locked }] = some ⟨1, family⟩ := rfl
  have flat : (family.forestAt 0).children = [] := rfl
  rcases (persistent_confined planted flat 2 (by decide) 12 (⟨3⟩ : SplitMix)).2 with
    ⟨after, later, answered, sets, -, size, totals⟩
  exact ⟨after, later, answered, size, fun index inUse => (sets index inUse).1, totals⟩

end Workload

end SetForest
