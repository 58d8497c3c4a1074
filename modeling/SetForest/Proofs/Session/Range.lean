import SetForest.Proofs.Family.Single
import SetForest.Proofs.Session.Storage

namespace SetForest

/-!
# Ranges of operands with single elements

An index that is not in use is refused by every operation that is given it.  Insertion
and removal of a single element are the exception, since they store the element before
they look at the index.  For the first free index and an element that is new, the index
that the caller could not know of is that of the element itself.
-/

variable {K : Type} [Key K] [ToString K] {n : Nat} {specs : List Spec} {family : Family K n}
  {session : Session K n}

/-- In every state that a session reaches, an index that is not in use is out of range for
the insertion and the removal of an element, with two consequences of the element being
registered first.  The size that the error reports counts the element if it is new.  And
if the element is new and the index is the first free one, both operations answer: the
insertion with that index, and the removal with the empty set. -/
theorem single_operands_out_of_range (planted : Family.ofSpecs? specs = some ⟨n, family⟩)
    (starts : session.family = family) (commands : List (Fin n × Command K)) (position : Fin n)
    (element : Element K) (a : Index) :
    let reached := (session.run commands).2.family
    let forest := reached.forestAt position
    let inserted := (Family.insertSingle position a element reached).1
    let removed := (Family.removeSingle position a element reached).1
    forest.size ≤ a →
      ((∃ index, forest.Denotes index [element]) →
        inserted = .error (.outOfRange a forest.size) ∧
          removed = .error (.outOfRange a forest.size)) ∧
      ((∀ index, ¬forest.Denotes index [element]) → a ≠ forest.size →
        inserted = .error (.outOfRange a (forest.size + 1)) ∧
          removed = .error (.outOfRange a (forest.size + 1))) ∧
      ((∀ index, ¬forest.Denotes index [element]) → a = forest.size →
        inserted = .ok a ∧ removed = .ok Index.empty) := by
  intro reached forest inserted removed outside
  have canonical : forest.sets.Canonical :=
    (Session.canonical_run planted starts commands position).1
  refine ⟨?_, ?_, ?_⟩
  · rintro ⟨index, known⟩
    have size := (Forest.registerSingle_of_known canonical known).2
    have refused : ∀ operation,
        (Family.applySingle operation position a element reached).1 =
          .error (.outOfRange a forest.size) := by
      intro operation
      rw [← size]
      exact Family.applySingle_of_le operation (size.trans_le outside)
    exact ⟨refused .union, refused .difference⟩
  · intro new beyond
    have size := (Forest.registerSingle_of_new canonical new).2
    have further : forest.size + 1 ≤ a := Nat.lt_of_le_of_ne outside (Ne.symm beyond)
    have refused : ∀ operation,
        (Family.applySingle operation position a element reached).1 =
          .error (.outOfRange a (forest.size + 1)) := by
      intro operation
      rw [← size]
      exact Family.applySingle_of_le operation (size.trans_le further)
    exact ⟨refused .union, refused .difference⟩
  · rintro new rfl
    exact ⟨Family.applySingle_of_new .union canonical new,
      Family.applySingle_of_new .difference canonical new⟩

/-- The same element at three indices that are not in use, before and after it is stored. -/
theorem single_operands_out_of_range_five :
    let start := Session.start (Family.single {} .unshared : Family Nat 1)
    let known := (start.run [(0, .registerSingle (.flat 5))]).2.family
    let new := (start.run []).2.family
    (Family.insertSingle 0 2 (.flat 5) known).1 = .error (.outOfRange 2 2) ∧
    (Family.removeSingle 0 2 (.flat 5) new).1 = .error (.outOfRange 2 2) ∧
    (Family.removeSingle 0 1 (.flat 5) new).1 = .ok Index.empty := by
  intro start known new
  have planted : Family.ofSpecs? [{}] = some ⟨1, start.family⟩ := rfl
  have unknown : ∀ index, ¬(new.forestAt 0).Denotes index [.flat 5] := by
    intro index denotes
    have absent : (new.forestAt 0).sets.indices.lookup [.flat 5] = none := by decide +kernel
    exact Option.some_ne_none index (denotes.symm.trans absent)
  have stored : (known.forestAt 0).sets.indices.lookup [.flat 5] = some 1 := by decide +kernel
  refine ⟨?_, ?_, ?_⟩
  · rcases single_operands_out_of_range planted rfl [(0, .registerSingle (.flat 5))] 0 (.flat 5) 2
      (by decide +kernel) with ⟨refused, -, -⟩
    exact (refused ⟨1, stored⟩).1
  · rcases single_operands_out_of_range planted rfl [] 0 (.flat 5) 2 (by decide +kernel) with
      ⟨-, refused, -⟩
    exact (refused unknown (by decide +kernel)).2
  · rcases single_operands_out_of_range planted rfl [] 0 (.flat 5) 1 (by decide +kernel) with
      ⟨-, -, accepted⟩
    exact (accepted unknown (by decide +kernel)).2

/-- Index one is not in use in a forest that is new.  To insert an element there, or to
remove it from there, succeeds all the same. -/
theorem single_operand_beyond_size_accepted :
    let start := Session.start (Family.single {} .unshared : Family Nat 1)
    (start.family.forestAt 0).size = 1 ∧
      (Family.insertSingle 0 1 (.flat 5) start.family).1 = .ok 1 ∧
      (Family.removeSingle 0 1 (.flat 5) start.family).1 = .ok Index.empty := by
  decide +kernel

end SetForest
