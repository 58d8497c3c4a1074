import SetForest.Proofs.Family.Merge
import SetForest.Proofs.Session.Lattice

namespace SetForest

/-!
# Lattice operations against the plain merge

In a reached state an operation on resident sets answers the index of the content
that merging the two contents gives, whichever of its sources the answer comes
from.  There is one exception, on purpose.  The difference of a set with itself is
the empty set, although in a forest with children the merge of two contents keeps
the keys that they share.
-/

variable {K : Type} [Key K] {n : Nat} {specs : List Spec} {family : Family K n}
  {session : Session K n}

variable [ToString K]

/-- The empty set can be read whatever the session has been through. -/
theorem Session.readsEmpty_run (planted : Family.ofSpecs? specs = some ⟨n, family⟩)
    (starts : session.family = family) (commands : List (Fin n × Command K)) :
    (session.run commands).2.family.ReadsEmpty := by
  intro position
  subst family
  have retains := session.related_run (fun _ => Forest.Retains.refl)
    (fun _ _ _ _ => Forest.Retains.trans) (fun _ _ _ change => change.retains_empty)
    (fun _ forest operation a b content => Forest.Retains.settle forest operation a b content)
    commands
  have sound := (Family.sound_ofSpecs? planted).forestAt position
  exact (retains.forestAt position).read sound.canonical Index.empty [] rfl
    (Family.readsEmpty_ofSpecs? planted position)

/-- An operation on resident sets answers, the merge of their contents succeeds, and
the answer can be read as the merged content.  The only other case is the difference
of a set with itself, in a forest with children and unless the set is empty.  That
difference is the empty set. -/
theorem apply_eq_merge (planted : Family.ofSpecs? specs = some ⟨n, family⟩)
    (starts : session.family = family) (commands : List (Fin n × Command K))
    (fits : ∀ command ∈ commands, command.2.Fits (family.forestAt command.1))
    (position : Fin n) (operation : Operation) (a b : Index)
    (leftResident : (session.run commands).2.family.Resident position a)
    (rightResident : (session.run commands).2.family.Resident position b) :
    ∃ r later content merged,
      Family.apply operation position a b (session.run commands).2.family = (.ok r, later) ∧
      Family.merge operation position a b (session.run commands).2.family = (.ok content, merged) ∧
      ((later.forestAt position).content r = .ok content ↔
        ¬(operation = .difference ∧ a = b ∧ (family.forestAt position).children ≠ [] ∧
          a ≠ Index.empty)) ∧
      (operation = .difference → a = b → r = Index.empty) := by
  rcases Session.sound_of_planted planted starts fits with ⟨sound, extension⟩
  rcases sound.exists_merge operation leftResident rightResident
    (Session.readsEmpty_run planted starts commands position) with
      ⟨r, later, content, merged, answered, computed, same⟩
  refine ⟨r, later, content, merged, answered, computed, ?_, ?_⟩
  · rw [same, Forest.DropsKeys, (extension.forestAt position).children]
  · rintro rfl rfl
    rcases sound.contents_of_apply answered with ⟨-, -, determines, -⟩
    rw [Family.meaning_eq] at determines
    exact (Forest.answers_difference_self_iff.mp determines.answers).1

/-- The union of two maps with one key that was computed before, and whose children
were united for it. -/
theorem apply_eq_merge_union :
    let below : Family Nat 1 := .single {} .unshared
    let start : Session Nat 2 := .start (below.plant (Forest.create {} .unshared [0]))
    let commands := [(0, .registerSingle (.flat 5)), (0, .registerSingle (.flat 7)),
      (1, .registerSingle ⟨1, [1]⟩), (1, .registerSingle ⟨1, [2]⟩), (1, .apply .union 1 2)]
    let reached := (start.run commands).2.family
    ∃ r later content merged, Family.apply .union 1 1 2 reached = (.ok r, later) ∧
      Family.merge .union 1 1 2 reached = (.ok content, merged) ∧
      (later.forestAt 1).content r = .ok content := by
  intro below start commands reached
  have fits : ∀ command ∈ commands, command.2.Fits (start.family.forestAt command.1) := by
    simp only [commands, List.forall_mem_cons]
    exact ⟨rfl, rfl, rfl, rfl, trivial, nofun⟩
  have planted : Family.ofSpecs? [{}, { children := [0] }] = some ⟨2, start.family⟩ := rfl
  have left : reached.Resident 1 1 :=
    Family.resident_of_reads [⟨1, [1]⟩] (by decide +kernel) (by decide +kernel)
  have right : reached.Resident 1 2 :=
    Family.resident_of_reads [⟨1, [2]⟩] (by decide +kernel) (by decide +kernel)
  rcases apply_eq_merge planted rfl commands fits 1 .union 1 2 left right with
    ⟨r, later, content, merged, answered, computed, same, -⟩
  exact ⟨r, later, content, merged, answered, computed, same.mpr (fun drops => nomatch drops.1)⟩

/-- The difference of a map with itself is empty, while the merge keeps its key. -/
theorem apply_ne_merge_difference :
    let below : Family Nat 1 := .single {} .unshared
    let start : Session Nat 2 := .start (below.plant (Forest.create {} .unshared [0]))
    let commands := [(1, .registerSet [⟨1, [0]⟩])]
    let reached := (start.run commands).2.family
    reached.Resident 1 1 ∧
      ∃ later merged, Family.apply .difference 1 1 1 reached = (.ok 0, later) ∧
        (later.forestAt 1).content 0 = .ok [] ∧
        Family.merge .difference 1 1 1 reached = (.ok [⟨1, [0]⟩], merged) := by
  intro below start commands reached
  refine ⟨Family.resident_of_reads [⟨1, [0]⟩] (by decide +kernel) (by decide +kernel),
    _, _, Prod.fst_eq_iff.mp (by decide +kernel), by decide +kernel,
    Prod.fst_eq_iff.mp (by decide +kernel)⟩

end SetForest
