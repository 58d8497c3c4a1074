import SetForest.Proofs.Family.Flat
import SetForest.Proofs.Session.Run

namespace SetForest

/-!
# Lattice operations in reached states

Whatever a session has been through, a lattice operation that has an answer has
the right one.  Its five sources (equal operands, an empty operand, a filed
inclusion, a remembered result, and the merge) are not told apart here, since
soundness covers all of them.

In a forest without children the result is the operation on sets.
-/

variable {K : Type} [Key K] [ToString K] {n : Nat} {specs : List Spec} {family : Family K n}
  {session : Session K n}

/-- Sessions that start from a planted family reach sound families. -/
theorem Session.sound_of_planted (planted : Family.ofSpecs? specs = some ⟨n, family⟩)
    (starts : session.family = family) {commands : List (Fin n × Command K)}
    (fits : ∀ command ∈ commands, command.2.Fits (family.forestAt command.1)) :
    (session.run commands).2.family.Sound ∧ family.Extends (session.run commands).2.family := by
  subst family
  exact session.sound_run commands (Family.sound_ofSpecs? planted) fits

/-- In a forest without children, an operation that answers gives the index of
the set that the operation on sets gives.  The session may have started with any
caches, and the operands and the result may be evicted. -/
theorem apply_members (planted : Family.ofSpecs? specs = some ⟨n, family⟩)
    (starts : session.family = family) (commands : List (Fin n × Command K))
    (fits : ∀ command ∈ commands, command.2.Fits (family.forestAt command.1))
    (position : Fin n) (flat : (family.forestAt position).children = []) (operation : Operation)
    (a b r : Index) (later : Family K n)
    (answered : Family.apply operation position a b (session.run commands).2.family =
      (.ok r, later)) :
    ∃ left right content,
      ((session.run commands).2.family.forestAt position).Denotes a left ∧
      ((session.run commands).2.family.forestAt position).Denotes b right ∧
      (later.forestAt position).Denotes r content ∧ content.Increasing ∧
      content.members = operation.onSets left.members right.members := by
  rcases Session.sound_of_planted planted starts fits with ⟨sound, extension⟩
  have flatReached : ((session.run commands).2.family.forestAt position).children = [] := by
    rw [(extension.forestAt position).children, flat]
  rcases sound.contents_of_apply answered with ⟨soundLater, -⟩
  rcases sound.members_of_apply flatReached answered with
    ⟨left, right, content, denotesLeft, denotesRight, denotes, members⟩
  exact ⟨left, right, content, denotesLeft, denotesRight, denotes,
    (soundLater.forestAt position).increasing r content denotes, members⟩

/-- A union that is remembered, but whose content was evicted, is computed again. -/
theorem apply_members_union :
    let start := Session.start (Family.single {} .unshared : Family Nat 1)
    let commands := [(0, .registerSingle (.flat 5)), (0, .registerSingle (.flat 7)),
      (0, .apply .union 1 2), (0, .evict 3)]
    let reached := (start.run commands).2.family
    ∃ left right content, (reached.forestAt 0).Denotes 1 left ∧
      (reached.forestAt 0).Denotes 2 right ∧
      ((Family.apply .union 0 1 2 reached).2.forestAt 0).Denotes 3 content ∧ content.Increasing ∧
      content.members = left.members ∪ right.members := by
  intro start commands reached
  have fits : ∀ command ∈ commands, command.2.Fits (start.family.forestAt command.1) := by
    simp only [commands, List.forall_mem_cons]
    exact ⟨rfl, rfl, trivial, trivial, nofun⟩
  have answered : Family.apply .union 0 1 2 reached =
      (.ok 3, (Family.apply .union 0 1 2 reached).2) :=
    Prod.fst_eq_iff.mp (by decide +kernel)
  have planted : Family.ofSpecs? [{}] = some ⟨1, start.family⟩ := rfl
  exact apply_members planted rfl commands fits 0 rfl .union 1 2 3 _ answered

end SetForest
