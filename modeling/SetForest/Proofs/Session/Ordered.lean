import SetForest.Proofs.Content.Violation
import SetForest.Proofs.Family.Ordered
import SetForest.Proofs.Session.Storage

namespace SetForest

/-!
# The order of stored sets in reached states

A forest checks the order of a set only where a caller registers it, and only if it is
configured to.  A collection in any order is checked after it was brought into order.
All other contents are stored unchecked.  They are increasing all the same, as long as
callers see to the order of what they register where nothing is checked
(`Command.InOrder`).

The check itself is exact.  It accepts the increasing lists and reports the first fault
of any other.
-/

variable {K : Type} [Key K] {n : Nat}

namespace Forest

/-- A checking forest accepts a set that is in order. -/
theorem registerSet_of_increasing (forest : Forest K n) {content : Content K}
    (increasing : content.Increasing) :
    ∃ registered, (registerSet content forest).1 = .ok registered := by
  have ways := registration forest content
  generalize registerSet content forest = outcome at ways ⊢
  cases ways with
  | refused checks found =>
      rw [(Content.violation?_eq_none_iff content).mpr increasing] at found
      cases found
  | empty isEmpty => exact ⟨_, rfl⟩
  | stored accepted => exact ⟨_, rfl⟩

/-- A checking forest refuses a list that is not in order, because of its first fault. -/
theorem registerSet_of_not_increasing (forest : Forest K n) {content : Content K}
    (checks : forest.config.integrityChecks = true) (outOfOrder : ¬content.Increasing) :
    ∃ violation, content.FaultAt violation ∧
      (registerSet content forest).1 = .error (.integrity violation) := by
  have ways := registration forest content
  have config : (forest.note .registration).config = forest.config := by
    rw [note_eq]
  generalize registerSet content forest = outcome at ways ⊢
  cases ways with
  | refused checked found =>
      exact ⟨_, (Content.violation?_eq_some_iff content _).mp found, rfl⟩
  | empty isEmpty =>
      rw [isEmpty] at outOfOrder
      exact absurd Content.increasing_nil outOfOrder
  | stored accepted =>
      rw [config] at accepted
      exact absurd (accepted checks) outOfOrder

end Forest

namespace Command

/-- What a caller has to see to.  A set that is registered is increasing, unless the
forest checks that itself. -/
def InOrder (config : Config) : Command K → Prop
  | registerSet given => config.integrityChecks = false → given.Increasing
  | _ => True

/-- Nothing else that is handed to a forest is ever out of order when it is stored. -/
theorem InOrder.stores {config : Config} {command : Command K}
    (inOrder : command.InOrder config) : command.Stores Content.Increasing config := by
  cases command with
  | registerSet given =>
      intro accepted
      cases checks : config.integrityChecks with
      | true => exact accepted checks
      | false => exact inOrder checks
  | registerUnordered given => exact id
  | registerSingle element => exact Content.increasing_singleton element
  | insertSingle a element => exact Content.increasing_singleton element
  | removeSingle a element => exact Content.increasing_singleton element
  | updateKey a element => exact Content.increasing_singleton element
  | _ => trivial

end Command

variable [ToString K]

namespace Session

/-- One step keeps all sets in order, whatever command it is about. -/
theorem ordered_step (session : Session K n) (ordered : session.family.Ordered)
    (position : Fin n) (command : Command K)
    (inOrder : command.InOrder (session.family.forestAt position).config) :
    (step position command session).2.family.Ordered := by
  rcases family_step session position command with ⟨cache, stepped⟩
  rw [stepped]
  exact ordered.steps (Command.steps_effect position cache session.family command inOrder.stores)

/-- Commands that are in order keep all sets in order. -/
theorem keeps_ordered : Keeps (Family.Ordered (K := K) (n := n)) fun family command =>
    command.2.InOrder (family.forestAt command.1).config where
  step := fun session command ordered inOrder =>
    session.ordered_step ordered command.1 command.2 inOrder
  mono := by
    intro family later command evolves inOrder
    rw [(evolves.forestAt command.1).config]
    exact inOrder

theorem ordered_run (session : Session K n) (ordered : session.family.Ordered)
    (commands : List (Fin n × Command K))
    (inOrder : ∀ command ∈ commands,
      command.2.InOrder (session.family.forestAt command.1).config) :
    (session.run commands).2.family.Ordered :=
  keeps_ordered.run ordered commands inOrder

end Session

/-- In every state that a session reaches, every index stands for a strictly increasing
content, and reads as that content or as evicted.  More than that, every step keeps the
sets of all forests in order, whether or not its state can be reached.  So does the plain
merge of two sets, whose result is in order, too.  A forest that checks what it registers
accepts exactly the increasing lists, and answers the first fault of any other. -/
theorem sets_in_order :
    (∀ (n : Nat) (specs : List Spec) (family : Family K n) (session : Session K n)
      (commands : List (Fin n × Command K)) (position : Fin n),
      Family.ofSpecs? specs = some ⟨n, family⟩ → session.family = family →
      (∀ command ∈ commands, command.2.InOrder (family.forestAt command.1).config) →
      let forest := (session.run commands).2.family.forestAt position
      ∀ index, index < forest.size → ∃ content,
        forest.Denotes index content ∧ content.Increasing ∧
        (forest.content index = .ok content ∨ forest.content index = .error (.evicted index))) ∧
    (∀ (n : Nat) (session : Session K n) (position : Fin n) (command : Command K),
      session.family.Ordered → command.InOrder (session.family.forestAt position).config →
      (Session.step position command session).2.family.Ordered) ∧
    (∀ (n : Nat) (family : Family K n) (operation : Operation) (position : Fin n) (a b : Index),
      family.Ordered → (Family.merge operation position a b family).2.Ordered ∧
        ∀ content, (Family.merge operation position a b family).1 = .ok content →
          content.Increasing) ∧
    (∀ (n : Nat) (forest : Forest K n) (content : Content K),
      forest.config.integrityChecks = true →
      (content.Increasing → ∃ registered, (Forest.registerSet content forest).1 = .ok registered) ∧
      (¬content.Increasing → ∃ violation, content.FaultAt violation ∧
        (Forest.registerSet content forest).1 = .error (.integrity violation))) := by
  refine ⟨?_, ?_, ?_, ?_⟩
  · rintro n specs family session commands position planted rfl inOrder forest index inUse
    have ordered := (session.ordered_run (.ofSpecs? planted) commands inOrder).forestAt position
    rcases Forest.exists_reading ordered.canonical inUse with ⟨content, denotes, reads⟩
    exact ⟨content, denotes, ordered.increasing index content denotes, reads⟩
  · intro n session position command ordered inOrder
    exact session.ordered_step ordered position command inOrder
  · intro n family operation position a b ordered
    exact ordered.merge operation position a b
  · intro n forest content checks
    exact ⟨forest.registerSet_of_increasing, forest.registerSet_of_not_increasing checks⟩

/-- A forest that checks nothing is given sets in order.  One of them is updated, and
evicted afterwards.  A checking forest refuses a list with a repeated key. -/
theorem sets_in_order_updated :
    let start := Session.start (Family.single { integrityChecks := false } .unshared : Family Nat 1)
    let commands := [(0, .registerSet [.flat 3, .flat 5]), (0, .updateKey 1 (.flat 4)),
      (0, .apply .difference 2 1), (0, .evict 2)]
    let forest := (start.run commands).2.family.forestAt 0
    let repeated : Content Nat := [.flat 3, .flat 5, .flat 5, .flat 1]
    (∃ content, forest.Denotes 2 content ∧ content.Increasing ∧
      (forest.content 2 = .ok content ∨ forest.content 2 = .error (.evicted 2))) ∧
    (Session.step 0 (.filter 1 (fun _ => true) "all") (start.run commands).2).2.family.Ordered ∧
    (∀ content, (Family.merge .union 0 1 3 (start.run commands).2.family).1 = .ok content →
      content.Increasing) ∧
    ∃ violation, repeated.FaultAt violation ∧
      (Forest.registerSet repeated (Forest.create {} .unshared [] : Forest Nat 0)).1 =
        .error (.integrity violation) := by
  intro start commands forest repeated
  have inOrder : ∀ command ∈ commands,
      command.2.InOrder (start.family.forestAt command.1).config := by
    simp only [commands, List.forall_mem_cons]
    exact ⟨fun _ => by decide, trivial, trivial, trivial, nofun⟩
  have planted : Family.ofSpecs? [{ config := { integrityChecks := false } }] =
    some ⟨1, start.family⟩ := rfl
  rcases sets_in_order (K := Nat) with ⟨reached, stepped, merged, checked⟩
  have ordered := start.ordered_run (.ofSpecs? planted) commands inOrder
  exact ⟨reached 1 _ start.family start commands 0 planted rfl inOrder 2 (by decide +kernel),
    stepped 1 _ 0 _ ordered trivial, (merged 1 _ .union 0 1 3 ordered).2,
    (checked 0 _ repeated rfl).2 (by decide)⟩

end SetForest
