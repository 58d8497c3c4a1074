import SetForest.Proofs.Family.Flat
import SetForest.Proofs.Session.Lattice

namespace SetForest

/-!
# Residence of results in reached states

A cached result can be evicted at any time, and so can the operands of an operation.
In whatever state that leaves a session, an operation answers with a set that can be
read, unless it answers with one of its operands.  Without child forests it has an
answer whenever it can read its operands.
-/

variable {K : Type} [Key K] [ToString K] {n : Nat} {specs : List Spec} {family : Family K n}
  {session : Session K n}

/-- A forest that can be depended on can be depended on ever after. -/
theorem Session.dependable_of_run (session : Session K n) (commands : List (Fin n × Command K))
    (position : Fin n) (dependable : (session.family.forestAt position).Dependable) :
    ((session.run commands).2.family.forestAt position).Dependable := by
  have kept : Family.Related (fun _ forest later => forest.Dependable → later.Dependable)
      session.family (session.run commands).2.family := by
    refine session.related_run (fun _ _ dependable => dependable)
      (fun _ _ _ _ first second dependable => second (first dependable)) ?_ ?_ commands
    · exact fun _ _ _ change dependable => dependable.change change
    · exact fun _ _ operation a b content dependable => dependable.settle operation a b content
  exact kept.forestAt position dependable

/-- Every forest that a session reaches can be depended on. -/
theorem Session.dependable_run (planted : Family.ofSpecs? specs = some ⟨n, family⟩)
    (starts : session.family = family) (commands : List (Fin n × Command K)) (position : Fin n) :
    ((session.run commands).2.family.forestAt position).Dependable := by
  subst family
  exact session.dependable_of_run commands position (Family.forestAt_ofSpecs?
    (fun _ forest => forest.Dependable) (fun _ => Forest.Dependable.create) planted position)

/-- A forest without children stays a forest of keys that works as it should. -/
theorem Session.flatAt_run (planted : Family.ofSpecs? specs = some ⟨n, family⟩)
    (starts : session.family = family) {commands : List (Fin n × Command K)}
    (fits : ∀ command ∈ commands, command.2.Fits (family.forestAt command.1)) {position : Fin n}
    (flat : (family.forestAt position).children = []) :
    (session.run commands).2.family.FlatAt position := by
  rcases Session.sound_of_planted planted starts fits with ⟨sound, extension⟩
  refine ⟨sound, Session.dependable_run planted starts commands position, ?_⟩
  rw [(extension.forestAt position).children, flat]

/-- Results are resident whenever they can be.  In every state that a session reaches,
whatever was evicted by then, an operation answers with one of its operands or with a
set that is resident afterwards.  In a forest without children, two operands that are
resident have an answer, which is resident too, and operands in use are refused only
for one of them that is evicted.  The empty set is always resident. -/
theorem results_resident (planted : Family.ofSpecs? specs = some ⟨n, family⟩)
    (starts : session.family = family) (commands : List (Fin n × Command K)) (position : Fin n)
    (operation : Operation) (a b : Index) :
    let reached := (session.run commands).2.family
    let forest := reached.forestAt position
    (∀ r later, Family.apply operation position a b reached = (.ok r, later) →
      r = a ∨ r = b ∨ (later.forestAt position).isEvicted r = .ok false) ∧
    (forest.children = [] → a < forest.size → b < forest.size →
      (forest.isEvicted a = .ok false → forest.isEvicted b = .ok false →
        ∃ r later, Family.apply operation position a b reached = (.ok r, later) ∧
          (later.forestAt position).isEvicted r = .ok false) ∧
      (∀ error later, Family.apply operation position a b reached = (.error error, later) →
        ∃ x, (x = a ∨ x = b) ∧ error = .evicted x ∧ forest.isEvicted x = .ok true)) ∧
    forest.isEvicted Index.empty = .ok false ∧ forest.content Index.empty = .ok [] := by
  intro reached forest
  have dependable : forest.Dependable := Session.dependable_run planted starts commands position
  have emptyRead := (Forest.content_eq_ok_iff dependable.canonical).mpr dependable.empty
  refine ⟨?_, ?_, Forest.isEvicted_eq_false_iff.mpr ⟨[], emptyRead⟩, emptyRead⟩
  · intro r later answered
    exact Family.resident_of_apply dependable answered
  · intro flat leftInUse rightInUse
    exact ⟨Family.exists_apply_of_resident dependable flat,
      fun error later => Family.evicted_of_apply_error dependable flat leftInUse rightInUse⟩

/-- A union is computed again after its result was evicted.  A difference is refused
after the set that it would take away was evicted. -/
theorem results_resident_recomputed :
    let start := Session.start (Family.single {} .unshared : Family Nat 1)
    let commands := [(0, .registerSingle (.flat 5)), (0, .registerSingle (.flat 7)),
      (0, .apply .union 1 2), (0, .evict 3)]
    let reached := (start.run commands).2.family
    let missing := (start.run (commands ++ [(0, .evict 2)])).2.family
    (reached.forestAt 0).isEvicted 3 = .ok true ∧
    (∃ r later, Family.apply .union 0 1 2 reached = (.ok r, later) ∧
      (later.forestAt 0).isEvicted r = .ok false) ∧
    (∃ x, (x = 1 ∨ x = 2) ∧ (Family.apply .difference 0 1 2 missing).1 = .error (.evicted x) ∧
      (missing.forestAt 0).isEvicted x = .ok true) := by
  intro start commands reached missing
  have planted : Family.ofSpecs? [{}] = some ⟨1, start.family⟩ := rfl
  refine ⟨by decide +kernel, ?_, ?_⟩
  · rcases results_resident planted rfl commands 0 .union 1 2 with ⟨-, flat, -⟩
    exact (flat (by decide +kernel) (by decide +kernel) (by decide +kernel)).1
      (by decide +kernel) (by decide +kernel)
  · rcases results_resident planted rfl (commands ++ [(0, .evict 2)]) 0 .difference 1 2 with
      ⟨-, flat, -⟩
    have refused : (Family.apply .difference 0 1 2 missing).1 = .error (.evicted 2) := by
      decide +kernel
    rcases (flat (by decide +kernel) (by decide +kernel) (by decide +kernel)).2 (.evicted 2) _
      (Prod.fst_eq_iff.mp refused) with ⟨x, operand, same, dropped⟩
    rw [refused]
    exact ⟨x, operand, congrArg Except.error same, dropped⟩

end SetForest
