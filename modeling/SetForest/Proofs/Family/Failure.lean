import SetForest.Proofs.Family.Residence
import SetForest.Proofs.Family.Single
import SetForest.Proofs.Forest.Failure

namespace SetForest.Family

/-!
# What a failure leaves behind in a family

An action of a single forest leaves all others alone.  A lattice operation may have worked
in the forests below by the time when it fails, but it has stored nothing in its own forest
then.  Either way the forest that reports the failure is as it was, and the others have at
most grown (`Survives`).  Before an operation with a single element fails, that element is
registered, and nothing else is done (`survives_applySingle`).
-/

variable {K : Type} [Key K] {n : Nat} {α : Type} {family later : Family K n}
  {position other : Fin n} {error : Error}

/-- A family after a failure that was reported by the forest at a position, which `forest`
is known to be still, but for the kinds of work on record. -/
structure Survives (position : Fin n) (forest : Forest K position)
    (family later : Family K n) : Prop where
  reporting : forest.Noted (later.forestAt position)
  others : ∀ other, other ≠ position → (family.forestAt other).Grows (later.forestAt other)

theorem Survives.refl (family : Family K n) (position : Fin n) :
    Survives position (family.forestAt position) family family :=
  ⟨.refl _, fun other _ => .refl (family.forestAt other)⟩

theorem survives_within {action : {m : Nat} → ForestM K m α}
    (atomic : Forest.Atomic (action : ForestM K position α))
    (failed : within action position family = (.error error, later)) :
    Survives position (family.forestAt position) family later := by
  rcases within_apply action family position with ⟨answer, after⟩
  rw [failed] at answer after
  refine ⟨?_, ?_⟩
  · rw [after]
    exact atomic _ error _ (Prod.ext answer.symm rfl)
  · intro other different
    have same := forestAt_within_of_ne action family different
    rw [failed] at same
    rw [same]
    exact .refl _

/-- When a lattice operation fails, its forest has been consulted and no more. -/
theorem noted_of_apply_error {operation : Operation} {a b : Index}
    (failed : apply operation position a b family = (.error error, later)) :
    (family.forestAt position).Noted (later.forestAt position) := by
  induction family with
  | bare => exact position.elim0
  | plant below top ih =>
      induction position using Fin.lastCases with
      | cast position =>
          rw [apply_castSucc, onBelow_apply] at failed
          cases called : apply operation position a b below with
          | mk answer laterBelow =>
              rw [called] at failed
              cases failed
              rw [forestAt_castSucc, forestAt_castSucc]
              exact ih called
      | last =>
          have ways := application operation a b below top
          rw [failed] at ways
          cases ways with
          | refused consulted =>
              rw [forestAt_last, forestAt_last]
              exact Forest.noted_consult consulted fun _ => nofun
          | abandoned consulted called =>
              rw [forestAt_last, forestAt_last]
              exact Forest.noted_consult consulted fun _ => nofun

/-- A lattice operation makes the forests of a family grow, whether it fails or not. -/
theorem grows_apply (sound : family.Sound) (operation : Operation) (position : Fin n)
    (a b : Index) (other : Fin n) :
    (family.forestAt other).Grows
      ((apply operation position a b family).2.forestAt other) := by
  have evolves : family.Evolves (apply operation position a b family).2 :=
    related_apply (fun _ => Forest.Evolves.refl) (fun _ _ _ _ => Forest.Evolves.trans)
      (fun _ _ _ _ _ => ⟨rfl, rfl, rfl, [], rfl⟩)
      (fun _ forest operation a b content => forest.evolves_settle operation a b content)
      operation position a b family
  exact .of_evolves (sound.forestAt other).canonical (evolves.forestAt other)
    ((retains_apply operation position a b family).forestAt other)

theorem survives_apply (sound : family.Sound) {operation : Operation} {a b : Index}
    (failed : apply operation position a b family = (.error error, later)) :
    Survives position (family.forestAt position) family later := by
  refine ⟨noted_of_apply_error failed, ?_⟩
  intro other _
  have grows := grows_apply sound operation position a b other
  rw [failed] at grows
  exact grows

/-- When an operation with a single element fails, that element is registered. -/
theorem survives_applySingle {operation : Operation} {a : Index} {element : Element K}
    (sound : (family.registeredSingle position element).Sound)
    (failed : applySingle operation position a element family = (.error error, later)) :
    Survives position (Forest.registerSingle element (family.forestAt position)).2 family
      later := by
  rw [applySingle_apply] at failed
  have survives := survives_apply sound failed
  rw [forestAt_registeredSingle] at survives
  refine ⟨survives.reporting, ?_⟩
  intro other different
  have same : (family.registeredSingle position element).forestAt other = family.forestAt other :=
    forestAt_within_of_ne _ family different
  rw [← same]
  exact survives.others other different

end SetForest.Family
