import SetForest.Proofs.Family.Residence
import SetForest.Proofs.Forest.Dependable

namespace SetForest.Family

/-!
# Operations with answers that can be read

What a lattice operation answers can be read afterwards, unless it is an operand.
Above no other forests, operands in use are enough for an answer, unless one of them
was dropped.  The forest at the position has to be dependable for this, and nothing is
asked of the forests below.
-/

variable {K : Type} [Key K] {n : Nat} {operation : Operation} {a b r index : Index}

/-- What an operation answers is an operand, or can be read. -/
theorem resident_of_apply {family later : Family K n} {position : Fin n}
    (dependable : (family.forestAt position).Dependable)
    (answered : apply operation position a b family = (.ok r, later)) :
    r = a ∨ r = b ∨ (later.forestAt position).isEvicted r = .ok false := by
  induction family with
  | bare => exact position.elim0
  | @plant n below top ih =>
      induction position using Fin.lastCases with
      | cast position =>
          rw [apply_castSucc, onBelow_apply] at answered
          rw [forestAt_castSucc] at dependable
          cases called : apply operation position a b below with
          | mk answer laterBelow =>
              rw [called] at answered
              cases answered
              rw [forestAt_castSucc]
              exact ih dependable called
      | last =>
          rw [forestAt_last] at dependable
          have ways := application operation a b below top
          rw [answered] at ways
          cases ways with
          | known consulted =>
              rw [forestAt_last]
              rcases top.exists_consult_eq operation a b with ⟨counters, activities, same⟩
              rw [consulted] at same
              dsimp only at same
              rw [same]
              exact dependable.resident_of_known (congrArg Prod.fst consulted)
          | @settled _ noted content _ consulted called =>
              rw [forestAt_last]
              rcases top.exists_consult_eq operation a b with ⟨counters, activities, same⟩
              rw [consulted] at same
              dsimp only at same
              refine Or.inr (Or.inr (Forest.isEvicted_eq_false_iff.mpr ⟨content, ?_⟩))
              refine Forest.content_settle ?_ content
              rw [same]
              exact dependable.canonical

/-- What could be read before an operation can be read after it. -/
theorem resident_after_apply {family : Family K n} {position : Fin n}
    (dependable : (family.forestAt position).Dependable)
    (resident : (family.forestAt position).isEvicted index = .ok false) :
    ((apply operation position a b family).2.forestAt position).isEvicted index = .ok false := by
  rw [Forest.isEvicted_eq_false_iff] at resident ⊢
  rcases resident with ⟨content, read⟩
  have retains := (retains_apply operation position a b family).forestAt position
  exact ⟨content, retains.content_eq dependable.canonical read⟩

/-- In a forest without children, operands in use are refused only because one of
them was dropped. -/
theorem evicted_of_apply_error {family later : Family K n} {position : Fin n} {error : Error}
    (dependable : (family.forestAt position).Dependable)
    (flat : (family.forestAt position).children = [])
    (leftInUse : a < (family.forestAt position).size)
    (rightInUse : b < (family.forestAt position).size)
    (refused : apply operation position a b family = (.error error, later)) :
    ∃ x, (x = a ∨ x = b) ∧ error = .evicted x ∧
      (family.forestAt position).isEvicted x = .ok true := by
  induction family with
  | bare => exact position.elim0
  | @plant n below top ih =>
      induction position using Fin.lastCases with
      | cast position =>
          rw [apply_castSucc, onBelow_apply] at refused
          rw [forestAt_castSucc] at dependable flat leftInUse rightInUse ⊢
          cases called : apply operation position a b below with
          | mk answer laterBelow =>
              rw [called] at refused
              cases refused
              exact ih dependable flat leftInUse rightInUse called
      | last =>
          rw [forestAt_last] at dependable flat leftInUse rightInUse ⊢
          have ways := application operation a b below top
          rw [refused] at ways
          cases ways with
          | refused consulted =>
              exact dependable.evicted_of_refused leftInUse rightInUse
                (congrArg Prod.fst consulted)
          | abandoned consulted failed =>
              -- There is nothing to call, so no call can have failed.
              rcases Forest.reads_of_unknown (congrArg Prod.fst consulted) with
                ⟨-, left, right, leftRead, rightRead, rfl⟩
              rw [flat] at failed
              have answered : ∃ content after, callAll operation
                  (Content.align operation [] left right) below = (.ok content, after) ∧ True := by
                refine exists_callAll _ ?_ trivial
                intro cell member call called
                rw [Content.calls_align_of_flat operation left right cell member] at called
                cases called
              rcases answered with ⟨content, after, answered, -⟩
              rw [failed] at answered
              cases answered

/-- In a forest without children, operands that can be read have an answer that can be
read. -/
theorem exists_apply_of_resident {family : Family K n} {position : Fin n}
    (dependable : (family.forestAt position).Dependable)
    (flat : (family.forestAt position).children = [])
    (leftResident : (family.forestAt position).isEvicted a = .ok false)
    (rightResident : (family.forestAt position).isEvicted b = .ok false) :
    ∃ r later, apply operation position a b family = (.ok r, later) ∧
      (later.forestAt position).isEvicted r = .ok false := by
  have inUse : ∀ index, (family.forestAt position).isEvicted index = .ok false →
      index < (family.forestAt position).size := by
    intro index resident
    rcases Forest.isEvicted_eq_false_iff.mp resident with ⟨content, read⟩
    exact dependable.canonical.lt_size_of_get
      ((Forest.content_eq_ok_iff dependable.canonical).mp read)
  have kept : ∀ index, (family.forestAt position).isEvicted index = .ok false →
      ((apply operation position a b family).2.forestAt position).isEvicted index = .ok false :=
    fun index => resident_after_apply dependable
  cases outcome : apply operation position a b family with
  | mk answer later =>
      rw [outcome] at kept
      cases answer with
      | error error =>
          rcases evicted_of_apply_error dependable flat (inUse a leftResident)
            (inUse b rightResident) outcome with ⟨x, rfl | rfl, -, dropped⟩
          · cases leftResident.symm.trans dropped
          · cases rightResident.symm.trans dropped
      | ok r =>
          refine ⟨r, later, rfl, ?_⟩
          rcases resident_of_apply dependable outcome with rfl | rfl | resident
          · exact kept r leftResident
          · exact kept r rightResident
          · exact resident

end SetForest.Family
