import Mathlib.Data.List.GetD
import Mathlib.Data.List.Nodup
import SetForest.Workload.Random

namespace SetForest

/-!
# What a workload may rely on

A workload does not look into its source of random draws.  All that it needs is that a
number below a bound is below it, and that distinct numbers are distinct, below their
length and as many as were asked for (`LawfulRandomSource`).  What follows from that holds
for every stream of draws.

Draws that are made of words obey these laws, whatever the words are.
-/

namespace Random

/-- Some number of distinct numbers below a length. -/
structure IsSample (length amount : Nat) (numbers : List Nat) : Prop where
  nodup : numbers.Nodup
  amount : numbers.length = amount
  lt : ∀ number ∈ numbers, number < length

end Random

/-- A source that draws what it is asked for. -/
class LawfulRandomSource (σ : Type) [RandomSource σ] : Prop where
  below_lt : ∀ {bound : Nat}, 0 < bound → ∀ source : σ,
    ((RandomSource.below bound).run source).1 < bound
  isSample : ∀ {length amount : Nat}, amount ≤ length → ∀ source : σ,
    Random.IsSample length amount ((RandomSource.sample length amount).run source).1

namespace Random

/-! ## Samples of words -/

/-- What was drawn is added, or the largest value if that was drawn before. -/
theorem insertDrawn_perm (drawn value : Nat) (sampled : List Nat) :
    (insertDrawn drawn value sampled).Perm
      ((if drawn ∈ sampled then value else drawn) :: sampled) := by
  induction sampled with
  | nil => rw [insertDrawn, if_neg List.not_mem_nil]
  | cons first rest ih =>
      rw [insertDrawn]
      split
      · next here => rw [if_pos (here ▸ List.mem_cons_self)]
      · next elsewhere =>
          have sameMember : drawn ∈ first :: rest ↔ drawn ∈ rest := by
            rw [List.mem_cons, or_iff_right (Ne.symm elsewhere)]
          simp only [sameMember]
          exact (ih.cons first).trans (List.Perm.swap _ first rest)

/-- One more number is sampled, up to the largest that it may be. -/
theorem IsSample.insertDrawn {largest amount drawn : Nat} {sampled : List Nat}
    (isSample : IsSample largest amount sampled) (inRange : drawn ≤ largest) :
    IsSample (largest + 1) (amount + 1) (insertDrawn drawn largest sampled) := by
  have perm := insertDrawn_perm drawn largest sampled
  have new : (if drawn ∈ sampled then largest else drawn) ∉ sampled := by
    split
    · exact fun member => Nat.lt_irrefl _ (isSample.lt largest member)
    · next notDrawn => exact notDrawn
  refine ⟨?_, ?_, ?_⟩
  · exact perm.nodup_iff.mpr (List.nodup_cons.mpr ⟨new, isSample.nodup⟩)
  · rw [perm.length_eq, List.length_cons, isSample.amount]
  · intro number member
    rcases List.mem_cons.mp (perm.mem_iff.mp member) with rfl | before
    · split
      · exact Nat.lt_succ_self largest
      · exact Nat.lt_succ_of_le inRange
    · exact Nat.lt_succ_of_lt (isSample.lt number before)

variable {σ : Type} [WordSource σ]

/-- Each turn adds one number to the sample, and one to those that it is drawn from. -/
theorem isSample_foldlM (width : Width) (amount : Nat) {largest before : Nat}
    {sampled : List Nat} (isSample : IsSample largest before sampled) (source : σ) :
    IsSample (largest + amount) (before + amount)
      (((List.range' largest amount).foldlM (fun sampled largest => do
        let drawn ← drawBelow width (largest + 1)
        return insertDrawn drawn largest sampled) sampled : StateM σ (List Nat)).run source).1 := by
  induction amount generalizing largest before sampled source with
  | zero => exact isSample
  | succ amount ih =>
      rw [List.range'_succ, List.foldlM_cons]
      have drawn := drawBelow_lt width (Nat.succ_pos largest) source
      have extended := isSample.insertDrawn (Nat.le_of_lt_succ drawn)
      have rest := ih extended ((drawBelow width (largest + 1)).run source).2
      rw [Nat.add_right_comm, Nat.add_right_comm before] at rest
      exact rest

/-- A sample of words is one. -/
theorem isSample_sample {length amount : Nat} (enough : amount ≤ length) (source : σ) :
    IsSample length amount ((sample length amount).run source).1 := by
  have nothing : IsSample (length - amount) 0 [] := ⟨List.nodup_nil, rfl, nofun⟩
  have all := isSample_foldlM (if length < Width.bits32.count then .bits32 else .bits64) amount
    nothing source
  rw [Nat.sub_add_cancel enough, Nat.zero_add] at all
  exact all

end Random

instance {σ : Type} [WordSource σ] : LawfulRandomSource σ where
  below_lt := Random.drawBelow_lt .bits64
  isSample := Random.isSample_sample

/-- An operation is drawn exactly if its place is, so each of them belongs to one number. -/
theorem Random.operation_eq_iff {σ : Type} [RandomSource σ] [LawfulRandomSource σ] (source : σ)
    (operation : Operation) :
    (Random.operation.run source).1 = operation ↔
      ((RandomSource.below Operation.all.length).run source).1 = operation.position := by
  have inRange : ((RandomSource.below Operation.all.length).run source).1 < Operation.all.length :=
    LawfulRandomSource.below_lt (by decide) source
  rw [← Operation.getElem?_all_eq_some_iff, List.getElem?_eq_getElem inRange, Option.some.injEq,
    ← List.getD_eq_getElem _ .difference inRange]
  exact Iff.rfl

end SetForest
