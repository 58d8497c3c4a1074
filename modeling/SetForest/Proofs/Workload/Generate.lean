import Mathlib.Algebra.Group.Int.Defs
import Mathlib.Algebra.Group.Nat.Defs
import SetForest.Proofs.Action
import SetForest.Proofs.Workload.Cases
import SetForest.Proofs.Workload.Random
import SetForest.Workload.Generate

namespace SetForest

/-!
# What generated cases are

An operand is drawn as distinct numbers up to a largest value, and the numbers become
members by their bits (`Workload.DrawnAs`).  As long as the largest value is a signed number
itself, the members are the numbers, and the operand is as it was asked for
(`Workload.IsOperand`).  Larger numbers become negative members.

Up to which value numbers are drawn is no matter of the draws.  Neither is whether there can
be so many values, or so many cases, at all: this is decided first, and nothing is drawn if
it is decided against.
-/

namespace Case

/-- The expected result of a solved case is listed in increasing order. -/
theorem pairwise_solved (operation : Operation) (left right : List Int64) :
    (solved operation left right).expected.Pairwise (· < ·) := by
  have increasing (values : List Int64) : (Key.distinct values).Pairwise (· < ·) :=
    (Key.pairwise_distinct values).imp Std.compare_eq_lt.mp
  cases operation with
  | union => exact increasing (left ++ right)
  | intersection => exact (increasing left).filter _
  | difference => exact (increasing left).filter _

end Case

namespace Workload

/-- An operand with up to `maxSize` distinct members from zero to `maxValue`. -/
structure IsOperand (maxSize maxValue : UInt64) (members : List Int64) : Prop where
  nodup : members.Nodup
  length_le : members.length ≤ maxSize.toNat
  inRange : ∀ member ∈ members, 0 ≤ member.toInt ∧ member.toInt ≤ maxValue.toNat

/-- A case with two such operands and the true result. -/
structure IsValid (maxSize maxValue : UInt64) (case : Case) : Prop where
  left : IsOperand maxSize maxValue case.left
  right : IsOperand maxSize maxValue case.right
  increasing : case.expected.Pairwise (· < ·)
  holds : case.Holds

/-- The signed number with the bits of a word. -/
def signed (word : Nat) : Int :=
  if word < 2 ^ 63 then word else word - 2 ^ 64

/-- The members of an operand have the bits of numbers that were drawn. -/
structure DrawnAs (maxSize maxValue : UInt64) (members : List Int64) (numbers : List Nat) :
    Prop where
  nodup : members.Nodup
  distinct : numbers.Nodup
  length_le : numbers.length ≤ maxSize.toNat
  le : ∀ number ∈ numbers, number ≤ maxValue.toNat
  values : members.map Int64.toInt = numbers.map signed

/-- A case with two operands that were drawn, and the true result. -/
structure IsDrawn (maxSize maxValue : UInt64) (case : Case) : Prop where
  left : ∃ numbers, DrawnAs maxSize maxValue case.left numbers
  right : ∃ numbers, DrawnAs maxSize maxValue case.right numbers
  increasing : case.expected.Pairwise (· < ·)
  holds : case.Holds

/-! ## Members -/

theorem toInt_member {drawn : Nat} (isWord : drawn < UInt64.size) :
    (member drawn).toInt = signed drawn := by
  change (Int64.ofNat drawn).toInt = _
  rw [Int64.toInt_ofNat', Int.bmod_def, signed]
  simp only [UInt64.size, Int64.size] at *
  omega

theorem signed_of_lt {word : Nat} (isSigned : word < 2 ^ 63) : signed word = word :=
  if_pos isSigned

/-- Words have different bits. -/
theorem signed_injOn {first second : Nat} (firstIsWord : first < UInt64.size)
    (secondIsWord : second < UInt64.size) (same : signed first = signed second) :
    first = second := by
  simp only [signed, UInt64.size] at *
  omega

/-- The members of an operand are as distinct and as many as the numbers that were drawn. -/
theorem drawnAs_map_member {maxSize maxValue : UInt64} {numbers : List Nat}
    (distinct : numbers.Nodup) (length_le : numbers.length ≤ maxSize.toNat)
    (le : ∀ number ∈ numbers, number ≤ maxValue.toNat) :
    DrawnAs maxSize maxValue (numbers.map member) numbers := by
  have isWord : ∀ number ∈ numbers, number < UInt64.size := fun number drawn =>
    Nat.lt_of_le_of_lt (le number drawn) maxValue.toNat_lt
  refine ⟨distinct.map_on ?_, distinct, length_le, le, ?_⟩
  · intro first firstDrawn second secondDrawn same
    have sameInt := congrArg Int64.toInt same
    rw [toInt_member (isWord first firstDrawn), toInt_member (isWord second secondDrawn)]
      at sameInt
    exact signed_injOn (isWord first firstDrawn) (isWord second secondDrawn) sameInt
  · rw [List.map_map]
    exact List.map_congr_left fun number drawn => toInt_member (isWord number drawn)

/-- What is drawn up to a signed number is the operand that was asked for. -/
theorem DrawnAs.isOperand {maxSize maxValue : UInt64} {members : List Int64}
    {numbers : List Nat} (drawn : DrawnAs maxSize maxValue members numbers)
    (isSigned : maxValue.toNat < 2 ^ 63) : IsOperand maxSize maxValue members := by
  have length : members.length = numbers.length := by
    rw [← List.length_map Int64.toInt, drawn.values, List.length_map]
  refine ⟨drawn.nodup, length ▸ drawn.length_le, ?_⟩
  intro member isMember
  have value : member.toInt ∈ members.map Int64.toInt := List.mem_map_of_mem isMember
  rw [drawn.values] at value
  rcases List.mem_map.mp value with ⟨number, isDrawn, same⟩
  have le := drawn.le number isDrawn
  rw [← same, signed_of_lt (Nat.lt_of_le_of_lt le isSigned)]
  exact ⟨Int.natCast_nonneg number, Int.ofNat_le.mpr le⟩

theorem IsDrawn.isValid {maxSize maxValue : UInt64} {case : Case}
    (drawn : IsDrawn maxSize maxValue case) (isSigned : maxValue.toNat < 2 ^ 63) :
    IsValid maxSize maxValue case := by
  rcases drawn with ⟨⟨lefts, left⟩, ⟨rights, right⟩, increasing, holds⟩
  exact ⟨left.isOperand isSigned, right.isOperand isSigned, increasing, holds⟩

/-! ## Draws -/

variable {σ : Type} [RandomSource σ] {maxSize maxValue : UInt64}

theorem toNat_succ (maxValue : UInt64) :
    (maxValue + 1).toNat = (maxValue.toNat + 1) % UInt64.size :=
  UInt64.toNat_add maxValue 1

/-- The number of values is no word if the largest value is the largest word. -/
theorem succ_eq_zero_iff (maxValue : UInt64) :
    maxValue + 1 = 0 ↔ maxValue.toNat + 1 = UInt64.size := by
  have isWord := maxValue.toNat_lt
  rw [← UInt64.toNat_inj, toNat_succ]
  change _ = 0 ↔ _
  simp only [UInt64.size] at *
  omega

/-- An operand of too many values is not drawn. -/
theorem randomSet_of_tooManyValues (tooMany : maxValue + 1 = 0) (source : σ) :
    randomSet maxSize maxValue source = (.error .tooManyValues, source) := by
  rw [randomSet, if_pos tooMany]
  rfl

/-- For any other operand a size is drawn first, and then the members. -/
theorem randomSet_of_room (room : maxValue + 1 ≠ 0) (source : σ) :
    randomSet maxSize maxValue source =
      let size := (RandomSource.below (maxSize.toNat + 1)).run source
      let drawn := (RandomSource.sample (maxValue + 1).toNat
        (min size.1 (maxValue + 1).toNat)).run size.2
      (.ok (drawn.1.map member), drawn.2) := by
  rw [randomSet, if_neg room]
  rfl

theorem exists_randomSet [LawfulRandomSource σ] (room : maxValue + 1 ≠ 0) (source : σ) :
    ∃ members numbers after, randomSet maxSize maxValue source = (.ok members, after) ∧
      DrawnAs maxSize maxValue members numbers := by
  have values : (maxValue + 1).toNat = maxValue.toNat + 1 := by
    have isWord := maxValue.toNat_lt
    have notAll := mt (succ_eq_zero_iff maxValue).mpr room
    rw [toNat_succ]
    simp only [UInt64.size] at *
    omega
  rw [randomSet_of_room room]
  dsimp only
  have sizeInRange : ((RandomSource.below (maxSize.toNat + 1)).run source).1 < maxSize.toNat + 1 :=
    LawfulRandomSource.below_lt (Nat.succ_pos maxSize.toNat) source
  generalize (RandomSource.below (maxSize.toNat + 1)).run source = sized at sizeInRange
  have isSample := LawfulRandomSource.isSample
    (Nat.min_le_right sized.1 (maxValue + 1).toNat) sized.2
  refine ⟨_, _, _, rfl, drawnAs_map_member isSample.nodup ?_ ?_⟩
  · rw [isSample.amount]
    exact (Nat.min_le_left _ _).trans (Nat.le_of_lt_succ sizeInRange)
  · intro number isDrawn
    have below := isSample.lt number isDrawn
    rw [values] at below
    exact Nat.le_of_lt_succ below

/-- A case of such operands is drawn. -/
theorem exists_randomCase [LawfulRandomSource σ] (room : maxValue + 1 ≠ 0) (source : σ) :
    ∃ case after, randomCase maxSize maxValue source = (.ok case, after) ∧
      IsDrawn maxSize maxValue case := by
  rcases exists_randomSet room source with ⟨left, lefts, afterLeft, leftAnswered, leftDrawn⟩
  rcases exists_randomSet room afterLeft with
    ⟨right, rights, afterRight, rightAnswered, rightDrawn⟩
  refine ⟨.solved (Random.operation.run afterRight).1 left right,
    (Random.operation.run afterRight).2, ?_, ⟨lefts, leftDrawn⟩, ⟨rights, rightDrawn⟩,
    Case.pairwise_solved _ left right, Case.solved_expected _ left right⟩
  rw [randomCase, Action.bind_apply, leftAnswered]
  dsimp only
  rw [Action.bind_apply, rightAnswered]
  rfl

/-- So is any number of cases. -/
theorem exists_mapM_randomCase [LawfulRandomSource σ] (maxSize : UInt64) {maxValue : UInt64}
    (places : List Nat) (room : places ≠ [] → maxValue + 1 ≠ 0) (source : σ) :
    ∃ cases after, (places.mapM fun _ => randomCase maxSize maxValue :
        ExceptT GenerationError (StateM σ) (List Case)) source = (.ok cases, after) ∧
      cases.length = places.length ∧ ∀ case ∈ cases, IsDrawn maxSize maxValue case := by
  have turns : ∀ place ∈ places, ∀ source : σ, True → ∃ case after,
      randomCase maxSize maxValue source = (.ok case, after) ∧
        IsDrawn maxSize maxValue case ∧ True := by
    intro place member source _
    rcases exists_randomCase (room (List.ne_nil_of_mem member)) source with
      ⟨case, after, answered, drawn⟩
    exact ⟨case, after, answered, drawn, trivial⟩
  rcases Action.exists_mapM_forall₂ places turns trivial with ⟨cases, after, answered, drawn, -⟩
  refine ⟨cases, after, answered, drawn.length_eq.symm, ?_⟩
  intro case member
  rcases List.getElem_of_mem member with ⟨place, inside, rfl⟩
  exact drawn.get (drawn.length_eq ▸ inside) inside

theorem generate_of_excessive {count : Nat} (excessive : OperationFile.caseLimit < count)
    (source : σ) : generate count maxSize maxValue source = (.error .excessiveCount, source) := by
  rw [generate, if_pos excessive]
  rfl

theorem generate_of_le {count : Nat} (fits : count ≤ OperationFile.caseLimit) (source : σ) :
    generate count maxSize maxValue source =
      ((List.range count).mapM fun _ => randomCase maxSize maxValue) source := by
  rw [generate, if_neg (Nat.not_lt.mpr fits)]

/-- The first operand fails if there are too many values, and with it the first case. -/
theorem generate_of_tooManyValues {count : Nat} (fits : count ≤ OperationFile.caseLimit)
    (some : 0 < count) (tooMany : maxValue + 1 = 0) (source : σ) :
    generate count maxSize maxValue source = (.error .tooManyValues, source) := by
  rcases Nat.exists_eq_succ_of_ne_zero (Nat.ne_of_gt some) with ⟨rest, rfl⟩
  rw [generate_of_le fits, List.range_succ_eq_map, List.mapM_cons, Action.bind_apply,
    randomCase, Action.bind_apply, randomSet_of_tooManyValues tooMany]

/-- What is generated, for every number of cases, every largest size and value, and every
stream of draws.  If there is no room for the cases, or if the number of values is no word,
nothing is.  Otherwise there are as many cases as were asked for.  Each has two operands that
were drawn as distinct numbers up to the largest value, not more than the largest size, and
the true result in increasing order.  The members have the bits of these numbers.  They are
the numbers themselves, so that the cases are valid, if the largest value is below 2 ^ 63. -/
theorem generated_cases [LawfulRandomSource σ] (count : Nat) (maxSize maxValue : UInt64)
    (source : σ) :
    let outcome := (generate count maxSize maxValue source).1
    (OperationFile.caseLimit < count → outcome = .error .excessiveCount) ∧
    (count ≤ OperationFile.caseLimit → 0 < count → maxValue.toNat + 1 = UInt64.size →
      outcome = .error .tooManyValues) ∧
    (count ≤ OperationFile.caseLimit → (0 < count → maxValue.toNat + 1 < UInt64.size) →
      ∃ cases, outcome = .ok cases ∧ cases.length = count ∧
        (∀ case ∈ cases, IsDrawn maxSize maxValue case) ∧
        (maxValue.toNat < 2 ^ 63 → ∀ case ∈ cases, IsValid maxSize maxValue case)) := by
  intro outcome
  refine ⟨?_, ?_, ?_⟩
  · intro excessive
    exact congrArg Prod.fst (generate_of_excessive excessive source)
  · intro fits some tooMany
    exact congrArg Prod.fst
      (generate_of_tooManyValues fits some ((succ_eq_zero_iff maxValue).mpr tooMany) source)
  · intro fits few
    have room : List.range count ≠ [] → maxValue + 1 ≠ 0 := by
      intro some
      have positive := Nat.pos_of_ne_zero (mt List.range_eq_nil.mpr some)
      exact mt (succ_eq_zero_iff maxValue).mp (Nat.ne_of_lt (few positive))
    rcases exists_mapM_randomCase maxSize (List.range count) room source with
      ⟨cases, after, answered, length, allDrawn⟩
    refine ⟨cases, ?_, length.trans List.length_range, allDrawn, ?_⟩
    · rw [show outcome = _ from congrArg Prod.fst (generate_of_le fits source), answered]
    · exact fun isSigned case member => (allDrawn case member).isValid isSigned

/-- Cases with up to two members from zero to three, from a stream of words. -/
theorem generated_cases_small :
    ∃ cases, (generate 5 2 3 (⟨7⟩ : SplitMix)).1 = .ok cases ∧ cases.length = 5 ∧
      ∀ case ∈ cases, IsValid 2 3 case := by
  rcases (generated_cases 5 2 3 (⟨7⟩ : SplitMix)).2.2 (by decide) (fun _ => by decide) with
    ⟨cases, answered, length, -, valid⟩
  exact ⟨cases, answered, length, valid (by decide)⟩

/-- If the largest value is the last but one of all words, a number that is drawn can become
a negative member.  The case that has it is not valid. -/
theorem generated_member_negative :
    (generate 1 1 18446744073709551614 (⟨9⟩ : SplitMix)).1 =
        .ok [.solved .union [-4598867505867396511] []] ∧
      ¬IsValid 1 18446744073709551614 (.solved .union [-4598867505867396511] []) := by
  refine ⟨by decide +kernel, ?_⟩
  intro valid
  have inRange := valid.left.inRange (-4598867505867396511) List.mem_cons_self
  exact absurd inRange.1 (by decide)

end Workload

end SetForest
