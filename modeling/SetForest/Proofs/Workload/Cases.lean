import Mathlib.Data.List.Sort
import SetForest.Proofs.Content.Flat
import SetForest.Workload.Replay

namespace SetForest

/-!
# What a case says

The operands of a case and its expected result are lists that stand for sets of numbers,
and a case holds if its expected set is what the operation makes of the operands.  No
forest is needed to tell, nor to say what has to be reported if it does not.

`Mismatch.Reports` describes a report by sets.  `mismatch?` computes one from
the lists, and the description fits nothing else (`mismatch?_eq_some_iff`).
-/

namespace Case

/-- The expected result of a solved case is the result of its operation. -/
theorem solved_expected (operation : Operation) (left right : List Int64) :
    {value | value ∈ (solved operation left right).expected} =
      operation.onSets {value | value ∈ left} {value | value ∈ right} := by
  ext value
  cases operation with
  | union =>
      change value ∈ Key.distinct (left ++ right) ↔ value ∈ left ∨ value ∈ right
      rw [Key.mem_distinct, List.mem_append]
  | intersection =>
      change value ∈ (Key.distinct left).filter (right.contains ·) ↔ value ∈ left ∧ value ∈ right
      rw [List.mem_filter, Key.mem_distinct, List.contains_iff_mem]
  | difference =>
      change value ∈ (Key.distinct left).filter (!right.contains ·) ↔ value ∈ left ∧ value ∉ right
      rw [List.mem_filter, Key.mem_distinct, Bool.not_eq_true', ← Bool.not_eq_true,
        List.contains_iff_mem]

/-- The result of the operation of a case. -/
def result (case : Case) : List Int64 :=
  (solved case.operation case.left case.right).expected

/-- A case holds if its expected set is the result of its operation. -/
def Holds (case : Case) : Prop :=
  {value | value ∈ case.expected} =
    case.operation.onSets {value | value ∈ case.left} {value | value ∈ case.right}

theorem holds_iff (case : Case) :
    case.Holds ↔ Content.ofKeys case.result = .ofKeys case.expected := by
  rw [Content.eq_ofKeys_iff (Content.increasing_ofKeys _) (Content.hasArity_ofKeys _),
    Content.keys_ofKeys, result, solved_expected]
  exact eq_comm

end Case

namespace Workload

/-- A text lists the numbers of a set in increasing order, each of them once. -/
def Lists (text : String) (numbers : Set Int64) : Prop :=
  ∃ values : List Int64, values.Pairwise (· < ·) ∧ {value | value ∈ values} = numbers ∧
    text = Content.text (values.map Element.flat)

/-- There is only one such text. -/
theorem Lists.unique {text other : String} {numbers : Set Int64} (lists : Lists text numbers)
    (listsOther : Lists other numbers) : text = other := by
  rcases lists with ⟨values, increasing, rfl, rfl⟩
  rcases listsOther with ⟨others, othersIncreasing, sameMembers, rfl⟩
  have same : values = others :=
    increasing.eq_of_mem_iff othersIncreasing fun value => (Set.ext_iff.mp sameMembers value).symm
  rw [same]

theorem lists_ofKeys (values : List Int64) :
    Lists (Content.text (.ofKeys values)) {value | value ∈ values} := by
  refine ⟨Key.distinct values, ?_, ?_, rfl⟩
  · exact (Key.pairwise_distinct values).imp Std.compare_eq_lt.mp
  · exact Set.ext fun value => Key.mem_distinct value values

/-- A mismatch reports a case that does not hold, with the texts of its four sets. -/
structure Mismatch.Reports (mismatch : Mismatch) (case : Case) : Prop where
  wrong : ¬case.Holds
  operation : mismatch.operation = case.operation
  left : Lists mismatch.left {value | value ∈ case.left}
  right : Lists mismatch.right {value | value ∈ case.right}
  expected : Lists mismatch.expected {value | value ∈ case.expected}
  actual : Lists mismatch.actual
    (case.operation.onSets {value | value ∈ case.left} {value | value ∈ case.right})

/-- A mismatch is determined by its place and its case. -/
theorem Mismatch.Reports.unique {mismatch other : Mismatch} {case : Case}
    (reports : mismatch.Reports case) (reportsOther : other.Reports case)
    (samePlace : mismatch.case = other.case) : mismatch = other := by
  rw [Mismatch.mk.injEq]
  exact ⟨samePlace, reports.operation.trans reportsOther.operation.symm,
    reports.left.unique reportsOther.left, reports.right.unique reportsOther.right,
    reports.expected.unique reportsOther.expected, reports.actual.unique reportsOther.actual⟩

/-- What is to be reported about a case. -/
def mismatch? (case : Case) (place : Nat) : Option Mismatch :=
  if Content.ofKeys case.result = Content.ofKeys case.expected then none
  else some
    { case := place
      operation := case.operation
      left := Content.text (.ofKeys case.left)
      right := Content.text (.ofKeys case.right)
      expected := Content.text (.ofKeys case.expected)
      actual := Content.text (.ofKeys case.result) }

theorem mismatch?_eq_none_iff (case : Case) (place : Nat) :
    mismatch? case place = none ↔ case.Holds := by
  rw [case.holds_iff, mismatch?]
  split
  · next holds => exact ⟨fun _ => holds, fun _ => rfl⟩
  · next wrong => exact ⟨nofun, fun holds => absurd holds wrong⟩

/-- Nothing else is reported, and nothing is left out. -/
theorem mismatch?_eq_some_iff (case : Case) (place : Nat) (mismatch : Mismatch) :
    mismatch? case place = some mismatch ↔ mismatch.case = place ∧ mismatch.Reports case := by
  have computed : ∀ reported, mismatch? case place = some reported →
      reported.case = place ∧ reported.Reports case := by
    intro reported found
    have wrong : ¬case.Holds := by
      intro holds
      rw [(mismatch?_eq_none_iff case place).mpr holds] at found
      cases found
    rw [mismatch?, if_neg (fun holds => wrong (case.holds_iff.mpr holds))] at found
    cases found
    refine ⟨rfl, wrong, rfl, lists_ofKeys case.left, lists_ofKeys case.right,
      lists_ofKeys case.expected, ?_⟩
    rw [← Case.solved_expected]
    exact lists_ofKeys case.result
  refine ⟨computed mismatch, ?_⟩
  rintro ⟨rfl, reports⟩
  cases found : mismatch? case mismatch.case with
  | none => exact absurd ((mismatch?_eq_none_iff case _).mp found) reports.wrong
  | some reported =>
      rcases computed reported found with ⟨samePlace, reportsFound⟩
      rw [reportsFound.unique reports samePlace]

/-- What is to be reported about cases that are replayed in turn. -/
def mismatches (cases : List Case) : List Mismatch :=
  cases.zipIdx.filterMap fun (case, place) => mismatch? case place

theorem mem_mismatches_iff (cases : List Case) (mismatch : Mismatch) :
    mismatch ∈ mismatches cases ↔
      ∃ case, cases[mismatch.case]? = some case ∧ mismatch.Reports case := by
  rw [mismatches, List.mem_filterMap]
  constructor
  · rintro ⟨⟨case, place⟩, member, found⟩
    rcases (mismatch?_eq_some_iff case place mismatch).mp found with ⟨rfl, reports⟩
    exact ⟨case, List.mem_zipIdx_iff_getElem?.mp member, reports⟩
  · rintro ⟨case, here, reports⟩
    exact ⟨(case, mismatch.case), List.mem_zipIdx_iff_getElem?.mpr here,
      (mismatch?_eq_some_iff case _ mismatch).mpr ⟨rfl, reports⟩⟩

/-- There is a mismatch at every place with a case that does not hold, and nowhere else. -/
theorem mem_places_iff {cases : List Case} {place : Nat} {case : Case}
    (here : cases[place]? = some case) :
    place ∈ (mismatches cases).map Mismatch.case ↔ ¬case.Holds := by
  constructor
  · intro member
    rcases List.mem_map.mp member with ⟨mismatch, reported, rfl⟩
    rcases (mem_mismatches_iff cases mismatch).mp reported with ⟨other, there, reports⟩
    rw [Option.some.inj (here.symm.trans there)]
    exact reports.wrong
  · intro wrong
    cases found : mismatch? case place with
    | none => exact absurd ((mismatch?_eq_none_iff case place).mp found) wrong
    | some mismatch =>
        rcases (mismatch?_eq_some_iff case place mismatch).mp found with ⟨rfl, reports⟩
        exact List.mem_map.mpr
          ⟨mismatch, (mem_mismatches_iff cases mismatch).mpr ⟨case, here, reports⟩, rfl⟩

/-- There is nothing to report about solved cases. -/
theorem mismatches_solved {cases : List Case}
    (solved : ∀ case ∈ cases, ∃ operation left right, case = .solved operation left right) :
    mismatches cases = [] := by
  refine List.eq_nil_iff_forall_not_mem.mpr ?_
  intro mismatch reported
  rcases (mem_mismatches_iff cases mismatch).mp reported with ⟨case, here, reports⟩
  rcases solved case (List.mem_of_getElem? here) with ⟨operation, left, right, rfl⟩
  exact reports.wrong (Case.solved_expected operation left right)

/-- Mismatches are reported in the order of their cases. -/
theorem pairwise_mismatches (cases : List Case) :
    (mismatches cases).Pairwise fun first second => first.case < second.case := by
  have places : cases.zipIdx.Pairwise fun first second => first.2 < second.2 := by
    have ordered : (cases.zipIdx.map Prod.snd).Pairwise (· < ·) := by
      rw [List.zipIdx_map_snd]
      exact List.pairwise_lt_range'
    exact List.pairwise_map.mp ordered
  refine List.pairwise_filterMap.mpr (places.imp ?_)
  intro first second less mismatch found other foundOther
  rw [((mismatch?_eq_some_iff _ _ _).mp found).1, ((mismatch?_eq_some_iff _ _ _).mp foundOther).1]
  exact less

end Workload

end SetForest
